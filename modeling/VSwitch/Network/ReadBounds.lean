import VSwitch.Network.UdpPort

/-! The memory that `read` touches. Every copy between its arrays is recorded; none leaves
an array, and nothing behind the bytes received is ever handed on. -/
namespace VSwitch

/-- The documented behaviour of decryption: it takes the tag off. -/
def Aead.Shortens (A : Aead) : Prop :=
  ∀ key nonce ciphertext plain, A.decrypt key nonce ciphertext = some plain →
    plain.length + aBytes = ciphertext.length

theorem zeroTag_shortens : zeroTag.Shortens := by
  intro key nonce ciphertext plain h
  obtain ⟨hsplit, hplain⟩ := Option.ite_none_right_eq_some.mp h
  cases hplain
  have hlen := congrArg List.length hsplit
  rw [List.length_append, List.length_replicate] at hlen
  exact hlen.symm

/-- Where bytes come from and go to: the socket, the local arrays of `read`, the arguments
of the decryption, and the caller's buffer. -/
inductive Region where
  | socket
  | packet
  | netLen
  | nonce
  | cipher
  | decrypted
  | buffer
  deriving DecidableEq

/-- `len` bytes on their way from one place to another. -/
structure Transfer where
  source : Region
  sourceOff : Nat
  target : Region
  targetOff : Nat
  len : Nat

def Region.capacity (size : Nat) : Region → Option Nat
  | .socket => none
  | .packet => some maxPacket
  | .netLen => some 4
  | .nonce => some npubBytes
  | .cipher => none
  | .decrypted => some maxPlaintext
  | .buffer => some size

/-- Neither the bytes read nor the bytes written leave their array. -/
def Transfer.InBounds (size : Nat) (t : Transfer) : Prop :=
  (∀ n ∈ t.source.capacity size, t.sourceOff + t.len ≤ n) ∧
    ∀ n ∈ t.target.capacity size, t.targetOff + t.len ≤ n

def Transfer.Handed (t : Transfer) : Prop := t.target = .buffer ∨ t.target = .cipher

/-- No transfer leaves an array; once something is handed on, no byte of the packet was read
at or behind `received`. -/
structure Bounded (size received : Nat) (ts : List Transfer) : Prop where
  inside : ∀ t ∈ ts, t.InBounds size
  received : (∃ t ∈ ts, t.Handed) → ∀ t ∈ ts, t.source = .packet → t.sourceOff + t.len ≤ received

theorem Bounded.nil (size received : Nat) : Bounded size received [] where
  inside _ h := absurd h List.not_mem_nil
  received _ _ h := absurd h List.not_mem_nil

namespace UdpPort

/-- `readSealed`, with its transfers. -/
def readSealedTraced (A : Aead) (u : UdpPort) (key : Key) (srcPort : UInt16) (packet : Bytes)
    (frameLen size : Nat) : (UdpPort × ReadResult) × List Transfer :=
  if frameLen < npubBytes + aBytes then (u.dropped, [])
  else
    let nonce := copyOut 24 packet 4
    let ciphertextLen := frameLen - npubBytes
    let ciphertext := (packet.drop (4 + npubBytes)).take ciphertextLen
    let plaintextLen := ciphertextLen - aBytes
    let loads := [⟨.packet, 4, .nonce, 0, npubBytes⟩]
    if plaintextLen > maxPlaintext ∨ plaintextLen > size then (u.dropped, loads)
    else
      let loads := loads ++ [⟨.nonce, 0, .cipher, 0, npubBytes⟩,
        ⟨.packet, 4 + npubBytes, .cipher, 0, ciphertextLen⟩,
        ⟨.cipher, 0, .decrypted, 0, plaintextLen⟩]
      match A.decrypt key nonce ciphertext with
      | none => (u.dropped, loads)
      | some decrypted =>
        ((u.setPort srcPort, ⟨decrypted.length, decrypted⟩),
          loads ++ [⟨.decrypted, 0, .buffer, 0, decrypted.length⟩])

/-- `readPlain`, with its transfers. -/
def readPlainTraced (u : UdpPort) (packet : Bytes) (frameLen size : Nat) :
    (UdpPort × ReadResult) × List Transfer :=
  if frameLen > size then (u.dropped, [])
  else ((u, ⟨frameLen, (packet.drop 4).take frameLen⟩), [⟨.packet, 4, .buffer, 0, frameLen⟩])

/-- `readBody`, with its transfers. -/
def readBodyTraced (A : Aead) (u : UdpPort) (srcPort : UInt16) (packet : Bytes)
    (frameLen size : Nat) : (UdpPort × ReadResult) × List Transfer :=
  match u.key with
  | some key => u.readSealedTraced A key srcPort packet frameLen size
  | none => u.readPlainTraced packet frameLen size

/-- `read`, with its transfers. -/
def readTraced (A : Aead) (w : SizeT) (u : UdpPort) (recv : Recv) (size : Nat) :
    (UdpPort × ReadResult) × List Transfer :=
  match recv with
  | .error => ((u, ⟨-1, []⟩), [])
  | .datagram src payload =>
    let packet := (payload.take maxPacket).rightpad maxPacket 0
    let bytes : Int := (min payload.length maxPacket : Nat)
    let arrival : Transfer := ⟨.socket, 0, .packet, 0, min payload.length maxPacket⟩
    if bytes ≤ 0 then ((u, ⟨bytes, []⟩), [arrival])
    else if src.addr ≠ u.remoteAddr.addr then (u.dropped, [arrival])
    else
      let u := u.follow src.port
      if bytes < 4 then (u.dropped, [arrival])
      else
        let frameLen := be32 packet
        let loads := [arrival, ⟨.packet, 0, .netLen, 0, 4⟩]
        if frameLen = 0 ∨ bytes < w.ssize (4 + frameLen) then (u.dropped, loads)
        else
          let (out, later) := u.readBodyTraced A src.port packet frameLen size
          (out, loads ++ later)

variable {A : Aead} {w : SizeT} {u : UdpPort} {key : Key} {srcPort : UInt16} {packet : Bytes}
variable {frameLen size received : Nat}

private theorem readSealedTraced_fst :
    (u.readSealedTraced A key srcPort packet frameLen size).1 =
      u.readSealed A key srcPort packet frameLen size := by
  unfold readSealedTraced readSealed
  split_ifs
  · rfl
  · simp only
    split_ifs
    · rfl
    · cases A.decrypt key (copyOut 24 packet 4)
        ((packet.drop (4 + npubBytes)).take (frameLen - npubBytes)) <;> rfl

private theorem readBodyTraced_fst :
    (u.readBodyTraced A srcPort packet frameLen size).1 =
      u.readBody A srcPort packet frameLen size := by
  unfold readBodyTraced readBody
  cases u.key with
  | none =>
    simp only [readPlainTraced, readPlain]
    split_ifs <;> rfl
  | some key => exact readSealedTraced_fst

private theorem readTraced_fst (u : UdpPort) (recv : Recv) :
    (u.readTraced A w recv size).1 = u.read A w recv size := by
  cases recv with
  | error => rfl
  | datagram src payload =>
    unfold readTraced read
    simp only
    split_ifs
    · rfl
    · rfl
    · rfl
    · rfl
    · exact readBodyTraced_fst

private theorem readSealedTraced_bounded (hA : A.Shortens)
    (hlead : frameLen < 2147483644 → 4 + frameLen ≤ received) (hreceived : received ≤ maxPacket)
    (hlen : packet.length = maxPacket) :
    Bounded size received (u.readSealedTraced A key srcPort packet frameLen size).2 := by
  obtain ⟨hn, ha, hp, hmax⟩ := packet_sizes
  unfold readSealedTraced
  split_ifs with hmin
  · exact Bounded.nil size received
  · simp only
    split_ifs with hfits
    · constructor
      · simp [Transfer.InBounds, Region.capacity, hn, hmax]
      · simp [Transfer.Handed]
    · rw [not_or] at hfits
      have hframe : 4 + frameLen ≤ received := hlead (by omega)
      cases hdec : A.decrypt key (copyOut 24 packet 4)
        ((packet.drop (4 + npubBytes)).take (frameLen - npubBytes)) with
      | none =>
        constructor
        · simp [Transfer.InBounds, Region.capacity, hn, hmax]
          omega
        · simp [hn]
          omega
      | some plain =>
        have hplain := hA _ _ _ _ hdec
        rw [List.length_take, List.length_drop, hlen, Nat.min_eq_left (by omega)] at hplain
        constructor
        · simp [Transfer.InBounds, Region.capacity, hn, hmax]
          omega
        · simp [hn]
          omega

private theorem readPlainTraced_bounded (hlead : frameLen < 2147483644 → 4 + frameLen ≤ received)
    (hreceived : received ≤ maxPacket) (hsize : size < 2147483644) :
    Bounded size received (u.readPlainTraced packet frameLen size).2 := by
  have hmax : maxPacket = 1562 := rfl
  unfold readPlainTraced
  split_ifs with hfits
  · exact Bounded.nil size received
  · have hframe : 4 + frameLen ≤ received := hlead (by omega)
    constructor
    · simp [Transfer.InBounds, Region.capacity, hmax]
      omega
    · simp
      omega

private theorem readBodyTraced_bounded (hA : A.Shortens)
    (hlead : frameLen < 2147483644 → 4 + frameLen ≤ received) (hreceived : received ≤ maxPacket)
    (hlen : packet.length = maxPacket) (hsize : size < 2147483644) :
    Bounded size received (u.readBodyTraced A srcPort packet frameLen size).2 := by
  unfold readBodyTraced
  cases u.key with
  | none => exact readPlainTraced_bounded hlead hreceived hsize
  | some key => exact readSealedTraced_bounded hA hlead hreceived hlen

private theorem arrival_bounded (hreceived : received ≤ maxPacket) :
    Bounded size received [⟨.socket, 0, .packet, 0, received⟩] := by
  constructor
  · simpa [Transfer.InBounds, Region.capacity] using hreceived
  · simp

private theorem loads_bounded {later : List Transfer} (h : Bounded size received later)
    (hreceived : received ≤ maxPacket) (hfour : 4 ≤ received) :
    Bounded size received
      ([⟨.socket, 0, .packet, 0, received⟩, ⟨.packet, 0, .netLen, 0, 4⟩] ++ later) := by
  constructor
  · intro t ht
    rcases List.mem_append.mp ht with hload | hlater
    · rcases List.mem_pair.mp hload with rfl | rfl
      · simpa [Transfer.InBounds, Region.capacity] using hreceived
      · have hmax : maxPacket = 1562 := rfl
        simp [Transfer.InBounds, Region.capacity, hmax]
    · exact h.inside t hlater
  · rintro ⟨given, hgiven, hto⟩ t ht hsource
    have hlater : given ∈ later := by
      rcases List.mem_append.mp hgiven with hload | hlater
      · rcases List.mem_pair.mp hload with rfl | rfl <;> simp [Transfer.Handed] at hto
      · exact hlater
    rcases List.mem_append.mp ht with hload | htail
    · rcases List.mem_pair.mp hload with rfl | rfl
      · cases hsource
      · exact hfour
    · exact h.received ⟨given, hlater, hto⟩ t htail hsource

private theorem readTraced_bounded (hA : A.Shortens) (w : SizeT) (u : UdpPort) (src : SockAddr)
    (payload : Bytes) (hsize : size < 2147483644) :
    Bounded size (min payload.length maxPacket)
      (u.readTraced A w (.datagram src payload) size).2 := by
  have hreceived : min payload.length maxPacket ≤ maxPacket := Nat.min_le_right _ _
  have hlen : ((payload.take maxPacket).rightpad maxPacket 0).length = maxPacket := by
    rw [List.rightpad, List.length_append, List.length_replicate, List.length_take]
    omega
  unfold readTraced
  simp only
  split_ifs with hempty hforeign hshort hframe
  · exact arrival_bounded hreceived
  · exact arrival_bounded hreceived
  · exact arrival_bounded hreceived
  · exact loads_bounded (Bounded.nil size _) hreceived (by omega)
  · rw [not_or] at hframe
    have hlead : be32 ((payload.take maxPacket).rightpad maxPacket 0) < 2147483644 →
        4 + be32 ((payload.take maxPacket).rightpad maxPacket 0) ≤
          min payload.length maxPacket := by
      intro hsmall
      have hcheck := hframe.2
      rw [prefix_check w _ hsmall] at hcheck
      omega
    exact loads_bounded (readBodyTraced_bounded hA hlead hreceived hlen hsize) hreceived
      (by omega)

section Results
variable {ip : UInt32} {plain : Bytes}

private theorem length_accepts (h : Framed payload) :
    ((payload.drop 4).take (be32 payload)).length = be32 payload := by
  obtain ⟨hpos, hle⟩ := h
  rw [List.length_take, List.length_drop]
  omega

theorem opens_eq_some :
    opens A src payload size ip key = some plain ↔
      (src.addr = ip ∧ Framed payload ∧ npubBytes + aBytes ≤ be32 payload ∧
        be32 payload - npubBytes - aBytes ≤ size) ∧
      A.decrypt key (copyOut 24 payload 4)
        ((payload.drop (4 + npubBytes)).take (be32 payload - npubBytes)) = some plain :=
  Option.ite_none_right_eq_some

/-- The plaintext is forty bytes shorter than the prefix announces. -/
theorem length_opens (hA : A.Shortens) (h : opens A src payload size ip key = some plain) :
    plain.length + npubBytes + aBytes = be32 payload := by
  obtain ⟨⟨-, ⟨-, hle⟩, hmin, -⟩, hdec⟩ := opens_eq_some.mp h
  have hplain := hA _ _ _ _ hdec
  rw [List.length_take, List.length_drop] at hplain
  omega

private theorem read_nothing (w : SizeT) (u : UdpPort) (hsize : size < 2147483644)
    (h : ¬ 0 < (u.read A w (.datagram src payload) size).2.ret) :
    (u.read A w (.datagram src payload) size).2 = ⟨0, []⟩ := by
  rcases hk : u.key with _ | key
  · rw [read_plain A w u src payload size hk hsize] at h ⊢
    cases haccept : accepts src payload size u.remoteAddr.addr with
    | none => rfl
    | some frame =>
      rw [haccept] at h
      obtain rfl : frame = [] := List.length_eq_zero_iff.mp (by simpa using h)
      rfl
  · rw [read_sealed A w u src payload size hk] at h ⊢
    cases hopen : opens A src payload size u.remoteAddr.addr key with
    | none => rfl
    | some plain =>
      rw [hopen] at h
      obtain rfl : plain = [] := List.length_eq_zero_iff.mp (by simpa using h)
      rfl

private theorem read_plain_exact (w : SizeT) {u : UdpPort} (hk : u.key = none)
    (hsize : size ≤ 1600) :
    let received := min payload.length maxPacket
    let result := (u.read A w (.datagram src payload) size).2
    (0 < result.ret ↔ src.addr = u.remoteAddr.addr ∧ 4 ≤ received ∧ 1 ≤ be32 payload ∧
      be32 payload ≤ min (received - 4) size) ∧
    (0 < result.ret → result = ⟨be32 payload, (payload.drop 4).take (be32 payload)⟩) := by
  intro received result
  have hcap : received ≤ 1562 := Nat.min_le_right _ _
  have hread : result = (accepts src payload size u.remoteAddr.addr).elim ⟨0, []⟩
      fun frame => ⟨frame.length, frame⟩ := by
    simp only [result, read_plain A w u src payload size hk (by omega)]
    cases accepts src payload size u.remoteAddr.addr <;> rfl
  by_cases hcond : src.addr = u.remoteAddr.addr ∧ Framed payload ∧ be32 payload ≤ size
  · obtain ⟨hsrc, hframed, hfits⟩ := hcond
    have hframe := length_accepts hframed
    rw [accepts, if_pos ⟨hsrc, hframed, hfits⟩, Option.elim_some] at hread
    obtain ⟨hpos, hle⟩ := hframed
    simp only [hread, hframe]
    exact ⟨⟨fun _ => ⟨hsrc, by omega, hpos, by omega⟩, fun _ => by omega⟩, fun _ => trivial⟩
  · rw [accepts, if_neg hcond, Option.elim_none] at hread
    simp only [hread, lt_irrefl, false_iff, false_implies, and_true]
    rintro ⟨hsrc, hfour, hpos, hle⟩
    exact hcond ⟨hsrc, ⟨hpos, by omega⟩, by omega⟩

private theorem read_sealed_exact (hA : A.Shortens) (w : SizeT) {u : UdpPort} {key : Key}
    (hk : u.key = some key) :
    let received := min payload.length maxPacket
    let result := (u.read A w (.datagram src payload) size).2
    (0 < result.ret ↔ src.addr = u.remoteAddr.addr ∧ 41 ≤ be32 payload ∧
      be32 payload ≤ received - 4 ∧ be32 payload - 40 ≤ min 1518 size ∧
      ∃ plain, A.decrypt key (copyOut 24 payload 4)
        ((payload.drop 28).take (be32 payload - 24)) = some plain) ∧
    (0 < result.ret → result.ret = (be32 payload - 40 : Nat) ∧
      A.decrypt key (copyOut 24 payload 4) ((payload.drop 28).take (be32 payload - 24)) =
        some result.copied) := by
  intro received result
  have hcap : received ≤ 1562 := Nat.min_le_right _ _
  have hfull : received ≤ payload.length := Nat.min_le_left _ _
  have hread : result = (opens A src payload size u.remoteAddr.addr key).elim ⟨0, []⟩
      fun plain => ⟨plain.length, plain⟩ := by
    simp only [result, read_sealed A w u src payload size hk]
    cases opens A src payload size u.remoteAddr.addr key <;> rfl
  cases hopen : opens A src payload size u.remoteAddr.addr key with
  | none =>
    rw [hopen, Option.elim_none] at hread
    simp only [hread, lt_irrefl, false_iff, false_implies, and_true]
    rintro ⟨hsrc, hpos, hle, hfits, plain, hplain⟩
    have hlong : npubBytes + aBytes ≤ be32 payload ∧
        be32 payload - npubBytes - aBytes ≤ size := by
      simp only [npubBytes, aBytes]
      omega
    rw [opens, if_pos ⟨hsrc, ⟨by omega, by omega⟩, hlong⟩] at hopen
    exact absurd (hplain.symm.trans hopen) (Option.some_ne_none _)
  | some plain =>
    obtain ⟨⟨hsrc, ⟨hpos, hle⟩, hmin, hfits⟩, hdec⟩ := opens_eq_some.mp hopen
    have hlen := length_opens hA hopen
    simp only [npubBytes, aBytes] at hmin hfits hlen hdec
    rw [hopen, Option.elim_some] at hread
    simp only [hread]
    refine ⟨⟨fun h => ⟨hsrc, by omega, by omega, by omega, plain, hdec⟩, fun h => by omega⟩,
      fun h => ⟨by omega, hdec⟩⟩

end Results
end UdpPort

/-- `read` stays in bounds and accepts exactly the framing, for both widths of `size_t` and
every prefix: what it delivers is what the prefix announces and the datagram holds. -/
theorem read_exact (A : Aead) (hA : A.Shortens) (w : SizeT) (u : UdpPort) (src : SockAddr)
    (payload : Bytes) (size : Nat) (hsize : size ≤ 1600) :
    let received := min payload.length maxPacket
    let frameLen := be32 payload
    let result := (u.read A w (.datagram src payload) size).2
    let traced := u.readTraced A w (.datagram src payload) size
    (traced.1 = u.read A w (.datagram src payload) size ∧ Bounded size received traced.2) ∧
    (u.key = none →
      (0 < result.ret ↔ src.addr = u.remoteAddr.addr ∧ 4 ≤ received ∧ 1 ≤ frameLen ∧
        frameLen ≤ min (received - 4) size) ∧
      (0 < result.ret → result = ⟨frameLen, (payload.drop 4).take frameLen⟩)) ∧
    (∀ key, u.key = some key →
      (0 < result.ret ↔ src.addr = u.remoteAddr.addr ∧ 41 ≤ frameLen ∧
        frameLen ≤ received - 4 ∧ frameLen - 40 ≤ min 1518 size ∧
        ∃ plain, A.decrypt key (copyOut 24 payload 4)
          ((payload.drop 28).take (frameLen - 24)) = some plain) ∧
      (0 < result.ret → result.ret = (frameLen - 40 : Nat) ∧
        A.decrypt key (copyOut 24 payload 4) ((payload.drop 28).take (frameLen - 24)) =
          some result.copied)) ∧
    (¬ 0 < result.ret → result = ⟨0, []⟩) := by
  intro received frameLen result traced
  refine ⟨⟨UdpPort.readTraced_fst _ _, UdpPort.readTraced_bounded hA w u src payload (by omega)⟩,
    ?_, ?_, ?_⟩
  · intro hk
    exact UdpPort.read_plain_exact w hk hsize
  · intro key hk
    exact UdpPort.read_sealed_exact hA w hk
  · exact UdpPort.read_nothing w u (by omega)

/-- Three bytes behind the ciphertext are left alone. -/
theorem read_exact_padded :
    let key : Key := fun _ => 7
    let u : UdpPort := ⟨⟨0x0a000002, 5000⟩, some key⟩
    let datagram := UdpPort.sealedPacket zeroTag.encrypt key 1 [1, 2, 3] ++ [8, 8, 8]
    (u.read zeroTag .bits32 (.datagram ⟨0x0a000002, 6000⟩ datagram) 1600).2.ret = 3 ∧
      Bounded 1600 50 (u.readTraced zeroTag .bits32 (.datagram ⟨0x0a000002, 6000⟩ datagram) 1600).2 := by
  intro key u datagram
  have hlen : min datagram.length maxPacket = 50 := by decide
  obtain ⟨⟨-, hbounded⟩, -, hsealed, -⟩ := read_exact zeroTag zeroTag_shortens .bits32 u
    ⟨0x0a000002, 6000⟩ datagram 1600 (by decide)
  rw [hlen] at hbounded
  have hdec : zeroTag.decrypt key (copyOut 24 datagram 4)
      ((datagram.drop 28).take (be32 datagram - 24)) = some [1, 2, 3] := by decide +kernel
  obtain ⟨haccept, hret⟩ := hsealed key rfl
  have hpos := haccept.mpr ⟨rfl, by decide, by decide, by decide, [1, 2, 3], hdec⟩
  exact ⟨(hret hpos).1.trans (by decide), hbounded⟩

end VSwitch
