import Mathlib.Data.List.TakeDrop
import VSwitch.Core.EthernetFrame

/-! A UDP port: datagrams in, frames out, and back. The AEAD is a parameter; a frame is
carried behind a four-byte length, in the clear or sealed under the shared key. -/
namespace VSwitch

/-- The two widths of `size_t`. -/
inductive SizeT where
  | bits32
  | bits64
  deriving DecidableEq

/-- `2 ^ 32` or `2 ^ 64`. -/
def SizeT.modulus : SizeT → Nat
  | .bits32 => 4294967296
  | .bits64 => 18446744073709551616

/-- `size_t` arithmetic wraps; `static_cast<ssize_t>` reads the result as signed. -/
def SizeT.ssize (w : SizeT) (n : Nat) : Int :=
  let wrapped := n % w.modulus
  if wrapped < w.modulus / 2 then wrapped else (wrapped : Int) - w.modulus

/-- `sockaddr_in`. -/
structure SockAddr where
  addr : UInt32
  port : UInt16
  deriving DecidableEq

abbrev Key := Fin 32 → UInt8
abbrev Nonce := Fin 24 → UInt8

/-- `crypto_aead_xchacha20poly1305_ietf` without associated data. -/
structure Aead where
  encrypt : Key → Nonce → Bytes → Bytes
  decrypt : Key → Nonce → Bytes → Option Bytes

/-- A cipher that adds sixteen zero bytes and accepts nothing else. -/
def zeroTag : Aead where
  encrypt _ _ frame := frame ++ List.replicate 16 0
  decrypt _ _ ciphertext :=
    let frame := ciphertext.take (ciphertext.length - 16)
    if ciphertext = frame ++ List.replicate 16 0 then some frame else none

def npubBytes : Nat := 24
def aBytes : Nat := 16
/-- The size of the plaintext array in `read`. -/
def maxPlaintext : Nat := 1518
def maxPacket : Nat := 4 + npubBytes + maxPlaintext + aBytes

/-- What the arithmetic below rests on. -/
theorem packet_sizes :
    npubBytes = 24 ∧ aBytes = 16 ∧ maxPlaintext = 1518 ∧ maxPacket = 1562 := ⟨rfl, rfl, rfl, rfl⟩

def ntohl (b₀ b₁ b₂ b₃ : UInt8) : Nat :=
  b₀.toNat * 2 ^ 24 + b₁.toNat * 2 ^ 16 + b₂.toNat * 2 ^ 8 + b₃.toNat

/-- The low 32 bits of `n` in network order. -/
def htonl (n : Nat) : Bytes :=
  [UInt8.ofNat (n / 2 ^ 24), UInt8.ofNat (n / 2 ^ 16), UInt8.ofNat (n / 2 ^ 8), UInt8.ofNat n]

def be32 (data : Bytes) : Nat :=
  ntohl (data.getD 0 0) (data.getD 1 0) (data.getD 2 0) (data.getD 3 0)

/-- What `recvfrom` finds: an error, or a datagram and where it came from. -/
inductive Recv where
  | error
  | datagram (src : SockAddr) (payload : Bytes)
  deriving DecidableEq

/-- What `read` gives its caller: the return value and the bytes copied into the buffer. -/
structure ReadResult where
  ret : Int
  copied : Bytes
  deriving DecidableEq

/-- A datagram handed to the socket. -/
structure Sent where
  dst : SockAddr
  payload : Bytes
  deriving DecidableEq

structure UdpPort where
  remoteAddr : SockAddr
  key : Option Key
  deriving DecidableEq

namespace UdpPort

def setPort (u : UdpPort) (port : UInt16) : UdpPort :=
  { u with remoteAddr := { u.remoteAddr with port := port } }

def dropped (u : UdpPort) : UdpPort × ReadResult := (u, ⟨0, []⟩)

/-- The branch of `read` for a port with a key, after the length checks. -/
def readSealed (A : Aead) (u : UdpPort) (key : Key) (srcPort : UInt16) (packet : Bytes)
    (frameLen size : Nat) : UdpPort × ReadResult :=
  if frameLen < npubBytes + aBytes then u.dropped
  else
    let nonce := copyOut 24 packet 4
    let ciphertextLen := frameLen - npubBytes
    let ciphertext := (packet.drop (4 + npubBytes)).take ciphertextLen
    let plaintextLen := ciphertextLen - aBytes
    if plaintextLen > maxPlaintext ∨ plaintextLen > size then u.dropped
    else match A.decrypt key nonce ciphertext with
      | none => u.dropped
      | some decrypted => (u.setPort srcPort, ⟨decrypted.length, decrypted⟩)

/-- The branch of `read` for a port without a key, after the length checks. -/
def readPlain (u : UdpPort) (packet : Bytes) (frameLen size : Nat) : UdpPort × ReadResult :=
  if frameLen > size then u.dropped else (u, ⟨frameLen, (packet.drop 4).take frameLen⟩)

/-- Without a key, the port follows the source port of its peer before any further check. -/
def follow (u : UdpPort) (srcPort : UInt16) : UdpPort :=
  if u.key.isNone ∧ srcPort ≠ u.remoteAddr.port then u.setPort srcPort else u

/-- `read` behind the check of the length prefix. -/
def readBody (A : Aead) (u : UdpPort) (srcPort : UInt16) (packet : Bytes) (frameLen size : Nat) :
    UdpPort × ReadResult :=
  match u.key with
  | some key => u.readSealed A key srcPort packet frameLen size
  | none => u.readPlain packet frameLen size

/-- `UdpPort::read` into a buffer of `size` bytes. The receive buffer is zeroed first and
a longer datagram is truncated to it. -/
def read (A : Aead) (w : SizeT) (u : UdpPort) (recv : Recv) (size : Nat) : UdpPort × ReadResult :=
  match recv with
  | .error => (u, ⟨-1, []⟩)
  | .datagram src payload =>
    let packet := (payload.take maxPacket).rightpad maxPacket 0
    let bytes : Int := (min payload.length maxPacket : Nat)
    if bytes ≤ 0 then (u, ⟨bytes, []⟩)
    else if src.addr ≠ u.remoteAddr.addr then u.dropped
    else
      let u := u.follow src.port
      if bytes < 4 then u.dropped
      else
        let frameLen := be32 packet
        if frameLen = 0 ∨ bytes < w.ssize (4 + frameLen) then u.dropped
        else u.readBody A src.port packet frameLen size

/-- `UdpPort::write`. Encryption needs sixteen bytes more than the frame, in an array of
1518 + 16; nothing checks the length. -/
def write (A : Aead) (u : UdpPort) (nonce : Nonce) (buffer : Bytes) : Except Fault Sent :=
  match u.key with
  | some key =>
    if maxPlaintext + aBytes < buffer.length + aBytes then .error .ciphertextOverflow
    else
      let ciphertext := A.encrypt key nonce buffer
      .ok ⟨u.remoteAddr, htonl (npubBytes + ciphertext.length) ++ List.ofFn nonce ++ ciphertext⟩
  | none => .ok ⟨u.remoteAddr, htonl buffer.length ++ buffer⟩

def punch (u : UdpPort) (attempts : Nat) : List Sent :=
  List.replicate attempts ⟨u.remoteAddr, [0, 0, 0, 0]⟩

def keepalive (u : UdpPort) : List Sent := u.punch 1

end UdpPort

section Framing

private theorem getD_packet (payload : Bytes) {i : Nat} (hi : i < maxPacket) :
    ((payload.take maxPacket).rightpad maxPacket 0).getD i 0 = payload.getD i 0 := by
  rw [List.rightpad]
  rcases Nat.lt_or_ge i (payload.take maxPacket).length with h | h
  · rw [List.getD_append _ _ _ _ h, List.getD_eq_getElem?_getD, List.getElem?_take_of_lt hi,
      ← List.getD_eq_getElem?_getD]
  · have hlen : payload.length ≤ i := by
      rw [List.length_take] at h
      omega
    rw [List.getD_append_right _ _ _ _ h, List.getD_eq_default _ _ hlen,
      List.getD_eq_getElem?_getD, List.getElem?_getD_replicate_default_eq]

private theorem be32_packet (payload : Bytes) :
    be32 ((payload.take maxPacket).rightpad maxPacket 0) = be32 payload := by
  unfold be32
  rw [getD_packet _ (by decide), getD_packet _ (by decide), getD_packet _ (by decide),
    getD_packet _ (by decide)]

private theorem copyOut_packet (payload : Bytes) {n off : Nat} (h : off + n ≤ maxPacket) :
    copyOut n ((payload.take maxPacket).rightpad maxPacket 0) off = copyOut n payload off := by
  funext i
  exact getD_packet payload (by omega)

private theorem slice_packet (payload : Bytes) {off n : Nat}
    (h : off + n ≤ min payload.length maxPacket) :
    (((payload.take maxPacket).rightpad maxPacket 0).drop off).take n = (payload.drop off).take n := by
  have hlen : (payload.take maxPacket).length = min payload.length maxPacket := by
    rw [List.length_take, Nat.min_comm]
  rw [List.rightpad, List.drop_append_of_le_length (by omega), List.take_append_of_le_length,
    List.drop_take, List.take_take, Nat.min_eq_left (by omega)]
  rw [List.length_drop]
  omega

theorem htonl_be32 {data : Bytes} (h : 4 ≤ data.length) : htonl (be32 data) = data.take 4 := by
  match data, h with
  | b₀ :: b₁ :: b₂ :: b₃ :: rest, _ =>
    have h₀ := b₀.toNat_lt
    have h₁ := b₁.toNat_lt
    have h₂ := b₂.toNat_lt
    have h₃ := b₃.toNat_lt
    simp only [be32, ntohl, htonl, List.getD_cons_zero, List.getD_cons_succ, List.take_succ_cons,
      List.take_zero, List.cons.injEq, and_true, ← UInt8.toNat_inj, UInt8.toNat_ofNat']
    omega

theorem be32_htonl {n : Nat} (h : n < 2 ^ 32) (rest : Bytes) : be32 (htonl n ++ rest) = n := by
  have hdigits : n / 2 ^ 24 < 2 ^ 8 := by omega
  simp only [htonl, be32, ntohl, List.cons_append, List.nil_append, List.getD_cons_zero,
    List.getD_cons_succ, UInt8.toNat_ofNat']
  omega

theorem ofFn_copyOut {data : Bytes} {n off : Nat} (h : off + n ≤ data.length) :
    List.ofFn (copyOut n data off) = (data.drop off).take n := by
  apply List.ext_getElem
  · simp
    omega
  · intro i h₁ h₂
    simp only [List.length_ofFn] at h₁
    simp only [List.getElem_ofFn, copyOut, List.getElem_take, List.getElem_drop]
    exact List.getD_eq_getElem _ _ (by omega)

/-- A datagram whose length prefix is positive and covered by the bytes received. -/
def Framed (payload : Bytes) : Prop :=
  0 < be32 payload ∧ 4 + be32 payload ≤ min payload.length maxPacket

instance (payload : Bytes) : Decidable (Framed payload) := inferInstanceAs (Decidable (_ ∧ _))

private theorem ssize_small (w : SizeT) {n : Nat} (h : n < 2147483648) : w.ssize n = n := by
  have hm : 4294967296 ≤ w.modulus := by cases w <;> decide
  unfold SizeT.ssize
  rw [Nat.mod_eq_of_lt (by omega)]
  exact if_pos (by omega)

/-- The comparison with the received length is exact unless the prefix is so large that a
32-bit `ssize_t` goes negative. -/
theorem prefix_check (w : SizeT) (b : Nat) {frameLen : Nat}
    (h : frameLen < 2147483644) :
    (b : Int) < w.ssize (4 + frameLen) ↔ b < 4 + frameLen := by
  rw [ssize_small w (by omega)]
  omega

end Framing

namespace UdpPort
variable (A : Aead) (w : SizeT) (u : UdpPort) (src : SockAddr) (payload : Bytes) (size : Nat)

/-- The plaintext that a port keyed for the peer address `ip` accepts from a datagram. -/
def opens (ip : UInt32) (key : Key) : Option Bytes :=
  if src.addr = ip ∧ Framed payload ∧ npubBytes + aBytes ≤ be32 payload ∧
      be32 payload - npubBytes - aBytes ≤ size then
    A.decrypt key (copyOut 24 payload 4)
      ((payload.drop (4 + npubBytes)).take (be32 payload - npubBytes))
  else none

def accepts (ip : UInt32) : Option Bytes :=
  if src.addr = ip ∧ Framed payload ∧ be32 payload ≤ size then
    some ((payload.drop 4).take (be32 payload))
  else none

theorem read_error : u.read A w .error size = (u, ⟨-1, []⟩) := rfl

private theorem follow_keyed {key : Key} (hk : u.key = some key) (srcPort : UInt16) :
    u.follow srcPort = u :=
  by simp [follow, hk]

theorem follow_plain (hk : u.key = none) (srcPort : UInt16) :
    u.follow srcPort = u.setPort srcPort := by
  by_cases h : srcPort = u.remoteAddr.port
  · rw [follow, if_neg (by simp [h]), h]
    rfl
  · rw [follow, if_pos ⟨by simp [hk], h⟩]

@[simp] theorem follow_key (srcPort : UInt16) : (u.follow srcPort).key = u.key := by
  unfold follow
  split <;> rfl

theorem read_foreign (h : src.addr ≠ u.remoteAddr.addr) :
    u.read A w (.datagram src payload) size = u.dropped := by
  unfold read
  simp only [ne_eq, h, not_false_eq_true, if_true]
  split_ifs with hb
  · rw [dropped, Int.le_antisymm hb (by omega)]
  · rfl

theorem read_empty : u.read A w (.datagram src []) size = u.dropped := rfl

private theorem readBody_large {packet : Bytes} {frameLen : Nat} (hf : 2147483644 ≤ frameLen)
    (hsize : u.key = none → size < 2147483644) :
    u.readBody A src.port packet frameLen size = u.dropped := by
  unfold readBody
  split
  · rw [readSealed, if_neg (by simp only [npubBytes, aBytes]; omega)]
    simp only
    rw [if_pos]
    simp only [npubBytes, aBytes, maxPlaintext]
    omega
  · rename_i hk
    rw [readPlain, if_pos (by have := hsize hk; omega)]

private theorem read_unframed (ha : src.addr = u.remoteAddr.addr) (hne : payload ≠ [])
    (hf : ¬ Framed payload) (hsize : u.key = none → size < 2147483644) :
    u.read A w (.datagram src payload) size = (u.follow src.port).dropped := by
  have hpos := List.length_pos_iff.mpr hne
  have hb : ¬ ((min payload.length maxPacket : Nat) : Int) ≤ 0 := by
    simp only [maxPacket, npubBytes, maxPlaintext, aBytes]
    omega
  unfold read
  simp only [if_neg hb, ne_eq, ha, not_true_eq_false, if_false, be32_packet]
  split_ifs with h4 hl
  · rfl
  · rfl
  · simp only [not_or] at hl
    have hlarge : 2147483644 ≤ be32 payload := by
      by_contra hlt
      rw [prefix_check w _ (by omega)] at hl
      exact hf ⟨by omega, by omega⟩
    exact readBody_large A (u.follow src.port) src size hlarge (by rwa [follow_key])

private theorem read_framed (ha : src.addr = u.remoteAddr.addr) (hf : Framed payload) :
    u.read A w (.datagram src payload) size =
      (u.follow src.port).readBody A src.port
        ((payload.take maxPacket).rightpad maxPacket 0) (be32 payload) size := by
  obtain ⟨hpos, hle⟩ := hf
  have hcap : min payload.length maxPacket ≤ 1562 := Nat.min_le_right _ _
  unfold read
  simp only [ne_eq, ha, not_true_eq_false, if_false, be32_packet]
  rw [if_neg (by omega), if_neg (by omega), if_neg]
  rw [prefix_check w _ (by omega)]
  omega

private theorem readSealed_framed {key : Key} (hf : Framed payload) :
    u.readSealed A key src.port ((payload.take maxPacket).rightpad maxPacket 0) (be32 payload) size =
      if npubBytes + aBytes ≤ be32 payload ∧ be32 payload - npubBytes - aBytes ≤ size then
        match A.decrypt key (copyOut 24 payload 4)
            ((payload.drop (4 + npubBytes)).take (be32 payload - npubBytes)) with
        | some plain => (u.setPort src.port, ⟨plain.length, plain⟩)
        | none => u.dropped
      else u.dropped := by
  obtain ⟨hpos, hle⟩ := hf
  have hcap : min payload.length maxPacket ≤ 1562 := Nat.min_le_right _ _
  obtain ⟨hn, ha, hp, -⟩ := packet_sizes
  rw [readSealed]
  simp only
  by_cases hmin : npubBytes + aBytes ≤ be32 payload
  · rw [if_neg (by omega), copyOut_packet _ (by decide), slice_packet _ (by omega)]
    by_cases hs : be32 payload - npubBytes - aBytes ≤ size
    · rw [if_neg (by omega), if_pos ⟨hmin, hs⟩]
      cases A.decrypt key (copyOut 24 payload 4)
        ((payload.drop (4 + npubBytes)).take (be32 payload - npubBytes)) <;> rfl
    · rw [if_pos (by omega), if_neg fun h => hs h.2]
  · rw [if_pos (by omega), if_neg fun h => hmin h.1]

/-- A keyed port changes nothing unless the datagram decrypts. -/
theorem read_sealed {key : Key} (hk : u.key = some key) :
    u.read A w (.datagram src payload) size =
      match opens A src payload size u.remoteAddr.addr key with
      | some plain => (u.setPort src.port, ⟨plain.length, plain⟩)
      | none => u.dropped := by
  by_cases ha : src.addr = u.remoteAddr.addr
  · by_cases hf : Framed payload
    · rw [read_framed _ _ _ _ _ _ ha hf, follow_keyed u hk, readBody, hk, opens]
      simp only [readSealed_framed _ _ _ _ _ hf, ha, hf, true_and]
      split_ifs <;> rfl
    · have hno : opens A src payload size u.remoteAddr.addr key = none := if_neg fun h => hf h.2.1
      rw [hno]
      by_cases hne : payload = []
      · rw [hne, read_empty]
      · rw [read_unframed _ _ _ _ _ _ ha hne hf (by simp [hk]), follow_keyed u hk]
  · rw [read_foreign _ _ _ _ _ _ ha, opens, if_neg fun h => ha h.1]

/-- A port without a key takes over the source port of every non-empty datagram from its
peer, then checks the framing. -/
theorem read_plain (hk : u.key = none) (hsize : size < 2147483644) :
    u.read A w (.datagram src payload) size =
      let u' := if src.addr = u.remoteAddr.addr ∧ payload ≠ [] then u.setPort src.port else u
      match accepts src payload size u.remoteAddr.addr with
      | some frame => (u', ⟨frame.length, frame⟩)
      | none => u'.dropped := by
  by_cases ha : src.addr = u.remoteAddr.addr
  · by_cases hf : Framed payload
    · have hne : payload ≠ [] := by
        rintro rfl
        exact absurd hf (by decide)
      rw [read_framed _ _ _ _ _ _ ha hf, follow_plain u hk, readBody]
      simp only [ha, hne, ne_eq, not_false_eq_true, and_self, if_true, accepts, hf, true_and]
      change (match u.key with | some key => _ | none => _) = _
      rw [hk]
      simp only [readPlain]
      obtain ⟨hpos, hle⟩ := hf
      by_cases hs : be32 payload ≤ size
      · have hlen : ((payload.drop 4).take (be32 payload)).length = be32 payload := by
          rw [List.length_take, List.length_drop]
          omega
        rw [if_neg (by omega), if_pos hs, slice_packet _ (by omega)]
        simp only [hlen]
      · rw [if_pos (by omega), if_neg hs]
    · have hno : accepts src payload size u.remoteAddr.addr = none := if_neg fun h => hf h.2.1
      rw [hno]
      by_cases hne : payload = []
      · simp [hne, read_empty]
      · rw [read_unframed _ _ _ _ _ _ ha hne hf fun _ => hsize, follow_plain u hk]
        simp [ha, hne]
  · rw [read_foreign _ _ _ _ _ _ ha, accepts, if_neg fun h => ha h.1]
    simp [ha]

/-- A punch of the peer changes nothing. -/
theorem read_punch (hsize : size < 2147483644) :
    u.read A w (.datagram u.remoteAddr [0, 0, 0, 0]) size = u.dropped := by
  have hunframed : ¬ Framed [0, 0, 0, 0] := by decide
  rcases hk : u.key with _ | key
  · have hno : accepts u.remoteAddr [0, 0, 0, 0] size u.remoteAddr.addr = none :=
      if_neg fun h => hunframed h.2.1
    simp [read_plain A w u _ _ size hk hsize, hno, setPort]
  · rw [read_sealed _ _ _ _ _ _ hk, opens, if_neg fun h => hunframed h.2.1]

def sealedPacket (encrypt : Key → Nonce → Bytes → Bytes) (key : Key) (nonce : Nonce)
    (frame : Bytes) : Bytes :=
  let ciphertext := encrypt key nonce frame
  htonl (npubBytes + ciphertext.length) ++ List.ofFn nonce ++ ciphertext

theorem write_sealed {key : Key} (hk : u.key = some key) (nonce : Nonce) (frame : Bytes) :
    u.write A nonce frame =
      if maxPlaintext < frame.length then .error .ciphertextOverflow
      else .ok ⟨u.remoteAddr, sealedPacket A.encrypt key nonce frame⟩ := by
  rw [write, hk]
  exact if_congr Nat.add_lt_add_iff_right rfl rfl

theorem write_plain (hk : u.key = none) (nonce : Nonce) (frame : Bytes) :
    u.write A nonce frame = .ok ⟨u.remoteAddr, htonl frame.length ++ frame⟩ := by
  rw [write, hk]

/-- A port with this key for this peer address. Neither is ever changed. -/
def KeyedFor (ip : UInt32) (key : Key) : Prop := u.remoteAddr.addr = ip ∧ u.key = some key

variable {u} in
theorem KeyedFor.read {ip : UInt32} {key : Key} (h : u.KeyedFor ip key) (recv : Recv) :
    (u.read A w recv size).1.KeyedFor ip key := by
  cases recv with
  | error => exact h
  | datagram src payload =>
    rw [read_sealed _ _ _ _ _ _ h.2]
    split <;> exact h

end UdpPort
end VSwitch
