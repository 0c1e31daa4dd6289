import VSwitch.Network.UdpPort

/-! What one port writes another reads back, in both modes and at every length. -/
namespace VSwitch

/-- The longest payload of a UDP datagram; `sendmsg` refuses a longer one. -/
def maxDatagram : Nat := 65507

/-- The datagram that a call of `sendmsg` puts on the network, if it succeeds. -/
def Sent.onWire (sent : Sent) : Option Bytes :=
  if sent.payload.length ≤ maxDatagram then some sent.payload else none

/-- The documented behaviour of the cipher: decryption undoes encryption, and the tag takes
sixteen bytes. -/
structure Aead.Lawful (A : Aead) : Prop where
  length_encrypt : ∀ key nonce frame, (A.encrypt key nonce frame).length = frame.length + aBytes
  decrypt_encrypt : ∀ key nonce frame, A.decrypt key nonce (A.encrypt key nonce frame) = some frame

theorem zeroTag_lawful : zeroTag.Lawful where
  length_encrypt key nonce frame := by simp [zeroTag, aBytes]
  decrypt_encrypt key nonce frame := by simp [zeroTag]

section Packets
variable {n : Nat} {nonce : Nonce} {rest : Bytes}

private theorem copyOut_nonce (n : Nat) (nonce : Nonce) (rest : Bytes) :
    copyOut 24 (htonl n ++ (List.ofFn nonce ++ rest)) 4 = nonce := by
  funext i
  have hlen : (htonl n).length = 4 := rfl
  have hi : (i : Nat) < (List.ofFn nonce).length := by simp
  rw [copyOut, List.getD_append_right _ _ _ _ (by omega), hlen, Nat.add_sub_cancel_left,
    List.getD_append _ _ _ _ hi, List.getD_eq_getElem _ _ hi, List.getElem_ofFn]

private theorem drop_nonce (n : Nat) (nonce : Nonce) (rest : Bytes) :
    (htonl n ++ (List.ofFn nonce ++ rest)).drop (4 + npubBytes) = rest := by
  rw [← List.append_assoc]
  apply List.drop_left'
  simp [htonl, npubBytes]

private theorem framed_htonl (hpos : 0 < rest.length) (hfit : 4 + rest.length ≤ maxPacket) :
    Framed (htonl rest.length ++ rest) := by
  have hmax : maxPacket = 1562 := rfl
  have hlen : (htonl rest.length ++ rest).length = 4 + rest.length := by
    rw [List.length_append]
    rfl
  constructor <;> rw [be32_htonl (by omega)]
  · exact hpos
  · omega

end Packets

namespace UdpPort
variable {A : Aead} {w : SizeT} {receiver : UdpPort} {src : SockAddr} {key : Key} {nonce : Nonce}
variable {frame : Bytes} {size : Nat}

theorem accepts_written (hpos : 1 ≤ frame.length) (hfit : frame.length ≤ 1558)
    (hsize : frame.length ≤ size) :
    accepts src (htonl frame.length ++ frame) size src.addr = some frame := by
  have hmax : maxPacket = 1562 := rfl
  have hframed : Framed (htonl frame.length ++ frame) := framed_htonl hpos (by omega)
  rw [accepts, be32_htonl (by omega), if_pos ⟨rfl, hframed, hsize⟩]
  exact congrArg some List.take_length

/-- A longer frame arrives truncated and is refused. -/
theorem accepts_truncated {ip : UInt32} (hlong : 1558 < frame.length)
    (hsmall : frame.length < 2 ^ 32) :
    accepts src (htonl frame.length ++ frame) size ip = none := by
  apply if_neg
  rintro ⟨-, ⟨-, hle⟩, -⟩
  have hcap : min (htonl frame.length ++ frame).length maxPacket ≤ 1562 := Nat.min_le_right _ _
  rw [be32_htonl hsmall] at hle
  omega

theorem opens_written (hA : A.Lawful) (hfit : frame.length ≤ maxPlaintext)
    (hsize : frame.length ≤ size) :
    opens A src (sealedPacket A.encrypt key nonce frame) size src.addr key = some frame := by
  obtain ⟨hn, ha, hp, hmax⟩ := packet_sizes
  have hcipher := hA.length_encrypt key nonce frame
  have hbody : (List.ofFn nonce ++ A.encrypt key nonce frame).length =
      npubBytes + (A.encrypt key nonce frame).length := by
    rw [List.length_append, List.length_ofFn]
    rfl
  have hframed : Framed (htonl (List.ofFn nonce ++ A.encrypt key nonce frame).length ++
      (List.ofFn nonce ++ A.encrypt key nonce frame)) := framed_htonl (by omega) (by omega)
  have hlen : be32 (htonl (npubBytes + (A.encrypt key nonce frame).length) ++
      (List.ofFn nonce ++ A.encrypt key nonce frame)) =
        npubBytes + (A.encrypt key nonce frame).length := be32_htonl (by omega) _
  rw [hbody] at hframed
  rw [sealedPacket, List.append_assoc, opens, hlen,
    if_pos ⟨rfl, hframed, by omega, by omega⟩, copyOut_nonce, drop_nonce,
    List.take_of_length_le (by omega)]
  exact hA.decrypt_encrypt key nonce frame

private theorem read_punched (u : UdpPort) (src : SockAddr) (hsize : size < 2147483644) :
    (u.read A w (.datagram src [0, 0, 0, 0]) size).2 = ⟨0, []⟩ := by
  have hunframed : ¬ Framed [0, 0, 0, 0] := by decide
  rcases hk : u.key with _ | key
  · have hno : accepts src [0, 0, 0, 0] size u.remoteAddr.addr = none :=
      if_neg fun h => hunframed h.2.1
    rw [read_plain A w u src _ size hk hsize, hno]
    rfl
  · have hno : opens A src [0, 0, 0, 0] size u.remoteAddr.addr key = none :=
      if_neg fun h => hunframed h.2.1
    rw [read_sealed A w u src _ size hk, hno]
    rfl

end UdpPort

/-- `read` undoes `write` between two ports with the same key setting, up to the length that
each mode can carry; a longer frame in the clear is dropped as a whole, and so is a punch. -/
theorem read_write (A : Aead) (hA : A.Lawful) (w : SizeT) (sender receiver : UdpPort)
    (hkey : sender.key = receiver.key) (src : SockAddr)
    (hsrc : src.addr = receiver.remoteAddr.addr) (nonce : Nonce) (frame : Bytes) :
    (sender.key = none → 1 ≤ frame.length → frame.length ≤ 1558 →
      ∃ sent datagram, sender.write A nonce frame = .ok sent ∧ sent.onWire = some datagram ∧
        (receiver.read A w (.datagram src datagram) 1600).2 = ⟨frame.length, frame⟩) ∧
    (sender.key ≠ none → 1 ≤ frame.length → frame.length ≤ 1518 →
      ∃ sent datagram, sender.write A nonce frame = .ok sent ∧ sent.onWire = some datagram ∧
        (receiver.read A w (.datagram src datagram) 1600).2 = ⟨frame.length, frame⟩) ∧
    (sender.key = none → 1558 < frame.length →
      ∀ sent datagram, sender.write A nonce frame = .ok sent → sent.onWire = some datagram →
        (receiver.read A w (.datagram src datagram) 1600).2 = ⟨0, []⟩) ∧
    ∀ attempts, ∀ punch ∈ sender.punch attempts,
      (receiver.read A w (.datagram src punch.payload) 1600).2 = ⟨0, []⟩ := by
  have hlead : (htonl frame.length ++ frame).length = 4 + frame.length := by
    rw [List.length_append]
    rfl
  refine ⟨?_, ?_, ?_, ?_⟩
  · intro hk hpos hfit
    refine ⟨_, _, sender.write_plain A hk nonce frame, if_pos (by rw [hlead, maxDatagram]; omega), ?_⟩
    rw [UdpPort.read_plain A w receiver src _ 1600 (hkey ▸ hk) (by decide), ← hsrc,
      UdpPort.accepts_written hpos hfit (by omega)]
  · intro hk hpos hfit
    obtain ⟨key, hsome⟩ := Option.ne_none_iff_exists'.mp hk
    obtain ⟨-, ha, hp, -⟩ := packet_sizes
    have hcipher := hA.length_encrypt key nonce frame
    have hlen : (UdpPort.sealedPacket A.encrypt key nonce frame).length =
        4 + 24 + (frame.length + aBytes) := by
      simp only [UdpPort.sealedPacket, List.length_append, List.length_ofFn, hcipher]
      rfl
    have hsent := sender.write_sealed A hsome nonce frame
    rw [if_neg (by omega)] at hsent
    refine ⟨_, _, hsent, if_pos (by rw [hlen, maxDatagram]; omega), ?_⟩
    rw [UdpPort.read_sealed A w receiver src _ 1600 (hkey ▸ hsome), ← hsrc,
      UdpPort.opens_written hA (by omega) (by omega)]
  · intro hk hlong sent datagram hsent hwire
    rw [sender.write_plain A hk nonce frame] at hsent
    cases hsent
    obtain ⟨hshort, hdatagram⟩ := Option.ite_none_right_eq_some.mp hwire
    cases hdatagram
    rw [hlead, maxDatagram] at hshort
    rw [UdpPort.read_plain A w receiver src _ 1600 (hkey ▸ hk) (by decide),
      UdpPort.accepts_truncated hlong (by omega)]
    rfl
  · intro attempts punch hpunch
    obtain rfl := List.eq_of_mem_replicate hpunch
    exact UdpPort.read_punched receiver src (by decide)

/-- Both modes at work, and a frame of 1559 bytes in the clear. -/
theorem read_write_both :
    let clear : UdpPort := ⟨⟨0x0a000002, 5000⟩, none⟩
    let keyed : UdpPort := ⟨⟨0x0a000002, 5000⟩, some fun _ => 7⟩
    let src : SockAddr := ⟨0x0a000002, 6000⟩
    (∃ sent datagram, clear.write zeroTag 1 [1, 2, 3] = .ok sent ∧
      sent.onWire = some datagram ∧
        (clear.read zeroTag .bits64 (.datagram src datagram) 1600).2 = ⟨3, [1, 2, 3]⟩) ∧
    (∃ sent datagram, keyed.write zeroTag 1 [1, 2, 3] = .ok sent ∧
      sent.onWire = some datagram ∧
        (keyed.read zeroTag .bits32 (.datagram src datagram) 1600).2 = ⟨3, [1, 2, 3]⟩) ∧
    ∀ sent datagram, clear.write zeroTag 1 (List.replicate 1559 0) = .ok sent →
      sent.onWire = some datagram →
        (clear.read zeroTag .bits64 (.datagram src datagram) 1600).2 = ⟨0, []⟩ := by
  intro clear keyed src
  refine ⟨?_, ?_, ?_⟩
  · exact (read_write zeroTag zeroTag_lawful .bits64 clear clear rfl src rfl 1 [1, 2, 3]).1 rfl
      (by decide) (by decide)
  · exact (read_write zeroTag zeroTag_lawful .bits32 keyed keyed rfl src rfl 1 [1, 2, 3]).2.1
      nofun (by decide) (by decide)
  · exact (read_write zeroTag zeroTag_lawful .bits64 clear clear rfl src rfl 1
      (List.replicate 1559 0)).2.2.1 rfl (by rw [List.length_replicate]; decide)

end VSwitch
