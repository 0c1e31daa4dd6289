import VSwitch.Network.Framing
import VSwitch.Switch.EventLoop

/-! What an iteration of the loop puts on the network, and what a port makes of it at the other
end. Nothing here depends on the port that a peer's datagrams come from. -/
namespace VSwitch
open Lib EthernetFrame

namespace UdpPort
variable {A : Aead} {w : SizeT} {u : UdpPort} {nonce : Nonce} {frame : Bytes} {sent : Sent}

/-- The payload of the datagram that a port sends for a frame. -/
def encapsulate (A : Aead) (u : UdpPort) (nonce : Nonce) (frame : Bytes) : Bytes :=
  match u.key with
  | some key => sealedPacket A.encrypt key nonce frame
  | none => htonl frame.length ++ frame

theorem write_eq (h : u.write A nonce frame = .ok sent) :
    sent = ⟨u.remoteAddr, u.encapsulate A nonce frame⟩ ∧
      (u.key.isSome = true → frame.length ≤ maxPlaintext) := by
  cases hk : u.key with
  | none =>
    rw [u.write_plain A hk] at h
    cases h
    exact ⟨by rw [encapsulate, hk], nofun⟩
  | some key =>
    rw [u.write_sealed A hk] at h
    split_ifs at h with hlong
    cases h
    exact ⟨by rw [encapsulate, hk], fun _ => Nat.not_lt.mp hlong⟩

private theorem read_peer (recv : Recv) :
    (u.read A w recv maxFrameSize).1.key = u.key ∧
      (u.read A w recv maxFrameSize).1.remoteAddr.addr = u.remoteAddr.addr := by
  cases recv with
  | error => exact ⟨rfl, rfl⟩
  | datagram src payload =>
    rcases hk : u.key with _ | key
    · rw [read_plain A w u src payload maxFrameSize hk (by decide)]
      simp only
      cases accepts src payload maxFrameSize u.remoteAddr.addr <;> simp only [dropped] <;>
        split_ifs <;> exact ⟨hk, rfl⟩
    · have hkeyed : u.KeyedFor u.remoteAddr.addr key := ⟨rfl, hk⟩
      obtain ⟨haddr, hkey⟩ := hkeyed.read A w maxFrameSize (.datagram src payload)
      exact ⟨hkey, haddr⟩

end UdpPort

/-- The longest frame that survives encapsulation: a keyed port must encrypt it, and any port
must receive the datagram whole. -/
def maxFrame (key : Option Key) : Nat := if key.isSome then maxPlaintext else maxPacket - 4

namespace Device
variable {A : Aead} {w : SizeT} {d d' : Device} {nonce : Nonce} {f : Bytes}

/-- The datagram that `write` sends, if the port is a socket. -/
def datagram (A : Aead) : Device → Nonce → Bytes → Option Sent
  | .tap, _, _ => none
  | .udp u, nonce, frame => some ⟨u.remoteAddr, u.encapsulate A nonce frame⟩

theorem write_eq {sent : Option Sent} (h : d.write A nonce f = .ok sent) :
    sent = d.datagram A nonce f := by
  cases d with
  | tap =>
    cases h
    rfl
  | udp u =>
    rw [write] at h
    cases hw : u.write A nonce f with
    | error fault =>
      rw [hw] at h
      cases h
    | ok sent =>
      rw [hw] at h
      cases h
      rw [datagram, (UdpPort.write_eq hw).1]

/-- Equal but for the port of the peer. -/
def SamePeer : Device → Device → Prop
  | .tap, .tap => True
  | .udp u, .udp u' => u.key = u'.key ∧ u.remoteAddr.addr = u'.remoteAddr.addr
  | _, _ => False

theorem SamePeer.refl (d : Device) : d.SamePeer d := by
  cases d with
  | tap => trivial
  | udp u => exact ⟨rfl, rfl⟩

theorem SamePeer.read (h : d.SamePeer d') (recv : Recv) :
    d.SamePeer (d'.read A w recv maxFrameSize).1 := by
  match d, d', h with
  | .tap, .tap, _ => cases recv <;> trivial
  | .udp u, .udp u', ⟨hkey, haddr⟩ =>
    obtain ⟨hkey', haddr'⟩ := UdpPort.read_peer (A := A) (w := w) (u := u') recv
    exact ⟨hkey.trans hkey'.symm, haddr.trans haddr'.symm⟩

/-- What a port accepts depends on its key and on the two addresses alone. -/
theorem SamePeer.frame (h : d.SamePeer d') {src src' : SockAddr} (hsrc : src.addr = src'.addr)
    (payload : Bytes) :
    d.frame A (.datagram src payload) = d'.frame A (.datagram src' payload) := by
  match d, d', h with
  | .tap, .tap, _ => rfl
  | .udp u, .udp u', ⟨hkey, haddr⟩ =>
    simp only [Device.frame, accepted, UdpPort.opens, UdpPort.accepts, hkey, haddr, hsrc]

variable {u receiver : UdpPort} {src : SockAddr}

/-- A port with the same key takes out of a datagram what its peer has put in. -/
theorem frame_encapsulate (hA : A.Lawful) (hkey : u.key = receiver.key)
    (hsrc : src.addr = receiver.remoteAddr.addr) (hne : f ≠ [])
    (hfit : f.length ≤ maxFrame u.key) :
    (udp receiver).frame A (.datagram src (u.encapsulate A nonce f)) = some f := by
  have hpos := List.length_pos_iff.mpr hne
  obtain ⟨-, -, hp, hmax⟩ := packet_sizes
  have hsize : maxFrameSize = 1600 := rfl
  have haccepted :
      (udp receiver).accepted A (.datagram src (u.encapsulate A nonce f)) = some f := by
    rcases hk : u.key with _ | key
    · simp only [hk, maxFrame, Option.isSome_none, Bool.false_eq_true, if_false] at hfit
      simp only [accepted, ← hkey, hk, UdpPort.encapsulate, ← hsrc]
      exact UdpPort.accepts_written hpos (by omega) (by omega)
    · simp only [hk, maxFrame, Option.isSome_some, if_true] at hfit
      simp only [accepted, ← hkey, hk, UdpPort.encapsulate, ← hsrc]
      exact UdpPort.opens_written hA hfit (by omega)
  rw [Device.frame, haccepted, Option.filter_some, if_pos (decide_eq_true hne)]

/-- A longer frame in the clear is dropped as a whole. -/
theorem frame_oversized (hk : u.key = none) (hkey : u.key = receiver.key)
    (hlong : maxPacket - 4 < f.length) (hsmall : f.length ≤ maxFrameSize) :
    (udp receiver).frame A (.datagram src (u.encapsulate A nonce f)) = none := by
  obtain ⟨-, -, -, hmax⟩ := packet_sizes
  have hsize : maxFrameSize = 1600 := rfl
  have hrefused : (udp receiver).accepted A (.datagram src (u.encapsulate A nonce f)) = none := by
    simp only [accepted, ← hkey, hk, UdpPort.encapsulate]
    exact UdpPort.accepts_truncated (by omega) (by omega)
  rw [Device.frame, hrefused, Option.filter_none]

/-- No port takes a punch for a frame. -/
theorem frame_punch (d : Device) (hd : d ≠ .tap) (src : SockAddr) :
    d.frame A (.datagram src [0, 0, 0, 0]) = none := by
  have hunframed : ¬ Framed [0, 0, 0, 0] := by decide
  cases d with
  | tap => exact absurd rfl hd
  | udp u =>
    rcases hk : u.key with _ | key
    · simp [Device.frame, accepted, hk, UdpPort.accepts, hunframed]
    · simp [Device.frame, accepted, hk, UdpPort.opens, hunframed]

end Device

namespace EventLoop
variable {P : Type} [DecidableEq P] {A : Aead} {w : SizeT} {loop : EventLoop P} {r : Reading P}
variable {served : Served P} {f : Bytes}

def datagrams (A : Aead) (device : P → Device) (nonces : P → Nonce) (writes : List (P × Bytes)) :
    List (P × Sent) :=
  writes.filterMap fun x => ((device x.1).datagram A (nonces x.1) x.2).map fun d => (x.1, d)

omit [DecidableEq P] in
private theorem transmit_eq {device : P → Device} {nonces : P → Nonce} {writes : List (P × Bytes)}
    {sent : List (P × Sent)} (h : transmit A device nonces writes = .ok sent) :
    sent = datagrams A device nonces writes := by
  obtain ⟨batches, hbatches, hsent⟩ := bind_eq_ok.mp h
  cases hsent
  clear h
  induction writes generalizing batches with
  | nil =>
    cases hbatches
    rfl
  | cons write writes ih =>
    rw [List.mapM_cons] at hbatches
    obtain ⟨batch, hbatch, hbatches⟩ := bind_eq_ok.mp hbatches
    obtain ⟨rest, hrest, hbatches⟩ := bind_eq_ok.mp hbatches
    cases hbatches
    obtain ⟨datagram, hwrite, hbatch⟩ := bind_eq_ok.mp hbatch
    cases hbatch
    rw [List.flatten_cons, ih rest hrest, Device.write_eq hwrite, datagrams, datagrams,
      List.filterMap_cons]
    cases (device write.1).datagram A (nonces write.1) write.2 with
    | none => simp
    | some d => simp

/-- Whether `handle_arp` returns true in an iteration. -/
def answers (A : Aead) (w : SizeT) (loop : EventLoop P) (r : Reading P) : Bool :=
  let result := ((loop.device r.port).read A w r.recv maxFrameSize).2
  if result.ret ≤ 0 then false
  else match loop.switch.processFrame result.copied r.port r.now with
    | .ok o => o.answered
    | .error _ => false

theorem answers_quiet (h : (loop.device r.port).frame A r.recv = none) :
    loop.answers A w r = false := if_pos (Device.read_no_frame A w h)

/-- What an iteration on a frame does, if it goes on: the loop body on that frame, and the
datagrams of its writes. -/
theorem serve_frame_ok (hf : (loop.device r.port).frame A r.recv = some f)
    (h : loop.serve A w r = .ok served) :
    let o := loop.switch.switchFrame (header f) f r.port r.now
    14 ≤ f.length ∧ loop.answers A w r = o.answered ∧
      served = ⟨⟨o.switch, loop.deviceAfter A w r⟩, o.writes,
        datagrams A (loop.deviceAfter A w r) r.nonces o.writes⟩ ∧
      ∀ q d, (q, d) ∈ o.writes → (loop.deviceAfter A w r q).keyed = true →
        d.length ≤ maxPlaintext := by
  obtain ⟨hread, hpos⟩ := Device.read_frame A w hf
  have hentered : ¬ ((f.length : Nat) : Int) ≤ 0 := by omega
  rw [serve_frame hf] at h
  obtain ⟨o, ho, h⟩ := bind_eq_ok.mp h
  obtain ⟨sent, hsent, h⟩ := bind_eq_ok.mp h
  cases h
  have hanswers : loop.answers A w r = o.answered := by
    simp only [answers, hread, if_neg hentered, ho]
  obtain ⟨hlen, rfl⟩ := VirtualSwitch.processFrame_ok _ _ _ _ ho
  refine ⟨hlen, hanswers, ?_, (transmit_ok_iff ..).mp ⟨sent, hsent⟩⟩
  rw [transmit_eq hsent]

/-- A port keeps its key and its peer through every iteration. -/
theorem samePeer_deviceAfter {d : Device} {q : P} (h : d.SamePeer (loop.device q)) :
    d.SamePeer (loop.deviceAfter A w r q) := by
  unfold deviceAfter
  split_ifs with hq
  · subst hq
    exact h.read r.recv
  · exact h

end EventLoop
end VSwitch
