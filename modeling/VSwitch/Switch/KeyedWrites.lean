import VSwitch.Network.ReadBounds
import VSwitch.Switch.EventLoop

/-! The frames that reach the encrypting path of `write`. Its array takes 1518 bytes and a
tag; the switch reads up to 1600 bytes from a TAP, and nothing in between checks. -/
namespace VSwitch
open Lib EthernetFrame

/-- The ports of a secured switch: TAP devices and sockets with a key. -/
def Device.Secured (d : Device) : Prop := d = .tap ∨ d.keyed = true

namespace Device
variable {A : Aead} {w : SizeT} {d : Device} {recv : Recv} {f : Bytes}

theorem Secured.read (h : d.Secured) (recv : Recv) (size : Nat) :
    (d.read A w recv size).1.Secured := by
  rcases h with rfl | hkeyed
  · left
    cases recv <;> rfl
  · right
    cases d with
    | tap => cases hkeyed
    | udp u =>
      obtain ⟨key, hk⟩ := Option.isSome_iff_exists.mp hkeyed
      have hkeyed : u.KeyedFor u.remoteAddr.addr key := ⟨rfl, hk⟩
      have hsame : (u.read A w recv size).1.key = some key := (hkeyed.read A w size recv).2
      exact Option.isSome_iff_exists.mpr ⟨key, hsame⟩

private theorem length_frame_keyed (hA : A.Shortens) (hkeyed : d.keyed = true)
    (h : d.frame A recv = some f) : f.length ≤ maxPlaintext := by
  have haccepted := (Option.filter_eq_some_iff.mp h).1
  match d, recv, haccepted with
  | .udp u, .datagram src payload, haccepted =>
    obtain ⟨key, hk⟩ := Option.isSome_iff_exists.mp hkeyed
    simp only [accepted, hk] at haccepted
    have hlen := UdpPort.length_opens hA haccepted
    obtain ⟨⟨-, ⟨-, hle⟩, -, -⟩, -⟩ := UdpPort.opens_eq_some.mp haccepted
    have hcap : min payload.length maxPacket ≤ 1562 := Nat.min_le_right _ _
    obtain ⟨hn, ha, hp, -⟩ := packet_sizes
    omega

end Device

namespace EventLoop
variable {P : Type} [DecidableEq P] {A : Aead} {w : SizeT} {loop loop' : EventLoop P}
variable {r : Reading P} {f : Bytes}

/-- The calls of `Port::write` that an iteration makes, each with the frame it passes. -/
def writeCalls (A : Aead) (w : SizeT) (loop : EventLoop P) (r : Reading P) : List (P × Bytes) :=
  let result := ((loop.device r.port).read A w r.recv maxFrameSize).2
  if result.ret ≤ 0 then []
  else match loop.switch.processFrame result.copied r.port r.now with
    | .ok o => o.writes
    | .error _ => []

/-- Every call at a port with a key leaves room for the tag in the ciphertext array. -/
def FitsKeyed (A : Aead) (w : SizeT) (loop : EventLoop P) (r : Reading P) : Prop :=
  ∀ q d, (q, d) ∈ loop.writeCalls A w r → (loop.deviceAfter A w r q).keyed = true →
    d.length + aBytes ≤ maxPlaintext + aBytes

/-- A TAP hands over more than 1518 bytes that no cached address answers and that the
tables send to a port with a key. -/
def Oversized (A : Aead) (loop : EventLoop P) (r : Reading P) : Prop :=
  ∃ f, loop.device r.port = .tap ∧ (loop.device r.port).frame A r.recv = some f ∧
    maxPlaintext < f.length ∧
    let mid := loop.switch.refresh (header f).srcMac r.port r.now
    mid.cachedAnswer f = none ∧
      ∃ q, mid.SendsTo (header f).dstMac r.port q ∧ (loop.device q).keyed = true

/-- Ports are never exchanged, and a key is never dropped. -/
theorem Goes.secured {event : LoopEvent P} (h : Goes A w loop event loop')
    (hports : ∀ q, (loop.device q).Secured) (q : P) : (loop'.device q).Secured := by
  obtain ⟨served, hstep, rfl⟩ := h
  cases event with
  | timeout =>
    cases hstep
    exact hports q
  | reading r =>
    rw [(serve_ok hstep).1]
    unfold deviceAfter
    split_ifs
    · exact (hports r.port).read r.recv maxFrameSize
    · exact hports q

private theorem writeCalls_quiet (h : (loop.device r.port).frame A r.recv = none) :
    loop.writeCalls A w r = [] :=
  if_pos (Device.read_no_frame A w h)

private theorem writeCalls_frame (h : (loop.device r.port).frame A r.recv = some f) :
    loop.writeCalls A w r =
      if f.length < 14 then []
      else (loop.switch.switchFrame (header f) f r.port r.now).writes := by
  obtain ⟨hread, hpos⟩ := Device.read_frame A w h
  have hentered : ¬ ((f.length : Nat) : Int) ≤ 0 := by omega
  simp only [writeCalls, hread, if_neg hentered]
  split_ifs with hshort
  · rw [VirtualSwitch.processFrame_short _ _ _ _ hshort]
  · rw [VirtualSwitch.processFrame_long _ _ _ _ (by omega)]

private theorem fitsKeyed_iff (hA : A.Shortens) (hports : ∀ q, (loop.device q).Secured)
    (r : Reading P) : loop.FitsKeyed A w r ↔ ¬ loop.Oversized A r := by
  have hp : maxPlaintext = 1518 := rfl
  unfold FitsKeyed
  simp only [Nat.add_le_add_iff_right]
  rcases hf : (loop.device r.port).frame A r.recv with _ | f
  · rw [writeCalls_quiet hf]
    constructor
    · rintro - ⟨f, -, hsome, -⟩
      cases hf.symm.trans hsome
    · exact fun _ _ _ h => absurd h List.not_mem_nil
  · rw [writeCalls_frame hf]
    split_ifs with hshort
    · constructor
      · rintro - ⟨f', -, hsome, hlong, -⟩
        cases hf.symm.trans hsome
        omega
      · exact fun _ _ _ h => absurd h List.not_mem_nil
    · have hd (q : P) (hq : q ≠ r.port) : loop.deviceAfter A w r q = loop.device q := if_neg hq
      rw [switchFrame_fits loop r f hd]
      constructor
      · rintro h ⟨f', -, hsome, hlong, hunanswered, q, hq, hkeyed⟩
        cases hf.symm.trans hsome
        have hfits := h hunanswered q hq hkeyed
        omega
      · intro h mid hunanswered q hq hkeyed
        by_contra hlong
        rcases hports r.port with htap | hsource
        · exact h ⟨f, htap, hf, by omega, hunanswered, q, hq, hkeyed⟩
        · exact hlong (Device.length_frame_keyed hA hsource hf)

end EventLoop

/-- In every run of a secured switch, all calls of `write` with a key fit its array as long
as no oversized frame is read; one that is read overflows it. -/
theorem keyed_writes_fit_iff {P : Type} [DecidableEq P] (A : Aead) (hA : A.Shortens) (w : SizeT)
    (loop : EventLoop P) (hports : ∀ q, (loop.device q).Secured) (events : List (LoopEvent P)) :
    (∀ past r rest mid, events = past ++ .reading r :: rest →
      Run (EventLoop.Goes A w) loop past mid → mid.FitsKeyed A w r) ↔
    ∀ past r rest mid, events = past ++ .reading r :: rest →
      Run (EventLoop.Goes A w) loop past mid → ¬ mid.Oversized A r := by
  have hfits {past : List (LoopEvent P)} {mid : EventLoop P} (r : Reading P)
      (hrun : Run (EventLoop.Goes A w) loop past mid) :
      mid.FitsKeyed A w r ↔ ¬ mid.Oversized A r := by
    have hkept : ∀ q, (mid.device q).Secured :=
      hrun.invariant (I := fun l => ∀ q, (l.device q).Secured) (fun hl hstep => hstep.secured hl)
        hports
    exact EventLoop.fitsKeyed_iff hA hkept r
  constructor
  · intro h past r rest mid hsplit hrun
    exact (hfits r hrun).mp (h past r rest mid hsplit hrun)
  · intro h past r rest mid hsplit hrun
    exact (hfits r hrun).mpr (h past r rest mid hsplit hrun)

section Overflow

/-- A TAP (`false`) and a socket with a key (`true`), as the program starts them. -/
def tapAndPeer : EventLoop Bool :=
  ⟨.create [false, true] (by decide) 0, fun q =>
    if q then .udp ⟨⟨0x0a000002, 5000⟩, some fun _ => 7⟩ else .tap⟩

/-- A broadcast frame of `n` bytes on the TAP. -/
def broadcast (n : Nat) : Reading Bool :=
  ⟨false, .datagram ⟨0, 0⟩ (List.replicate n 0xff), 0, fun _ => 1⟩

private theorem tapAndPeer_secured (q : Bool) : (tapAndPeer.device q).Secured := by
  cases q
  · exact .inl rfl
  · exact .inr rfl

private theorem frame_broadcast {n : Nat} (hpos : 0 < n) (hfit : n ≤ maxFrameSize) :
    (tapAndPeer.device false).frame zeroTag (broadcast n).recv = some (List.replicate n 0xff) := by
  have hne : List.replicate n (0xff : UInt8) ≠ [] := by simp; omega
  have htake : (List.replicate n (0xff : UInt8)).take maxFrameSize = List.replicate n 0xff :=
    List.take_of_length_le (by rwa [List.length_replicate])
  change Option.filter _ (some ((List.replicate n (0xff : UInt8)).take maxFrameSize)) = _
  rw [htake, Option.filter_some, if_pos (decide_eq_true hne)]

/-- A broadcast of 1518 bytes is in bounds. -/
theorem keyed_writes_fit_broadcast :
    tapAndPeer.FitsKeyed zeroTag .bits64 (broadcast 1518) := by
  refine (keyed_writes_fit_iff zeroTag zeroTag_shortens .bits64 tapAndPeer tapAndPeer_secured
    [.reading (broadcast 1518)]).mpr ?_ [] _ [] tapAndPeer rfl rfl
  rintro past r rest mid hsplit hrun ⟨f, htap, hframe, hlong, -⟩
  cases past with
  | nil =>
    cases hsplit
    obtain rfl := hrun
    have hlen : f.length = 1518 := by
      rw [← Option.some.inj ((frame_broadcast (by decide) (by decide)).symm.trans hframe)]
      exact List.length_replicate
    exact absurd hlong (by rw [hlen]; decide)
  | cons event past => cases past <;> cases hsplit

/-- The TAP of a switch that has just started, with a broadcast of 1519 bytes. -/
theorem broadcast_overflows :
    ¬ ∀ past r rest mid, [LoopEvent.reading (broadcast 1519)] = past ++ .reading r :: rest →
      Run (EventLoop.Goes zeroTag .bits64) tapAndPeer past mid →
        mid.FitsKeyed zeroTag .bits64 r := by
  intro h
  have hfits := h [] _ [] tapAndPeer rfl rfl
  apply (EventLoop.fitsKeyed_iff zeroTag_shortens tapAndPeer_secured (broadcast 1519)).mp hfits
  have hframe := frame_broadcast (n := 1519) (by decide) (by decide)
  refine ⟨_, rfl, hframe, by rw [List.length_replicate]; decide, ?_, true, ?_, rfl⟩
  · apply if_neg
    rintro ⟨⟨harp, -⟩, -⟩
    exact absurd harp (by decide)
  · refine ⟨by decide, ?_⟩
    rw [if_pos (.inl (by decide)), VirtualSwitch.refresh_ports]
    exact List.mem_cons_of_mem _ (List.mem_singleton_self _)

end Overflow

end VSwitch
