import VSwitch.Lib.Runs
import VSwitch.Network.UdpPort
import VSwitch.Switch.FrameSteps

/-! The loop of `run` over real ports: `poll`, the reads it allows, the loop body and its
writes. One iteration can end the process; this module says exactly when. -/
namespace VSwitch
open Lib EthernetFrame

/-- The two implementations of `Port`. -/
inductive Device where
  | tap
  | udp (port : UdpPort)
  deriving DecidableEq

/-- `buffer.size()` in `run`. -/
def maxFrameSize : Nat := 1600

namespace Device
variable (A : Aead) (w : SizeT)

/-- `Port::read`. A TAP device hands over one frame, cut to the buffer, from nowhere in
particular. -/
def read : Device → Recv → Nat → Device × ReadResult
  | .tap, .error, _ => (.tap, ⟨-1, []⟩)
  | .tap, .datagram _ payload, size =>
    (.tap, ⟨(payload.take size).length, payload.take size⟩)
  | .udp u, recv, size =>
    let (u, result) := u.read A w recv size
    (.udp u, result)

/-- `Port::write`, and the datagram it sends if the port is a socket. -/
def write (nonce : Nonce) (frame : Bytes) : Device → Except Fault (Option Sent)
  | .tap => .ok none
  | .udp u => some <$> u.write A nonce frame

/-- `Port::keepalive`, which only a UDP port overrides. -/
def keepalive : Device → List Sent
  | .tap => []
  | .udp u => u.keepalive

end Device

/-- The state of `run` between two reads: the switch and its ports. -/
structure EventLoop (P : Type) where
  switch : VirtualSwitch P
  device : P → Device

/-- One iteration of the inner loop on a readable port: what the port finds, the clock,
and the randomness of each port that may be written to. -/
structure Reading (P : Type) where
  port : P
  recv : Recv
  now : Int
  nonces : P → Nonce

/-- The loop after an iteration, the calls of `Port::write`, and the datagrams sent. -/
structure Served (P : Type) where
  loop : EventLoop P
  writes : List (P × Bytes)
  sent : List (P × Sent)

/-- What a return of `poll` leads to: one round of keepalives, or one read after the other. -/
inductive LoopEvent (P : Type) where
  | timeout
  | reading (r : Reading P)

namespace EventLoop
variable {P : Type} [DecidableEq P] (A : Aead) (w : SizeT)

def transmit (device : P → Device) (nonces : P → Nonce) (writes : List (P × Bytes)) :
    Except Fault (List (P × Sent)) := do
  let sent ← writes.mapM fun (port, frame) => do
    let datagram ← (device port).write A (nonces port) frame
    return datagram.toList.map fun d => (port, d)
  return sent.flatten

/-- `read` and the loop body. -/
def serve (loop : EventLoop P) (r : Reading P) : Except Fault (Served P) := do
  let (port, result) := (loop.device r.port).read A w r.recv maxFrameSize
  let device := fun q => if q = r.port then port else loop.device q
  if result.ret ≤ 0 then return ⟨{ loop with device }, [], []⟩
  else
    let o ← loop.switch.processFrame result.copied r.port r.now
    let sent ← transmit A device r.nonces o.writes
    return ⟨⟨o.switch, device⟩, o.writes, sent⟩

/-- The datagrams of one round of keepalives, in the order of the ports. -/
def keepalives (loop : EventLoop P) : List (P × Sent) :=
  loop.switch.ports.flatMap fun q => (loop.device q).keepalive.map fun d => (q, d)

def step (loop : EventLoop P) : LoopEvent P → Except Fault (Served P)
  | .timeout => .ok ⟨loop, [], loop.keepalives⟩
  | .reading r => loop.serve A w r

end EventLoop

namespace Device
variable (A : Aead) (w : SizeT)

/-- What a port accepts from what it finds: a TAP any frame, a socket what is framed by its
peer and, with a key, decrypts. -/
def accepted : Device → Recv → Option Bytes
  | _, .error => none
  | .tap, .datagram _ payload => some (payload.take maxFrameSize)
  | .udp u, .datagram src payload =>
    match u.key with
    | some key => UdpPort.opens A src payload maxFrameSize u.remoteAddr.addr key
    | none => UdpPort.accepts src payload maxFrameSize u.remoteAddr.addr

/-- The frame that enters the loop body, if one does; an empty one does not. -/
def frame (d : Device) (recv : Recv) : Option Bytes := (d.accepted A recv).filter (· ≠ [])

def keyed : Device → Bool
  | .tap => false
  | .udp u => u.key.isSome

private theorem read_accepted {d : Device} {recv : Recv} {f : Bytes}
    (h : d.accepted A recv = some f) :
    (d.read A w recv maxFrameSize).2 = ⟨f.length, f⟩ := by
  match d, recv, h with
  | .tap, .datagram _ payload, h =>
    cases h
    rfl
  | .udp u, .datagram src payload, h =>
    rcases hk : u.key with _ | key <;> simp only [accepted, hk] at h
    · simp only [read, UdpPort.read_plain A w u src payload maxFrameSize hk (by decide), h]
    · simp only [read, UdpPort.read_sealed A w u src payload maxFrameSize hk, h]

private theorem read_refused {d : Device} {recv : Recv} (h : d.accepted A recv = none) :
    (d.read A w recv maxFrameSize).2.ret ≤ 0 := by
  match d, recv, h with
  | .tap, .error, _ => exact Int.neg_nonpos_of_nonneg (by decide)
  | .udp u, .error, _ => simp [read, UdpPort.read_error]
  | .udp u, .datagram src payload, h =>
    rcases hk : u.key with _ | key <;> simp only [accepted, hk] at h
    · simp only [read, UdpPort.read_plain A w u src payload maxFrameSize hk (by decide), h]
      exact le_refl _
    · simp only [read, UdpPort.read_sealed A w u src payload maxFrameSize hk, h]
      exact le_refl _

theorem read_frame {d : Device} {recv : Recv} {f : Bytes} (h : d.frame A recv = some f) :
    (d.read A w recv maxFrameSize).2 = ⟨f.length, f⟩ ∧ 0 < f.length := by
  obtain ⟨haccepted, hne⟩ := Option.filter_eq_some_iff.mp h
  exact ⟨read_accepted A w haccepted, List.length_pos_iff.mpr (of_decide_eq_true hne)⟩

theorem read_no_frame {d : Device} {recv : Recv} (h : d.frame A recv = none) :
    (d.read A w recv maxFrameSize).2.ret ≤ 0 := by
  rcases ha : d.accepted A recv with _ | f
  · exact read_refused A w ha
  · have hempty : f = [] := by simpa [frame, ha] using h
    rw [read_accepted A w ha, hempty]
    decide

private theorem write_ok_iff (d : Device) (nonce : Nonce) (f : Bytes) :
    (∃ sent, d.write A nonce f = .ok sent) ↔ (d.keyed = true → f.length ≤ maxPlaintext) := by
  cases d with
  | tap => simp [write, keyed]
  | udp u =>
    rcases hk : u.key with _ | key
    · simp [write, keyed, hk, UdpPort.write_plain A u hk]
    · simp only [write, keyed, hk, UdpPort.write_sealed A u hk]
      by_cases hlong : maxPlaintext < f.length
      · simp [hlong]
      · simp [hlong, Nat.not_lt.mp hlong]

end Device

namespace EventLoop
variable {P : Type} [DecidableEq P] {A : Aead} {w : SizeT}

private theorem mapM_ok_iff {X Y : Type} {f : X → Except Fault Y} {xs : List X} :
    (∃ ys, xs.mapM f = .ok ys) ↔ ∀ x ∈ xs, ∃ y, f x = .ok y := by
  induction xs with
  | nil => simp [pure, Except.pure]
  | cons x xs ih =>
    rw [List.forall_mem_cons, ← ih, List.mapM_cons]
    simp only [bind_eq_ok]
    constructor
    · rintro ⟨-, y, hy, ys, hys, -⟩
      exact ⟨⟨y, hy⟩, ys, hys⟩
    · rintro ⟨⟨y, hy⟩, ys, hys⟩
      exact ⟨_, y, hy, ys, hys, rfl⟩

omit [DecidableEq P] in
theorem transmit_ok_iff (A : Aead) (device : P → Device) (nonces : P → Nonce)
    (writes : List (P × Bytes)) :
    (∃ sent, transmit A device nonces writes = .ok sent) ↔
      ∀ q f, (q, f) ∈ writes → (device q).keyed = true → f.length ≤ maxPlaintext := by
  have hpure {X Y : Type} {m : Except Fault X} {g : X → Y} :
      (∃ y, (do let x ← m; return g x : Except Fault Y) = .ok y) ↔ ∃ x, m = .ok x := by
    simp only [bind_eq_ok]
    exact ⟨fun ⟨_, x, hx, _⟩ => ⟨x, hx⟩, fun ⟨x, hx⟩ => ⟨_, x, hx, rfl⟩⟩
  unfold transmit
  rw [hpure, mapM_ok_iff, Prod.forall]
  refine forall₂_congr fun q f => imp_congr_right fun _ => ?_
  rw [← Device.write_ok_iff A (device q) (nonces q) f]
  exact hpure

/-- The ports after the read of an iteration. -/
def deviceAfter (A : Aead) (w : SizeT) (loop : EventLoop P) (r : Reading P) : P → Device := fun q =>
  if q = r.port then ((loop.device r.port).read A w r.recv maxFrameSize).1 else loop.device q

/-- A read that hands over no frame changes at most the port. -/
theorem serve_quiet {loop : EventLoop P} {r : Reading P}
    (h : (loop.device r.port).frame A r.recv = none) :
    loop.serve A w r = .ok ⟨⟨loop.switch, loop.deviceAfter A w r⟩, [], []⟩ := by
  simp only [serve, if_pos (Device.read_no_frame A w h)]
  rfl

theorem serve_frame {loop : EventLoop P} {r : Reading P} {f : Bytes}
    (h : (loop.device r.port).frame A r.recv = some f) :
    loop.serve A w r = (do
      let o ← loop.switch.processFrame f r.port r.now
      let sent ← transmit A (loop.deviceAfter A w r) r.nonces o.writes
      return ⟨⟨o.switch, loop.deviceAfter A w r⟩, o.writes, sent⟩) := by
  obtain ⟨hread, hpos⟩ := Device.read_frame A w h
  have hentered : ¬ ((f.length : Nat) : Int) ≤ 0 := by omega
  simp only [serve, hread, if_neg hentered]
  rfl

theorem serve_ok {loop : EventLoop P} {r : Reading P} {served : Served P}
    (h : loop.serve A w r = .ok served) :
    served.loop.device = loop.deviceAfter A w r ∧
      served.loop.switch.ports = loop.switch.ports := by
  rcases hf : (loop.device r.port).frame A r.recv with _ | f
  · rw [serve_quiet hf] at h
    cases h
    exact ⟨rfl, rfl⟩
  · rw [serve_frame hf, bind_eq_ok] at h
    obtain ⟨o, ho, h⟩ := h
    obtain ⟨sent, -, h⟩ := bind_eq_ok.mp h
    cases h
    obtain ⟨-, rfl⟩ := VirtualSwitch.processFrame_ok _ _ _ _ ho
    exact ⟨rfl, VirtualSwitch.switchFrame_ports _ _ _ _ _⟩

theorem deviceAfter_udp {loop : EventLoop P} {r : Reading P} {q : P}
    (h : ∃ u, loop.device q = .udp u) : ∃ u, loop.deviceAfter A w r q = .udp u := by
  obtain ⟨u, hu⟩ := h
  unfold deviceAfter
  split_ifs with hq
  · subst hq
    exact ⟨(u.read A w r.recv maxFrameSize).1, by rw [hu]; rfl⟩
  · exact ⟨u, hu⟩

/-- What the loop owes every event: it goes on, and a frame too short for an Ethernet
header leaves the tables and the ports alone. -/
def Handles (A : Aead) (w : SizeT) (loop : EventLoop P) (event : LoopEvent P) : Prop :=
  ∃ served, loop.step A w event = .ok served ∧
    ∀ r f, event = .reading r → (loop.device r.port).frame A r.recv = some f → f.length < 14 →
      served.loop.switch.macAddressTable = loop.switch.macAddressTable ∧
        served.loop.switch.ipToMac = loop.switch.ipToMac ∧ served.writes = []

/-- An event with no short frame and no frame longer than 1518 bytes that the tables send
out of a keyed port. -/
def Harmless (A : Aead) (loop : EventLoop P) : LoopEvent P → Prop
  | .timeout => True
  | .reading r => ∀ f, (loop.device r.port).frame A r.recv = some f →
    14 ≤ f.length ∧
      let mid := loop.switch.refresh (header f).srcMac r.port r.now
      mid.cachedAnswer f = none → ∀ q, mid.SendsTo (header f).dstMac r.port q →
        (loop.device q).keyed = true → f.length ≤ maxPlaintext

/-- The writes of the loop body fit exactly when the frame fits every keyed port it goes to. -/
theorem switchFrame_fits (loop : EventLoop P) (r : Reading P) (f : Bytes)
    {device : P → Device} (hd : ∀ q, q ≠ r.port → device q = loop.device q) :
    (∀ q d, (q, d) ∈ (loop.switch.switchFrame (header f) f r.port r.now).writes →
        (device q).keyed = true → d.length ≤ maxPlaintext) ↔
      let mid := loop.switch.refresh (header f).srcMac r.port r.now
      mid.cachedAnswer f = none → ∀ q, mid.SendsTo (header f).dstMac r.port q →
        (loop.device q).keyed = true → f.length ≤ maxPlaintext := by
  simp only
  rcases ha : (loop.switch.refresh (header f).srcMac r.port r.now).cachedAnswer f with _ | e
  · rw [VirtualSwitch.switchFrame_forwards _ _ _ _ _ (by
      rw [VirtualSwitch.switchFrame_answered, ha, Option.isSome_none])]
    simp only [VirtualSwitch.mem_forwardFrame, forall_const]
    constructor
    · intro h q hq hk
      exact h q f ⟨rfl, hq⟩ (hd q hq.1 ▸ hk)
    · rintro h q _ ⟨rfl, hq⟩ hk
      exact h q hq (hd q hq.1 ▸ hk)
  · rw [VirtualSwitch.switchFrame_replies _ _ _ _ _ ha]
    refine ⟨fun _ h => absurd h (by simp), fun _ q d hmem _ => ?_⟩
    obtain ⟨-, rfl⟩ := Prod.mk.inj (List.mem_singleton.mp hmem)
    rw [arpReplyFrame, build_length, ArpPacket.length_bytes]
    decide

/-- One event is handled exactly when it is harmless. -/
theorem handles_iff (loop : EventLoop P) (event : LoopEvent P) :
    loop.Handles A w event ↔ loop.Harmless A event := by
  cases event with
  | timeout => exact ⟨fun _ => trivial, fun _ => ⟨_, rfl, fun r f h => by cases h⟩⟩
  | reading r =>
    simp only [Handles, Harmless, step]
    rcases hf : (loop.device r.port).frame A r.recv with _ | f
    · rw [serve_quiet hf]
      refine ⟨fun _ f h => (by cases h), fun _ => ⟨_, rfl, ?_⟩⟩
      rintro r' f h hf'
      cases h
      rw [hf] at hf'
      cases hf'
    · have hd (q : P) (hq : q ≠ r.port) : loop.deviceAfter A w r q = loop.device q := if_neg hq
      have hfits := switchFrame_fits loop r f hd
      have hsent := transmit_ok_iff A (loop.deviceAfter A w r) r.nonces
        (loop.switch.switchFrame (header f) f r.port r.now).writes
      rw [serve_frame hf]
      rcases Nat.lt_or_ge f.length 14 with hshort | hlong
      · rw [VirtualSwitch.processFrame_short _ _ _ _ hshort]
        constructor
        · rintro ⟨served, h, -⟩
          cases h
        · exact fun h => absurd (h f rfl).1 (by omega)
      · rw [VirtualSwitch.processFrame_long _ _ _ _ hlong]
        constructor
        · rintro ⟨served, h, -⟩ f' hf'
          cases hf'
          obtain ⟨_, ho, h⟩ := bind_eq_ok.mp h
          cases ho
          obtain ⟨sent, ht, -⟩ := bind_eq_ok.mp h
          exact ⟨hlong, hfits.mp (hsent.mp ⟨sent, ht⟩)⟩
        · intro h
          obtain ⟨sent, ht⟩ := hsent.mpr (hfits.mpr (h f rfl).2)
          refine ⟨_, bind_eq_ok.mpr ⟨_, rfl, bind_eq_ok.mpr ⟨sent, ht, rfl⟩⟩, ?_⟩
          rintro r' f' h' hf' hshort
          cases h'
          rw [hf] at hf'
          cases hf'
          omega

def Goes (A : Aead) (w : SizeT) (loop : EventLoop P) (event : LoopEvent P) (loop' : EventLoop P) :
    Prop := ∃ served, loop.step A w event = .ok served ∧ served.loop = loop'

/-- `run` gets through all events and handles each of them. -/
def Survives (A : Aead) (w : SizeT) (loop : EventLoop P) (events : List (LoopEvent P)) : Prop :=
  (∃ last, Run (Goes A w) loop events last) ∧
    ∀ past event rest mid, events = past ++ event :: rest → Run (Goes A w) loop past mid →
      mid.Handles A w event

end EventLoop

/-- The switch survives a run exactly when every event is harmless in the state it meets. -/
theorem survives_iff {P : Type} [DecidableEq P] (A : Aead) (w : SizeT) (loop : EventLoop P)
    (events : List (LoopEvent P)) :
    loop.Survives A w events ↔
      ∀ past event rest mid, events = past ++ event :: rest →
        Run (EventLoop.Goes A w) loop past mid → mid.Harmless A event := by
  constructor
  · intro h past event rest mid hsplit hrun
    exact (EventLoop.handles_iff mid event).mp (h.2 past event rest mid hsplit hrun)
  · intro h
    have hhandles : ∀ past event rest mid, events = past ++ event :: rest →
        Run (EventLoop.Goes A w) loop past mid → mid.Handles A w event :=
      fun past event rest mid hsplit hrun =>
        (EventLoop.handles_iff mid event).mpr (h past event rest mid hsplit hrun)
    refine ⟨Run.exists_of_enabled fun past event rest mid hsplit hrun => ?_, hhandles⟩
    obtain ⟨served, hstep, -⟩ := hhandles past event rest mid hsplit hrun
    exact ⟨served.loop, served, hstep, rfl⟩

/-- Port 0 is a TAP, port 1 a socket without a key. One datagram of its peer, a length of
one and one byte, ends the switch. -/
theorem runt_ends_switch :
    let loop : EventLoop (Fin 2) := ⟨.create [0, 1] (by decide) 0, fun q =>
      if q = 0 then .tap else .udp ⟨⟨0x0a000002, 5000⟩, none⟩⟩
    let runt : Reading (Fin 2) :=
      ⟨1, .datagram ⟨0x0a000002, 5000⟩ [0, 0, 0, 1, 0xff], 0, fun _ _ => 0⟩
    (∃ what, loop.serve zeroTag .bits64 runt = .error (.invalidArgument what)) ∧
      ¬ loop.Survives zeroTag .bits64 [.reading runt] := by
  intro loop runt
  have hserve : loop.serve zeroTag .bits64 runt =
      .error (.invalidArgument "Raw frame too short for an ethernet frame") := rfl
  refine ⟨⟨_, hserve⟩, fun h => ?_⟩
  obtain ⟨served, hstep, -⟩ := h.2 [] _ [] loop rfl rfl
  rw [EventLoop.step, hserve] at hstep
  cases hstep

end VSwitch
