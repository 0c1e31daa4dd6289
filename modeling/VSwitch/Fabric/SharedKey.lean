import VSwitch.Fabric.Origin
import VSwitch.Network.SecureLink
import VSwitch.Switch.Datagrams

/-! Switches that share a key, on a network that belongs to an adversary: it hands any datagram
to any socket at any time, but cannot encrypt. The cipher is ideal. -/
namespace VSwitch
open Lib EthernetFrame

def Device.handed : Device → Recv → List Bytes
  | .tap, .datagram _ payload => [payload.take maxFrameSize]
  | _, _ => []

/-- The loops of the switches. The rest is history: everything encrypted, and the frames that
TAP devices have handed over and been given. -/
structure Fleet (V P : Type) where
  loops : V → EventLoop P
  produced : List (Nonce × Bytes)
  entered : List Bytes
  left : List Bytes

/-- How the programs are started. Every socket has the key. -/
structure Muster (V P : Type) (key : Key) where
  ports : V → List P
  ports_nodup : ∀ v, (ports v).Nodup
  device : V → P → Device
  keyed : ∀ v q u, device v q = .udp u → u.key = some key

namespace Fleet
variable {V P : Type} [DecidableEq V] [DecidableEq P] {key : Key}

def start (muster : Muster V P key) (now : V → Int) : Fleet V P :=
  ⟨fun v => ⟨.create (muster.ports v) (muster.ports_nodup v) (now v), muster.device v⟩, [], [], []⟩

/-- The loop of switch `v` is done with a read. -/
def absorb (fleet : Fleet V P) (v : V) (r : Reading P) (served : Served P) : Fleet V P where
  loops := fun u => if u = v then served.loop else fleet.loops u
  produced := fleet.produced ++ served.writes.filterMap fun (q, f) =>
    if (served.loop.device q).keyed then some (r.nonces q, f) else none
  entered := fleet.entered ++ ((fleet.loops v).device r.port).handed r.recv
  left := fleet.left ++ served.writes.filterMap fun (q, f) =>
    if served.loop.device q = .tap then some f else none

variable (encrypt : Key → Nonce → Bytes → Bytes) (key) (w : SizeT)

/-- One event at one switch. A timeout sends punches and changes nothing; a fault ends the
run. -/
def step (fleet : Fleet V P) : V × LoopEvent P → Option (Fleet V P)
  | (_, .timeout) => some fleet
  | (v, .reading r) =>
    match (fleet.loops v).serve (Aead.ideal encrypt key fleet.produced) w r with
    | .error _ => none
    | .ok served => some (fleet.absorb v r served)

def Steps (fleet : Fleet V P) (event : V × LoopEvent P) (fleet' : Fleet V P) : Prop :=
  fleet.step key encrypt w event = some fleet'

variable {encrypt key w} {muster : Muster V P key} {fleet fleet' : Fleet V P} {v : V}
variable {event : V × LoopEvent P} {r : Reading P}

/-- The switches know, encrypt and hand over what the hosts have sent, and answers made of it. -/
structure Sound (muster : Muster V P key) (fleet : Fleet V P) : Prop where
  devices : ∀ v q, (muster.device v q).SamePeer ((fleet.loops v).device q)
  produced : ∀ e ∈ fleet.produced, Genuine fleet.entered e.2
  caches : ∀ v, (fleet.loops v).switch.Informed fleet.entered
  tables : ∀ v s e, (fleet.loops v).switch.macAddressTable s = some e →
    ∃ f, Genuine fleet.entered f ∧ macToString (header f).srcMac = s
  left : ∀ f ∈ fleet.left, Genuine fleet.entered f

omit [DecidableEq V] [DecidableEq P] in
private theorem sound_start (now : V → Int) : Sound muster (start muster now) where
  devices := fun _ _ => .refl _
  produced := fun _ h => absurd h List.not_mem_nil
  caches := fun _ _ _ h => by cases h
  tables := fun _ _ _ h => by cases h
  left := fun _ h => absurd h List.not_mem_nil

omit [DecidableEq V] [DecidableEq P] in
/-- What enters a loop body comes from a TAP or has been encrypted. -/
theorem Sound.frame (h : Sound muster fleet) {f : Bytes}
    (hf : ((fleet.loops v).device r.port).frame (Aead.ideal encrypt key fleet.produced) r.recv =
      some f) :
    Genuine (fleet.entered ++ ((fleet.loops v).device r.port).handed r.recv) f := by
  have hsame := h.devices v r.port
  have haccepted := (Option.filter_eq_some_iff.mp hf).1
  generalize r.recv = recv at haccepted ⊢
  cases recv with
  | error => cases haccepted
  | datagram src payload =>
    cases hd : (fleet.loops v).device r.port with
    | tap =>
      rw [hd] at haccepted
      cases haccepted
      exact .inl (List.mem_append_right _ (List.mem_singleton_self _))
    | udp u =>
      rw [hd] at hsame haccepted
      have hk : u.key = some key := by
        cases hm : muster.device v r.port with
        | tap =>
          rw [hm] at hsame
          exact absurd hsame id
        | udp u₀ =>
          rw [hm] at hsame
          exact hsame.1.symm.trans (muster.keyed v r.port u₀ hm)
      simp only [Device.accepted, hk] at haccepted
      obtain ⟨-, nonce, hmem, -⟩ := UdpPort.opens_ideal haccepted
      exact (h.produced _ hmem).mono (List.subset_append_left _ _)

/-- A read keeps everything sound, whatever it finds. -/
theorem Sound.absorb (h : Sound muster fleet) {served : Served P}
    (hserve : (fleet.loops v).serve (Aead.ideal encrypt key fleet.produced) w r = .ok served) :
    Sound muster (fleet.absorb v r served) := by
  let more := fleet.entered ++ ((fleet.loops v).device r.port).handed r.recv
  have hsub : fleet.entered ⊆ more := List.subset_append_left _ _
  have hserved : (∀ q, (muster.device v q).SamePeer (served.loop.device q)) ∧
      served.loop.switch.Informed more ∧
      (∀ s e, served.loop.switch.macAddressTable s = some e →
        ∃ f, Genuine more f ∧ macToString (header f).srcMac = s) ∧
      ∀ q d, (q, d) ∈ served.writes → Genuine more d := by
    have hdevice (q : P) : (muster.device v q).SamePeer
        ((fleet.loops v).deviceAfter (Aead.ideal encrypt key fleet.produced) w r q) :=
      EventLoop.samePeer_deviceAfter (h.devices v q)
    have hcaches := (h.caches v).mono hsub
    have htables (s : String) (e : MacEntry P)
        (he : (fleet.loops v).switch.macAddressTable s = some e) :
        ∃ f, Genuine more f ∧ macToString (header f).srcMac = s := by
      obtain ⟨f, hf, hs⟩ := h.tables v s e he
      exact ⟨f, hf.mono hsub, hs⟩
    cases hframe : ((fleet.loops v).device r.port).frame
        (Aead.ideal encrypt key fleet.produced) r.recv with
    | none =>
      rw [EventLoop.serve_quiet hframe] at hserve
      cases hserve
      exact ⟨hdevice, hcaches, htables, fun _ _ hw => absurd hw List.not_mem_nil⟩
    | some f =>
      have hgenuine : Genuine more f := h.frame hframe
      obtain ⟨-, -, hserved, -⟩ := EventLoop.serve_frame_ok hframe hserve
      obtain ⟨hinformed, hwrites⟩ := hcaches.switchFrame hgenuine r.port r.now
      subst hserved
      refine ⟨hdevice, hinformed, fun s e he => ?_, hwrites⟩
      simp only [VirtualSwitch.switchFrame_eq, VirtualSwitch.cacheFrom_macAddressTable] at he
      rcases VirtualSwitch.refresh_eq_some _ _ _ he with ⟨rfl, -⟩ | ⟨-, hold⟩
      · exact ⟨f, hgenuine, rfl⟩
      · exact htables s e hold
  obtain ⟨hdevice, hinformed, htables, hwrites⟩ := hserved
  refine ⟨fun u q => ?_, fun e he => ?_, fun u => ?_, fun u s e he => ?_, fun f hf => ?_⟩
  · simp only [Fleet.absorb]
    split_ifs with hu
    · exact hu ▸ hdevice q
    · exact h.devices u q
  · rcases List.mem_append.mp he with hold | hnew
    · exact (h.produced e hold).mono hsub
    · obtain ⟨⟨q, d⟩, hw, hsealed⟩ := List.mem_filterMap.mp hnew
      obtain ⟨-, hsame⟩ := Option.ite_none_right_eq_some.mp hsealed
      cases hsame
      exact hwrites q d hw
  · change VirtualSwitch.Informed (if u = v then served.loop else fleet.loops u).switch more
    split_ifs
    · exact hinformed
    · exact (h.caches u).mono hsub
  · simp only [Fleet.absorb] at he
    split_ifs at he
    · exact htables s e he
    · obtain ⟨f, hf, hs⟩ := h.tables u s e he
      exact ⟨f, hf.mono hsub, hs⟩
  · rcases List.mem_append.mp hf with hold | hnew
    · exact (h.left f hold).mono hsub
    · obtain ⟨⟨q, d⟩, hw, htap⟩ := List.mem_filterMap.mp hnew
      obtain ⟨-, hsame⟩ := Option.ite_none_right_eq_some.mp htap
      cases hsame
      exact hwrites q _ hw

theorem Sound.step (h : Sound muster fleet) (hstep : fleet.step key encrypt w event = some fleet') :
    Sound muster fleet' := by
  obtain ⟨v, event⟩ := event
  cases event with
  | timeout =>
    cases hstep
    exact h
  | reading r =>
    rw [Fleet.step] at hstep
    cases hserve : (fleet.loops v).serve (Aead.ideal encrypt key fleet.produced) w r with
    | error fault =>
      rw [hserve] at hstep
      cases hstep
    | ok served =>
      rw [hserve] at hstep
      cases hstep
      exact h.absorb hserve

end Fleet

/-- Nobody without the key gets a frame, a cache entry or a table entry into a group of switches
that share one. Whatever datagrams an adversary makes up, replays, reflects or sends to another
switch, a host is given nothing but what hosts have sent and replies that repeat what a host
has announced; so ARP cannot be poisoned from outside. -/
theorem shared_key_keeps_out {V P : Type} [DecidableEq V] [DecidableEq P]
    (encrypt : Key → Nonce → Bytes → Bytes) {key : Key} (w : SizeT) (muster : Muster V P key)
    {now : V → Int} {events : List (V × LoopEvent P)} {fleet : Fleet V P}
    (hrun : Run (Fleet.Steps key encrypt w) (Fleet.start muster now) events fleet) :
    (∀ f ∈ fleet.left, Genuine fleet.entered f) ∧
    (∀ e ∈ fleet.produced, Genuine fleet.entered e.2) ∧
    (∀ v s e, (fleet.loops v).switch.macAddressTable s = some e →
      ∃ f, Genuine fleet.entered f ∧ macToString (header f).srcMac = s) ∧
    (∀ v ip e, (fleet.loops v).switch.ipToMac ip = some e → Told fleet.entered ip e.mac) ∧
    ∀ owner, Truthful owner fleet.entered → Truthful owner fleet.left ∧
      ∀ v ip e, (fleet.loops v).switch.ipToMac ip = some e → ip ≠ 0 ∧ e.mac = owner ip := by
  have h : Fleet.Sound muster fleet :=
    hrun.invariant (fun hs hstep => hs.step hstep) (Fleet.sound_start now)
  exact ⟨h.left, h.produced, h.tables, h.caches, fun owner htruth =>
    ⟨truthful_of_genuine htruth h.left, fun v ip e he => (h.caches v ip e he).owner htruth⟩⟩

section TwoRooms

/-- Two switches with a TAP (`false`) and a socket with a key (`true`) each. -/
def twoRooms : Muster Bool Bool (fun _ => 7) where
  ports := fun _ => [false, true]
  ports_nodup := by decide
  device := fun v q =>
    if q then .udp ⟨⟨if v then 0x0a000001 else 0x0a000002, 5000⟩, some fun _ => 7⟩ else .tap
  keyed := by
    intro v q u h
    cases q
    · cases h
    · cases h
      rfl

/-- A host announces itself. The adversary plays the datagram to both switches and makes up
another, which claims the address. -/
theorem shared_key_keeps_out_poison :
    let hello := arpFrame arpReply ![2, 0, 0, 0, 0, 7] ![10, 0, 0, 7] ![10, 0, 0, 7]
    let poison := arpFrame arpReply ![6, 6, 6, 6, 6, 6] ![10, 0, 0, 7] ![10, 0, 0, 7]
    let sealedHello := UdpPort.sealedPacket zeroTag.encrypt (fun _ => 7) (fun _ => 1) hello
    let forged := UdpPort.sealedPacket zeroTag.encrypt (fun _ => 7) (fun _ => 1) poison
    ∃ fleet, Run (Fleet.Steps (fun _ => 7) zeroTag.encrypt .bits64)
        (Fleet.start twoRooms fun _ => 0)
        [(false, .reading ⟨false, .datagram ⟨0, 0⟩ hello, 0, fun _ _ => 1⟩),
          (true, .reading ⟨true, .datagram ⟨0x0a000001, 9⟩ forged, 1, fun _ _ => 2⟩),
          (true, .reading ⟨true, .datagram ⟨0x0a000001, 9⟩ sealedHello, 2, fun _ _ => 2⟩),
          (false, .reading ⟨true, .datagram ⟨0x0a000002, 9⟩ sealedHello, 3, fun _ _ => 3⟩)] fleet ∧
      fleet.left = [hello, hello] ∧ ∀ v e,
        (fleet.loops v).switch.ipToMac ![10, 0, 0, 7] = some e → e.mac = ![2, 0, 0, 0, 0, 7] := by
  intro hello poison sealedHello forged
  obtain ⟨fleet, hrun, hcheck⟩ := Run.exists_of_check
    (Fleet.step (fun _ => 7) zeroTag.encrypt .bits64) (Fleet.start twoRooms fun _ => 0)
    [(false, .reading ⟨false, .datagram ⟨0, 0⟩ hello, 0, fun _ _ => 1⟩),
      (true, .reading ⟨true, .datagram ⟨0x0a000001, 9⟩ forged, 1, fun _ _ => 2⟩),
      (true, .reading ⟨true, .datagram ⟨0x0a000001, 9⟩ sealedHello, 2, fun _ _ => 2⟩),
      (false, .reading ⟨true, .datagram ⟨0x0a000002, 9⟩ sealedHello, 3, fun _ _ => 3⟩)]
    (fun fleet => fleet.entered = [hello] ∧ fleet.left = [hello, hello]) (by decide +kernel)
  obtain ⟨hentered, hleft⟩ := of_decide_eq_true hcheck
  have htruth : Truthful (fun ip => ![2, 0, 0, 0, 0, ip 3]) fleet.entered := by
    rw [hentered]
    decide
  refine ⟨fleet, hrun, hleft, fun v e he => ?_⟩
  exact (((shared_key_keeps_out zeroTag.encrypt .bits64 twoRooms hrun).2.2.2.2 _ htruth).2
    v _ e he).2

end TwoRooms

end VSwitch
