import VSwitch.Fabric.Loss
import VSwitch.Fabric.Wire

/-! The network of datagrams refines the network of frames: whatever happens to datagrams,
sealed or not, the switches and the TAP devices see a run in which frames travel as they are. -/
namespace VSwitch
open Lib EthernetFrame

private theorem filterMap_sublist {X Y : Type} {f g : X → Option Y} {l : List X}
    (h : ∀ x ∈ l, ∀ y, f x = some y → g x = some y) :
    (l.filterMap f).Sublist (l.filterMap g) := by
  induction l with
  | nil => exact List.Sublist.refl _
  | cons x l ih =>
    have hrest := ih fun x' hx' => h x' (List.mem_cons_of_mem _ hx')
    cases hf : f x with
    | none =>
      rw [List.filterMap_cons_none hf]
      cases hg : g x with
      | none => rwa [List.filterMap_cons_none hg]
      | some y =>
        rw [List.filterMap_cons_some hg]
        exact hrest.cons y
    | some y =>
      rw [List.filterMap_cons_some hf, List.filterMap_cons_some (h x List.mem_cons_self y hf)]
      exact hrest.cons_cons y

namespace Net
variable {V T : Type} [DecidableEq V] [DecidableEq T] {topo : Topology V T} {net : Net V T}

variable (topo) in
private theorem lose_run {gone keep : List (Copy V)} (h : net.flight.Perm (gone ++ keep)) :
    ∃ flight, Run (Steps topo) net (gone.map .lose) { net with flight } ∧ flight.Perm keep := by
  induction gone generalizing net with
  | nil => exact ⟨net.flight, rfl, h⟩
  | cons c gone ih =>
    have hc : c ∈ net.flight := h.mem_iff.mpr List.mem_cons_self
    have hrest : (net.take c).flight.Perm (gone ++ keep) := by
      have herased := h.erase c
      rwa [List.cons_append, List.erase_cons_head] at herased
    obtain ⟨flight, hrun, hkeep⟩ := ih hrest
    exact ⟨flight, ⟨net.take c, step_lose.mpr ⟨hc, rfl⟩, hrun⟩, hkeep⟩

end Net

section Carried
variable {V T : Type} {A : Aead} {wiring : Wiring V T} {v x : V} {u : UdpPort} {nonce : Nonce}
variable {f : Bytes} {tag : Option Nat}

namespace Wiring

private theorem carried_encapsulate (hA : A.Lawful) (hkey : u.key = wiring.key x) (hne : f ≠ [])
    (hfit : f.length ≤ maxFrame u.key) :
    wiring.carried A ⟨tag, v, x, u.encapsulate A nonce f⟩ = some ⟨tag.getD 0, v, x, f⟩ := by
  have hframe : (Device.udp ⟨wiring.remote x v, wiring.key x⟩).frame A
      (.datagram (wiring.remote x v) (u.encapsulate A nonce f)) = some f :=
    Device.frame_encapsulate hA hkey rfl hne hfit
  simp only [carried, device, hframe, Option.map_some]

private theorem carried_oversized (hk : u.key = none) (hkey : u.key = wiring.key x)
    (hlong : maxPacket - 4 < f.length) (hsmall : f.length ≤ maxFrameSize) :
    wiring.carried A ⟨tag, v, x, u.encapsulate A nonce f⟩ = none := by
  have hframe : (Device.udp ⟨wiring.remote x v, wiring.key x⟩).frame A
      (.datagram (wiring.remote x v) (u.encapsulate A nonce f)) = none :=
    Device.frame_oversized hk hkey hlong hsmall
  simp only [carried, device, hframe, Option.map_none]

private theorem carried_punch : wiring.carried A ⟨tag, v, x, [0, 0, 0, 0]⟩ = none := by
  have hframe := Device.frame_punch (A := A) (wiring.device x (.link v : NetPort V T)) nofun
    (wiring.remote x v)
  simp only [carried, hframe, Option.map_none]

end Wiring
end Carried

namespace Wire
variable {V T : Type} [DecidableEq V] [DecidableEq T] {A : Aead} {w : SizeT}
variable {wiring : Wiring V T} {wire wire' : Wire V T} {net net' : Net V T}

/-- The frames that the network is about, as `net` has them: the tables are the same, and the
copies in flight are what the datagrams in flight carry. -/
structure Shows (A : Aead) (wiring : Wiring V T) (wire : Wire V T) (net : Net V T) : Prop where
  devices : ∀ v q, (wiring.device v q).SamePeer ((wire.loops v).device q)
  switches : ∀ v, net.switches v = (wire.loops v).switch
  flight : net.flight.Perm (wire.flight.filterMap (wiring.carried A))
  writes : net.writes = wire.writes
  injected : net.injected = wire.injected
  answered : net.answered = wire.answered
  routed : Net.Routed wiring.topo net

variable {v x : V} {q : NetPort V T} {tag : Option Nat} {f : Bytes} {r : Reading (NetPort V T)}
variable {served : Served (NetPort V T)}

omit [DecidableEq T] in
/-- Taking a datagram out of flight takes out the copy that it carries, if any. -/
theorem Shows.take (h : Shows A wiring wire net) {p : Parcel V} (hp : p ∈ wire.flight) {c : Copy V}
    (hc : wiring.carried A p = some c) :
    c ∈ net.flight ∧ Shows A wiring (wire.take p) (net.take c) := by
  have hperm := h.flight.trans ((List.perm_cons_erase hp).filterMap (wiring.carried A))
  rw [List.filterMap_cons_some hc] at hperm
  have herased := hperm.erase c
  rw [List.erase_cons_head] at herased
  exact ⟨hperm.mem_iff.mpr List.mem_cons_self, h.devices, h.switches, herased, h.writes, h.injected,
    h.answered, h.routed.take c⟩

theorem read_eq_some :
    wire.read A w v tag r = some wire' ↔ ∃ served, (wire.loops v).serve A w r = .ok served ∧
      wire' = wire.absorb v tag ((wire.loops v).answers A w r) served := by
  rw [read, EventLoop.step]
  cases (wire.loops v).serve A w r with
  | error fault =>
    constructor
    · intro h
      cases h
    · rintro ⟨served, h, -⟩
      cases h
  | ok served =>
    constructor
    · intro h
      exact ⟨served, rfl, (Option.some.inj h).symm⟩
    · rintro ⟨served', h, rfl⟩
      cases h
      rfl

/-- A read that yields no frame shows nowhere. -/
theorem Shows.quiet (h : Shows A wiring wire net)
    (hr : wire.read A w v tag r = some wire')
    (hf : ((wire.loops v).device r.port).frame A r.recv = none) : Shows A wiring wire' net := by
  obtain ⟨served, hserve, rfl⟩ := read_eq_some.mp hr
  rw [EventLoop.serve_quiet hf] at hserve
  cases hserve
  rw [EventLoop.answers_quiet hf]
  refine ⟨fun u q => ?_, fun u => ?_, ?_, ?_, h.injected, h.answered, h.routed⟩
  · simp only [absorb]
    split_ifs with hu
    · subst hu
      exact EventLoop.samePeer_deviceAfter (h.devices u q)
    · exact h.devices u q
  · simp only [absorb]
    split_ifs with hu
    · subst hu
      exact h.switches u
    · exact h.switches u
  · simpa [absorb] using h.flight
  · simpa [absorb] using h.writes

/-- What becomes of a write of the loop body at `v`: the copy that its datagram carries. -/
def transit (A : Aead) (wiring : Wiring V T) (v : V) (tag : Option Nat)
    (device : NetPort V T → Device) (nonces : NetPort V T → Nonce) (x : NetPort V T × Bytes) :
    Option (Copy V) :=
  (((device x.1).datagram A (nonces x.1) x.2).map fun d => (x.1, d)).bind fun y =>
    (parcel v tag y).bind (wiring.carried A)

omit [DecidableEq V] [DecidableEq T] in
private theorem filterMap_transit (device : NetPort V T → Device) (nonces : NetPort V T → Nonce)
    (writes : List (NetPort V T × Bytes)) :
    ((EventLoop.datagrams A device nonces writes).filterMap (parcel v tag)).filterMap
      (wiring.carried A) = writes.filterMap (transit A wiring v tag device nonces) := by
  rw [EventLoop.datagrams, List.filterMap_filterMap, List.filterMap_filterMap]
  rfl

omit [DecidableEq V] [DecidableEq T] in
private theorem transit_eq (hA : A.Lawful) (hmatched : wiring.Matched)
    {device : NetPort V T → Device}
    {nonces : NetPort V T → Nonce} (hdevice : ∀ q, (wiring.device v q).SamePeer (device q))
    {d : Bytes} (hq : q ∈ wiring.topo.ports v) (hne : d ≠ [])
    (hsmall : wiring.key v = none → d.length ≤ maxFrameSize)
    (hkeyed : (device q).keyed = true → d.length ≤ maxPlaintext) :
    transit A wiring v tag device nonces (q, d) =
      if wiring.key v = none → d.length ≤ maxPacket - 4 then Net.departure v (tag.getD 0) (q, d)
      else none := by
  have hsame := hdevice q
  cases q with
  | tap t =>
    have hnone : transit A wiring v tag device nonces (.tap t, d) = none := by
      rw [transit]
      cases (device (.tap t)).datagram A (nonces (.tap t)) d <;> rfl
    rw [hnone]
    split_ifs <;> rfl
  | link y =>
    obtain ⟨u, hu⟩ : ∃ u, device (.link y) = .udp u := by
      cases hd : device (.link y) with
      | tap =>
        rw [hd] at hsame
        exact absurd hsame id
      | udp u => exact ⟨u, rfl⟩
    rw [hu] at hsame hkeyed
    have hkey : u.key = wiring.key v := hsame.1.symm
    have hends : u.key = wiring.key y := hkey.trans (hmatched v y (wiring.topo.link_mem.mp hq))
    have hsent : transit A wiring v tag device nonces (.link y, d) =
        wiring.carried A ⟨tag, v, y, u.encapsulate A (nonces (.link y)) d⟩ := by
      simp only [transit, hu, Device.datagram, Option.map_some, Option.bind_some, parcel]
    rw [hsent]
    split_ifs with hfit
    · rw [Wiring.carried_encapsulate hA hends hne]
      · rfl
      · rw [maxFrame]
        split_ifs with hk
        · exact hkeyed hk
        · exact hfit (hkey ▸ Option.not_isSome_iff_eq_none.mp hk)
    · rw [Classical.not_imp] at hfit
      exact Wiring.carried_oversized (hkey.trans hfit.1) hends (by omega) (hsmall hfit.1)

/-- A read that yields a frame: the switch of the other network receives that frame, and the
copies that are too long for a datagram are lost. -/
theorem Shows.frame (hA : A.Lawful) (hmatched : wiring.Matched) (h : Shows A wiring wire net)
    (hport : r.port ∈ wiring.topo.ports v)
    (hsmall : wiring.key v = none → f.length ≤ maxFrameSize)
    (hr : wire.read A w v tag r = some wire')
    (hf : ((wire.loops v).device r.port).frame A r.recv = some f) :
    ∃ mid gone flight, net.receive v r.port (tag.getD 0) f r.now = some mid ∧
      Run (Net.Steps wiring.topo) mid (gone.map .lose) { mid with flight } ∧
      Shows A wiring wire' { mid with flight } ∧
      ((wiring.key v = none → f.length ≤ maxPacket - 4) → gone = []) := by
  obtain ⟨served, hserve, hwire⟩ := read_eq_some.mp hr
  obtain ⟨hlen, hanswers, hserved, hkeyed⟩ := EventLoop.serve_frame_ok hf hserve
  rw [← h.switches v] at hanswers hserved hkeyed
  let o := (net.switches v).switchFrame (header f) f r.port r.now
  let mid := net.absorb v (tag.getD 0) o
  let device := (wire.loops v).deviceAfter A w r
  let transits := o.writes.filterMap (transit A wiring v tag device r.nonces)
  have hdevice (q : NetPort V T) : (wiring.device v q).SamePeer (device q) :=
    EventLoop.samePeer_deviceAfter (h.devices v q)
  have hsize : maxFrameSize = 1600 := rfl
  have hpacket : maxPacket - 4 = 1558 := rfl
  have hlength : ∀ y ∈ o.writes, 14 ≤ y.2.length ∧ y.2.length ≤ max f.length 42 := by
    rintro ⟨q, d⟩ hy
    rcases VirtualSwitch.mem_switchFrame_writes _ _ _ _ _ hy with ⟨rfl, -⟩ | ⟨-, e, -, rfl⟩
    · exact ⟨hlen, Nat.le_max_left _ _⟩
    · rw [length_arpReplyFrame]
      omega
  have hwrite : ∀ y ∈ o.writes, transit A wiring v tag device r.nonces y =
      if wiring.key v = none → y.2.length ≤ maxPacket - 4 then Net.departure v (tag.getD 0) y
      else none := by
    rintro ⟨q, d⟩ hy
    obtain ⟨hlow, hhigh⟩ := hlength _ hy
    simp only at hlow hhigh
    exact transit_eq hA hmatched hdevice (h.routed.mem_writes hport hy)
      (List.ne_nil_of_length_pos (by omega))
      (fun hk => hhigh.trans (max_le (hsmall hk) (by decide))) (hkeyed q d hy)
  have hsub : transits.Sublist (o.writes.filterMap (Net.departure v (tag.getD 0))) := by
    apply filterMap_sublist
    intro y hy c hc
    rw [hwrite y hy, Option.ite_none_right_eq_some] at hc
    exact hc.2
  have hall (hfit : wiring.key v = none → f.length ≤ maxPacket - 4) :
      transits = o.writes.filterMap (Net.departure v (tag.getD 0)) := by
    apply List.filterMap_congr
    intro y hy
    have hhigh := (hlength y hy).2
    rw [hwrite y hy, if_pos]
    intro hk
    have hshort := hfit hk
    omega
  obtain ⟨gone, hgone⟩ := hsub.exists_perm_append
  have hperm : mid.flight.Perm (gone ++ (net.flight ++ transits)) := by
    have hlost := hgone.append_left net.flight
    rw [← List.append_assoc] at hlost
    exact hlost.trans List.perm_append_comm
  obtain ⟨flight, hrun, hkeep⟩ := Net.lose_run wiring.topo hperm
  refine ⟨mid, gone, flight, ?_, hrun, ?_, ?_⟩
  · exact Net.receive_long hlen
  · subst hwire
    refine ⟨fun u q => ?_, fun u => ?_, ?_, ?_, h.injected, ?_, ?_⟩
    · simp only [absorb]
      split_ifs with hu
      · subst hu
        rw [hserved]
        exact hdevice q
      · exact h.devices u q
    · simp only [absorb, mid, Net.absorb]
      split_ifs with hu
      · subst hu
        rw [hserved]
      · exact h.switches u
    · refine hkeep.trans ?_
      simp only [absorb, hserved, List.filterMap_append, filterMap_transit]
      exact h.flight.append_right _
    · simp only [absorb, hserved, mid, Net.absorb, h.writes]
      rfl
    · simp only [absorb, hanswers, mid, Net.absorb, h.answered]
      rfl
    · have hmid : Net.Routed wiring.topo mid := h.routed.absorb hport
      refine ⟨hmid.ports, hmid.table, fun c hc => ?_⟩
      have hmem : c ∈ mid.flight := hperm.mem_iff.mpr
        (List.mem_append_right _ (hkeep.mem_iff.mp hc))
      exact hmid.flight c hmem
  · intro hfit
    have hlengths := hgone.length_eq
    rw [hall hfit, List.length_append] at hlengths
    exact List.length_eq_zero_iff.mp (by omega)

omit [DecidableEq V] [DecidableEq T] in
/-- A timeout puts nothing but punches on the links. -/
theorem eq_punch_of_mem {loop : EventLoop (NetPort V T)} {p : Parcel V}
    (hp : p ∈ loop.keepalives.filterMap (parcel v none)) :
    ∃ x, p = ⟨none, v, x, [0, 0, 0, 0]⟩ := by
  obtain ⟨⟨q, sent⟩, hsent, hparcel⟩ := List.mem_filterMap.mp hp
  obtain ⟨q', -, hq'⟩ := List.mem_flatMap.mp hsent
  obtain ⟨d, hd, hsame⟩ := List.mem_map.mp hq'
  cases hsame
  cases q with
  | tap t => cases hparcel
  | link x =>
    cases hparcel
    cases hdevice : loop.device (.link x) with
    | tap =>
      rw [hdevice] at hd
      cases hd
    | udp u =>
      rw [hdevice] at hd
      rw [List.eq_of_mem_replicate hd]
      exact ⟨x, rfl⟩

omit [DecidableEq T] in
/-- A punch shows nowhere. -/
theorem Shows.timeout (h : Shows A wiring wire net) (v : V) :
    Shows A wiring (wire.absorb v none false ⟨wire.loops v, [], (wire.loops v).keepalives⟩) net := by
  have hloops : (wire.absorb v none false
      ⟨wire.loops v, [], (wire.loops v).keepalives⟩).loops = wire.loops := by
    funext u
    simp only [absorb]
    split_ifs with hu
    · rw [hu]
    · rfl
  have hpunches : (((wire.loops v).keepalives.filterMap (parcel v none)).filterMap
      (wiring.carried A)) = [] := by
    apply List.filterMap_eq_nil_iff.mpr
    intro p hp
    obtain ⟨x, rfl⟩ := eq_punch_of_mem hp
    exact Wiring.carried_punch
  refine ⟨fun u q => ?_, fun u => ?_, ?_, ?_, h.injected, h.answered, h.routed⟩
  · rw [hloops]
    exact h.devices u q
  · rw [hloops]
    exact h.switches u
  · simp only [absorb, List.filterMap_append, hpunches, List.append_nil]
    exact h.flight
  · simpa [absorb] using h.writes

omit [DecidableEq V] [DecidableEq T] in
/-- What the port of a link hands over for a datagram in flight. -/
theorem frame_of_carried
    (hdevices : ∀ v q, (wiring.device v q).SamePeer ((wire.loops v).device q)) (p : Parcel V)
    (srcPort : UInt16) :
    (((wire.loops p.dst).device (.link p.src)).frame A
      (.datagram ⟨(wiring.remote p.dst p.src).addr, srcPort⟩ p.payload)).map
        (fun frame => ⟨p.tag.getD 0, p.src, p.dst, frame⟩) = wiring.carried A p := by
  have haddr : (wiring.remote p.dst p.src).addr =
      (SockAddr.mk (wiring.remote p.dst p.src).addr srcPort).addr := rfl
  rw [Wiring.carried, (hdevices p.dst (.link p.src)).frame haddr]

end Wire

section Results
variable {V T : Type} [DecidableEq V] [DecidableEq T] {A : Aead} {w : SizeT}
variable {wiring : Wiring V T} {now : V → Int} {actions : List (WireAction V T)} {wire : Wire V T}

end Results

section SealedPair

/-- Two switches that share a key, each with the address of the other. -/
def sealedPair : Wiring (Fin 2) Unit where
  topo := pair
  key := fun _ => some fun _ => 7
  remote := fun _ peer => ⟨if peer.val = 0 then 0x0a000001 else 0x0a000002, 5000⟩

def greeting : Bytes := EthernetFrame.build (fun _ => 0xff) ![2, 0, 0, 0, 0, 7] 0x0800 []

/-- The broadcast, a punch that arrives, a datagram from a stranger, and the broadcast again as
it arrives sealed, from a port that a NAT has chosen. -/
theorem greeting_run :
    let sealedGreeting := UdpPort.sealedPacket zeroTag.encrypt (fun _ => 7) (fun _ => 1) greeting
    ∃ wire, Run (Wire.Steps zeroTag .bits64 sealedPair) (Wire.start sealedPair fun _ => 0)
        [.inject ⟨0, (), greeting⟩ 0 fun _ _ => 1, .timeout 1,
          .deliver ⟨none, 1, 0, [0, 0, 0, 0]⟩ 5000 1 fun _ _ => 0,
          .stray 1 (.link 0) (.datagram ⟨0x7f000001, 9⟩ (0 :: greeting)),
          .deliver ⟨some 0, 0, 1, sealedGreeting⟩ 31337 1 fun _ _ => 2] wire ∧
      wire.injected = [⟨0, (), greeting⟩] ∧ wire.flight = [] := by
  intro sealedGreeting
  obtain ⟨wire, hrun, hcheck⟩ := Run.exists_of_check (Wire.step zeroTag .bits64 sealedPair)
    (Wire.start sealedPair fun _ => 0)
    [.inject ⟨0, (), greeting⟩ 0 fun _ _ => 1, .timeout 1,
      .deliver ⟨none, 1, 0, [0, 0, 0, 0]⟩ 5000 1 fun _ _ => 0,
      .stray 1 (.link 0) (.datagram ⟨0x7f000001, 9⟩ (0 :: greeting)),
      .deliver ⟨some 0, 0, 1, sealedGreeting⟩ 31337 1 fun _ _ => 2]
    (fun wire => wire.injected = [⟨0, (), greeting⟩] ∧ wire.flight = []) (by decide +kernel)
  exact ⟨wire, hrun, of_decide_eq_true hcheck⟩

end SealedPair
end VSwitch
