import Mathlib.Data.Fintype.Card
import VSwitch.Fabric.Loss
import VSwitch.Fabric.Origin
import VSwitch.Lib.TreeRoutes

/-! A tree of switches calms down: what a frame can still cause is bounded by the part of the
tree that its copies have before them, also when questions are answered on the way. -/
namespace VSwitch
open Lib EthernetFrame

def NetPort.isLink {V T : Type} : NetPort V T → Bool
  | .tap _ => false
  | .link _ => true

def NetAction.settles {V T : Type} : NetAction V T → Bool
  | .inject _ _ => false
  | .duplicate _ => false
  | _ => true

def NetAction.isDelivery {V T : Type} : NetAction V T → Bool
  | .deliver _ _ => true
  | _ => false

namespace Net
variable {V T : Type} [DecidableEq V] [DecidableEq T] [Fintype V]

/-- How often copies of frame `tag`, or answers to it, were written to links. -/
def linkWrites (net : Net V T) (tag : Nat) : Nat :=
  net.writes.countP fun x => x.tag = tag ∧ x.port.isLink

/-- How many copies of frame `tag` are on their way. -/
def copiesOf (net : Net V T) (tag : Nat) : Nat := net.flight.countP fun c => c.tag = tag

/-- How many answers each copy of a frame may lead to, or one. -/
def share (V : Type) [Fintype V] (data : Bytes) : Nat := if IsQuery data then Fintype.card V else 1

/-- How many link writes a copy can still lead to, the one behind it included. -/
noncomputable def weight (G : SimpleGraph V) (c : Copy V) : Nat :=
  share V c.data * (farSide G c.src c.dst).card

noncomputable def potential (topo : Topology V T) (net : Net V T) (tag : Nat) : Nat :=
  ((net.flight.filter fun c => c.tag = tag).map (weight topo.graph)).sum

variable {topo : Topology V T} {net net' : Net V T} {a : NetAction V T}
variable {v x : V} {source : NetPort V T} {k tag : Nat} {data : Bytes} {now : Int} {c : Copy V}

omit [DecidableEq V] in
private theorem one_le_share (v : V) (data : Bytes) : 1 ≤ share V data := by
  unfold share
  split_ifs
  · exact Fintype.card_pos_iff.mpr ⟨v⟩
  · exact le_refl 1

omit [DecidableEq V] [DecidableEq T] in
private theorem one_le_weight (hadj : topo.graph.Adj c.src c.dst) : 1 ≤ weight topo.graph c :=
  Nat.mul_pos (one_le_share c.src _) (card_farSide_add hadj).2

variable (v tag) in
omit [DecidableEq V] [DecidableEq T] [Fintype V] in
private theorem nodup_departures {writes : List (NetPort V T × Bytes)}
    (h : (writes.map Prod.fst).Nodup) :
    ((writes.filterMap (departure v tag)).map Copy.dst).Nodup := by
  induction writes with
  | nil => exact List.nodup_nil
  | cons write writes ih =>
    obtain ⟨port, d⟩ := write
    obtain ⟨hport, hrest⟩ := List.nodup_cons.mp h
    cases port with
    | tap t => exact ih hrest
    | link w =>
      refine List.nodup_cons.mpr ⟨fun hmem => ?_, ih hrest⟩
      obtain ⟨c, hc, rfl⟩ := List.mem_map.mp hmem
      exact hport (List.mem_map.mpr ⟨_, (mem_departures.mp hc).2.2, rfl⟩)

variable (tag) in
private theorem weight_forwarded (hG : topo.graph.IsTree) (h : Routed topo net)
    (hsource : source ∈ topo.ports v) {S : Finset V} (hv : v ∈ S)
    (hsub : ∀ x, topo.graph.Adj v x → .link x ≠ source → farSide topo.graph v x ⊆ S)
    (hno : ((net.switches v).switchFrame (header data) data source now).answered = false) :
    ((((net.switches v).switchFrame (header data) data source now).writes.filterMap
      (departure v tag)).map (weight topo.graph)).sum + share V data ≤ share V data * S.card := by
  let mid := (net.switches v).refresh (header data).srcMac source now
  let copies := (mid.forwardFrame (header data) data source).filterMap (departure v tag)
  have hwrites := VirtualSwitch.switchFrame_forwards _ _ _ _ _ hno
  have hcopies : ∀ c ∈ copies, c.src = v ∧ c.data = data ∧ topo.graph.Adj v c.dst ∧
      .link c.dst ≠ source := by
    intro c hc
    obtain ⟨-, hsrc, hw⟩ := mem_departures.mp hc
    obtain ⟨hdata, hs⟩ := (VirtualSwitch.mem_forwardFrame _ _ _ _).mp hw
    rw [← hwrites] at hw
    exact ⟨hsrc, hdata, topo.link_mem.mp (h.mem_writes hsource hw), hs.1⟩
  have hsum : (copies.map (weight topo.graph)).sum =
      share V data * ((copies.map Copy.dst).map fun x => (farSide topo.graph v x).card).sum := by
    rw [List.map_map, ← List.sum_map_mul_left]
    congr 1
    apply List.map_congr_left
    intro c hc
    obtain ⟨hsrc, hdata, -⟩ := hcopies c hc
    rw [weight, hsrc, hdata]
    rfl
  have hless := sum_card_farSide_lt hG (nodup_departures v tag
    (VirtualSwitch.nodup_forwardFrame mid (header data) data source)) hv (by
      intro x hx
      obtain ⟨c, hc, rfl⟩ := List.mem_map.mp hx
      obtain ⟨-, -, hadj, hne⟩ := hcopies c hc
      exact hsub c.dst hadj hne)
  rw [hwrites, hsum, ← Nat.mul_succ]
  exact Nat.mul_le_mul_left _ hless

variable (tag data now) in
private theorem weight_delivered (hG : topo.graph.IsTree) (h : Routed topo net)
    (hadj : topo.graph.Adj x v) :
    ((((net.switches v).switchFrame (header data) data (.link x) now).writes.filterMap
      (departure v tag)).map (weight topo.graph)).sum + 1 ≤
        share V data * (farSide topo.graph x v).card := by
  have hsource : .link x ∈ topo.ports v := topo.link_mem.mpr hadj.symm
  have hshare := one_le_share v data
  cases hans : ((net.switches v).switchFrame (header data) data (.link x) now).answered with
  | false =>
    have hless := weight_forwarded tag hG h hsource (self_mem_farSide hadj)
      (fun y _ hne => farSide_subset hG hadj fun hy => hne (congrArg _ hy)) hans
    omega
  | true =>
    rw [VirtualSwitch.switchFrame_answered] at hans
    obtain ⟨e, he⟩ := Option.isSome_iff_exists.mp hans
    have hquery := ((VirtualSwitch.cachedAnswer_eq_some ..).mp he).1
    rw [VirtualSwitch.switchFrame_replies _ _ _ _ _ he]
    have hback : weight topo.graph ⟨tag, v, x, arpReplyFrame (ArpPacket.overlay data) e.mac⟩ =
        (farSide topo.graph v x).card := by
      rw [weight, share, if_neg (not_isQuery_reply _ _), Nat.one_mul]
    obtain ⟨hsides, hpos⟩ := card_farSide_add hadj
    have hall : Fintype.card V ≤ Fintype.card V * (farSide topo.graph x v).card :=
      Nat.le_mul_of_pos_right _ hpos
    simp only [List.filterMap_cons, departure, List.filterMap_nil, List.map_cons, List.map_nil,
      List.sum_cons, List.sum_nil, hback, share, if_pos hquery]
    omega

variable (tag data now) in
private theorem weight_injected (hG : topo.graph.IsTree) (h : Routed topo net) {t : T}
    (hport : .tap t ∈ topo.ports v) :
    ((((net.switches v).switchFrame (header data) data (.tap t) now).writes.filterMap
      (departure v tag)).map (weight topo.graph)).sum ≤ share V data * (Fintype.card V - 1) := by
  cases hans : ((net.switches v).switchFrame (header data) data (.tap t) now).answered with
  | false =>
    have hless := weight_forwarded tag hG h hport (Finset.mem_univ v)
      (fun _ _ _ => Finset.subset_univ _) hans
    rw [Finset.card_univ] at hless
    rw [Nat.mul_sub, Nat.mul_one]
    omega
  | true =>
    rw [VirtualSwitch.switchFrame_answered] at hans
    obtain ⟨e, he⟩ := Option.isSome_iff_exists.mp hans
    rw [VirtualSwitch.switchFrame_replies _ _ _ _ _ he]
    exact Nat.zero_le _

section Account
variable {o : Outcome (NetPort V T)}
omit [DecidableEq T]

omit [Fintype V] in
private theorem linkWrites_absorb : (net.absorb v tag o).linkWrites k =
    net.linkWrites k + if tag = k then (o.writes.filterMap (departure v tag)).length else 0 := by
  rw [linkWrites, absorb, List.countP_append, List.countP_map]
  congr 1
  split_ifs with hk
  · rw [List.length_filterMap_eq_countP]
    apply List.countP_congr
    rintro ⟨port, d⟩ -
    cases port <;> simp [hk, departure, NetPort.isLink]
  · exact List.countP_eq_zero.mpr fun y _ hy => hk (of_decide_eq_true hy).1

omit [Fintype V] in
private theorem copiesOf_absorb : (net.absorb v tag o).copiesOf k =
    net.copiesOf k + if tag = k then (o.writes.filterMap (departure v tag)).length else 0 := by
  rw [copiesOf, absorb, List.countP_append]
  congr 1
  split_ifs with hk
  · apply List.countP_eq_length.mpr
    intro c hc
    exact decide_eq_true ((mem_departures.mp hc).1.trans hk)
  · refine List.countP_eq_zero.mpr fun c hc hkeep => hk ?_
    exact (mem_departures.mp hc).1.symm.trans (of_decide_eq_true hkeep)

private theorem potential_absorb : (net.absorb v tag o).potential topo k = net.potential topo k +
    if tag = k then ((o.writes.filterMap (departure v tag)).map (weight topo.graph)).sum else 0 := by
  rw [potential, absorb, List.filter_append, List.map_append, List.sum_append]
  congr 1
  split_ifs with hk
  · rw [List.filter_eq_self.mpr]
    intro c hc
    exact decide_eq_true ((mem_departures.mp hc).1.trans hk)
  · rw [List.filter_eq_nil_iff.mpr]
    · rfl
    · intro c hc hkeep
      exact hk ((mem_departures.mp hc).1.symm.trans (of_decide_eq_true hkeep))

omit [Fintype V] in
private theorem copiesOf_take (hc : c ∈ net.flight) (k : Nat) :
    (net.take c).copiesOf k + (if c.tag = k then 1 else 0) = net.copiesOf k := by
  have hperm := (List.perm_cons_erase hc).countP_eq fun c => decide (c.tag = k)
  rw [List.countP_cons] at hperm
  rw [copiesOf, copiesOf, hperm]
  simp only [take, decide_eq_true_eq]

variable (topo) in
private theorem potential_take (hc : c ∈ net.flight) (k : Nat) :
    (net.take c).potential topo k + (if c.tag = k then weight topo.graph c else 0) =
      net.potential topo k := by
  have hperm := (((List.perm_cons_erase hc).filter fun c => decide (c.tag = k)).map
    (weight topo.graph)).sum_eq
  rw [potential, potential, hperm, take]
  by_cases hk : c.tag = k
  · have hkeep : decide (c.tag = k) = true := decide_eq_true hk
    rw [if_pos hk, List.filter_cons, if_pos hkeep, List.map_cons, List.sum_cons, Nat.add_comm]
  · have hdrop : ¬ decide (c.tag = k) = true := by simpa using hk
    rw [if_neg hk, List.filter_cons, if_neg hdrop, Nat.add_zero]

end Account

/-- Every link write of a frame has been paid for: it has delivered a copy, or its copy is
still on the way and weighs at least one. -/
structure Spent (topo : Topology V T) (net : Net V T) : Prop where
  copies : ∀ c ∈ net.flight, c.tag < net.injected.length
  writes : ∀ y ∈ net.writes, y.tag < net.injected.length
  account : ∀ k i, net.injected[k]? = some i → net.linkWrites k + net.potential topo k ≤
    share V i.data * (Fintype.card V - 1) + net.copiesOf k

omit [DecidableEq V] [DecidableEq T] in
private theorem spent_start (now : V → Int) : Spent topo (start topo now) where
  copies := fun _ h => absurd h List.not_mem_nil
  writes := fun _ h => absurd h List.not_mem_nil
  account := fun _ _ h => by cases h

/-- A copy that arrives pays for those that leave. -/
theorem Spent.deliver (hG : topo.graph.IsTree) (hr : Routed topo net) (h : Spent topo net)
    (hc : c ∈ net.flight)
    (hrec : (net.take c).receive c.dst (.link c.src) c.tag c.data now = some net') :
    Spent topo net' := by
  obtain ⟨-, rfl⟩ := receive_eq_some hrec
  refine ⟨fun c' hc' => ?_, fun y hy => ?_, fun k i hi => ?_⟩
  · rcases List.mem_append.mp hc' with hold | hnew
    · exact h.copies c' (List.mem_of_mem_erase hold)
    · exact (mem_departures.mp hnew).1 ▸ h.copies c hc
  · rcases List.mem_append.mp hy with hold | hnew
    · exact h.writes y hold
    · obtain ⟨⟨q, d⟩, -, rfl⟩ := List.mem_map.mp hnew
      exact h.copies c hc
  · have hpaid := h.account k i hi
    have hless := weight_delivered c.tag c.data now hG (hr.take c)
      (hr.flight c hc)
    have hcopies := copiesOf_take hc k
    have hpotential := potential_take topo hc k
    have hwrites : (net.take c).linkWrites k = net.linkWrites k := rfl
    rw [linkWrites_absorb, copiesOf_absorb, potential_absorb, hwrites]
    rw [← weight] at hless
    split_ifs at hcopies hpotential ⊢ <;> omega

/-- A frame that enters is granted its budget. -/
theorem Spent.enter (hG : topo.graph.IsTree) (hr : Routed topo net) (h : Spent topo net)
    {i : Injection V T} (hport : .tap i.tap ∈ topo.ports i.switch)
    (hrec : (net.inject i).receive i.switch (.tap i.tap) net.injected.length i.data now =
      some net') : Spent topo net' := by
  obtain ⟨-, rfl⟩ := receive_eq_some hrec
  have hlength : (net.inject i).injected.length = net.injected.length + 1 := List.length_append
  have hbase : Routed topo (net.inject i) := ⟨hr.ports, hr.table, hr.flight⟩
  refine ⟨fun c hc => ?_, fun y hy => ?_, fun k j hj => ?_⟩
  · change c.tag < (net.inject i).injected.length
    rcases List.mem_append.mp hc with hold | hnew
    · have := h.copies c hold
      omega
    · rw [(mem_departures.mp hnew).1]
      omega
  · change y.tag < (net.inject i).injected.length
    rcases List.mem_append.mp hy with hold | hnew
    · have := h.writes y hold
      omega
    · obtain ⟨⟨q, d⟩, -, rfl⟩ := List.mem_map.mp hnew
      simp only
      omega
  · have hwrites : (net.inject i).linkWrites k = net.linkWrites k := rfl
    have hcopies : (net.inject i).copiesOf k = net.copiesOf k := rfl
    have hpotential : (net.inject i).potential topo k = net.potential topo k := rfl
    rw [linkWrites_absorb, copiesOf_absorb, potential_absorb, hwrites, hcopies, hpotential]
    by_cases hk : net.injected.length = k
    · subst hk
      obtain rfl : i = j := by simpa [Net.absorb, Net.inject] using hj
      have hgrant := weight_injected net.injected.length i.data now hG
        hbase hport
      have hzero : net.linkWrites net.injected.length = 0 :=
        List.countP_eq_zero.mpr fun y hy hkeep =>
          (Nat.ne_of_lt (h.writes y hy)) (of_decide_eq_true hkeep).1
      have hnone : net.potential topo net.injected.length = 0 := by
        rw [potential, List.filter_eq_nil_iff.mpr fun c hc hkeep =>
          (Nat.ne_of_lt (h.copies c hc)) (of_decide_eq_true hkeep)]
        rfl
      rw [if_pos rfl, if_pos rfl, hzero, hnone]
      omega
    · have hold : net.injected[k]? = some j := by
        have hlt : k < (net.injected ++ [i]).length := (List.getElem?_eq_some_iff.mp hj).1
        rw [List.length_append, List.length_singleton] at hlt
        rwa [Net.absorb, Net.inject, List.getElem?_append_left (by omega)] at hj
      have hpaid := h.account k j hold
      simpa only [if_neg hk, Nat.add_zero] using hpaid

theorem Spent.step (hG : topo.graph.IsTree) (hr : Routed topo net) (h : Spent topo net)
    (hsingle : a.single = true) (hstep : net.step topo a = some net') : Spent topo net' := by
  cases a with
  | inject i now =>
    obtain ⟨hport, hrec⟩ := step_inject.mp hstep
    exact h.enter hG hr hport hrec
  | deliver c now =>
    obtain ⟨hc, hrec⟩ := step_deliver.mp hstep
    exact h.deliver hG hr hc hrec
  | age v now =>
    cases hstep
    exact ⟨h.copies, h.writes, h.account⟩
  | lose c =>
    obtain ⟨hc, rfl⟩ := step_lose.mp hstep
    refine ⟨fun c' hc' => h.copies c' (List.mem_of_mem_erase hc'), h.writes, fun k i hi => ?_⟩
    have hpaid := h.account k i hi
    have hcopies := copiesOf_take hc k
    have hpotential := potential_take topo hc k
    have hpos := one_le_weight (hr.flight c hc)
    have hwrites : (net.take c).linkWrites k = net.linkWrites k := rfl
    rw [hwrites]
    split_ifs at hcopies hpotential <;> omega
  | duplicate c => cases hsingle

private theorem spent_run (hG : topo.graph.IsTree) {now : V → Int} {actions : List (NetAction V T)}
    (hrun : Run (Steps topo) (start topo now) actions net)
    (hsingle : ∀ a ∈ actions, a.single = true) : Spent topo net := by
  have hboth := hrun.invariant_of (I := fun n => Routed topo n ∧ Spent topo n)
    (P := fun a => a.single = true) (fun h ha hstep => ⟨h.1.step hstep, h.2.step hG h.1 ha hstep⟩)
    ⟨routed_start now, spent_start now⟩ hsingle
  exact hboth.2

omit [DecidableEq V] [DecidableEq T] in
private theorem copiesOf_le_potential (hr : Routed topo net) (tag : Nat) :
    net.copiesOf tag ≤ net.potential topo tag := by
  rw [copiesOf, potential, List.countP_eq_length_filter]
  have hpos : ∀ n ∈ (net.flight.filter fun c => c.tag = tag).map (weight topo.graph), 1 ≤ n := by
    intro n hn
    obtain ⟨c, hc, rfl⟩ := List.mem_map.mp hn
    exact one_le_weight (hr.flight c (List.mem_of_mem_filter hc))
  simpa using List.card_nsmul_le_sum _ 1 hpos

/-- Everything that the copies in flight can still lead to. -/
noncomputable def burden (topo : Topology V T) (net : Net V T) : Nat :=
  (net.flight.map (weight topo.graph)).sum

variable (topo) in
omit [DecidableEq T] in
private theorem burden_take (hc : c ∈ net.flight) :
    (net.take c).burden topo + weight topo.graph c = net.burden topo := by
  rw [burden, burden, ((List.perm_cons_erase hc).map (weight topo.graph)).sum_eq, List.map_cons,
    List.sum_cons, Nat.add_comm]
  rfl

private theorem burden_step (hG : topo.graph.IsTree) (hr : Routed topo net)
    (hsettles : a.settles = true) (hstep : net.step topo a = some net') :
    (if a.isDelivery then 1 else 0) + net'.burden topo ≤ net.burden topo := by
  cases a with
  | inject i now => cases hsettles
  | duplicate c => cases hsettles
  | age v now =>
    cases hstep
    exact (Nat.zero_add _).le
  | lose c =>
    obtain ⟨hc, rfl⟩ := step_lose.mp hstep
    have htaken := burden_take topo hc
    have hnone : (NetAction.lose c : NetAction V T).isDelivery = false := rfl
    rw [hnone, if_neg Bool.false_ne_true]
    omega
  | deliver c now =>
    obtain ⟨hc, hrec⟩ := step_deliver.mp hstep
    obtain ⟨-, rfl⟩ := receive_eq_some hrec
    have htaken := burden_take topo hc
    have hless := weight_delivered c.tag c.data now hG (hr.take c)
      (hr.flight c hc)
    have hone : (NetAction.deliver c now : NetAction V T).isDelivery = true := rfl
    rw [← weight] at hless
    rw [hone, if_pos rfl, burden, absorb, List.map_append, List.sum_append]
    rw [burden] at htaken
    omega

private theorem burden_run (hG : topo.graph.IsTree) (hr : Routed topo net)
    {later : List (NetAction V T)}
    (hsettles : ∀ a ∈ later, a.settles = true) (hrun : Run (Steps topo) net later net') :
    later.countP NetAction.isDelivery + net'.burden topo ≤ net.burden topo := by
  induction later generalizing net with
  | nil =>
    obtain rfl := Run.nil_iff.mp hrun
    exact (Nat.zero_add _).le
  | cons a later ih =>
    obtain ⟨mid, hmid, hrest⟩ := hrun
    have hfirst := burden_step hG hr (hsettles a List.mem_cons_self) hmid
    have hmore := ih (hr.step hmid) (fun b hb => hsettles b (List.mem_cons_of_mem _ hb)) hrest
    rw [List.countP_cons]
    omega

omit [DecidableEq V] [DecidableEq T] in
private theorem burden_le (topo : Topology V T) (net : Net V T) :
    net.burden topo ≤ net.flight.length * Fintype.card V ^ 2 := by
  have hle : ∀ n ∈ net.flight.map (weight topo.graph), n ≤ Fintype.card V ^ 2 := by
    intro n hn
    obtain ⟨c, -, rfl⟩ := List.mem_map.mp hn
    have hpos : 1 ≤ Fintype.card V := Fintype.card_pos_iff.mpr ⟨c.src⟩
    have hshare : share V c.data ≤ Fintype.card V := by
      unfold share
      split_ifs
      · exact le_refl _
      · exact hpos
    rw [Nat.pow_two]
    exact Nat.mul_le_mul hshare (Finset.card_le_univ _)
  have hsum := List.sum_le_card_nsmul _ _ hle
  rwa [List.length_map, smul_eq_mul] at hsum

end Net

/-- On a tree of switches, whatever the tables and caches hold, a frame and the answers to it
cause no more transmissions than there are links, or so many for each switch if it asks for an
address. And in every reachable state the copies in flight come to an end: without new frames,
only so many deliveries can follow. -/
theorem tree_calms_down {V T : Type} [DecidableEq V] [DecidableEq T] [Fintype V]
    {topo : Topology V T} (hG : topo.graph.IsTree) {now : V → Int}
    {actions : List (NetAction V T)} {net : Net V T}
    (hrun : Run (Net.Steps topo) (Net.start topo now) actions net) :
    ((∀ a ∈ actions, a.single = true) → ∀ tag i, net.injected[tag]? = some i →
      net.linkWrites tag ≤
        (if IsQuery i.data then Fintype.card V else 1) * (Fintype.card V - 1)) ∧
    ∀ later last, Run (Net.Steps topo) net later last → (∀ a ∈ later, a.settles = true) →
      later.countP NetAction.isDelivery ≤ net.flight.length * Fintype.card V ^ 2 := by
  have hr := Net.routed_run hrun
  constructor
  · intro hsingle tag i hi
    have hpaid := (Net.spent_run hG hrun hsingle).account tag i hi
    have hopen := Net.copiesOf_le_potential hr tag
    rw [Net.share] at hpaid
    omega
  · intro later last hlater hsettles
    have hlight := Net.burden_run hG hr hsettles hlater
    have hbound := Net.burden_le topo net
    omega

/-- A broadcast between two switches: one transmission, and one delivery is all that follows. -/
theorem tree_calms_down_pair :
    let hello := EthernetFrame.build (fun _ => 0xff) ![2, 0, 0, 0, 0, 7] 0x0800 []
    ∃ net, Run (Net.Steps pair) (Net.start pair fun _ => 0) [.inject ⟨0, (), hello⟩ 0] net ∧
      net.linkWrites 0 ≤ 1 ∧ ∀ later last, Run (Net.Steps pair) net later last →
        (∀ a ∈ later, a.settles = true) → later.countP NetAction.isDelivery ≤ 4 := by
  intro hello
  obtain ⟨net, hrun, hcheck⟩ := Run.exists_of_check (Net.step pair) (Net.start pair fun _ => 0)
    [.inject ⟨0, (), hello⟩ 0]
    (fun net => net.injected = [⟨0, (), hello⟩] ∧ net.flight.length = 1) (by decide +kernel)
  obtain ⟨hinjected, hflight⟩ := of_decide_eq_true hcheck
  obtain ⟨hwrites, hlater⟩ := tree_calms_down pair_isTree hrun
  have hi : net.injected[0]? = some ⟨0, (), hello⟩ := by rw [hinjected]; rfl
  have hplain : ¬ IsQuery hello := by decide
  have hone := hwrites (by decide) 0 _ hi
  rw [if_neg hplain, Fintype.card_fin] at hone
  refine ⟨net, hrun, hone, fun later last hrest hsettles => ?_⟩
  have hfew := hlater later last hrest hsettles
  rwa [hflight, Fintype.card_fin] at hfew

end VSwitch
