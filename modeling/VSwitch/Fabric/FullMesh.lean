import Mathlib.Data.Fintype.Card
import VSwitch.Fabric.Network

/-! A full mesh of three or more switches. Nothing but the arrival port stops a flooded
frame, so a group frame circulates for ever. -/
namespace VSwitch
open Lib EthernetFrame

namespace Net
variable {V : Type} [DecidableEq V] {topo : Topology V Unit} {net net' : Net V Unit}
variable {a : NetAction V Unit} {tag k : Nat} {u v w z : V} {data : Bytes} {now : Int}

/-- How often copies of frame `tag` were written to links. -/
def transmissions (net : Net V Unit) (tag : Nat) : Nat :=
  net.writes.countP fun x => x.tag = tag ∧ x.port ≠ .tap ()

private theorem transmissions_absorb (net : Net V Unit) {o : Outcome (NetPort V Unit)}
    (h : (.link z, data) ∈ o.writes) :
    net.transmissions tag + 1 ≤ (net.absorb v tag o).transmissions tag := by
  unfold transmissions absorb
  rw [List.countP_append]
  apply Nat.add_le_add_left
  apply List.countP_pos_iff.mpr
  exact ⟨⟨tag, v, .link z, data⟩, List.mem_map.mpr ⟨_, h, rfl⟩, by simp⟩

/-- Every switch owns the ports of the topology, and no copy bears a tag yet to come. -/
structure Wired (topo : Topology V Unit) (net : Net V Unit) : Prop where
  ports : ∀ v, (net.switches v).ports = topo.ports v
  tags : ∀ c ∈ net.flight, c.tag < net.injected.length

theorem Wired.absorb (h : Wired topo net) {o : Outcome (NetPort V Unit)}
    (ho : o.switch.ports = (net.switches v).ports) (htag : tag < net.injected.length) :
    Wired topo (net.absorb v tag o) where
  ports := fun x => by
    simp only [Net.absorb]
    split_ifs with hx
    · rw [ho, h.ports, hx]
    · exact h.ports x
  tags := fun c hc => by
    rcases List.mem_append.mp hc with hold | hnew
    · exact h.tags c hold
    · rw [(mem_departures.mp hnew).1]
      exact htag

theorem Wired.receive {source : NetPort V Unit} (h : Wired topo net)
    (htag : tag < net.injected.length)
    (hrec : net.receive v source tag data now = some net') : Wired topo net' := by
  obtain ⟨-, rfl⟩ := receive_eq_some hrec
  exact h.absorb (VirtualSwitch.switchFrame_ports _ _ _ _ _) htag

theorem Wired.take (h : Wired topo net) (c : Copy V) : Wired topo (net.take c) :=
  ⟨h.ports, fun c' hc' => h.tags c' (List.mem_of_mem_erase hc')⟩

omit [DecidableEq V] in
theorem Wired.inject (h : Wired topo net) (i : Injection V Unit) : Wired topo (net.inject i) :=
  ⟨h.ports, fun c hc => (h.tags c hc).trans_le (by simp [Net.inject])⟩

theorem Wired.step (h : Wired topo net) (hstep : net.step topo a = some net') :
    Wired topo net' := by
  cases a with
  | inject i now =>
    exact (h.inject i).receive (by simp [Net.inject]) (step_inject.mp hstep).2
  | deliver c now =>
    obtain ⟨hc, hrec⟩ := step_deliver.mp hstep
    exact (h.take c).receive (h.tags c hc) hrec
  | age v now =>
    cases hstep
    refine ⟨fun x => ?_, h.tags⟩
    by_cases hx : x = v
    · simp [hx, h.ports v]
    · simp [hx, h.ports x]
  | lose c =>
    obtain ⟨-, rfl⟩ := step_lose.mp hstep
    exact h.take c
  | duplicate c =>
    obtain ⟨hc, rfl⟩ := step_duplicate.mp hstep
    exact ⟨h.ports, fun c' hc' => (List.mem_cons.mp hc').elim (fun he => he ▸ h.tags c hc)
      (h.tags c')⟩

/-- A frame that every switch floods: a whole header, a group destination, and no ARP. -/
def Flooded (data : Bytes) : Prop :=
  14 ≤ data.length ∧ isMulticast (header data).dstMac = true ∧ getEthertype data ≠ ethertypeArp

theorem mem_forwarded {source p : NetPort V Unit} (h : Wired topo net) (hf : Flooded data) :
    (p, data) ∈ (net.forwarded v source data now).writes ↔ p ≠ source ∧ p ∈ topo.ports v := by
  rw [forwarded, VirtualSwitch.mem_forwardFrame, VirtualSwitch.sendsTo_flood (.inl hf.2.1),
    VirtualSwitch.refresh_ports, h.ports v]
  exact and_iff_right rfl

def ReliableSteps (topo : Topology V Unit) (net : Net V Unit) (a : NetAction V Unit)
    (net' : Net V Unit) : Prop := a.reliable = true ∧ Steps topo net a net'

section Mesh
variable (hmesh : topo.graph = ⊤)

include hmesh in
private theorem Wired.floods_link {source : NetPort V Unit} (h : Wired topo net) (hf : Flooded data)
    (hzw : z ≠ w) (hsource : .link z ≠ source) :
    (.link z, data) ∈ (net.forwarded w source data now).writes := by
  refine (mem_forwarded h hf).mpr ⟨hsource, topo.link_mem.mpr ?_⟩
  rw [hmesh]
  exact hzw.symm

/-- A copy of the frame is on its way from `u` to `w`. -/
structure Hot (topo : Topology V Unit) (tag : Nat) (data : Bytes) (u w : V) (net : Net V Unit) :
    Prop where
  wired : Wired topo net
  flooded : Flooded data
  copy : ⟨tag, u, w, data⟩ ∈ net.flight

include hmesh in
private theorem Hot.hop (htap : ∀ v, .tap () ∈ topo.ports v) (h : Hot topo tag data u w net)
    (hzw : z ≠ w) (hzu : z ≠ u) :
    ∃ last, Run (ReliableSteps topo) net [.deliver ⟨tag, u, w, data⟩ 0] last ∧
      Hot topo tag data w z last ∧
      net.writesTo tag w (.tap ()) + 1 ≤ last.writesTo tag w (.tap ()) ∧
      (∀ x q, net.writesTo tag x q ≤ last.writesTo tag x q) ∧
      net.transmissions tag + 1 ≤ last.transmissions tag := by
  obtain ⟨hw, hf, hc⟩ := h
  let base := net.take ⟨tag, u, w, data⟩
  have hbase : Wired topo base := hw.take _
  have hlink : (.link z, data) ∈ (base.forwarded w (.link u) data 0).writes :=
    hbase.floods_link hmesh hf hzw fun h => hzu (NetPort.link.inj h)
  have hdeliver : (.tap (), data) ∈ (base.forwarded w (.link u) data 0).writes :=
    (mem_forwarded hbase hf).mpr ⟨by simp, htap w⟩
  refine ⟨base.absorb w tag (base.forwarded w (.link u) data 0), ⟨_, ⟨rfl, ?_⟩, rfl⟩,
    ⟨?_, hf, ?_⟩, ?_, ?_, ?_⟩
  · rw [Steps, step, if_pos hc]
    exact receive_plain_ok hf.1 hf.2.2
  · exact hbase.absorb (forwarded_ports _ _ _ _ _) (hw.tags _ hc)
  · exact List.mem_append_right _ (mem_departures.mpr ⟨rfl, rfl, hlink⟩)
  · rw [writesTo_absorb, if_pos ⟨rfl, rfl⟩]
    apply Nat.add_le_add_left
    apply List.length_pos_of_mem (a := data)
    exact List.mem_map.mpr ⟨_, List.mem_filter.mpr ⟨hdeliver, by simp⟩, rfl⟩
  · intro x q
    rw [writesTo_absorb]
    exact Nat.le_add_right _ _
  · exact base.transmissions_absorb hlink

include hmesh in
private theorem Hot.rounds (htap : ∀ v, .tap () ∈ topo.ports v) (h : Hot topo tag data u v net)
    (huv : u ≠ v) (hzu : z ≠ u) (hzv : z ≠ v) (n : Nat) :
    ∃ later last, Run (ReliableSteps topo) net later last ∧ Hot topo tag data u v last ∧
      n ≤ last.writesTo tag u (.tap ()) ∧ n ≤ last.writesTo tag v (.tap ()) ∧
      n ≤ last.writesTo tag z (.tap ()) ∧ n ≤ last.transmissions tag := by
  induction n with
  | zero => exact ⟨[], net, rfl, h, Nat.zero_le _, Nat.zero_le _, Nat.zero_le _, Nat.zero_le _⟩
  | succ n ih =>
    obtain ⟨later, mid, hrun, hhot, hu, hv, hz, hsent⟩ := ih
    obtain ⟨m₁, hrun₁, hhot₁, hgain₁, hmono₁, hsent₁⟩ := hhot.hop hmesh htap hzv hzu
    obtain ⟨m₂, hrun₂, hhot₂, hgain₂, hmono₂, hsent₂⟩ := hhot₁.hop hmesh htap hzu.symm huv
    obtain ⟨m₃, hrun₃, hhot₃, hgain₃, hmono₃, hsent₃⟩ :=
      hhot₂.hop hmesh htap huv.symm hzv.symm
    refine ⟨_, m₃, ((hrun.append hrun₁).append hrun₂).append hrun₃, hhot₃, ?_, ?_, ?_, by omega⟩
    · have := hmono₁ u (.tap ())
      have := hmono₂ u (.tap ())
      omega
    · have := hmono₂ v (.tap ())
      have := hmono₃ v (.tap ())
      omega
    · have := hmono₁ z (.tap ())
      have := hmono₃ z (.tap ())
      omega

/-- The copies of frame `tag` are faithful and have not died out. -/
structure Circulating (topo : Topology V Unit) (tag : Nat) (data : Bytes) (net : Net V Unit) :
    Prop where
  wired : Wired topo net
  known : tag < net.injected.length
  faithful : ∀ c ∈ net.flight, c.tag = tag → c.data = data
  alive : ∃ c ∈ net.flight, c.tag = tag

private theorem Circulating.absorb_other {o : Outcome (NetPort V Unit)}
    (h : Circulating topo tag data net) (ho : o.switch.ports = (net.switches v).ports)
    (hk : k ≠ tag) (hknown : k < net.injected.length) :
    Circulating topo tag data (net.absorb v k o) where
  wired := h.wired.absorb ho hknown
  known := h.known
  faithful := fun c hc htag => by
    rcases List.mem_append.mp hc with hold | hnew
    · exact h.faithful c hold htag
    · exact absurd ((mem_departures.mp hnew).1.symm.trans htag) hk
  alive := by
    obtain ⟨c, hc, htag⟩ := h.alive
    exact ⟨c, List.mem_append_left _ hc, htag⟩

include hmesh in
/-- In a mesh of three, delivering one copy sends out another. -/
theorem Circulating.step (hthird : ∀ u w : V, ∃ z, z ≠ u ∧ z ≠ w) (hf : Flooded data)
    (h : Circulating topo tag data net) (hstep : ReliableSteps topo net a net') :
    Circulating topo tag data net' := by
  obtain ⟨hreliable, hstep⟩ := hstep
  cases a with
  | inject i now =>
    obtain ⟨-, rfl⟩ := receive_eq_some (step_inject.mp hstep).2
    have hbase : Circulating topo tag data (net.inject i) :=
      ⟨h.wired.inject i, by simp [Net.inject, h.known.trans], h.faithful, h.alive⟩
    exact hbase.absorb_other (VirtualSwitch.switchFrame_ports _ _ _ _ _)
      (Nat.ne_of_gt h.known) (by simp [Net.inject])
  | deliver c now =>
    obtain ⟨hc, hrec⟩ := step_deliver.mp hstep
    by_cases htag : c.tag = tag
    · have hdata := h.faithful c hc htag
      have hbase := h.wired.take c
      obtain ⟨-, rfl⟩ := receive_plain hrec (hdata ▸ hf.2.2)
      obtain ⟨z, hzu, hzw⟩ := hthird c.src c.dst
      have hlink : (.link z, c.data) ∈
          ((net.take c).forwarded c.dst (.link c.src) c.data now).writes :=
        hbase.floods_link hmesh (hdata ▸ hf) hzw fun h => hzu (NetPort.link.inj h)
      refine ⟨hbase.absorb (forwarded_ports _ _ _ _ _) (h.wired.tags c hc), h.known,
        fun c' hc' htag' => ?_, ⟨c.tag, c.dst, z, c.data⟩, ?_, htag⟩
      · rcases List.mem_append.mp hc' with hold | hnew
        · exact h.faithful c' (List.mem_of_mem_erase hold) htag'
        · rw [(mem_forwarded_departures.mp hnew).2.2.1, hdata]
      · exact List.mem_append_right _ (mem_departures.mpr ⟨rfl, rfl, hlink⟩)
    · obtain ⟨-, rfl⟩ := receive_eq_some hrec
      obtain ⟨c', hc', htag'⟩ := h.alive
      have hne : c' ≠ c := fun he => htag (he ▸ htag')
      have hbase : Circulating topo tag data (net.take c) :=
        ⟨h.wired.take c, h.known, fun c'' hc'' => h.faithful c'' (List.mem_of_mem_erase hc''),
          c', (List.mem_erase_of_ne hne).mpr hc', htag'⟩
      exact hbase.absorb_other (VirtualSwitch.switchFrame_ports _ _ _ _ _) htag
        (h.wired.tags c hc)
  | age v now =>
    exact ⟨h.wired.step hstep, by cases hstep; exact h.known, by cases hstep; exact h.faithful,
      by cases hstep; exact h.alive⟩
  | lose c => cases hreliable
  | duplicate c => cases hreliable

end Mesh

private theorem wired_run {times : V → Int} {actions : List (NetAction V Unit)}
    (hrun : Run (Steps topo) (start topo times) actions net) : Wired topo net :=
  hrun.invariant (fun h hstep => h.step hstep)
    ⟨fun _ => rfl, fun _ h => absurd h List.not_mem_nil⟩

/-- Broadcasting as it should be, after frame `tag` entered at `v`: along every reliable run
its TAP gets nothing back, every other TAP one copy, and the links finitely many. -/
def BroadcastOnce (topo : Topology V Unit) (net : Net V Unit) (tag : Nat) (v : V) : Prop :=
  (∀ later last, Run (ReliableSteps topo) net later last →
    last.writesTo tag v (.tap ()) = 0 ∧
      ∀ u, u ≠ v → last.writesTo tag u (.tap ()) ≤ 1 ∧
        ((∀ c ∈ last.flight, c.tag ≠ tag) → last.writesTo tag u (.tap ()) = 1)) ∧
  ∃ bound, ∀ later last, Run (ReliableSteps topo) net later last →
    last.transmissions tag ≤ bound

private theorem Hot.of_inject (hmesh : topo.graph = ⊤) (h : Wired topo net) {i : Injection V Unit}
    (hf : Flooded i.data) (hstep : net.step topo (.inject i now) = some net')
    (hne : w ≠ i.switch) : Hot topo net.injected.length i.data i.switch w net' where
  wired := h.step hstep
  flooded := hf
  copy := by
    obtain ⟨-, rfl⟩ := receive_plain (step_inject.mp hstep).2 hf.2.2
    have hlink : (.link w, i.data) ∈
        ((net.inject i).forwarded i.switch (.tap i.tap) i.data now).writes :=
      (h.inject i).floods_link hmesh hf hne (by simp)
    exact List.mem_append_right _ (mem_departures.mpr ⟨rfl, rfl, hlink⟩)

private theorem Circulating.of_inject (h : Wired topo net) {i : Injection V Unit}
    (hf : Flooded i.data) (hstep : net.step topo (.inject i now) = some net')
    (halive : ∃ c ∈ net'.flight, c.tag = net.injected.length) :
    Circulating topo net.injected.length i.data net' where
  wired := h.step hstep
  known := by
    rw [step_inject_injected hstep]
    simp
  faithful := fun c hc htag => by
    obtain ⟨-, rfl⟩ := receive_plain (step_inject.mp hstep).2 hf.2.2
    rcases List.mem_append.mp hc with hold | hnew
    · exact absurd htag (Nat.ne_of_lt (h.tags c hold))
    · exact (mem_forwarded_departures.mp hnew).2.2.1
  alive := halive

private theorem exists_third [Fintype V] (hn : 3 ≤ Fintype.card V) (u w : V) :
    ∃ z, z ≠ u ∧ z ≠ w := by
  have hlt : ({u, w} : Finset V).card < (Finset.univ : Finset V).card :=
    Finset.card_le_two.trans_lt (by rw [Finset.card_univ]; omega)
  obtain ⟨z, -, hz⟩ := Finset.exists_mem_notMem_of_card_lt_card hlt
  exact ⟨z, by simpa using hz⟩

end Net

/-- In a full mesh of three or more switches no group frame is ever broadcast as it should
be, in any reachable state. Copies never die out, and runs exist that write any TAP, the one
it came from included, and the links as often as one likes. -/
theorem mesh_storm {V : Type} [DecidableEq V] [Fintype V] (hn : 3 ≤ Fintype.card V)
    {topo : Topology V Unit} (hmesh : topo.graph = ⊤) (htap : ∀ v, .tap () ∈ topo.ports v)
    {times : V → Int} {past : List (NetAction V Unit)} {before net : Net V Unit}
    (hrun : Run (Net.Steps topo) (Net.start topo times) past before) {i : Injection V Unit}
    {now : Int} (hstep : before.step topo (.inject i now) = some net)
    (hgroup : isMulticast (header i.data).dstMac = true)
    (hplain : getEthertype i.data ≠ ethertypeArp) :
    ¬ net.BroadcastOnce topo before.injected.length i.switch ∧
    (∀ later last, Run (Net.ReliableSteps topo) net later last →
      ∃ c ∈ last.flight, c.tag = before.injected.length) ∧
    ∀ u n, ∃ later last, Run (Net.ReliableSteps topo) net later last ∧
      n ≤ last.writesTo before.injected.length u (.tap ()) ∧
      n ≤ last.transmissions before.injected.length := by
  have hthird := Net.exists_third hn
  have hwired := Net.wired_run hrun
  have hlong := (Net.receive_plain (Net.step_inject.mp hstep).2 hplain).1
  have hf : Net.Flooded i.data := ⟨hlong, hgroup, hplain⟩
  have hhot {w : V} (hne : w ≠ i.switch) := Net.Hot.of_inject hmesh hwired hf hstep hne
  have hstorm (u : V) (n : Nat) : ∃ later last, Run (Net.ReliableSteps topo) net later last ∧
      n ≤ last.writesTo before.injected.length u (.tap ()) ∧
      n ≤ last.transmissions before.injected.length := by
    by_cases hu : u = i.switch
    · obtain ⟨v, hv, -⟩ := hthird i.switch i.switch
      obtain ⟨z, hzu, hzv⟩ := hthird i.switch v
      obtain ⟨later, last, hlater, -, hback, -, -, hsent⟩ :=
        (hhot hv).rounds hmesh htap hv.symm hzu hzv n
      exact ⟨later, last, hlater, hu ▸ hback, hsent⟩
    · obtain ⟨z, hzi, hzu⟩ := hthird i.switch u
      obtain ⟨later, last, hlater, -, -, hthere, -, hsent⟩ :=
        (hhot hu).rounds hmesh htap (Ne.symm hu) hzi hzu n
      exact ⟨later, last, hlater, hthere, hsent⟩
  refine ⟨?_, ?_, hstorm⟩
  · intro hone
    obtain ⟨later, last, hlater, hback, -⟩ := hstorm i.switch 1
    have := (hone.1 later last hlater).1
    omega
  · intro later last hlater
    obtain ⟨w, hw, -⟩ := hthird i.switch i.switch
    have hstart := Net.Circulating.of_inject hwired hf hstep ⟨_, (hhot hw).copy, rfl⟩
    exact (hlater.invariant (fun h hnext => h.step hmesh hthird hf hnext) hstart).alive

def triangle : Topology (Fin 3) Unit where
  graph := ⊤
  ports := fun v => [.tap (), .link (v + 1), .link (v + 2)]
  ports_nodup := by decide
  link_mem := by decide

/-- A broadcast from switch 0 comes back to its own TAP ten times. -/
theorem mesh_storm_triangle :
    let hello := EthernetFrame.build (fun _ => 0xff) ![2, 0, 0, 0, 0, 7] 0x0800 []
    ∃ later last, Run (Net.ReliableSteps triangle) (Net.start triangle fun _ => 0)
        (.inject ⟨0, (), hello⟩ 0 :: later) last ∧ 10 ≤ last.writesTo 0 0 (.tap ()) := by
  intro hello
  obtain ⟨net, ⟨m, hstep, rfl⟩, -⟩ := Run.exists_of_check (Net.step triangle)
    (Net.start triangle fun _ => 0) [.inject ⟨0, (), hello⟩ 0] (fun _ => true) (by decide +kernel)
  have hnone : Run (Net.Steps triangle) (Net.start triangle fun _ => 0) []
      (Net.start triangle fun _ => 0) := rfl
  obtain ⟨-, -, hstorm⟩ :=
    mesh_storm (by decide) rfl (by decide) hnone hstep (by decide) (by decide)
  obtain ⟨later, last, hlater, hback, -⟩ := hstorm 0 10
  exact ⟨later, last, ⟨m, ⟨rfl, hstep⟩, hlater⟩, hback⟩

/-- One broadcast in a triangle: TAP 1 gets it twice, and TAP 0 gets it back. -/
theorem broadcast_repeats :
    let hello := EthernetFrame.build (fun _ => 0xff) ![2, 0, 0, 0, 0, 7] 0x0800 []
    ∃ net, Run (Net.Steps triangle) (Net.start triangle fun _ => 0)
        [.inject ⟨0, (), hello⟩ 0, .deliver ⟨0, 0, 1, hello⟩ 1, .deliver ⟨0, 0, 2, hello⟩ 2,
          .deliver ⟨0, 2, 1, hello⟩ 3, .deliver ⟨0, 1, 0, hello⟩ 4] net ∧
      net.writesTo 0 1 (.tap ()) = 2 ∧ net.writesTo 0 0 (.tap ()) = 1 := by
  intro hello
  obtain ⟨net, hrun, hcheck⟩ := Run.exists_of_check (Net.step triangle)
    (Net.start triangle fun _ => 0)
    [.inject ⟨0, (), hello⟩ 0, .deliver ⟨0, 0, 1, hello⟩ 1,
      .deliver ⟨0, 0, 2, hello⟩ 2, .deliver ⟨0, 2, 1, hello⟩ 3, .deliver ⟨0, 1, 0, hello⟩ 4]
    (fun net => net.writesTo 0 1 (.tap ()) = 2 ∧ net.writesTo 0 0 (.tap ()) = 1)
    (by decide +kernel)
  exact ⟨net, hrun, of_decide_eq_true hcheck⟩

end VSwitch
