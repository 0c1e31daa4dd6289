import VSwitch.Fabric.Direction
import VSwitch.Switch.ProxyArp

/-! Where the frames of a network come from, whatever its shape: hosts inject them, and a switch
adds nothing to what the hosts have said. -/
namespace VSwitch
open Lib EthernetFrame

/-- One of the frames is an ARP packet that says `ip` belongs to `mac`. -/
def Told (frames : List Bytes) (ip : Ip) (mac : Mac) : Prop :=
  ∃ f ∈ frames, ValidArp f ∧ (ArpPacket.overlay f).spa = ip ∧ ip ≠ 0 ∧
    (ArpPacket.overlay f).sha = mac

/-- One of the frames, or the answer to a question among them with what another has told. -/
def Genuine (frames : List Bytes) (f : Bytes) : Prop :=
  f ∈ frames ∨ ∃ query ∈ frames, IsQuery query ∧
    ∃ mac, Told frames (ArpPacket.overlay query).tpa mac ∧
      f = arpReplyFrame (ArpPacket.overlay query) mac

/-- The ARP cache holds nothing but what the frames have told. -/
def VirtualSwitch.Informed {P : Type} (sw : VirtualSwitch P) (frames : List Bytes) : Prop :=
  ∀ ip e, sw.ipToMac ip = some e → Told frames ip e.mac

section Genuine
variable {frames more : List Bytes} {f : Bytes} {ip : Ip} {mac : Mac}

theorem Told.mono (h : Told frames ip mac) (hsub : frames ⊆ more) : Told more ip mac := by
  obtain ⟨f, hf, htold⟩ := h
  exact ⟨f, hsub hf, htold⟩

theorem Genuine.mono (h : Genuine frames f) (hsub : frames ⊆ more) : Genuine more f := by
  rcases h with hf | ⟨query, hquery, hq, mac, htold, rfl⟩
  · exact .inl (hsub hf)
  · exact .inr ⟨query, hsub hquery, hq, mac, htold.mono hsub, rfl⟩

/-- A synthesized reply asks nothing. -/
theorem not_isQuery_reply (arp : ArpPacket) (mac : Mac) : ¬ IsQuery (arpReplyFrame arp mac) := by
  rintro ⟨-, hoper, -⟩
  rw [(arpReplyFrame_fields arp mac).2.2.2] at hoper
  have hne : arpReply ≠ arpRequest := by decide
  exact hne hoper

theorem Genuine.query (h : Genuine frames f) (hq : IsQuery f) : f ∈ frames := by
  rcases h with hf | ⟨query, -, -, mac, -, rfl⟩
  · exact hf
  · exact absurd hq (not_isQuery_reply _ mac)

/-- What a genuine ARP packet says has been told. -/
theorem Genuine.told (h : Genuine frames f) (hv : ValidArp f)
    (hspa : (ArpPacket.overlay f).spa ≠ 0) :
    Told frames (ArpPacket.overlay f).spa (ArpPacket.overlay f).sha := by
  rcases h with hf | ⟨query, -, -, mac, htold, rfl⟩
  · exact ⟨f, hf, hv, rfl, hspa, rfl⟩
  · rw [(arpReplyFrame_fields (ArpPacket.overlay query) mac).2.2.2]
    exact htold

/-- What the ARP packets among the frames say is true: the address of the sender, if it has one
at all, belongs to the MAC it gives. -/
def Truthful (owner : Ip → Mac) (frames : List Bytes) : Prop :=
  ∀ f ∈ frames, ValidArp f → (ArpPacket.overlay f).spa ≠ 0 →
    (ArpPacket.overlay f).sha = owner (ArpPacket.overlay f).spa

instance (owner : Ip → Mac) (frames : List Bytes) : Decidable (Truthful owner frames) :=
  inferInstanceAs (Decidable (∀ f ∈ frames, _ → _ → _))

theorem Told.owner {owner : Ip → Mac} (h : Told frames ip mac) (htruth : Truthful owner frames) :
    ip ≠ 0 ∧ mac = owner ip := by
  obtain ⟨f, hf, hv, rfl, hspa, rfl⟩ := h
  exact ⟨hspa, htruth f hf hv hspa⟩

/-- Among truthful hosts, what is genuine is true. -/
theorem truthful_of_genuine {owner : Ip → Mac} (htruth : Truthful owner frames)
    (h : ∀ f ∈ more, Genuine frames f) : Truthful owner more := fun f hf hv hspa =>
  (((h f hf).told hv hspa).owner htruth).2

end Genuine

namespace VirtualSwitch
variable {P : Type} {sw : VirtualSwitch P} {frames : List Bytes} {f : Bytes}

theorem Informed.mono {more : List Bytes} (h : sw.Informed frames) (hsub : frames ⊆ more) :
    sw.Informed more := fun ip e he => (h ip e he).mono hsub

theorem Informed.ageOutMacEntries (h : sw.Informed frames) (now : Int) :
    (sw.ageOutMacEntries now).Informed frames := fun ip e he =>
  h ip e (Table.eraseIf_eq_some.mp he).1

theorem Informed.refresh (h : sw.Informed frames) (mac : Mac) (source : P) (now : Int) :
    (sw.refresh mac source now).Informed frames := by
  unfold VirtualSwitch.refresh VirtualSwitch.ageCheck
  split_ifs
  · exact h.ageOutMacEntries now
  · exact h

theorem Informed.cacheFrom (h : sw.Informed frames) (hf : Genuine frames f) (now : Int) :
    (sw.cacheFrom f now).Informed frames := by
  intro ip e he
  unfold VirtualSwitch.cacheFrom VirtualSwitch.cacheSender at he
  split_ifs at he with hv hspa
  · rcases Table.put_eq_some he with ⟨rfl, rfl⟩ | ⟨-, hold⟩
    · exact hf.told hv hspa
    · exact h ip e hold
  · exact h ip e he
  · exact h ip e he

variable [DecidableEq P]

/-- The loop body keeps to what the frames have told. -/
theorem Informed.switchFrame (h : sw.Informed frames) (hf : Genuine frames f) (source : P)
    (now : Int) :
    (sw.switchFrame (header f) f source now).switch.Informed frames ∧
      ∀ q d, (q, d) ∈ (sw.switchFrame (header f) f source now).writes → Genuine frames d := by
  have hmid := h.refresh (header f).srcMac source now
  constructor
  · rw [switchFrame_eq]
    exact hmid.cacheFrom hf now
  · intro q d hw
    rcases mem_switchFrame_writes _ _ _ _ _ hw with ⟨rfl, -⟩ | ⟨-, e, he, rfl⟩
    · exact hf
    · obtain ⟨hquery, hcached⟩ := (cachedAnswer_eq_some ..).mp he
      exact .inr ⟨f, hf.query hquery, hquery, e.mac, hmid _ e hcached, rfl⟩

end VirtualSwitch

namespace Net
variable {V T : Type} [DecidableEq V] [DecidableEq T] {topo : Topology V T} {net net' : Net V T}
variable {a : NetAction V T} {v : V} {source : NetPort V T} {tag : Nat} {data : Bytes} {now : Int}

def frames (net : Net V T) : List Bytes := net.injected.map Injection.data

/-- Nothing in the network but what the hosts have said, and answers made of it. -/
structure Honest (net : Net V T) : Prop where
  caches : ∀ v, (net.switches v).Informed net.frames
  flight : ∀ c ∈ net.flight, Genuine net.frames c.data
  writes : ∀ y ∈ net.writes, Genuine net.frames y.data

omit [DecidableEq V] [DecidableEq T] in
private theorem honest_start (now : V → Int) : Honest (start topo now) where
  caches := fun _ _ _ h => by cases h
  flight := fun _ h => absurd h List.not_mem_nil
  writes := fun _ h => absurd h List.not_mem_nil

theorem Honest.receive (h : Honest net) (hdata : Genuine net.frames data)
    (hrec : net.receive v source tag data now = some net') : Honest net' := by
  obtain ⟨-, rfl⟩ := receive_eq_some hrec
  obtain ⟨hcache, hwrites⟩ := (h.caches v).switchFrame hdata source now
  refine ⟨fun u => ?_, fun c hc => ?_, fun y hy => ?_⟩
  · change VirtualSwitch.Informed (if u = v then _ else net.switches u) net.frames
    split_ifs
    · exact hcache
    · exact h.caches u
  · rcases List.mem_append.mp hc with hold | hnew
    · exact h.flight c hold
    · exact hwrites _ _ (mem_departures.mp hnew).2.2
  · rcases List.mem_append.mp hy with hold | hnew
    · exact h.writes y hold
    · obtain ⟨⟨q, d⟩, hw, rfl⟩ := List.mem_map.mp hnew
      exact hwrites q d hw

omit [DecidableEq T] in
theorem Honest.take (h : Honest net) (c : Copy V) : Honest (net.take c) :=
  ⟨h.caches, fun c' hc' => h.flight c' (List.mem_of_mem_erase hc'), h.writes⟩

omit [DecidableEq V] [DecidableEq T] in
theorem Honest.inject (h : Honest net) (i : Injection V T) :
    Honest (net.inject i) ∧ Genuine (net.inject i).frames i.data := by
  have hframes : (net.inject i).frames = net.frames ++ [i.data] := List.map_append
  have hsub : net.frames ⊆ (net.inject i).frames := by
    rw [hframes]
    exact List.subset_append_left _ _
  refine ⟨⟨fun v => (h.caches v).mono hsub, fun c hc => (h.flight c hc).mono hsub,
    fun y hy => (h.writes y hy).mono hsub⟩, .inl ?_⟩
  rw [hframes]
  exact List.mem_append_right _ (List.mem_singleton_self _)

theorem Honest.step (h : Honest net) (hstep : net.step topo a = some net') : Honest net' := by
  cases a with
  | inject i now =>
    obtain ⟨hbase, hdata⟩ := h.inject i
    exact hbase.receive hdata (step_inject.mp hstep).2
  | deliver c now =>
    obtain ⟨hc, hrec⟩ := step_deliver.mp hstep
    exact (h.take c).receive (h.flight c hc) hrec
  | age v now =>
    cases hstep
    refine ⟨fun u => ?_, h.flight, h.writes⟩
    simp only
    split_ifs with hu
    · subst hu
      exact (h.caches u).ageOutMacEntries now
    · exact h.caches u
  | lose c =>
    obtain ⟨-, rfl⟩ := step_lose.mp hstep
    exact h.take c
  | duplicate c =>
    obtain ⟨hc, rfl⟩ := step_duplicate.mp hstep
    refine ⟨h.caches, fun c' hc' => ?_, h.writes⟩
    rcases List.mem_cons.mp hc' with rfl | hold
    · exact h.flight _ hc
    · exact h.flight c' hold

theorem honest_run {now : V → Int} {actions : List (NetAction V T)}
    (hrun : Run (Steps topo) (start topo now) actions net) : Honest net :=
  hrun.invariant (fun h hstep => h.step hstep) (honest_start now)

end Net

/-- In every network of switches, whatever its links do to the frames, a switch writes nothing
but what hosts have sent and replies to their questions that repeat what a host has announced.
So if the hosts tell the truth, every ARP packet anywhere and every cache entry is true. -/
theorem arp_stays_truthful {V T : Type} [DecidableEq V] [DecidableEq T] {topo : Topology V T}
    {now : V → Int} {actions : List (NetAction V T)} {net : Net V T}
    (hrun : Run (Net.Steps topo) (Net.start topo now) actions net) :
    (∀ y ∈ net.writes, Genuine net.frames y.data) ∧
    (∀ v ip e, (net.switches v).ipToMac ip = some e → Told net.frames ip e.mac) ∧
    ∀ owner, Truthful owner net.frames →
      Truthful owner (net.writes.map PortWrite.data) ∧
      Truthful owner (net.flight.map Copy.data) ∧
      ∀ v ip e, (net.switches v).ipToMac ip = some e → ip ≠ 0 ∧ e.mac = owner ip := by
  have h := Net.honest_run hrun
  refine ⟨h.writes, h.caches, fun owner htruth => ⟨?_, ?_, ?_⟩⟩
  · refine truthful_of_genuine htruth fun f hf => ?_
    obtain ⟨y, hy, rfl⟩ := List.mem_map.mp hf
    exact h.writes y hy
  · refine truthful_of_genuine htruth fun f hf => ?_
    obtain ⟨c, hc, rfl⟩ := List.mem_map.mp hf
    exact h.flight c hc
  · exact fun v ip e he => (h.caches v ip e he).owner htruth

/-- Host 7 announces itself at switch 1, and host 9 asks for it at switch 0, which has been
told and answers. -/
theorem arp_stays_truthful_answer :
    let hello := arpFrame arpReply ![2, 0, 0, 0, 0, 7] ![10, 0, 0, 7] ![10, 0, 0, 7]
    let query := arpFrame arpRequest ![2, 0, 0, 0, 0, 9] ![10, 0, 0, 9] ![10, 0, 0, 7]
    ∃ net, Run (Net.Steps pair) (Net.start pair fun _ => 0)
        [.inject ⟨1, (), hello⟩ 0, .deliver ⟨0, 1, 0, hello⟩ 1, .inject ⟨0, (), query⟩ 2] net ∧
      net.answered = 1 ∧
      ∀ e, (net.switches 0).ipToMac ![10, 0, 0, 7] = some e → e.mac = ![2, 0, 0, 0, 0, 7] := by
  intro hello query
  obtain ⟨net, hrun, hcheck⟩ := Run.exists_of_check (Net.step pair) (Net.start pair fun _ => 0)
    [.inject ⟨1, (), hello⟩ 0, .deliver ⟨0, 1, 0, hello⟩ 1, .inject ⟨0, (), query⟩ 2]
    (fun net => net.injected = [⟨1, (), hello⟩, ⟨0, (), query⟩] ∧ net.answered = 1)
    (by decide +kernel)
  obtain ⟨hinjected, hanswered⟩ := of_decide_eq_true hcheck
  refine ⟨net, hrun, hanswered, fun e he => ?_⟩
  have htruth : Truthful (fun ip => ![2, 0, 0, 0, 0, ip 3]) net.frames := by
    rw [Net.frames, hinjected]
    decide
  exact ((arp_stays_truthful hrun).2.2 _ htruth).2.2 0 _ e he |>.2

end VSwitch
