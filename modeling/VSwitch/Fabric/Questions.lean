import VSwitch.Fabric.Broadcast

/-! Questions for addresses on a tree of switches: a host that is not asked is spoken for, and
the reply finds its way back as long as nobody else uses the name of the host that asked. -/
namespace VSwitch
open Lib EthernetFrame

namespace Net
variable {V T : Type} [DecidableEq V] [DecidableEq T]
variable {topo : Topology V T} {net net' : Net V T} {a : NetAction V T} {i : Injection V T}
variable {v s : V} {t : T} {source p : NetPort V T} {k tag : Nat} {data d : Bytes} {now : Int}
variable {o : Outcome (NetPort V T)}

/-- Nobody else speaks in the name of the host: frames with its source address are injected at
its TAP, and no switch has replied for it. -/
structure Unforged (net : Net V T) (mac : Mac) (s : V) (t : T) : Prop where
  injected : ∀ j ∈ net.injected, (header j.data).srcMac = mac → (j.switch, j.tap) = (s, t)
  writes : ∀ y ∈ net.writes, (header y.data).srcMac = mac →
    ∃ j, net.injected[y.tag]? = some j ∧ y.data = j.data

/-- Frames in the name of the host, and entries for it, come from its TAP. -/
structure Anchored (topo : Topology V T) (net : Net V T) (mac : Mac) (s : V) (t : T) : Prop where
  table : ∀ v e, (net.switches v).macAddressTable (macToString mac) = some e →
    Leads topo.graph v s (.tap t) e.port
  flight : ∀ c ∈ net.flight, (header c.data).srcMac = mac → Nearer topo.graph s c.dst c.src

variable {mac : Mac}

private theorem step_extends (hstep : net.step topo a = some net') :
    net.writes <+: net'.writes ∧ net.injected <+: net'.injected := by
  refine ⟨?_, (step_grows hstep).1⟩
  cases a with
  | inject i now =>
    obtain ⟨-, rfl⟩ := receive_eq_some (step_inject.mp hstep).2
    exact List.prefix_append _ _
  | deliver c now =>
    obtain ⟨-, rfl⟩ := receive_eq_some (step_deliver.mp hstep).2
    exact List.prefix_append _ _
  | age v now =>
    cases hstep
    exact List.prefix_refl _
  | lose c =>
    obtain ⟨-, rfl⟩ := step_lose.mp hstep
    exact List.prefix_refl _
  | duplicate c =>
    obtain ⟨-, rfl⟩ := step_duplicate.mp hstep
    exact List.prefix_refl _

/-- What is not forged in the end never was. -/
theorem Unforged.of_step (h : Unforged net' mac s t) (hnet : Settled topo net)
    (hstep : net.step topo a = some net') : Unforged net mac s t := by
  obtain ⟨hwrites, hinjected⟩ := step_extends hstep
  refine ⟨fun j hj => h.injected j (hinjected.subset hj), fun y hy hmac => ?_⟩
  obtain ⟨j, hj, hdata⟩ := h.writes y (hwrites.subset hy) hmac
  obtain ⟨j', hj', -⟩ := hnet.writes y hy
  obtain ⟨more, hmore⟩ := hinjected
  rw [← hmore, List.getElem?_append_left (List.getElem?_eq_some_iff.mp hj').1] at hj
  exact ⟨j, hj, hdata⟩

/-- In the name of the host, a switch only passes on frames of the host. -/
theorem Unforged.passed (hin : Received topo net v source tag i data)
    (h : Unforged (net.absorb v tag ((net.switches v).switchFrame (header data) data source now))
      mac s t) {w : NetPort V T × Bytes}
    (hw : w ∈ ((net.switches v).switchFrame (header data) data source now).writes)
    (hmac : (header w.2).srcMac = mac) : w.2 = data ∧ w.1 ≠ source := by
  refine (hin.echoes hw).resolve_left fun hrep => hrep.ne ?_
  obtain ⟨j, hj, hdata⟩ := h.writes ⟨tag, v, w.1, w.2⟩
    (List.mem_append_right _ (List.mem_map.mpr ⟨w, hw, rfl⟩)) hmac
  cases hj.symm.trans hin.injected
  exact hdata

theorem Anchored.absorb (hG : topo.graph.IsTree) (hr : Routed topo net)
    (h : Anchored topo net mac s t) (hin : Received topo net v source tag i data)
    (hsource : (header data).srcMac = mac → Leads topo.graph v s (.tap t) source)
    (hunforged : Unforged (net.absorb v tag
      ((net.switches v).switchFrame (header data) data source now)) mac s t) :
    Anchored topo (net.absorb v tag ((net.switches v).switchFrame (header data) data source now))
      mac s t where
  table := fun u e he => by
    by_cases hu : u = v
    · subst hu
      simp only [Net.absorb, if_true, VirtualSwitch.switchFrame_eq,
        VirtualSwitch.cacheFrom_macAddressTable] at he
      rcases VirtualSwitch.refresh_eq_some _ _ _ he with ⟨hkey, rfl⟩ | ⟨-, hold⟩
      · exact hsource (macToString_injective hkey).symm
      · exact h.table u e hold
    · simp only [Net.absorb, if_neg hu] at he
      exact h.table u e he
  flight := fun c hc hmac => by
    rcases List.mem_append.mp hc with hold | hnew
    · exact h.flight c hold hmac
    · obtain ⟨-, rfl, hw⟩ := mem_departures.mp hnew
      obtain ⟨hdata, hne⟩ := hunforged.passed hin hw hmac
      simp only at hdata
      rw [hdata] at hmac
      exact (hsource hmac).away hG (topo.link_mem.mp (hr.mem_writes hin.port hw)) hne

theorem Anchored.step (hG : topo.graph.IsTree) (hr : Routed topo net) (hnet : Settled topo net)
    (h : Anchored topo net mac s t) (hstep : net.step topo a = some net')
    (hunforged : Unforged net' mac s t) : Anchored topo net' mac s t := by
  cases a with
  | inject i now =>
    have hi : i ∈ net'.injected := mem_injected hstep
    obtain ⟨ht, hrec⟩ := step_inject.mp hstep
    obtain ⟨-, rfl⟩ := receive_eq_some hrec
    have hbase : Anchored topo (net.inject i) mac s t := ⟨h.table, h.flight⟩
    have hrouted : Routed topo (net.inject i) := ⟨hr.ports, hr.table, hr.flight⟩
    refine hbase.absorb hG hrouted (received_injected i ht) (fun hmac => ?_) hunforged
    obtain ⟨rfl, rfl⟩ := Prod.mk.inj (hunforged.injected i hi hmac)
    exact .inl ⟨rfl, rfl⟩
  | deliver c now =>
    obtain ⟨hc, hrec⟩ := step_deliver.mp hstep
    obtain ⟨-, rfl⟩ := receive_eq_some hrec
    obtain ⟨i, hin⟩ := hnet.received hr hc
    have hbase : Anchored topo (net.take c) mac s t :=
      ⟨h.table, fun c' hc' => h.flight c' (List.mem_of_mem_erase hc')⟩
    exact hbase.absorb hG (hr.take c) hin (fun hmac => .inr ⟨c.src, rfl, h.flight c hc hmac⟩)
      hunforged
  | age v now =>
    cases hstep
    refine ⟨fun u e he => ?_, h.flight⟩
    by_cases hu : u = v
    · subst hu
      simp only [if_true] at he
      exact h.table u e (VirtualSwitch.ageOutMacEntries_eq_some _ _ he)
    · simp only [if_neg hu] at he
      exact h.table u e he
  | lose c =>
    obtain ⟨-, rfl⟩ := step_lose.mp hstep
    exact ⟨h.table, fun c' hc' => h.flight c' (List.mem_of_mem_erase hc')⟩
  | duplicate c =>
    obtain ⟨hc, rfl⟩ := step_duplicate.mp hstep
    refine ⟨h.table, fun c' hc' => ?_⟩
    rcases List.mem_cons.mp hc' with rfl | hold
    · exact h.flight _ hc
    · exact h.flight c' hold

def Replied (net : Net V T) (k : Nat) (i : Injection V T) : Prop :=
  ∃ y ∈ net.writes, y.tag = k ∧ Replies i.data y.data

/-- The host that asked has received a reply. -/
def Returned (net : Net V T) (k : Nat) (i : Injection V T) : Prop :=
  ∃ y ∈ net.writes, y.tag = k ∧ y.switch = i.switch ∧ y.port = .tap i.tap ∧ Replies i.data y.data

def Returning (topo : Topology V T) (net : Net V T) (k : Nat) (i : Injection V T) : Prop :=
  ∃ c ∈ net.flight, c.tag = k ∧ Replies i.data c.data ∧ Nearer topo.graph i.switch c.src c.dst

/-- The host asks in its own name. -/
structure Asks (i : Injection V T) (mac : Mac) : Prop where
  group : Group i
  source : (header i.data).srcMac = mac
  sender : (ArpPacket.overlay i.data).sha = mac

/-- Each question that has been replied to has its reply, or gets it; what flies was written. -/
structure Homing (topo : Topology V T) (net : Net V T) (mac : Mac) : Prop where
  taps : ∀ i ∈ net.injected, .tap i.tap ∈ topo.ports i.switch
  written : ∀ c ∈ net.flight, ∃ y ∈ net.writes, y.tag = c.tag ∧ y.data = c.data
  replies : ∀ k i, net.injected[k]? = some i → Asks i mac → net.Replied k i →
    net.Returned k i ∨ net.Returning topo k i

section Homing

omit [DecidableEq T] in
theorem Returned.absorb (h : net.Returned k i) : (net.absorb v tag o).Returned k i := by
  obtain ⟨y, hy, hrest⟩ := h
  exact ⟨y, List.mem_append_left _ hy, hrest⟩

omit [DecidableEq T] in
theorem Returning.absorb (h : net.Returning topo k i) :
    (net.absorb v tag o).Returning topo k i := by
  obtain ⟨c, hc, hrest⟩ := h
  exact ⟨c, List.mem_append_left _ hc, hrest⟩

omit [DecidableEq T] in
private theorem returns_absorb (hw : (p, d) ∈ o.writes) (hreply : Replies i.data d)
    (hp : Leads topo.graph v i.switch (.tap i.tap) p) :
    (net.absorb v tag o).Returned tag i ∨ (net.absorb v tag o).Returning topo tag i := by
  rcases hp with ⟨rfl, rfl⟩ | ⟨w, rfl, hn⟩
  · exact .inl ⟨⟨tag, i.switch, .tap i.tap, d⟩,
      List.mem_append_right _ (List.mem_map.mpr ⟨_, hw, rfl⟩), rfl, rfl, rfl, hreply⟩
  · exact .inr ⟨⟨tag, v, w, d⟩,
      List.mem_append_right _ (mem_departures.mpr ⟨rfl, rfl, hw⟩), rfl, hreply, hn⟩

private theorem reply_passed (hG : topo.graph.IsTree) (hr : Routed topo net)
    (ha : Anchored topo net mac i.switch i.tap) (hasks : Asks i mac) (hreply : Replies i.data data)
    (hother : (header data).srcMac ≠ mac) (htap : .tap i.tap ∈ topo.ports i.switch)
    (hp : Leads topo.graph v i.switch (.tap i.tap) p) (hne : p ≠ source) :
    (p, data) ∈ ((net.switches v).switchFrame (header data) data source now).writes := by
  have hport := mem_ports_of_leads hp htap
  have hno : ((net.switches v).switchFrame (header data) data source now).answered = false := by
    rw [VirtualSwitch.switchFrame_answered, VirtualSwitch.cachedAnswer, if_neg hreply.not_query]
    rfl
  have hdst : (header data).dstMac = mac := hreply.dstMac.trans hasks.sender
  rw [VirtualSwitch.switchFrame_forwards _ _ _ _ _ hno, VirtualSwitch.mem_forwardFrame]
  refine ⟨rfl, ?_⟩
  by_cases hflood : isMulticast (header data).dstMac = true ∨
      ((net.switches v).refresh (header data).srcMac source now).macAddressTable
        (macToString (header data).dstMac) = none
  · rw [VirtualSwitch.sendsTo_flood hflood, VirtualSwitch.refresh_ports, hr.ports]
    exact ⟨hne, hport⟩
  · obtain ⟨hm, ht⟩ := not_or.mp hflood
    obtain ⟨e, he⟩ := Option.ne_none_iff_exists'.mp ht
    rw [VirtualSwitch.sendsTo_known (Bool.eq_false_iff.mpr hm) he]
    rw [hdst] at he
    rcases VirtualSwitch.refresh_eq_some _ _ _ he with ⟨hkey, -⟩ | ⟨-, hold⟩
    · exact absurd (macToString_injective hkey).symm hother
    · exact ⟨hne, (ha.table v e hold).unique hG hp⟩

/-- The reply that switch `v` has in hand came from farther away than `v`. -/
def ReplyInHand (topo : Topology V T) (v : V) (source : NetPort V T) (i : Injection V T)
    (data : Bytes) : Prop :=
  Replies i.data data ∧ ∀ p, Leads topo.graph v i.switch (.tap i.tap) p → p ≠ source

private theorem homing_absorb (hG : topo.graph.IsTree) (hr : Routed topo net)
    (ha : Anchored topo net mac s t) (hin : Received topo net v source tag i data)
    (hunforged : Unforged net mac s t) (htaps : ∀ i ∈ net.injected, .tap i.tap ∈ topo.ports i.switch)
    (hwritten : ∀ c ∈ net.flight, ∃ y ∈ net.writes, y.tag = c.tag ∧ y.data = c.data)
    (hknown : Replies i.data data → ∃ y ∈ net.writes, y.tag = tag ∧ y.data = data)
    (hreplies : ∀ k j, net.injected[k]? = some j → Asks j mac → net.Replied k j →
      net.Returned k j ∨ net.Returning topo k j ∨
        (k = tag ∧ ReplyInHand topo v source j data)) :
    Homing topo (net.absorb v tag ((net.switches v).switchFrame (header data) data source now))
      mac := by
  let o := (net.switches v).switchFrame (header data) data source now
  refine ⟨htaps, fun c hc => ?_, fun k j hj hasks hreplied => ?_⟩
  · rcases List.mem_append.mp hc with hold | hnew
    · obtain ⟨y, hy, hrest⟩ := hwritten c hold
      exact ⟨y, List.mem_append_left _ hy, hrest⟩
    · obtain ⟨htag, -, hw⟩ := mem_departures.mp hnew
      exact ⟨⟨tag, v, _, _⟩, List.mem_append_right _ (List.mem_map.mpr ⟨_, hw, rfl⟩), htag.symm, rfl⟩
  · have hj' : net.injected[k]? = some j := hj
    have hhost : (j.switch, j.tap) = (s, t) :=
      hunforged.injected j (List.mem_of_getElem? hj') hasks.source
    obtain ⟨rfl, rfl⟩ := Prod.mk.inj hhost
    have hearlier (hbefore : net.Replied k j) :
        (net.absorb v tag o).Returned k j ∨ (net.absorb v tag o).Returning topo k j := by
      rcases hreplies k j hj' hasks hbefore with hret | hret | ⟨rfl, hreply, hfar⟩
      · exact .inl hret.absorb
      · exact .inr hret.absorb
      · obtain ⟨p, hp⟩ := Leads.exists_way hG v j.switch (.tap j.tap)
        have hother : (header data).srcMac ≠ mac := by
          intro hmac
          cases hj'.symm.trans hin.injected
          obtain ⟨y, hy, htag, hdata⟩ := hknown hreply
          obtain ⟨j', hj'', hsame⟩ := hunforged.writes y hy (hdata ▸ hmac)
          rw [htag] at hj''
          cases hj'.symm.trans hj''
          exact hreply.ne (hdata.symm.trans hsame)
        exact returns_absorb (reply_passed hG hr ha hasks hreply hother
          (htaps j (List.mem_of_getElem? hj')) hp (hfar p hp)) hreply hp
    obtain ⟨y, hy, htag, hreply⟩ := hreplied
    rcases List.mem_append.mp hy with hold | hnew
    · exact hearlier ⟨y, hold, htag, hreply⟩
    · obtain ⟨w, hw, rfl⟩ := List.mem_map.mp hnew
      simp only at htag hreply
      subst htag
      obtain rfl : j = i := Option.some.inj (hj'.symm.trans hin.injected)
      by_cases hquestion : data = j.data
      · rcases VirtualSwitch.mem_switchFrame_writes (q := w.1) (d := w.2) _ _ _ _ _ hw with
          ⟨hdata, -⟩ | ⟨hport, -⟩
        · exact absurd (hdata.trans hquestion) hreply.ne
        · exact returns_absorb (p := w.1) (d := w.2) hw hreply
            (hport ▸ hin.home hquestion hasks.group)
      · obtain ⟨y, hy, hrest⟩ := hknown (hin.echo.resolve_left hquestion)
        exact hearlier ⟨y, hy, hrest.1, hrest.2 ▸ hin.echo.resolve_left hquestion⟩

theorem Homing.step (hG : topo.graph.IsTree) (hr : Routed topo net) (hnet : Settled topo net)
    (ha : Anchored topo net mac s t) (h : Homing topo net mac) (hreliable : a.reliable = true)
    (hstep : net.step topo a = some net') (hunforged : Unforged net' mac s t) :
    Homing topo net' mac := by
  have hwrites := (step_extends hstep).1
  cases a with
  | inject i now =>
    obtain ⟨ht, hrec⟩ := step_inject.mp hstep
    obtain ⟨-, rfl⟩ := receive_eq_some hrec
    have hrouted : Routed topo (net.inject i) := ⟨hr.ports, hr.table, hr.flight⟩
    have hanchored : Anchored topo (net.inject i) mac s t := ⟨ha.table, ha.flight⟩
    refine homing_absorb hG hrouted hanchored (received_injected i ht)
      ⟨hunforged.injected, fun y hy => hunforged.writes y (hwrites.subset hy)⟩ ?_ h.written
      (fun hreply => absurd rfl hreply.ne) (fun k j hj hasks hreplied => ?_)
    · intro j hj
      rcases List.mem_append.mp hj with hold | hnew
      · exact h.taps j hold
      · exact List.mem_singleton.mp hnew ▸ ht
    · rcases getElem?_concat_eq_some.mp hj with hold | ⟨rfl, rfl⟩
      · rcases h.replies k j hold hasks hreplied with hret | hret
        · exact .inl hret
        · exact .inr (.inl hret)
      · obtain ⟨y, hy, htag, -⟩ := hreplied
        obtain ⟨j, hj, -⟩ := hnet.writes y hy
        rw [htag, List.getElem?_eq_none (le_refl _)] at hj
        cases hj
  | deliver c now =>
    obtain ⟨hc, hrec⟩ := step_deliver.mp hstep
    obtain ⟨-, rfl⟩ := receive_eq_some hrec
    obtain ⟨i, hin⟩ := hnet.received hr hc
    have hanchored : Anchored topo (net.take c) mac s t :=
      ⟨ha.table, fun c' hc' => ha.flight c' (List.mem_of_mem_erase hc')⟩
    refine homing_absorb hG (hr.take c) hanchored hin
      ⟨hunforged.injected, fun y hy => hunforged.writes y (hwrites.subset hy)⟩ h.taps
      (fun c' hc' => h.written c' (List.mem_of_mem_erase hc')) (fun _ => h.written c hc)
      (fun k j hj hasks hreplied => ?_)
    rcases h.replies k j hj hasks hreplied with hret | ⟨c', hc', htag, hreply, hn⟩
    · exact .inl hret
    · by_cases hsame : c' = c
      · subst hsame
        refine .inr (.inr ⟨htag.symm, hreply, fun p hp hback => ?_⟩)
        subst hback
        exact hn.asymm hp.link
      · exact .inr (.inl ⟨c', (List.mem_erase_of_ne hsame).mpr hc', htag, hreply, hn⟩)
  | age v now =>
    cases hstep
    exact ⟨h.taps, h.written, h.replies⟩
  | lose c => cases hreliable
  | duplicate c => cases hreliable

end Homing

private theorem homing_run (hG : topo.graph.IsTree) {now : V → Int} {actions : List (NetAction V T)}
    (hrun : Run (Steps topo) (start topo now) actions net)
    (hreliable : ∀ a ∈ actions, a.reliable = true) (hunforged : Unforged net mac s t) :
    Homing topo net mac := by
  have hall := hrun.invariant_of
    (I := fun n => Routed topo n ∧ Settled topo n ∧
      (Unforged n mac s t → Anchored topo n mac s t ∧ Homing topo n mac))
    (P := fun a => a.reliable = true) ?_ ?_ hreliable
  · exact (hall.2.2 hunforged).2
  · rintro n a n' ⟨hr, hnet, ih⟩ ha hstep
    refine ⟨hr.step hstep, hnet.step hG hr ha hstep, fun hforged => ?_⟩
    obtain ⟨hanchored, hhoming⟩ := ih (hforged.of_step hnet hstep)
    exact ⟨hanchored.step hG hr hnet hstep hforged,
      hhoming.step hG hr hnet hanchored ha hstep hforged⟩
  · refine ⟨routed_start now, asked_start now, fun _ => ⟨⟨?_, ?_⟩, ⟨?_, ?_, ?_⟩⟩⟩
    · intro v e he
      cases he
    · exact fun _ h => absurd h List.not_mem_nil
    · exact fun _ h => absurd h List.not_mem_nil
    · exact fun _ h => absurd h List.not_mem_nil
    · intro k i hi
      cases hi

end Net

/-- On a tree of switches with reliable links, whatever the tables hold and wherever addresses
move, no port sees a group frame twice and it never goes back. Once no copy of it is in flight,
every other TAP has received it, or a switch on the way there has answered the question it asks;
and if nobody else speaks in the name of the host, the host has then received a reply. -/
theorem question_not_lost {V T : Type} [DecidableEq V] [DecidableEq T] {topo : Topology V T}
    (hG : topo.graph.IsTree) {now : V → Int} {actions : List (NetAction V T)} {net : Net V T}
    (hrun : Run (Net.Steps topo) (Net.start topo now) actions net)
    (hreliable : ∀ a ∈ actions, a.reliable = true) {tag : Nat} {i : Injection V T}
    (hi : net.injected[tag]? = some i) (hgroup : isMulticast (header i.data).dstMac = true) :
    (∀ v q, net.heard tag i.data v q ≤ 1) ∧
    net.heard tag i.data i.switch (.tap i.tap) = 0 ∧
    ((∀ c ∈ net.flight, c.tag ≠ tag) →
      ∀ v t, .tap t ∈ topo.ports v → (v, t) ≠ (i.switch, i.tap) →
        net.heard tag i.data v (.tap t) = 1 ∨
          (∃ y ∈ net.writes, y.tag = tag ∧ Between topo.graph i.switch y.switch v ∧
            Replies i.data y.data) ∧
          (net.Unforged (header i.data).srcMac i.switch i.tap →
            (ArpPacket.overlay i.data).sha = (header i.data).srcMac →
            ∃ y ∈ net.writes, y.tag = tag ∧ y.switch = i.switch ∧ y.port = .tap i.tap ∧
              Replies i.data y.data)) := by
  have hr := Net.routed_run hrun
  have h := Net.asked_run hG hrun hreliable
  refine ⟨fun v q => ?_, h.back tag i hi hgroup, fun hdone v t hport hne => ?_⟩
  · exact (Nat.le_add_right _ _).trans (h.reach_le tag i v q hi hgroup)
  · have hnone : net.nearing topo tag i.data i.switch v = 0 :=
      List.countP_eq_zero.mpr fun c hc hkeep => hdone c hc (of_decide_eq_true hkeep).1
    have heq := h.reach_eq tag i v t hi hgroup hport hne
    rw [Net.reach, hnone] at heq
    refine heq.imp_right fun hanswered => ⟨hanswered, fun hunforged hsha => ?_⟩
    obtain ⟨y, hy, htag, -, hreply⟩ := hanswered
    have hhoming := Net.homing_run hG hrun hreliable hunforged
    rcases hhoming.replies tag i hi ⟨hgroup, rfl, hsha⟩ ⟨y, hy, htag, hreply⟩ with hret | hret
    · exact hret
    · obtain ⟨c, hc, hctag, -⟩ := hret
      exact absurd hctag (hdone c hc)

/-- Host 7 announces itself at switch 1, and before switch 0 hears of it, host 9 asks there.
Switch 1 answers for its own TAP, and host 9 gets the reply. -/
theorem question_not_lost_answer :
    let hello := arpFrame arpReply ![2, 0, 0, 0, 0, 7] ![10, 0, 0, 7] ![10, 0, 0, 7]
    let query := arpFrame arpRequest ![2, 0, 0, 0, 0, 9] ![10, 0, 0, 9] ![10, 0, 0, 7]
    let reply := arpReplyFrame (ArpPacket.overlay query) ![2, 0, 0, 0, 0, 7]
    ∃ net, Run (Net.Steps pair) (Net.start pair fun _ => 0)
        [.inject ⟨1, (), hello⟩ 0, .inject ⟨0, (), query⟩ 1, .deliver ⟨1, 0, 1, query⟩ 2,
          .deliver ⟨1, 1, 0, reply⟩ 3] net ∧
      net.heard 1 query 1 (.tap ()) = 0 ∧
      ∃ y ∈ net.writes, y.tag = 1 ∧ y.switch = 0 ∧ y.port = .tap () ∧ Replies query y.data := by
  intro hello query reply
  obtain ⟨net, hrun, hcheck⟩ := Run.exists_of_check (Net.step pair) (Net.start pair fun _ => 0)
    [.inject ⟨1, (), hello⟩ 0, .inject ⟨0, (), query⟩ 1, .deliver ⟨1, 0, 1, query⟩ 2,
      .deliver ⟨1, 1, 0, reply⟩ 3]
    (fun net => net.injected = [⟨1, (), hello⟩, ⟨0, (), query⟩] ∧
      net.flight = [⟨0, 1, 0, hello⟩] ∧ net.heard 1 query 1 (.tap ()) = 0 ∧
      ∀ y ∈ net.writes, (header y.data).srcMac = ![2, 0, 0, 0, 0, 9] → y.tag = 1 ∧ y.data = query)
    (by decide +kernel)
  obtain ⟨hinjected, hflight, hheard, hwrites⟩ := of_decide_eq_true hcheck
  have hi : net.injected[1]? = some ⟨0, (), query⟩ := by rw [hinjected]; rfl
  have hsource : (header query).srcMac = ![2, 0, 0, 0, 0, 9] := by decide
  have hunforged : net.Unforged (header query).srcMac 0 () := by
    refine ⟨?_, fun y hy hmac => ?_⟩
    · rw [hinjected]
      decide
    · obtain ⟨htag, hdata⟩ := hwrites y hy (hmac.trans hsource)
      refine ⟨⟨0, (), query⟩, ?_, hdata⟩
      rw [htag]
      exact hi
  obtain ⟨-, -, hlost⟩ := question_not_lost pair_isTree hrun (by decide) hi (by decide)
  have hsilent : (1 : Nat) ≠ 0 := by decide
  have hall := hlost (by simp [hflight]) 1 () (by decide) (by decide)
  have hanswer := hall.resolve_left fun hone => hsilent (hone.symm.trans hheard)
  exact ⟨net, hrun, hheard, hanswer.2 hunforged (by decide)⟩

end VSwitch
