import VSwitch.Fabric.Broadcast

/-! The loop of `entrypoint.sh` that announces the address of a player: once an announcement has
gone round, a question for the address is answered where it is asked. -/
namespace VSwitch
open Lib EthernetFrame

/-- What `send` of the script puts together from the MAC of `tap0` and the address. -/
def announcementFrame (mac : Mac) (ip : Ip) : Bytes :=
  EthernetFrame.build (fun _ => 0xff) mac 0x0806 (ArpPacket.bytes
    { htype := 1, ptype := 0x0800, hlen := 6, plen := 4, oper := 2
      sha := mac, spa := ip, tha := fun _ => 0xff, tpa := ip })

/-- The frames give the address to this MAC, if they speak of it. -/
def Attests (frames : List Bytes) (ip : Ip) (mac : Mac) : Prop :=
  ∀ f ∈ frames, ValidArp f → (ArpPacket.overlay f).spa = ip → (ArpPacket.overlay f).sha = mac

/-- The entries learned at `sent` or later do not expire now. -/
def Within (sent now : Int) : Prop := sent ≤ now ∧ now < sent + 301000000000

/-- The cache gives the address to the MAC, since `sent` or later. -/
def VirtualSwitch.Knows {P : Type} (sw : VirtualSwitch P) (ip : Ip) (mac : Mac) (sent : Int) :
    Prop := ∃ e, sw.ipToMac ip = some e ∧ e.mac = mac ∧ sent ≤ e.learnedAt

section Frame
variable {mac : Mac} {ip : Ip} {frames more : List Bytes} {f : Bytes}

private theorem announcementFrame_fields (mac : Mac) (ip : Ip) :
    14 ≤ (announcementFrame mac ip).length ∧ ValidArp (announcementFrame mac ip) ∧
      (header (announcementFrame mac ip)).dstMac = (fun _ => 0xff) ∧
      ArpPacket.overlay (announcementFrame mac ip) =
        { htype := 1, ptype := 0x0800, hlen := 6, plen := 4, oper := 2
          sha := mac, spa := ip, tha := fun _ => 0xff, tpa := ip } := by
  have hlen : (announcementFrame mac ip).length = 42 := by
    rw [announcementFrame, build_length, ArpPacket.length_bytes]
  have hover := ArpPacket.overlay_build (fun _ => 0xff) mac 0x0806
    { htype := 1, ptype := 0x0800, hlen := 6, plen := 4, oper := 2
      sha := mac, spa := ip, tha := fun _ => 0xff, tpa := ip }
  refine ⟨by omega, ⟨be16_build _ _ _ _, hlen.ge, ?_⟩, ?_, hover⟩
  · rw [announcementFrame, hover]
    exact ⟨rfl, rfl, rfl, rfl⟩
  · rw [announcementFrame, header_build]

private theorem not_isQuery_announcement : ¬ IsQuery (announcementFrame mac ip) := by
  rintro ⟨-, hoper, -⟩
  rw [(announcementFrame_fields mac ip).2.2.2] at hoper
  have hne : (2 : UInt16) ≠ arpRequest := by decide
  exact hne hoper

theorem Attests.mono (h : Attests more ip mac) (hsub : frames ⊆ more) : Attests frames ip mac :=
  fun f hf => h f (hsub hf)

private theorem Attests.genuine (h : Attests frames ip mac) (hf : Genuine frames f) (hip : ip ≠ 0)
    (hv : ValidArp f) (hspa : (ArpPacket.overlay f).spa = ip) : (ArpPacket.overlay f).sha = mac := by
  subst hspa
  obtain ⟨g, hg, hvalid, hsame, -, hsha⟩ := hf.told hv hip
  rw [← hsha]
  exact h g hg hvalid hsame

end Frame

namespace VirtualSwitch
variable {P : Type} {sw : VirtualSwitch P} {ip : Ip} {mac : Mac} {sent now : Int} {data : Bytes}

theorem Knows.ageOutMacEntries (h : sw.Knows ip mac sent) (hnow : Within sent now) :
    (sw.ageOutMacEntries now).Knows ip mac sent := by
  obtain ⟨e, he, hmac, hsent⟩ := h
  refine ⟨e, Table.eraseIf_eq_some.mpr ⟨he, ?_⟩, hmac, hsent⟩
  rw [expired_eq, decide_eq_false_iff_not]
  have hlate := hnow.2
  omega

theorem Knows.refresh (h : sw.Knows ip mac sent) (hnow : Within sent now) (m : Mac) (source : P) :
    (sw.refresh m source now).Knows ip mac sent := by
  have hlearned : (sw.learnMacAddress m source now).Knows ip mac sent := h
  unfold VirtualSwitch.refresh VirtualSwitch.ageCheck
  split_ifs
  · exact hlearned.ageOutMacEntries hnow
  · exact hlearned

theorem Knows.cacheFrom (h : sw.Knows ip mac sent) (hnow : Within sent now)
    (htells : ValidArp data → (ArpPacket.overlay data).spa = ip → (ArpPacket.overlay data).sha = mac) :
    (sw.cacheFrom data now).Knows ip mac sent := by
  obtain ⟨e, he, hmac, hsent⟩ := h
  unfold VirtualSwitch.cacheFrom VirtualSwitch.cacheSender
  split_ifs with hv hspa
  · by_cases hsame : (ArpPacket.overlay data).spa = ip
    · subst hsame
      exact ⟨_, Table.put_same .., htells hv rfl, hnow.1⟩
    · exact ⟨e, (Table.put_other (Ne.symm hsame) _ _).trans he, hmac, hsent⟩
  · exact ⟨e, he, hmac, hsent⟩
  · exact ⟨e, he, hmac, hsent⟩

private theorem knows_announcement (sw : VirtualSwitch P) (hip : ip ≠ 0) (hnow : Within sent now) :
    (sw.cacheFrom (announcementFrame mac ip) now).Knows ip mac sent := by
  obtain ⟨-, hv, -, hover⟩ := announcementFrame_fields mac ip
  rw [VirtualSwitch.cacheFrom, if_pos hv, hover, VirtualSwitch.cacheSender, if_pos hip]
  exact ⟨_, Table.put_same .., rfl, hnow.1⟩

end VirtualSwitch

namespace Net
variable {V T : Type} [DecidableEq V] [DecidableEq T] {topo : Topology V T} {net net' : Net V T}
variable {a : NetAction V T} {i j : Injection V T} {v s : V} {source : NetPort V T} {k tag : Nat}
variable {ip : Ip} {mac : Mac} {sent now : Int} {data : Bytes}

def clock : NetAction V T → Option Int
  | .inject _ now => some now
  | .deliver _ now => some now
  | .age _ now => some now
  | .lose _ => none
  | .duplicate _ => none

/-- The switches that have passed the announcement on know the address, and so does the one where
it was made. -/
structure Spread (net : Net V T) (k : Nat) (s : V) (ip : Ip) (mac : Mac) (sent : Int) : Prop where
  origin : (net.switches s).Knows ip mac sent
  passed : ∀ v q, 0 < net.heard k (announcementFrame mac ip) v q →
    (net.switches v).Knows ip mac sent

private theorem knows_absorb (hnow : Within sent now) (hip : ip ≠ 0)
    (hattests : Attests net.frames ip mac) (hgenuine : Genuine net.frames data)
    (h : (net.switches v).Knows ip mac sent ∨ data = announcementFrame mac ip) :
    (((net.switches v).switchFrame (header data) data source now).switch).Knows ip mac sent := by
  rw [VirtualSwitch.switchFrame_eq]
  rcases h with hknows | rfl
  · exact (hknows.refresh hnow _ _).cacheFrom hnow fun hv hspa =>
      hattests.genuine hgenuine hip hv hspa
  · exact VirtualSwitch.knows_announcement _ hip hnow

private theorem spread_absorb
    (horigin : (net.switches s).Knows ip mac sent ∨ s = v ∧ data = announcementFrame mac ip)
    (hbefore : ∀ v q, 0 < net.heard k (announcementFrame mac ip) v q →
      (net.switches v).Knows ip mac sent) (hk : net.injected[k]? = some j)
    (hj : j.data = announcementFrame mac ip) (hin : Received topo net v source tag i data)
    (hnow : Within sent now) (hip : ip ≠ 0) (hattests : Attests net.frames ip mac)
    (hgenuine : Genuine net.frames data) :
    Spread (net.absorb v tag ((net.switches v).switchFrame (header data) data source now)) k s ip
      mac sent := by
  have hlater {u : V} (hu : (net.switches u).Knows ip mac sent ∨
      u = v ∧ data = announcementFrame mac ip) :
      ((net.absorb v tag ((net.switches v).switchFrame (header data) data source now)).switches
        u).Knows ip mac sent := by
    simp only [Net.absorb]
    split_ifs with hsame
    · subst hsame
      exact knows_absorb hnow hip hattests hgenuine (hu.imp_right And.right)
    · exact hu.resolve_right fun hthere => hsame hthere.1
  refine ⟨hlater horigin, fun u q hheard => hlater ?_⟩
  obtain ⟨y, hy, hkeep⟩ := List.countP_pos_iff.mp hheard
  obtain ⟨htag, hdata, hu, hq⟩ := of_decide_eq_true hkeep
  rcases List.mem_append.mp hy with hold | hnew
  · exact .inl (hbefore u q (List.countP_pos_iff.mpr ⟨y, hold, hkeep⟩))
  · obtain ⟨w, hw, rfl⟩ := List.mem_map.mp hnew
    simp only at htag hdata hu
    subst htag
    cases hk.symm.trans hin.injected
    rcases hin.echoes hw with hreply | ⟨hpassed, -⟩
    · exact absurd (hj ▸ hreply.1) not_isQuery_announcement
    · exact .inr ⟨hu.symm, hpassed.symm.trans hdata⟩

theorem Spread.step (h : Spread net k s ip mac sent) (hr : Routed topo net)
    (hnet : Settled topo net) (honest : Honest net) (hk : net.injected[k]? = some j)
    (hj : j.data = announcementFrame mac ip) (hip : ip ≠ 0) (hreliable : a.reliable = true)
    (hclock : ∀ now ∈ clock a, Within sent now) (hstep : net.step topo a = some net')
    (hattests : Attests net'.frames ip mac) : Spread net' k s ip mac sent := by
  cases a with
  | inject i now =>
    obtain ⟨ht, hrec⟩ := step_inject.mp hstep
    obtain ⟨-, rfl⟩ := receive_eq_some hrec
    have hk' : (net.inject i).injected[k]? = some j := getElem?_concat_eq_some.mpr (.inl hk)
    exact spread_absorb (.inl h.origin) h.passed hk' hj (received_injected i ht) (hclock now rfl) hip
      hattests (honest.inject i).2
  | deliver c now =>
    obtain ⟨hc, hrec⟩ := step_deliver.mp hstep
    obtain ⟨-, rfl⟩ := receive_eq_some hrec
    obtain ⟨i, hin⟩ := hnet.received hr hc
    exact spread_absorb (.inl h.origin) h.passed hk hj hin (hclock now rfl) hip hattests
      (honest.flight c hc)
  | age v now =>
    cases hstep
    have hkept {u : V} (hu : (net.switches u).Knows ip mac sent) :
        (if u = v then (net.switches v).ageOutMacEntries now else net.switches u).Knows ip mac
          sent := by
      split_ifs with hsame
      · subst hsame
        exact hu.ageOutMacEntries (hclock now rfl)
      · exact hu
    exact ⟨hkept h.origin, fun u q hheard => hkept (h.passed u q hheard)⟩
  | lose c => cases hreliable
  | duplicate c => cases hreliable

omit [DecidableEq V] [DecidableEq T] in
private theorem frames_subset (h : net.injected <+: net'.injected) : net.frames ⊆ net'.frames :=
  List.map_subset _ h.subset

private theorem spread_injected {t : T} (hnet : Settled topo net) (honest : Honest net)
    (hip : ip ≠ 0)
    (hstep : net.step topo (.inject ⟨s, t, announcementFrame mac ip⟩ sent) = some net')
    (hattests : Attests net'.frames ip mac) :
    Spread net' net.injected.length s ip mac sent := by
  let i : Injection V T := ⟨s, t, announcementFrame mac ip⟩
  obtain ⟨ht, hrec⟩ := step_inject.mp hstep
  obtain ⟨-, rfl⟩ := receive_eq_some hrec
  have hfresh : net.injected[net.injected.length]? = none := List.getElem?_eq_none (le_refl _)
  refine spread_absorb (.inr ⟨rfl, rfl⟩) (fun v q hheard => ?_)
    (getElem?_concat_eq_some.mpr (.inr ⟨rfl, rfl⟩)) rfl (received_injected i ht)
    ⟨le_refl _, by omega⟩ hip hattests (honest.inject i).2
  have hzero : net.reach topo net.injected.length i v q = 0 := hnet.reach_fresh hfresh
  exact absurd (Nat.add_eq_zero_iff.mp hzero).1 hheard.ne'

private theorem question_stays {t : T} {query : Bytes} (ht : .tap t ∈ topo.ports v)
    (h : (net.switches v).Knows ip mac sent) (hquery : IsQuery query)
    (htpa : (ArpPacket.overlay query).tpa = ip) (hnow : Within sent now) :
    ∃ net', net.step topo (.inject ⟨v, t, query⟩ now) = some net' ∧ net'.flight = net.flight ∧
      net'.writes = net.writes ++ [⟨net.injected.length, v, .tap t,
        arpReplyFrame (ArpPacket.overlay query) mac⟩] := by
  have hlong : 14 ≤ query.length := (by decide : 14 ≤ 14 + 28).trans hquery.1.2.1
  obtain ⟨e, he, rfl, -⟩ := h.refresh hnow (header query).srcMac (.tap t)
  have hanswer := VirtualSwitch.switchFrame_replies (net.switches v) (header query) query (.tap t) now
    ((VirtualSwitch.cachedAnswer_eq_some ..).mpr ⟨hquery, htpa ▸ he⟩)
  refine ⟨_, step_inject.mpr ⟨ht, receive_long hlong⟩, ?_, ?_⟩
  · have hnone := congrArg (List.filterMap (departure v net.injected.length)) hanswer
    exact (congrArg (net.flight ++ ·) hnone).trans (List.append_nil _)
  · have hone := congrArg (List.map fun w : NetPort V T × Bytes =>
      (⟨net.injected.length, v, w.1, w.2⟩ : PortWrite V T)) hanswer
    exact congrArg (net.writes ++ ·) hone

private theorem spread_run (hG : topo.graph.IsTree) {t : T} {start : V → Int}
    {past later : List (NetAction V T)} {told : Net V T} (hip : ip ≠ 0)
    (hpast : Run (Steps topo) (Net.start topo start) past net)
    (htold : net.step topo (.inject ⟨s, t, announcementFrame mac ip⟩ sent) = some told)
    (hlater : Run (Steps topo) told later net')
    (hreliable : ∀ a ∈ past ++ later, a.reliable = true)
    (hclock : ∀ a ∈ later, ∀ now ∈ clock a, Within sent now)
    (hattests : Attests net'.frames ip mac) :
    Settled topo net' ∧ net'.injected[net.injected.length]? =
      some ⟨s, t, announcementFrame mac ip⟩ ∧ Spread net' net.injected.length s ip mac sent := by
  have hr := routed_run hpast
  have hnet := asked_run hG hpast fun a ha => hreliable a (List.mem_append_left _ ha)
  have honest := honest_run hpast
  have hmade : told.injected[net.injected.length]? = some ⟨s, t, announcementFrame mac ip⟩ := by
    rw [step_inject_injected htold]
    exact getElem?_concat_eq_some.mpr (.inr ⟨rfl, rfl⟩)
  have hall := hlater.invariant_of
    (I := fun n => Routed topo n ∧ Settled topo n ∧ Honest n ∧
      n.injected[net.injected.length]? = some ⟨s, t, announcementFrame mac ip⟩ ∧
      (Attests n.frames ip mac → Spread n net.injected.length s ip mac sent))
    (P := fun a => a.reliable = true ∧ ∀ now ∈ clock a, Within sent now) ?_ ?_
    fun a ha => ⟨hreliable a (List.mem_append_right _ ha), hclock a ha⟩
  · exact ⟨hall.2.1, hall.2.2.2.1, hall.2.2.2.2 hattests⟩
  · rintro n a n' ⟨hr, hnet, honest, hmade, hspread⟩ ⟨hrel, hnow⟩ hstep
    have hgrows := (step_grows hstep).1
    refine ⟨hr.step hstep, hnet.step hG hr hrel hstep, honest.step hstep, ?_, fun htells => ?_⟩
    · obtain ⟨more, hmore⟩ := hgrows
      rw [← hmore, List.getElem?_append_left (List.getElem?_eq_some_iff.mp hmade).1, hmade]
    · exact (hspread (htells.mono (frames_subset hgrows))).step hr hnet honest hmade rfl hip hrel hnow
        hstep htells
  · exact ⟨hr.step htold, hnet.step hG hr rfl htold, honest.step htold, hmade,
      fun htells => spread_injected hnet honest hip htold htells⟩

end Net

/-- A player's address is announced on a tree of switches with reliable links, in whatever state
they are. Once no copy of the announcement is in flight, and for as long as no word of it can have
expired, every switch with a TAP knows the address, unless somebody else has claimed it; and
whoever asks for it is answered by the switch there with the MAC that was announced, without a
frame on any link. -/
theorem announced_everywhere {V T : Type} [DecidableEq V] [DecidableEq T] {topo : Topology V T}
    (hG : topo.graph.IsTree) {start : V → Int} {past later : List (NetAction V T)}
    {net told net' : Net V T} {s : V} {t : T} {mac : Mac} {ip : Ip} (hip : ip ≠ 0) {sent : Int}
    (hpast : Run (Net.Steps topo) (Net.start topo start) past net)
    (htold : net.step topo (.inject ⟨s, t, announcementFrame mac ip⟩ sent) = some told)
    (hlater : Run (Net.Steps topo) told later net')
    (hreliable : ∀ a ∈ past ++ later, a.reliable = true)
    (hclock : ∀ a ∈ later, ∀ now ∈ Net.clock a, Within sent now)
    (hattests : Attests net'.frames ip mac)
    (hdone : ∀ c ∈ net'.flight, c.tag ≠ net.injected.length) :
    ∀ v t', .tap t' ∈ topo.ports v → (net'.switches v).Knows ip mac sent ∧
      ∀ query now, IsQuery query → (ArpPacket.overlay query).tpa = ip → Within sent now →
        ∃ net'', net'.step topo (.inject ⟨v, t', query⟩ now) = some net'' ∧
          net''.flight = net'.flight ∧
          net''.writes = net'.writes ++ [⟨net'.injected.length, v, .tap t',
            arpReplyFrame (ArpPacket.overlay query) mac⟩] := by
  obtain ⟨hnet, hmade, hspread⟩ := Net.spread_run hG hip hpast htold hlater hreliable hclock hattests
  intro v t' hport
  have hknows : (net'.switches v).Knows ip mac sent := by
    by_cases horigin : (v, t') = (s, t)
    · obtain ⟨rfl, rfl⟩ := Prod.mk.inj horigin
      exact hspread.origin
    · have hgroup : isMulticast (header (announcementFrame mac ip)).dstMac = true := by
        rw [(announcementFrame_fields mac ip).2.2.1]
        decide
      rcases hnet.reach_eq _ _ v t' hmade hgroup hport horigin with hone | hanswered
      · have hnone : net'.nearing topo net.injected.length (announcementFrame mac ip) s v = 0 :=
          List.countP_eq_zero.mpr fun c hc hkeep => hdone c hc (of_decide_eq_true hkeep).1
        have hheard : net'.heard net.injected.length (announcementFrame mac ip) v (.tap t') = 1 := by
          simpa only [Net.reach, hnone, Nat.add_zero] using hone
        exact hspread.passed v (.tap t') (hheard ▸ Nat.one_pos)
      · obtain ⟨y, -, -, -, hreply⟩ := hanswered
        exact absurd hreply.1 not_isQuery_announcement
  exact ⟨hknows, fun query now hquery htpa hnow => Net.question_stays hport hknows hquery htpa hnow⟩

/-- The player at switch 1 announces itself, and is asked for at switch 0. -/
theorem announced_everywhere_pair :
    let hello := announcementFrame ![2, 0, 0, 0, 0, 7] ![10, 0, 0, 7]
    let query := arpFrame arpRequest ![2, 0, 0, 0, 0, 9] ![10, 0, 0, 9] ![10, 0, 0, 7]
    ∃ net' net'', Run (Net.Steps pair) (Net.start pair fun _ => 0)
        [.inject ⟨1, (), hello⟩ 0, .deliver ⟨0, 1, 0, hello⟩ 1] net' ∧
      net'.step pair (.inject ⟨0, (), query⟩ 2) = some net'' ∧ net''.flight = [] ∧
      ⟨1, 0, .tap (), arpReplyFrame (ArpPacket.overlay query) ![2, 0, 0, 0, 0, 7]⟩ ∈ net''.writes := by
  intro hello query
  obtain ⟨net', hrun, hcheck⟩ := Run.exists_of_check (Net.step pair) (Net.start pair fun _ => 0)
    [.inject ⟨1, (), hello⟩ 0, .deliver ⟨0, 1, 0, hello⟩ 1]
    (fun net => net.injected = [⟨1, (), hello⟩] ∧ net.flight = []) (by decide +kernel)
  obtain ⟨hinjected, hflight⟩ := of_decide_eq_true hcheck
  obtain ⟨told, htold, hlater⟩ := hrun
  have hattests : Attests net'.frames ![10, 0, 0, 7] ![2, 0, 0, 0, 0, 7] := by
    rw [Net.frames, hinjected]
    rintro f hf - -
    rw [List.mem_singleton.mp hf]
    exact congrArg ArpPacket.sha (announcementFrame_fields _ _).2.2.2
  have hclock : ∀ a ∈ ([.deliver ⟨0, 1, 0, hello⟩ 1] : List (NetAction (Fin 2) Unit)),
      ∀ now ∈ Net.clock a, Within 0 now := by
    intro a ha now hnow
    rw [List.mem_singleton.mp ha] at hnow
    cases hnow
    exact ⟨by decide, by decide⟩
  have hpast : Run (Net.Steps pair) (Net.start pair fun _ => 0) [] (Net.start pair fun _ => 0) :=
    Run.nil_iff.mpr rfl
  have hall := announced_everywhere pair_isTree (by decide) hpast htold hlater (by decide) hclock
    hattests (by simp [hflight]) 0 () (by decide)
  obtain ⟨net'', hstep, hsilent, hwrites⟩ := hall.2 query 2 (by decide) (by decide) ⟨by decide, by decide⟩
  refine ⟨net', net'', ⟨told, htold, hlater⟩, hstep, hsilent.trans hflight, ?_⟩
  rw [hwrites, hinjected]
  exact List.mem_append_right _ (List.mem_singleton_self _)

end VSwitch
