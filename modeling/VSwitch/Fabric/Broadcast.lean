import VSwitch.Fabric.ExactlyOnce
import VSwitch.Fabric.Origin

/-! Group frames on a tree of switches, whatever the tables hold: they reach every port once,
and only a switch that answers the question they ask stops them. -/
namespace VSwitch
open Lib EthernetFrame

/-- What a switch answers to the question in `data`. -/
def Replies (data reply : Bytes) : Prop :=
  IsQuery data ∧ ∃ mac, reply = arpReplyFrame (ArpPacket.overlay data) mac

/-- What travels under the tag of an injected frame: the frame, or a reply to it. -/
def Echoes (data d : Bytes) : Prop := d = data ∨ Replies data d

section Replies
variable {data d : Bytes}

theorem Replies.not_query (h : Replies data d) : ¬ IsQuery d := by
  obtain ⟨-, mac, rfl⟩ := h
  exact not_isQuery_reply _ mac

theorem Replies.ne (h : Replies data d) : d ≠ data := fun heq => h.not_query (heq ▸ h.1)

theorem Replies.dstMac (h : Replies data d) :
    (header d).dstMac = (ArpPacket.overlay data).sha := by
  obtain ⟨-, mac, rfl⟩ := h
  rw [(arpReplyFrame_fields (ArpPacket.overlay data) mac).2.2.1]

private theorem Echoes.eq_of_query (h : Echoes data d) (hq : IsQuery d) : d = data :=
  h.resolve_right fun hreply => hreply.not_query hq

end Replies

namespace Net
variable {V T : Type} [DecidableEq V] [DecidableEq T]
variable {topo : Topology V T} {net net' : Net V T} {a : NetAction V T} {i : Injection V T}
variable {v s x : V} {t : T} {source p q : NetPort V T} {k tag : Nat} {data d : Bytes} {now : Int}
variable {o : Outcome (NetPort V T)} {c : Copy V}

def heard (net : Net V T) (tag : Nat) (data : Bytes) (v : V) (port : NetPort V T) : Nat :=
  net.writes.countP fun y => y.tag = tag ∧ y.data = data ∧ y.switch = v ∧ y.port = port

/-- How many copies of the frame itself travel to a switch between `s` and `x`. -/
noncomputable def nearing (topo : Topology V T) (net : Net V T) (tag : Nat) (data : Bytes)
    (s x : V) : Nat :=
  net.flight.countP fun c => c.tag = tag ∧ c.data = data ∧ Between topo.graph s c.dst x

/-- The copies of an injected frame that port `q` of switch `x` has seen or may still see. -/
noncomputable def reach (topo : Topology V T) (net : Net V T) (tag : Nat) (i : Injection V T)
    (x : V) (q : NetPort V T) : Nat :=
  net.heard tag i.data x q + net.nearing topo tag i.data i.switch x

/-- A switch on the way from the host that asked to `x` has answered. -/
def AnsweredBefore (topo : Topology V T) (net : Net V T) (tag : Nat) (i : Injection V T) (x : V) :
    Prop :=
  ∃ y ∈ net.writes, y.tag = tag ∧ Between topo.graph i.switch y.switch x ∧ Replies i.data y.data

/-- The frame is for a group, such as everybody. -/
abbrev Group (i : Injection V T) : Prop := isMulticast (header i.data).dstMac = true

section Reach

private theorem reach_absorb_other (h : ∀ w ∈ o.writes, ¬ (tag = k ∧ w.2 = i.data)) :
    (net.absorb v tag o).reach topo k i x q = net.reach topo k i x q := by
  have hheard : (net.absorb v tag o).heard k i.data x q = net.heard k i.data x q := by
    rw [heard, heard, absorb, List.countP_append, List.countP_map, Nat.add_eq_left,
      List.countP_eq_zero]
    intro w hw hkeep
    obtain ⟨htag, hdata, -⟩ := of_decide_eq_true hkeep
    exact h w hw ⟨htag, hdata⟩
  have hnearing : (net.absorb v tag o).nearing topo k i.data i.switch x =
      net.nearing topo k i.data i.switch x := by
    rw [nearing, nearing, absorb, List.countP_append, Nat.add_eq_left, List.countP_eq_zero]
    intro c hc hkeep
    obtain ⟨htag, hdata, -⟩ := of_decide_eq_true hkeep
    obtain ⟨htag', -, hw⟩ := mem_departures.mp hc
    exact h _ hw ⟨htag'.symm.trans htag, hdata⟩
  rw [reach, reach, hheard, hnearing]

private theorem heard_absorb (h : ∀ w ∈ o.writes, w.2 = d) :
    (net.absorb v tag o).heard tag d x q =
      net.heard tag d x q + if v = x then (copiesTo o.writes q).length else 0 := by
  rw [heard, heard, absorb, List.countP_append, List.countP_map, copiesTo, List.length_map,
    ← List.countP_eq_length_filter]
  congr 1
  split_ifs with hv
  · exact List.countP_congr fun w hw => by simp [hv, h w hw]
  · exact List.countP_eq_zero.mpr fun w _ hkeep => hv (of_decide_eq_true hkeep).2.2.1

private theorem nearing_absorb (hG : topo.graph.IsTree)
    (hsource : Leads topo.graph v s (.tap t) source)
    (hp : Leads topo.graph v x q p) (h : ∀ w ∈ o.writes, w.2 = d)
    (hlinks : ∀ w d', (.link w, d') ∈ o.writes → topo.graph.Adj v w ∧ .link w ≠ source) :
    (net.absorb v tag o).nearing topo tag d s x = net.nearing topo tag d s x +
      if v ≠ x ∧ Between topo.graph s v x then (copiesTo o.writes p).length else 0 := by
  have hmem {c : Copy V} (hc : c ∈ o.writes.filterMap (departure v tag)) :
      c.tag = tag ∧ c.data = d ∧ (Between topo.graph s c.dst x ↔
        Between topo.graph s v x ∧ Nearer topo.graph x v c.dst) := by
    obtain ⟨htag, -, hw⟩ := mem_departures.mp hc
    obtain ⟨hadj, hne⟩ := hlinks _ _ hw
    exact ⟨htag, h _ hw, Between.iff_of_nearer hG (hsource.away hG hadj hne)⟩
  rw [nearing, nearing, absorb, List.countP_append]
  congr 1
  split_ifs with hway
  · obtain ⟨w, rfl, hw⟩ := hp.there hway.1
    rw [← countP_departure v tag]
    apply List.countP_congr
    intro c hc
    obtain ⟨htag, hdata, hiff⟩ := hmem hc
    simp only [htag, hdata, hiff, hway.2, true_and, decide_eq_true_eq]
    exact ⟨fun hn => hn.unique hG hw, fun heq => heq ▸ hw⟩
  · apply List.countP_eq_zero.mpr
    intro c hc hkeep
    obtain ⟨-, -, hiff⟩ := hmem hc
    obtain ⟨hb, hn⟩ := hiff.mp (of_decide_eq_true hkeep).2.2
    exact hway ⟨hn.ne, hb⟩

private theorem reach_absorb_flood (tag : Nat) (hG : topo.graph.IsTree) (hr : Routed topo net)
    (hsource : Leads topo.graph v i.switch (.tap i.tap) source) (hport : source ∈ topo.ports v)
    (hp : Leads topo.graph v x q p) (hgroup : Group i)
    (hno : ((net.switches v).switchFrame (header i.data) i.data source now).answered = false) :
    (net.absorb v tag ((net.switches v).switchFrame (header i.data) i.data source now)).reach topo
        tag i x q = net.reach topo tag i x q +
      if Between topo.graph i.switch v x ∧ p ≠ source ∧ p ∈ topo.ports v then 1 else 0 := by
  let o := (net.switches v).switchFrame (header i.data) i.data source now
  let mid := (net.switches v).refresh (header i.data).srcMac source now
  have hwrites : o.writes = mid.forwardFrame (header i.data) i.data source :=
    VirtualSwitch.switchFrame_forwards _ _ _ _ _ hno
  have hdata : ∀ w ∈ o.writes, w.2 = i.data := by
    rintro ⟨port, d⟩ hw
    rw [hwrites] at hw
    exact ((VirtualSwitch.mem_forwardFrame ..).mp hw).1
  have hlinks (w : V) (d : Bytes) (hw : (.link w, d) ∈ o.writes) :
      topo.graph.Adj v w ∧ .link w ≠ source := by
    refine ⟨topo.link_mem.mp (hr.mem_writes hport hw), ?_⟩
    rw [hwrites] at hw
    exact ((VirtualSwitch.mem_forwardFrame ..).mp hw).2.1
  have hcopies : (copiesTo o.writes p).length =
      if p ≠ source ∧ p ∈ topo.ports v then 1 else 0 := by
    rw [hwrites, VirtualSwitch.copiesTo_forwardFrame]
    have hsends : mid.SendsTo (header i.data).dstMac source p ↔ p ≠ source ∧ p ∈ topo.ports v := by
      rw [VirtualSwitch.sendsTo_flood (.inl hgroup), VirtualSwitch.refresh_ports, hr.ports]
    simp only [hsends]
    split_ifs <;> rfl
  change (net.absorb v tag o).reach topo tag i x q = _
  rw [reach, reach, heard_absorb hdata, nearing_absorb hG hsource hp hdata hlinks]
  by_cases hv : v = x
  · subst hv
    rw [← hp.here, hcopies]
    simp only [ne_eq, not_true_eq_false, false_and, if_false, if_true, Between.finish, true_and]
    omega
  · by_cases hb : Between topo.graph i.switch v x
    · rw [if_neg hv, if_pos ⟨hv, hb⟩, hcopies]
      simp only [hb, true_and]
      omega
    · rw [if_neg hv, if_neg fun h => hb h.2, if_neg fun h => hb h.1]
      omega

private theorem reach_take (hc : c ∈ net.flight) :
    (net.take c).reach topo k i x q +
        (if c.tag = k ∧ c.data = i.data ∧ Between topo.graph i.switch c.dst x then 1 else 0) =
      net.reach topo k i x q := by
  have hperm := (List.perm_cons_erase hc).countP_eq fun c =>
    decide (c.tag = k ∧ c.data = i.data ∧ Between topo.graph i.switch c.dst x)
  rw [List.countP_cons] at hperm
  simp only [decide_eq_true_eq] at hperm
  rw [reach, reach, nearing, nearing, hperm]
  simp only [take, heard]
  omega

end Reach

/-- The copies in the hands of switch `v`, which works on a frame, that can still lead to `x`. -/
noncomputable def inHand (topo : Topology V T) (v : V) (tag : Nat) (data : Bytes) (k : Nat)
    (i : Injection V T) (x : V) : Nat :=
  if tag = k ∧ data = i.data ∧ Between topo.graph i.switch v x then 1 else 0

/-- The account of the group frames, with so many copies in hand: they travel away from the
host, no port sees two, and whoever sees none is behind a switch that has answered. -/
structure Asked (topo : Topology V T) (net : Net V T) (hand : Nat → Injection V T → V → Nat) :
    Prop where
  copies : ∀ c ∈ net.flight, ∃ i, net.injected[c.tag]? = some i ∧ Echoes i.data c.data
  writes : ∀ y ∈ net.writes, ∃ i, net.injected[y.tag]? = some i ∧ Echoes i.data y.data
  outward : ∀ c ∈ net.flight, ∀ i, net.injected[c.tag]? = some i → c.data = i.data → Group i →
    Nearer topo.graph i.switch c.dst c.src
  back : ∀ k i, net.injected[k]? = some i → Group i →
    net.heard k i.data i.switch (.tap i.tap) = 0
  reach_le : ∀ k i x q, net.injected[k]? = some i → Group i →
    net.reach topo k i x q + hand k i x ≤ 1
  reach_eq : ∀ k i x t, net.injected[k]? = some i → Group i → .tap t ∈ topo.ports x →
    (x, t) ≠ (i.switch, i.tap) →
    net.reach topo k i x (.tap t) + hand k i x = 1 ∨ AnsweredBefore topo net k i x

abbrev Settled (topo : Topology V T) (net : Net V T) : Prop := Asked topo net fun _ _ _ => 0

theorem asked_start (now : V → Int) : Settled topo (start topo now) where
  copies := fun _ h => absurd h List.not_mem_nil
  writes := fun _ h => absurd h List.not_mem_nil
  outward := fun _ h => absurd h List.not_mem_nil
  back := fun _ _ h => by cases h
  reach_le := fun _ _ _ _ h => by cases h
  reach_eq := fun _ _ _ _ h => by cases h

omit [DecidableEq T] in
theorem AnsweredBefore.absorb (h : AnsweredBefore topo net k i x) :
    AnsweredBefore topo (net.absorb v tag o) k i x := by
  obtain ⟨y, hy, hrest⟩ := h
  exact ⟨y, List.mem_append_left _ hy, hrest⟩

/-- A copy goes from the link into the hands of a switch. -/
theorem Asked.take (h : Settled topo net) (hc : c ∈ net.flight) :
    Asked topo (net.take c) (inHand topo c.dst c.tag c.data) where
  copies := fun c' hc' => h.copies c' (List.mem_of_mem_erase hc')
  writes := h.writes
  outward := fun c' hc' => h.outward c' (List.mem_of_mem_erase hc')
  back := h.back
  reach_le := fun k i x q hi hgroup => by
    have hle := h.reach_le k i x q hi hgroup
    rwa [← reach_take hc] at hle
  reach_eq := fun k i x t hi hgroup hport hne => by
    have heq := h.reach_eq k i x t hi hgroup hport hne
    rwa [← reach_take hc] at heq

/-- Nothing has happened yet under a fresh tag. -/
theorem Asked.reach_fresh (h : Settled topo net) (hk : net.injected[k]? = none) :
    net.reach topo k i x q = 0 := by
  rw [reach, heard, nearing, List.countP_eq_zero.mpr, List.countP_eq_zero.mpr]
  · intro c hc hkeep
    obtain ⟨j, hj, -⟩ := h.copies c hc
    rw [(of_decide_eq_true hkeep).1, hk] at hj
    cases hj
  · intro y hy hkeep
    obtain ⟨j, hj, -⟩ := h.writes y hy
    rw [(of_decide_eq_true hkeep).1, hk] at hj
    cases hj

/-- A host hands over a frame. -/
theorem Asked.inject (h : Settled topo net) (i : Injection V T) :
    Asked topo (net.inject i) (inHand topo i.switch net.injected.length i.data) := by
  have hfresh : net.injected[net.injected.length]? = none := List.getElem?_eq_none (le_refl _)
  have injected_inject {k : Nat} {j : Injection V T} : (net.inject i).injected[k]? = some j ↔
      net.injected[k]? = some j ∨ (k = net.injected.length ∧ i = j) := getElem?_concat_eq_some
  have hreach {k : Nat} {j : Injection V T} {x : V} {q : NetPort V T} :
      (net.inject i).reach topo k j x q = net.reach topo k j x q := rfl
  have hold {k : Nat} {j : Injection V T} {x : V} (hj : net.injected[k]? = some j) :
      inHand topo i.switch net.injected.length i.data k j x = 0 := by
    apply if_neg
    rintro ⟨rfl, -⟩
    rw [hfresh] at hj
    cases hj
  have hnew (x : V) : inHand topo i.switch net.injected.length i.data net.injected.length i x = 1 :=
    if_pos ⟨rfl, rfl, .start ..⟩
  have htag {k : Nat} (hk : ∃ j, net.injected[k]? = some j) : k < net.injected.length := by
    obtain ⟨j, hj⟩ := hk
    exact (List.getElem?_eq_some_iff.mp hj).1
  refine ⟨fun c hc => ?_, fun y hy => ?_, fun c hc j hj => ?_, fun k j hj => ?_,
    fun k j x q hj hgroup => ?_, fun k j x t hj hgroup hport hne => ?_⟩
  · obtain ⟨j, hj, hecho⟩ := h.copies c hc
    exact ⟨j, injected_inject.mpr (.inl hj), hecho⟩
  · obtain ⟨j, hj, hecho⟩ := h.writes y hy
    exact ⟨j, injected_inject.mpr (.inl hj), hecho⟩
  · rcases injected_inject.mp hj with hj | ⟨hk, -⟩
    · exact h.outward c hc j hj
    · obtain ⟨j', hj', -⟩ := h.copies c hc
      exact absurd (htag ⟨j', hj'⟩) (by omega)
  · rcases injected_inject.mp hj with hj | ⟨rfl, rfl⟩
    · exact h.back k j hj
    · intro _
      have hzero : net.reach topo net.injected.length i i.switch (.tap i.tap) = 0 :=
        h.reach_fresh hfresh
      exact (Nat.add_eq_zero_iff.mp hzero).1
  · rcases injected_inject.mp hj with hj | ⟨rfl, rfl⟩
    · rw [hreach, hold hj]
      exact h.reach_le k j x q hj hgroup
    · rw [hreach, hnew, h.reach_fresh hfresh]
  · rcases injected_inject.mp hj with hj | ⟨rfl, rfl⟩
    · rw [hreach, hold hj]
      exact h.reach_eq k j x t hj hgroup hport hne
    · rw [hreach, hnew, h.reach_fresh hfresh]
      exact .inl rfl

/-- Switch `v` has received injected frame `i`, or a reply to it, from the side of the host. -/
structure Received (topo : Topology V T) (net : Net V T) (v : V) (source : NetPort V T) (tag : Nat)
    (i : Injection V T) (data : Bytes) : Prop where
  port : source ∈ topo.ports v
  injected : net.injected[tag]? = some i
  echo : Echoes i.data data
  home : data = i.data → Group i → Leads topo.graph v i.switch (.tap i.tap) source

/-- A switch passes on what it is given, away from the host if it is the frame itself, or
replies to the question. -/
theorem Received.echoes (h : Received topo net v source tag i data) {w : NetPort V T × Bytes}
    (hw : w ∈ ((net.switches v).switchFrame (header data) data source now).writes) :
    Replies i.data w.2 ∨ (w.2 = data ∧ w.1 ≠ source) := by
  obtain ⟨q, d⟩ := w
  rcases VirtualSwitch.mem_switchFrame_writes _ _ _ _ _ hw with ⟨rfl, hs⟩ | ⟨-, e, he, rfl⟩
  · exact .inr ⟨rfl, hs.1⟩
  · have hquery := ((VirtualSwitch.cachedAnswer_eq_some ..).mp he).1
    have hdata := h.echo.eq_of_query hquery
    rw [hdata] at hquery ⊢
    exact .inl ⟨hquery, e.mac, rfl⟩

/-- The frame in hand is passed on to where it is missing, or answered. -/
theorem Received.reach (hG : topo.graph.IsTree) (hr : Routed topo net)
    (h : Received topo net v source tag i data) (hgroup : Group i)
    (hp : Leads topo.graph v x q p) :
    let net' := net.absorb v tag ((net.switches v).switchFrame (header data) data source now)
    net'.reach topo tag i x q ≤ net.reach topo tag i x q + inHand topo v tag data tag i x ∧
      ((data = i.data → Between topo.graph i.switch v x → p ≠ source ∧ p ∈ topo.ports v) →
        net'.reach topo tag i x q = net.reach topo tag i x q + inHand topo v tag data tag i x ∨
          AnsweredBefore topo net' tag i x) := by
  intro net'
  by_cases hdata : data = i.data
  · cases hno : ((net.switches v).switchFrame (header data) data source now).answered with
    | false =>
      subst hdata
      have hflood := reach_absorb_flood tag hG hr (h.home rfl hgroup) h.port hp hgroup hno
      rw [inHand]
      simp only [true_and]
      rw [hflood]
      split_ifs with hgo hb hb
      · exact ⟨le_refl _, fun _ => .inl rfl⟩
      · exact absurd hgo.1 hb
      · exact ⟨Nat.le_succ _, fun hway => absurd ⟨hb, hway trivial hb⟩ hgo⟩
      · exact ⟨le_refl _, fun _ => .inl rfl⟩
    | true =>
      rw [VirtualSwitch.switchFrame_answered] at hno
      obtain ⟨e, he⟩ := Option.isSome_iff_exists.mp hno
      have hreply := VirtualSwitch.switchFrame_replies _ _ _ _ _ he
      have hsame : net'.reach topo tag i x q = net.reach topo tag i x q := by
        apply reach_absorb_other
        intro w hw hkeep
        rcases h.echoes hw with hrep | ⟨-, hne⟩
        · exact hrep.ne hkeep.2
        · rw [hreply] at hw
          exact hne (congrArg Prod.fst (List.mem_singleton.mp hw))
      refine ⟨hsame ▸ Nat.le_add_right _ _, fun _ => ?_⟩
      by_cases hb : Between topo.graph i.switch v x
      · refine .inr ⟨⟨tag, v, source, _⟩, List.mem_append_right _ (List.mem_map.mpr
          ⟨(source, _), hreply ▸ List.mem_singleton_self _, rfl⟩), rfl, hb, ?_⟩
        have hquery := ((VirtualSwitch.cachedAnswer_eq_some ..).mp he).1
        exact hdata ▸ ⟨hquery, e.mac, rfl⟩
      · rw [hsame, inHand, if_neg fun h => hb h.2.2]
        exact .inl rfl
  · have hsame : net'.reach topo tag i x q = net.reach topo tag i x q := by
      apply reach_absorb_other
      intro w hw hkeep
      rcases h.echoes hw with hrep | ⟨hpassed, -⟩
      · exact hrep.ne hkeep.2
      · exact hdata (hpassed.symm.trans hkeep.2)
    rw [hsame, inHand, if_neg fun h => hdata h.2.1]
    exact ⟨le_refl _, fun _ => .inl rfl⟩

omit [DecidableEq V] [DecidableEq T] in
/-- The way to a TAP begins with a port. -/
theorem mem_ports_of_leads (hp : Leads topo.graph v x (.tap t) p) (ht : .tap t ∈ topo.ports x) :
    p ∈ topo.ports v := by
  rcases hp with ⟨rfl, rfl⟩ | ⟨w, rfl, hw⟩
  · exact ht
  · exact topo.link_mem.mpr hw.adj

/-- A switch settles the account of the frame that it has in hand. -/
theorem Asked.absorb (hG : topo.graph.IsTree) (hr : Routed topo net)
    (h : Asked topo net (inHand topo v tag data)) (hin : Received topo net v source tag i data) :
    Settled topo
      (net.absorb v tag ((net.switches v).switchFrame (header data) data source now)) := by
  let o := (net.switches v).switchFrame (header data) data source now
  have hwrites {w : NetPort V T × Bytes} (hw : w ∈ o.writes) :
      Replies i.data w.2 ∨ (w.2 = data ∧ w.1 ≠ source) := hin.echoes hw
  have hechoes {w : NetPort V T × Bytes} (hw : w ∈ o.writes) : Echoes i.data w.2 := by
    rcases hwrites hw with hrep | ⟨hdata, -⟩
    · exact .inr hrep
    · exact hdata ▸ hin.echo
  have hunique {k : Nat} {j : Injection V T} (hk : k = tag) (hj : net.injected[k]? = some j) :
      j = i := by
    rw [hk, hin.injected] at hj
    exact (Option.some.inj hj).symm
  refine ⟨fun c hc => ?_, fun y hy => ?_, fun c hc j hj hdata hgroup => ?_, fun k j hj hgroup => ?_,
    fun k j x q hj hgroup => ?_, fun k j x t hj hgroup hport hne => ?_⟩
  · rcases List.mem_append.mp hc with hold | hnew
    · exact h.copies c hold
    · obtain ⟨htag, -, hw⟩ := mem_departures.mp hnew
      exact ⟨i, htag ▸ hin.injected, hechoes hw⟩
  · rcases List.mem_append.mp hy with hold | hnew
    · exact h.writes y hold
    · obtain ⟨w, hw, rfl⟩ := List.mem_map.mp hnew
      exact ⟨i, hin.injected, hechoes hw⟩
  · rcases List.mem_append.mp hc with hold | hnew
    · exact h.outward c hold j hj hdata hgroup
    · obtain ⟨htag, rfl, hw⟩ := mem_departures.mp hnew
      obtain rfl := hunique htag hj
      rcases hwrites hw with hrep | ⟨hpassed, hport⟩
      · exact absurd hdata hrep.ne
      · have hadj := topo.link_mem.mp (hr.mem_writes hin.port hw)
        exact (hin.home (hpassed.symm.trans hdata) hgroup).away hG hadj hport
  · have hold := h.back k j hj hgroup
    rw [heard, List.countP_eq_zero] at hold ⊢
    intro y hy hkeep
    rcases List.mem_append.mp hy with hbefore | hnew
    · exact hold y hbefore hkeep
    · obtain ⟨w, hw, rfl⟩ := List.mem_map.mp hnew
      obtain ⟨htag, hdata, hv, hport⟩ := of_decide_eq_true hkeep
      obtain rfl := hunique htag.symm hj
      rcases hwrites hw with hrep | ⟨hpassed, hne⟩
      · exact hrep.ne hdata
      · have hhome := hin.home (hpassed.symm.trans hdata) hgroup
        simp only at hv hport
        subst hv
        exact hne (hport.trans hhome.here.symm)
  · have hle := h.reach_le k j x q hj hgroup
    obtain ⟨p, hp⟩ := Leads.exists_way hG v x q
    by_cases hk : k = tag
    · obtain rfl := hunique hk hj
      subst hk
      exact (hin.reach hG hr hgroup hp).1.trans hle
    · rw [reach_absorb_other fun w _ hkeep => hk hkeep.1.symm]
      exact (Nat.le_add_right _ _).trans hle
  · have heq := h.reach_eq k j x t hj hgroup hport hne
    obtain ⟨p, hp⟩ := Leads.exists_way hG v x (.tap t)
    by_cases hk : k = tag
    · obtain rfl := hunique hk hj
      subst hk
      rcases heq with hone | hanswered
      · have hway : data = j.data → Between topo.graph j.switch v x →
            p ≠ source ∧ p ∈ topo.ports v := fun hdata hb =>
          ⟨(hin.home hdata hgroup).apart hG hp hb hne, mem_ports_of_leads hp hport⟩
        exact ((hin.reach hG hr hgroup hp).2 hway).imp_left fun hsame => hsame.trans hone
      · exact .inr hanswered.absorb
    · rw [reach_absorb_other fun w _ hkeep => hk hkeep.1.symm]
      rw [inHand, if_neg fun hkeep => hk hkeep.1.symm] at heq
      exact heq.imp_right AnsweredBefore.absorb

omit [DecidableEq V] [DecidableEq T] in
/-- What a host hands over comes from the host. -/
theorem received_injected (i : Injection V T) (ht : .tap i.tap ∈ topo.ports i.switch) :
    Received topo (net.inject i) i.switch (.tap i.tap) net.injected.length i i.data where
  port := ht
  injected := getElem?_concat_eq_some.mpr (.inr ⟨rfl, rfl⟩)
  echo := .inl rfl
  home := fun _ _ => .inl ⟨rfl, rfl⟩

/-- What a link delivers comes from the side of the host. -/
theorem Asked.received (hr : Routed topo net) (h : Settled topo net) (hc : c ∈ net.flight) :
    ∃ i, Received topo (net.take c) c.dst (.link c.src) c.tag i c.data := by
  obtain ⟨i, hi, hecho⟩ := h.copies c hc
  exact ⟨i, topo.link_mem.mpr (hr.flight c hc).symm, hi, hecho, fun hdata hgroup =>
    .inr ⟨c.src, rfl, h.outward c hc i hi hdata hgroup⟩⟩

theorem Asked.step (hG : topo.graph.IsTree) (hr : Routed topo net) (h : Settled topo net)
    (hreliable : a.reliable = true) (hstep : net.step topo a = some net') : Settled topo net' := by
  cases a with
  | inject i now =>
    obtain ⟨ht, hrec⟩ := step_inject.mp hstep
    obtain ⟨-, rfl⟩ := receive_eq_some hrec
    have hbase : Routed topo (net.inject i) := ⟨hr.ports, hr.table, hr.flight⟩
    exact (h.inject i).absorb hG hbase (received_injected i ht)
  | deliver c now =>
    obtain ⟨hc, hrec⟩ := step_deliver.mp hstep
    obtain ⟨-, rfl⟩ := receive_eq_some hrec
    obtain ⟨i, hin⟩ := h.received hr hc
    exact (h.take hc).absorb hG (hr.take c) hin
  | age v now =>
    cases hstep
    exact ⟨h.copies, h.writes, h.outward, h.back, h.reach_le, h.reach_eq⟩
  | lose c => cases hreliable
  | duplicate c => cases hreliable

theorem asked_run (hG : topo.graph.IsTree) {now : V → Int} {actions : List (NetAction V T)}
    (hrun : Run (Steps topo) (start topo now) actions net)
    (hreliable : ∀ a ∈ actions, a.reliable = true) : Settled topo net := by
  have hboth := hrun.invariant_of (I := fun n => Routed topo n ∧ Settled topo n)
    (P := fun a => a.reliable = true) (fun h ha hstep => ⟨h.1.step hstep, h.2.step hG h.1 ha hstep⟩)
    ⟨routed_start now, asked_start now⟩ hreliable
  exact hboth.2

end Net
end VSwitch
