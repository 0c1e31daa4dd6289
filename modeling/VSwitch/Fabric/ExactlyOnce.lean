import VSwitch.Fabric.Direction

/-! Exactly-once delivery on a tree of switches with reliable links. The copies of a frame
that were written to a port, and those that can still lead to one, are never more than one. -/
namespace VSwitch
open Lib EthernetFrame

namespace Net
variable {V T : Type} [DecidableEq V] [DecidableEq T]
variable {topo : Topology V T} {home : Mac → V × T} {net net' : Net V T} {a : NetAction V T}

/-- The copies of frame `tag` that travel to a switch between `s` and `x`. -/
noncomputable def pending (topo : Topology V T) (net : Net V T) (tag : Nat) (s x : V) : Nat :=
  net.flight.countP fun c => c.tag = tag ∧ Between topo.graph s c.dst x

/-- The copies written to port `q` of switch `x`, and those that can still lead to one. -/
noncomputable def load (topo : Topology V T) (net : Net V T) (tag : Nat) (s x : V)
    (q : NetPort V T) : Nat := net.writesTo tag x q + net.pending topo tag s x

abbrev origin (home : Mac → V × T) (data : Bytes) : V := (home (header data).srcMac).1

variable {v s x : V} {source p q : NetPort V T} {k tag : Nat} {data : Bytes} {now : Int}

omit [DecidableEq T] in
private theorem pending_absorb (o : Outcome (NetPort V T)) :
    (net.absorb v tag o).pending topo k s x = net.pending topo k s x +
      (o.writes.filterMap (departure v tag)).countP
        fun c => c.tag = k ∧ Between topo.graph s c.dst x := by
  simp only [pending, absorb, List.countP_append]

private theorem load_absorb_other (o : Outcome (NetPort V T)) (hk : k ≠ tag) :
    (net.absorb v tag o).load topo k s x q = net.load topo k s x q := by
  rw [load, writesTo_absorb, pending_absorb, if_neg fun h => hk h.1.symm, List.countP_eq_zero.mpr]
  · rfl
  · intro c hc hkeep
    exact hk ((of_decide_eq_true hkeep).1.symm.trans (mem_departures.mp hc).1)

theorem countP_departure (v : V) (tag : Nat) (writes : List (NetPort V T × Bytes)) (w : V) :
    (writes.filterMap (departure v tag)).countP (fun c => c.dst = w) =
      (copiesTo writes (.link w)).length := by
  rw [List.countP_filterMap, copiesTo, List.length_map, ← List.countP_eq_length_filter]
  apply List.countP_congr
  rintro ⟨port, d⟩ -
  cases port <;> simp [departure]

/-- The ports that `v` sends a frame to, after learning its source. -/
abbrev Sends (net : Net V T) (v : V) (source : NetPort V T) (data : Bytes) (now : Int)
    (p : NetPort V T) : Prop :=
  ((net.switches v).refresh (header data).srcMac source now).SendsTo (header data).dstMac source p

private theorem length_copiesTo_forwarded :
    (copiesTo (net.forwarded v source data now).writes p).length =
      if net.Sends v source data now p then 1 else 0 := by
  rw [forwarded, VirtualSwitch.copiesTo_forwardFrame]
  split_ifs <;> rfl

private theorem Directed.pending_forwarded (hG : topo.graph.IsTree) (hd : Directed topo home net)
    (hsource : Homeward topo home v data source) (hp : Leads topo.graph v x q p) :
    ((net.forwarded v source data now).writes.filterMap (departure v tag)).countP
        (fun c => c.tag = tag ∧ Between topo.graph (origin home data) c.dst x) =
      if v ≠ x ∧ Between topo.graph (origin home data) v x ∧ net.Sends v source data now p
        then 1 else 0 := by
  have hmem {c : Copy V}
      (hc : c ∈ (net.forwarded v source data now).writes.filterMap (departure v tag)) :
      c.tag = tag ∧ (Between topo.graph (origin home data) c.dst x ↔
        Between topo.graph (origin home data) v x ∧ Nearer topo.graph x v c.dst) := by
    obtain ⟨htag, -, -, hadj, hne⟩ := hd.mem_forwarded hsource hc
    exact ⟨htag, Between.iff_of_nearer hG (hsource.away hG hadj hne)⟩
  by_cases hvx : v = x
  · rw [if_neg fun h => h.1 hvx, List.countP_eq_zero]
    intro c hc hkeep
    have hb := (of_decide_eq_true hkeep).2
    exact ((hmem hc).2.mp hb).2.ne hvx
  · obtain ⟨w, rfl, hw⟩ := hp.there hvx
    by_cases hb : Between topo.graph (origin home data) v x
    · have hcount := countP_departure v tag
        (net.forwarded v source data now).writes w
      rw [length_copiesTo_forwarded] at hcount
      simp only [hvx, hb, ne_eq, not_false_eq_true, true_and]
      rw [← hcount]
      apply List.countP_congr
      intro c hc
      obtain ⟨htag, hiff⟩ := hmem hc
      simp only [htag, hiff, hb, true_and, decide_eq_true_eq]
      exact ⟨fun h => h.unique hG hw, fun h => h ▸ hw⟩
    · rw [if_neg fun h => hb h.2.1, List.countP_eq_zero]
      intro c hc hkeep
      exact hb ((hmem hc).2.mp (of_decide_eq_true hkeep).2).1

private theorem Directed.load_absorb (hG : topo.graph.IsTree) (hd : Directed topo home net)
    (hsource : Homeward topo home v data source) (hp : Leads topo.graph v x q p) :
    (net.absorb v tag (net.forwarded v source data now)).load topo tag (origin home data) x q =
      net.load topo tag (origin home data) x q +
        if Between topo.graph (origin home data) v x ∧ net.Sends v source data now p
          then 1 else 0 := by
  rw [load, writesTo_absorb, pending_absorb, hd.pending_forwarded hG hsource hp,
    length_copiesTo_forwarded, load]
  by_cases hvx : v = x
  · subst hvx
    rw [hp.here, if_pos ⟨rfl, rfl⟩, if_neg fun h : v ≠ v ∧ _ => h.1 rfl]
    simp only [Between.finish, true_and]
    omega
  · rw [if_neg fun h => hvx h.2]
    simp only [hvx, ne_eq, not_false_eq_true, true_and]
    omega

omit [DecidableEq V] [DecidableEq T] in
/-- A group frame, and a frame for a host whose home is TAP `t` of `x`, is sent along. -/
theorem Directed.sends (hG : topo.graph.IsTree) (hd : Directed topo home net)
    (hsource : Homeward topo home v data source) {t : T} (hp : Leads topo.graph v x (.tap t) p)
    (hb : Between topo.graph (origin home data) v x) (ht : .tap t ∈ topo.ports x)
    (hne : (x, t) ≠ home (header data).srcMac)
    (hdst : isMulticast (header data).dstMac = true ∨ home (header data).dstMac = (x, t)) :
    net.Sends v source data now p := by
  have hapart : p ≠ source := Leads.apart hG hsource hp hb hne
  have hport : p ∈ topo.ports v := by
    rcases hp with ⟨rfl, rfl⟩ | ⟨w, rfl, hw⟩
    · exact ht
    · exact topo.link_mem.mpr hw.adj
  have hflood : p ≠ source ∧
      p ∈ ((net.switches v).refresh (header data).srcMac source now).ports :=
    ⟨hapart, by rwa [VirtualSwitch.refresh_ports, hd.ports]⟩
  by_cases hm : isMulticast (header data).dstMac = true
  · exact (VirtualSwitch.sendsTo_flood (.inl hm)).mpr hflood
  · rcases Option.eq_none_or_eq_some (((net.switches v).refresh (header data).srcMac source
      now).macAddressTable (macToString (header data).dstMac)) with hnone | ⟨e, he⟩
    · exact (VirtualSwitch.sendsTo_flood (.inr hnone)).mpr hflood
    · obtain ⟨mac, hkey, hleads⟩ := hd.table_refresh hsource he
      rw [macToString_injective hkey, hdst.resolve_left hm] at hleads
      exact (VirtualSwitch.sendsTo_known (Bool.eq_false_iff.mpr hm) he).mpr
        ⟨hapart, hleads.unique hG hp⟩

private theorem load_take (topo : Topology V T) (k : Nat) (s x : V) (q : NetPort V T) {c : Copy V}
    (hc : c ∈ net.flight) :
    (net.take c).load topo k s x q +
        (if c.tag = k ∧ Between topo.graph s c.dst x then 1 else 0) = net.load topo k s x q := by
  have hpos : c.tag = k ∧ Between topo.graph s c.dst x →
      0 < net.flight.countP fun c => c.tag = k ∧ Between topo.graph s c.dst x := fun h =>
    List.countP_pos_iff.mpr ⟨c, hc, decide_eq_true h⟩
  simp only [load, pending, take, writesTo, List.countP_erase, hc, true_and, decide_eq_true_eq]
  split_ifs with h
  · have := hpos h
    omega
  · rfl

/-- What is known of every injected frame: its copies are faithful and never go back home,
at most one can reach any port, and exactly one a port that it is meant for. -/
structure Tracked (topo : Topology V T) (home : Mac → V × T) (net : Net V T) : Prop where
  copies : ∀ c ∈ net.flight, ∃ i, net.injected[c.tag]? = some i ∧ c.data = i.data
  writes : ∀ y ∈ net.writes, ∃ i, net.injected[y.tag]? = some i ∧ y.data = i.data ∧
    ¬ Homeward topo home y.switch y.data y.port
  load_le : ∀ k i x q, net.injected[k]? = some i → net.load topo k (origin home i.data) x q ≤ 1
  load_eq : ∀ k i x t, net.injected[k]? = some i → .tap t ∈ topo.ports x →
    (x, t) ≠ home (header i.data).srcMac →
    (isMulticast (header i.data).dstMac = true ∨ home (header i.data).dstMac = (x, t)) →
    net.load topo k (origin home i.data) x (.tap t) = 1

private theorem tracked_start (now : V → Int) : Tracked topo home (start topo now) where
  copies := fun _ h => absurd h List.not_mem_nil
  writes := fun _ h => absurd h List.not_mem_nil
  load_le := fun _ _ _ _ h => by cases h
  load_eq := fun _ _ _ _ h => by cases h

private theorem Tracked.load_fresh (ht : Tracked topo home net) (hk : net.injected[k]? = none) :
    net.load topo k s x q = 0 := by
  rw [load, writesTo, pending, List.countP_eq_zero.mpr, List.countP_eq_zero.mpr]
  · intro c hc hkeep
    obtain ⟨i, hi, -⟩ := ht.copies c hc
    rw [(of_decide_eq_true hkeep).1, hk] at hi
    cases hi
  · intro y hy hkeep
    obtain ⟨i, hi, -⟩ := ht.writes y hy
    rw [(of_decide_eq_true hkeep).1, hk] at hi
    cases hi

private theorem mem_absorb_writes (hG : topo.graph.IsTree)
    (hsource : Homeward topo home v data source) {y : PortWrite V T}
    (hy : y ∈ (net.absorb v tag (net.forwarded v source data now)).writes) :
    y ∈ net.writes ∨
      (y.tag = tag ∧ y.data = data ∧ ¬ Homeward topo home y.switch y.data y.port) := by
  rcases List.mem_append.mp hy with hold | hnew
  · exact .inl hold
  · obtain ⟨⟨p, d⟩, hmem, rfl⟩ := List.mem_map.mp hnew
    obtain ⟨rfl, hs⟩ := (VirtualSwitch.mem_forwardFrame _ _ _ _).mp hmem
    exact .inr ⟨rfl, rfl, fun hback => hs.1 (Leads.unique hG hback hsource)⟩

/-- What `deliver` leaves when nothing is answered. -/
abbrev delivered (net : Net V T) (c : Copy V) (now : Int) : Net V T :=
  (net.take c).absorb c.dst c.tag ((net.take c).forwarded c.dst (.link c.src) c.data now)

private theorem load_delivered_other {c : Copy V} (hc : c ∈ net.flight) (hk : k ≠ c.tag) :
    (net.delivered c now).load topo k s x q = net.load topo k s x q := by
  have htake := load_take topo k s x q hc
  rw [if_neg fun h => hk h.1.symm] at htake
  rw [delivered, load_absorb_other _ hk, ← htake, Nat.add_zero]

private theorem Directed.load_delivered (hG : topo.graph.IsTree) (hd : Directed topo home net)
    {c : Copy V} (hc : c ∈ net.flight) (hp : Leads topo.graph c.dst x q p) :
    (net.delivered c now).load topo c.tag (origin home c.data) x q ≤
        net.load topo c.tag (origin home c.data) x q ∧
      ((Between topo.graph (origin home c.data) c.dst x →
          (net.take c).Sends c.dst (.link c.src) c.data now p) →
        (net.delivered c now).load topo c.tag (origin home c.data) x q =
          net.load topo c.tag (origin home c.data) x q) := by
  have htake := load_take topo c.tag (origin home c.data) x q hc
  rw [delivered, (hd.take c).load_absorb hG (hd.flight c hc) hp, ← htake]
  by_cases hb : Between topo.graph (origin home c.data) c.dst x
  · simp only [hb, true_and, if_true, forall_const]
    refine ⟨Nat.add_le_add_left ?_ _, fun hs => by rw [if_pos hs]⟩
    split_ifs
    · exact le_refl 1
    · exact Nat.zero_le 1
  · simp [hb]

theorem Tracked.deliver (hG : topo.graph.IsTree) (hd : Directed topo home net)
    (ht : Tracked topo home net) {c : Copy V} (hc : c ∈ net.flight) :
    Tracked topo home (net.delivered c now) := by
  have hsource := hd.flight c hc
  obtain ⟨i, hi, hdata⟩ := ht.copies c hc
  refine ⟨?_, ?_, ?_, ?_⟩
  · intro c' hc'
    rcases List.mem_append.mp hc' with hold | hnew
    · exact ht.copies c' (List.mem_of_mem_erase hold)
    · obtain ⟨htag, -, hdata', -⟩ := (hd.take c).mem_forwarded hsource hnew
      exact ⟨i, htag ▸ hi, hdata'.trans hdata⟩
  · intro y hy
    rcases mem_absorb_writes hG hsource hy with hold | ⟨htag, hdata', hback⟩
    · exact ht.writes y hold
    · exact ⟨i, htag ▸ hi, hdata'.trans hdata, hback⟩
  · intro k j x q hj
    have hle := ht.load_le k j x q hj
    by_cases hk : k = c.tag
    · subst hk
      cases hi.symm.trans hj
      obtain ⟨p, hp⟩ := Leads.exists_way hG c.dst x q
      rw [← hdata] at hle ⊢
      exact (hd.load_delivered hG hc hp).1.trans hle
    · rwa [load_delivered_other hc hk]
  · intro k j x t hj hport hne hdst
    have heq := ht.load_eq k j x t hj hport hne hdst
    by_cases hk : k = c.tag
    · subst hk
      cases hi.symm.trans hj
      obtain ⟨p, hp⟩ := Leads.exists_way hG c.dst x (.tap t)
      rw [← hdata] at heq hne hdst ⊢
      rw [(hd.load_delivered hG hc hp).2, heq]
      exact fun hb => (hd.take c).sends hG hsource hp hb hport hne hdst
    · rwa [load_delivered_other hc hk]

/-- What `inject` leaves when nothing is answered. -/
abbrev entered (net : Net V T) (i : Injection V T) (now : Int) : Net V T :=
  (net.inject i).absorb i.switch net.injected.length
    ((net.inject i).forwarded i.switch (.tap i.tap) i.data now)

theorem getElem?_concat_eq_some {X : Type} {l : List X} {a b : X} {k : Nat} :
    (l ++ [a])[k]? = some b ↔ l[k]? = some b ∨ (k = l.length ∧ a = b) := by
  rcases Nat.lt_trichotomy k l.length with h | rfl | h
  · rw [List.getElem?_append_left h]
    exact ⟨.inl, fun h' => h'.resolve_right fun h'' => by omega⟩
  · simp
  · rw [List.getElem?_eq_none (by simp; omega), List.getElem?_eq_none (by omega)]
    exact ⟨.inl, fun h' => h'.resolve_right fun h'' => by omega⟩

private theorem Directed.load_entered (hG : topo.graph.IsTree) (hd : Directed topo home net)
    (ht : Tracked topo home net) {i : Injection V T}
    (hi : home (header i.data).srcMac = (i.switch, i.tap))
    (hp : Leads topo.graph i.switch x q p) :
    (net.entered i now).load topo net.injected.length (origin home i.data) x q =
      if (net.inject i).Sends i.switch (.tap i.tap) i.data now p then 1 else 0 := by
  have hfresh : (net.inject i).load topo net.injected.length (origin home i.data) x q = 0 :=
    ht.load_fresh (List.getElem?_eq_none (le_refl _))
  have hb : Between topo.graph (origin home i.data) i.switch x := by
    rw [origin, hi]
    exact .start ..
  rw [entered, (hd.inject i).load_absorb hG (homeward_injected hi) hp, hfresh, Nat.zero_add]
  simp only [hb, true_and]

theorem Tracked.enter (hG : topo.graph.IsTree) (hd : Directed topo home net)
    (ht : Tracked topo home net) {i : Injection V T}
    (hi : home (header i.data).srcMac = (i.switch, i.tap)) :
    Tracked topo home (net.entered i now) := by
  have hsource : Homeward topo home i.switch i.data (.tap i.tap) := homeward_injected hi
  have hinjected {k : Nat} {j : Injection V T} : (net.entered i now).injected[k]? = some j ↔
      net.injected[k]? = some j ∨ (k = net.injected.length ∧ i = j) := getElem?_concat_eq_some
  have hother {k : Nat} {j : Injection V T} {x : V} {q : NetPort V T}
      (hj : net.injected[k]? = some j) :
      (net.entered i now).load topo k (origin home j.data) x q =
        net.load topo k (origin home j.data) x q := by
    have hk : k < net.injected.length := (List.getElem?_eq_some_iff.mp hj).1
    rw [entered, load_absorb_other _ (by omega)]
    rfl
  refine ⟨?_, ?_, ?_, ?_⟩
  · intro c hc
    rcases List.mem_append.mp hc with hold | hnew
    · obtain ⟨j, hj, hdata⟩ := ht.copies c hold
      exact ⟨j, hinjected.mpr (.inl hj), hdata⟩
    · obtain ⟨htag, -, hdata, -⟩ := (hd.inject i).mem_forwarded hsource hnew
      exact ⟨i, hinjected.mpr (.inr ⟨htag, rfl⟩), hdata⟩
  · intro y hy
    rcases mem_absorb_writes hG hsource hy with hold | ⟨htag, hdata, hback⟩
    · obtain ⟨j, hj, hrest⟩ := ht.writes y hold
      exact ⟨j, hinjected.mpr (.inl hj), hrest⟩
    · exact ⟨i, hinjected.mpr (.inr ⟨htag, rfl⟩), hdata, hback⟩
  · intro k j x q hj
    rcases hinjected.mp hj with hold | ⟨rfl, rfl⟩
    · rw [hother hold]
      exact ht.load_le k j x q hold
    · obtain ⟨p, hp⟩ := Leads.exists_way hG i.switch x q
      rw [hd.load_entered hG ht hi hp]
      split_ifs
      · exact le_refl 1
      · exact Nat.zero_le 1
  · intro k j x t hj hport hne hdst
    rcases hinjected.mp hj with hold | ⟨rfl, rfl⟩
    · rw [hother hold]
      exact ht.load_eq k j x t hold hport hne hdst
    · obtain ⟨p, hp⟩ := Leads.exists_way hG i.switch x (.tap t)
      have hb : Between topo.graph (origin home i.data) i.switch x := by
        rw [origin, hi]
        exact .start ..
      rw [hd.load_entered hG ht hi hp,
        if_pos ((hd.inject i).sends hG hsource hp hb hport hne hdst)]

/-- One reliable step keeps the account of every frame. -/
theorem Tracked.step (hG : topo.graph.IsTree) (hd : Directed topo home net)
    (ht : Tracked topo home net) (hstep : net.step topo a = some net')
    (hreliable : a.reliable = true) (hhome : Homed home net')
    (hq : net'.answered = net.answered) : Tracked topo home net' := by
  cases a with
  | inject i now =>
    have hi : i ∈ net'.injected := mem_injected hstep
    obtain ⟨-, rfl⟩ := receive_quiet (step_inject.mp hstep).2 hq
    exact ht.enter hG hd (hhome i hi)
  | deliver c now =>
    obtain ⟨hc, hrec⟩ := step_deliver.mp hstep
    obtain ⟨-, rfl⟩ := receive_quiet hrec hq
    exact ht.deliver hG hd hc
  | age v now =>
    cases hstep
    exact ⟨ht.copies, ht.writes, ht.load_le, ht.load_eq⟩
  | lose c => cases hreliable
  | duplicate c => cases hreliable

theorem tracked_run (hG : topo.graph.IsTree) {now : V → Int} {actions : List (NetAction V T)}
    (hrun : Run (Steps topo) (start topo now) actions net)
    (hreliable : ∀ a ∈ actions, a.reliable = true) (hhome : Homed home net)
    (hq : net.answered = 0) : Tracked topo home net := by
  have hboth := hrun.invariant_of
    (I := fun n => Homed home n → n.answered = 0 → Directed topo home n ∧ Tracked topo home n)
    (P := fun a => a.reliable = true) ?_ (fun _ _ => ⟨directed_start now, tracked_start now⟩)
    hreliable hhome hq
  · exact hboth.2
  · intro n a n' ih ha hstep hhome' hq'
    have hle := (step_grows hstep).2
    have hq₀ : n.answered = 0 := by omega
    obtain ⟨hd, ht⟩ := ih (hhome'.of_step hstep) hq₀
    exact ⟨hd.step hG hstep hhome' (by omega), ht.step hG hd hstep ha hhome' (by omega)⟩

/-- The frames that are or were under way carry no ARP packet, and none was answered. -/
def Plain (net : Net V T) : Prop :=
  net.answered = 0 ∧ ∀ c ∈ net.flight, getEthertype c.data ≠ ethertypeArp

theorem Plain.receive (h : Plain net) (hdata : getEthertype data ≠ ethertypeArp)
    (hrec : net.receive v source tag data now = some net') : Plain net' := by
  obtain ⟨-, rfl⟩ := receive_plain hrec hdata
  refine ⟨h.1, fun c hc => ?_⟩
  rcases List.mem_append.mp hc with hold | hnew
  · exact h.2 c hold
  · rw [(mem_forwarded_departures.mp hnew).2.2.1]
    exact hdata

omit [DecidableEq T] in
theorem Plain.take (h : Plain net) (c : Copy V) : Plain (net.take c) :=
  ⟨h.1, fun c' hc' => h.2 c' (List.mem_of_mem_erase hc')⟩

theorem Plain.step (h : Plain net) (hstep : net.step topo a = some net')
    (hframes : ∀ i ∈ net'.injected, getEthertype i.data ≠ ethertypeArp) : Plain net' := by
  cases a with
  | inject i now =>
    have hi : i ∈ net'.injected := mem_injected hstep
    have hbase : Plain (net.inject i) := h
    exact hbase.receive (hframes i hi) (step_inject.mp hstep).2
  | deliver c now =>
    obtain ⟨hc, hrec⟩ := step_deliver.mp hstep
    exact (h.take c).receive (h.2 c hc) hrec
  | age v now =>
    cases hstep
    exact h
  | lose c =>
    obtain ⟨-, rfl⟩ := step_lose.mp hstep
    exact h.take c
  | duplicate c =>
    obtain ⟨hc, rfl⟩ := step_duplicate.mp hstep
    exact ⟨h.1, fun c' hc' => (List.mem_cons.mp hc').elim (fun he => he ▸ h.2 c hc) (h.2 c')⟩

theorem plain_run {now : V → Int} {actions : List (NetAction V T)}
    (hrun : Run (Steps topo) (start topo now) actions net)
    (hframes : ∀ i ∈ net.injected, getEthertype i.data ≠ ethertypeArp) : Plain net := by
  refine hrun.invariant
    (I := fun n => (∀ i ∈ n.injected, getEthertype i.data ≠ ethertypeArp) → Plain n) ?_ ?_ hframes
  · intro n a n' ih hstep hframes'
    exact (ih fun i hi => hframes' i ((step_grows hstep).1.subset hi)).step hstep hframes'
  · exact fun _ => ⟨rfl, fun _ h => absurd h List.not_mem_nil⟩

theorem Tracked.writesTo_home (ht : Tracked topo home net) {i : Injection V T}
    (hi : net.injected[tag]? = some i) (hq : Homeward topo home v i.data q) :
    net.writesTo tag v q = 0 := by
  apply List.countP_eq_zero.mpr
  intro y hy hkeep
  obtain ⟨htag, hv, hport⟩ := of_decide_eq_true hkeep
  obtain ⟨j, hj, hdata, hback⟩ := ht.writes y hy
  rw [htag, hi] at hj
  cases hj
  rw [hv, hdata, hport] at hback
  exact hback hq

omit [DecidableEq V] [DecidableEq T] in
/-- When each address has one TAP, a home can be chosen for all of them, and freely for
one whose frames, if any, come from `z`. -/
theorem exists_home {d : Mac} {z : V × T}
    (hhome : ∀ i ∈ net.injected, ∀ j ∈ net.injected,
      (header i.data).srcMac = (header j.data).srcMac → (i.switch, i.tap) = (j.switch, j.tap))
    (hz : ∀ j ∈ net.injected, (header j.data).srcMac = d → (j.switch, j.tap) = z) :
    ∃ home, Homed home net ∧ home d = z := by
  classical
  let sends (m : Mac) : Prop := ∃ j ∈ net.injected, (header j.data).srcMac = m
  refine ⟨fun m => if h : sends m then (h.choose.switch, h.choose.tap) else z, fun i hi => ?_, ?_⟩
  · have h : sends (header i.data).srcMac := ⟨i, hi, rfl⟩
    exact (dif_pos h).trans (hhome _ h.choose_spec.1 i hi h.choose_spec.2)
  · by_cases h : sends d
    · exact (dif_pos h).trans (hz _ h.choose_spec.1 h.choose_spec.2)
    · exact dif_neg h

end Net

/-- On a tree of switches with reliable links, whatever the interleaving and the aging, no
copy of a frame returns to the TAP it came from, no TAP and no link sees two, and once none
is in flight every TAP it is meant for has received exactly one. -/
theorem exactly_once {V T : Type} [DecidableEq V] [DecidableEq T] {topo : Topology V T}
    (hG : topo.graph.IsTree) {now : V → Int} {actions : List (NetAction V T)} {net : Net V T}
    (hrun : Run (Net.Steps topo) (Net.start topo now) actions net)
    (hreliable : ∀ a ∈ actions, a.reliable = true)
    (hframes : ∀ i ∈ net.injected, getEthertype i.data ≠ ethertypeArp)
    (hhome : ∀ i ∈ net.injected, ∀ j ∈ net.injected,
      (header i.data).srcMac = (header j.data).srcMac → (i.switch, i.tap) = (j.switch, j.tap))
    {tag : Nat} {i : Injection V T} (hi : net.injected[tag]? = some i) :
    net.writesTo tag i.switch (.tap i.tap) = 0 ∧
    (∀ v t, net.writesTo tag v (.tap t) ≤ 1) ∧
    (∀ v w, topo.graph.Adj v w →
      net.writesTo tag v (.link w) + net.writesTo tag w (.link v) ≤ 1) ∧
    (∀ y ∈ net.writes, y.tag = tag → y.data = i.data) ∧
    ((∀ c ∈ net.flight, c.tag ≠ tag) → ∀ v t, .tap t ∈ topo.ports v →
      (v, t) ≠ (i.switch, i.tap) →
      (isMulticast (header i.data).dstMac = true ∨
        ∀ j ∈ net.injected, (header j.data).srcMac = (header i.data).dstMac →
          (j.switch, j.tap) = (v, t)) →
      net.writesTo tag v (.tap t) = 1) := by
  have hplain := Net.plain_run hrun hframes
  have hmem := List.mem_of_getElem? hi
  have track {home : Mac → V × T} (h : Net.Homed home net) :=
    Net.tracked_run hG hrun hreliable h hplain.1
  obtain ⟨home, hhomed, -⟩ := Net.exists_home hhome fun j hj => hhome j hj i hmem
  have ht := track hhomed
  have hone (v : V) (q : NetPort V T) : net.writesTo tag v q ≤ 1 :=
    (Nat.le_add_right _ _).trans (ht.load_le tag i v q hi)
  refine ⟨ht.writesTo_home hi (Net.homeward_injected (hhomed i hmem)), fun v t => hone v _,
    ?_, ?_, ?_⟩
  · intro v w hadj
    rcases Nearer.of_adj hG (home (header i.data).srcMac).1 hadj with hn | hn
    · have hzero := ht.writesTo_home hi (v := v) (q := .link w) (.inr ⟨w, rfl, hn⟩)
      have := hone w (.link v)
      omega
    · have hzero := ht.writesTo_home hi (v := w) (q := .link v) (.inr ⟨v, rfl, hn⟩)
      have := hone v (.link w)
      omega
  · intro y hy htag
    obtain ⟨j, hj, hdata, -⟩ := ht.writes y hy
    rw [htag, hi] at hj
    cases hj
    exact hdata
  · intro hdone v t hport hne hdst
    have hexact {home : Mac → V × T} (h : Net.Homed home net)
        (hdst : isMulticast (header i.data).dstMac = true ∨
          home (header i.data).dstMac = (v, t)) : net.writesTo tag v (.tap t) = 1 := by
      have hload := (track h).load_eq tag i v t hi hport (by rwa [h i hmem]) hdst
      have hnone : net.pending topo tag (Net.origin home i.data) v = 0 :=
        List.countP_eq_zero.mpr fun c hc hkeep => hdone c hc (of_decide_eq_true hkeep).1
      rwa [Net.load, hnone, Nat.add_zero] at hload
    rcases hdst with hgroup | hd
    · exact hexact hhomed (.inl hgroup)
    · obtain ⟨home', hhomed', hz⟩ := Net.exists_home hhome hd
      exact hexact hhomed' (.inr hz)

/-- A broadcast between two switches, delivered. -/
theorem exactly_once_pair :
    let hello := EthernetFrame.build (fun _ => 0xff) ![2, 0, 0, 0, 0, 7] 0x0800 []
    ∃ net, Run (Net.Steps pair) (Net.start pair fun _ => 0)
        [.inject ⟨0, (), hello⟩ 0, .deliver ⟨0, 0, 1, hello⟩ 1] net ∧
      net.writesTo 0 1 (.tap ()) = 1 ∧ net.writesTo 0 0 (.tap ()) = 0 := by
  intro hello
  obtain ⟨net, hrun, hcheck⟩ := Run.exists_of_check (Net.step pair)
    (Net.start pair fun _ => 0) [.inject ⟨0, (), hello⟩ 0, .deliver ⟨0, 0, 1, hello⟩ 1]
    (fun net => net.injected = [⟨0, (), hello⟩] ∧ net.flight = []) (by decide +kernel)
  simp only [Bool.decide_and, Bool.and_eq_true, decide_eq_true_eq] at hcheck
  obtain ⟨hinjected, hflight⟩ := hcheck
  have hframes : ∀ i ∈ net.injected, getEthertype i.data ≠ ethertypeArp := by
    rw [hinjected]
    decide
  have hhome : ∀ i ∈ net.injected, ∀ j ∈ net.injected,
      (header i.data).srcMac = (header j.data).srcMac → (i.switch, i.tap) = (j.switch, j.tap) := by
    rw [hinjected]
    decide
  have hi : net.injected[0]? = some ⟨0, (), hello⟩ := by rw [hinjected]; rfl
  obtain ⟨hback, -, -, -, hdone⟩ :=
    exactly_once pair_isTree hrun (by decide) hframes hhome hi
  exact ⟨net, hrun, hdone (by simp [hflight]) 1 () (by decide) (by decide) (.inl (by decide)), hback⟩

end VSwitch
