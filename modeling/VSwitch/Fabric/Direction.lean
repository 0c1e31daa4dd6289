import VSwitch.Fabric.Network
import VSwitch.Lib.TreeRoutes

/-! On a tree of switches every frame travels away from the home of its source, and every
table entry points back to it. -/
namespace VSwitch
open Lib EthernetFrame

/-- At `v`, port `p` is the way to port `q` of switch `x`. -/
def Leads {V T : Type} (G : SimpleGraph V) (v x : V) (q p : NetPort V T) : Prop :=
  (v = x ∧ p = q) ∨ ∃ w, p = .link w ∧ Nearer G x v w

namespace Leads
variable {V T : Type} {G : SimpleGraph V} {v w x : V} {p p' q : NetPort V T} {t : T}

theorem here (h : Leads G x x q p) : p = q := by
  rcases h with ⟨-, hp⟩ | ⟨w, -, hn⟩
  · exact hp
  · exact absurd rfl hn.ne

theorem there (h : Leads G v x q p) (hne : v ≠ x) : ∃ w, p = .link w ∧ Nearer G x v w := by
  rcases h with ⟨hv, -⟩ | hw
  · exact absurd hv hne
  · exact hw

theorem unique (hG : G.IsTree) (h : Leads G v x q p) (h' : Leads G v x q p') : p = p' := by
  by_cases hv : v = x
  · subst hv
    rw [h.here, h'.here]
  · obtain ⟨w, rfl, hw⟩ := h.there hv
    obtain ⟨w', rfl, hw'⟩ := h'.there hv
    rw [hw.unique hG hw']

theorem exists_way (hG : G.IsTree) (v x : V) (q : NetPort V T) : ∃ p, Leads G v x q p := by
  by_cases hv : v = x
  · exact ⟨q, .inl ⟨hv, rfl⟩⟩
  · obtain ⟨w, hw⟩ := Nearer.exists_of_ne hG hv
    exact ⟨.link w, .inr ⟨w, rfl, hw⟩⟩

/-- A TAP is reached over links until the last switch. -/
theorem link (h : Leads G v x (.tap t) (.link w)) : Nearer G x v w := by
  rcases h with ⟨-, hp⟩ | ⟨w', hp, hn⟩
  · cases hp
  · cases hp
    exact hn

/-- On the way from one TAP to another no port serves both directions. -/
theorem apart (hG : G.IsTree) {s : V} {t₀ : T} (h : Leads G v s (.tap t₀) p')
    (hp : Leads G v x (.tap t) p) (hb : Between G s v x) (hne : (x, t) ≠ (s, t₀)) : p ≠ p' := by
  rintro rfl
  rcases hp with ⟨rfl, rfl⟩ | ⟨w, rfl, hw⟩
  · rcases h with ⟨rfl, ht⟩ | ⟨w, ht, -⟩
    · cases ht
      exact hne rfl
    · cases ht
  · exact (hb.nearer_start hG hw).asymm h.link

/-- Every other link leads away. -/
theorem away (hG : G.IsTree) (hp : Leads G v x q p) (hadj : G.Adj v w) (hne : .link w ≠ p) :
    Nearer G x w v := by
  rcases Nearer.of_adj hG x hadj with hn | hn
  · obtain ⟨w', rfl, hw'⟩ := hp.there hn.ne
    exact absurd (congrArg NetPort.link (hn.unique hG hw')) hne
  · exact hn

end Leads

namespace Net
variable {V T : Type} [DecidableEq V] [DecidableEq T]
variable {topo : Topology V T} {home : Mac → V × T} {net net' : Net V T} {a : NetAction V T}

/-- At `v`, port `p` is the way to the home of the source of `data`. -/
abbrev Homeward (topo : Topology V T) (home : Mac → V × T) (v : V) (data : Bytes)
    (p : NetPort V T) : Prop :=
  let h := home (header data).srcMac
  Leads topo.graph v h.1 (.tap h.2) p

/-- Entries point home; copies come from there. -/
structure Directed (topo : Topology V T) (home : Mac → V × T) (net : Net V T) : Prop where
  ports : ∀ v, (net.switches v).ports = topo.ports v
  table : ∀ v key e, (net.switches v).macAddressTable key = some e → ∃ mac,
    macToString mac = key ∧ Leads topo.graph v (home mac).1 (.tap (home mac).2) e.port
  flight : ∀ c ∈ net.flight, Homeward topo home c.dst c.data (.link c.src)

omit [DecidableEq V] [DecidableEq T] in
theorem directed_start (now : V → Int) : Directed topo home (start topo now) where
  ports := fun _ => rfl
  table := fun _ _ _ h => by cases h
  flight := fun _ h => absurd h List.not_mem_nil

variable {v : V} {source : NetPort V T} {tag : Nat} {data : Bytes} {now : Int}

omit [DecidableEq V] [DecidableEq T] in
theorem Directed.table_refresh (hd : Directed topo home net)
    (hsource : Homeward topo home v data source) {key : String} {e : MacEntry (NetPort V T)}
    (he : ((net.switches v).refresh (header data).srcMac source now).macAddressTable key = some e) :
    ∃ mac, macToString mac = key ∧ Leads topo.graph v (home mac).1 (.tap (home mac).2) e.port := by
  rcases VirtualSwitch.refresh_eq_some _ _ _ he with ⟨rfl, rfl⟩ | ⟨-, hold⟩
  · exact ⟨_, rfl, hsource⟩
  · exact hd.table v key e hold

omit [DecidableEq V] [DecidableEq T] in
private theorem Directed.sendsTo_link (hd : Directed topo home net)
    (hsource : Homeward topo home v data source) {w : V} {dst : Mac}
    (hs : ((net.switches v).refresh (header data).srcMac source now).SendsTo dst source (.link w)) :
    topo.graph.Adj v w ∧ .link w ≠ source := by
  refine ⟨?_, hs.1⟩
  rcases Option.eq_none_or_eq_some (((net.switches v).refresh (header data).srcMac source
    now).macAddressTable (macToString dst)) with ht | ⟨e, ht⟩
  · have hmem := ((VirtualSwitch.sendsTo_flood (.inr ht)).mp hs).2
    rw [VirtualSwitch.refresh_ports, hd.ports] at hmem
    exact topo.link_mem.mp hmem
  · by_cases hm : isMulticast dst = true
    · have hmem := ((VirtualSwitch.sendsTo_flood (.inl hm)).mp hs).2
      rw [VirtualSwitch.refresh_ports, hd.ports] at hmem
      exact topo.link_mem.mp hmem
    · have hport := ((VirtualSwitch.sendsTo_known (Bool.eq_false_iff.mpr hm) ht).mp hs).2
      obtain ⟨mac, -, hleads⟩ := hd.table_refresh hsource ht
      exact (hport ▸ hleads).link.adj

/-- The copies that a switch puts on its links. -/
theorem Directed.mem_forwarded (hd : Directed topo home net)
    (hsource : Homeward topo home v data source) {c : Copy V}
    (hc : c ∈ (net.forwarded v source data now).writes.filterMap (departure v tag)) :
    c.tag = tag ∧ c.src = v ∧ c.data = data ∧ topo.graph.Adj v c.dst ∧ .link c.dst ≠ source := by
  obtain ⟨htag, hsrc, hdata, hs⟩ := mem_forwarded_departures.mp hc
  exact ⟨htag, hsrc, hdata, hd.sendsTo_link hsource hs⟩

/-- A frame that comes from its home is sent on away from it. -/
theorem Directed.absorb (hG : topo.graph.IsTree) (hd : Directed topo home net)
    (hsource : Homeward topo home v data source) :
    Directed topo home (net.absorb v tag (net.forwarded v source data now)) where
  ports := fun u => by
    by_cases hu : u = v
    · simp [Net.absorb, hu, forwarded, VirtualSwitch.cacheFrom_ports, hd.ports]
    · simp [Net.absorb, hu, hd.ports]
  table := fun u key e he => by
    by_cases hu : u = v
    · subst hu
      simp only [Net.absorb, if_true, forwarded, VirtualSwitch.cacheFrom_macAddressTable] at he
      exact hd.table_refresh hsource he
    · simp only [Net.absorb, if_neg hu] at he
      exact hd.table u key e he
  flight := fun c hc => by
    rcases List.mem_append.mp hc with hold | hnew
    · exact hd.flight c hold
    · obtain ⟨-, hsrc, hdata, hadj, hne⟩ := hd.mem_forwarded hsource hnew
      refine .inr ⟨c.src, rfl, ?_⟩
      rw [hsrc, hdata]
      exact hsource.away hG hadj hne

omit [DecidableEq T] in
theorem Directed.take (hd : Directed topo home net) (c : Copy V) :
    Directed topo home (net.take c) where
  ports := hd.ports
  table := hd.table
  flight := fun c' hc' => hd.flight c' (List.mem_of_mem_erase hc')

omit [DecidableEq V] [DecidableEq T] in
theorem Directed.inject (hd : Directed topo home net) (i : Injection V T) :
    Directed topo home (net.inject i) := ⟨hd.ports, hd.table, hd.flight⟩

omit [DecidableEq T] in
theorem Directed.age (hd : Directed topo home net) (v : V) (now : Int) :
    Directed topo home { net with
      switches := fun u => if u = v then (net.switches v).ageOutMacEntries now
        else net.switches u } where
  ports := fun u => by
    by_cases hu : u = v <;> simp [hu, hd.ports]
  table := fun u key e he => by
    by_cases hu : u = v
    · subst hu
      simp only [if_true] at he
      exact hd.table u key e (VirtualSwitch.ageOutMacEntries_eq_some _ _ he)
    · simp only [if_neg hu] at he
      exact hd.table u key e he
  flight := hd.flight

/-- Each source address is injected at its home only. -/
def Homed (home : Mac → V × T) (net : Net V T) : Prop :=
  ∀ i ∈ net.injected, home (header i.data).srcMac = (i.switch, i.tap)

theorem Homed.of_step (h : Homed home net') (hstep : net.step topo a = some net') :
    Homed home net := fun i hi => h i ((step_grows hstep).1.subset hi)

omit [DecidableEq V] [DecidableEq T] in
theorem homeward_injected {i : Injection V T}
    (h : home (header i.data).srcMac = (i.switch, i.tap)) :
    Homeward topo home i.switch i.data (.tap i.tap) := by
  simp only [Homeward, h]
  exact .inl ⟨rfl, rfl⟩

/-- One step of a network in which nothing is answered keeps the direction. -/
theorem Directed.step (hG : topo.graph.IsTree) (hd : Directed topo home net)
    (hstep : net.step topo a = some net') (hhome : Homed home net')
    (hq : net'.answered = net.answered) : Directed topo home net' := by
  cases a with
  | inject i now =>
    have hi : i ∈ net'.injected := mem_injected hstep
    obtain ⟨-, rfl⟩ := receive_quiet (step_inject.mp hstep).2 hq
    exact (hd.inject i).absorb hG (homeward_injected (hhome i hi))
  | deliver c now =>
    obtain ⟨hc, hrec⟩ := step_deliver.mp hstep
    obtain ⟨-, rfl⟩ := receive_quiet hrec hq
    exact (hd.take c).absorb hG (hd.flight c hc)
  | age v now =>
    cases hstep
    exact hd.age v now
  | lose c =>
    obtain ⟨-, rfl⟩ := step_lose.mp hstep
    exact hd.take c
  | duplicate c =>
    obtain ⟨hc, rfl⟩ := step_duplicate.mp hstep
    refine ⟨hd.ports, hd.table, fun c' hc' => ?_⟩
    rcases List.mem_cons.mp hc' with rfl | hold
    · exact hd.flight _ hc
    · exact hd.flight c' hold

private theorem directed_run (hG : topo.graph.IsTree) {now : V → Int}
    {actions : List (NetAction V T)}
    (hrun : Run (Steps topo) (start topo now) actions net) (hhome : Homed home net)
    (hq : net.answered = 0) : Directed topo home net := by
  refine hrun.invariant (I := fun n => Homed home n → n.answered = 0 → Directed topo home n)
    ?_ (fun _ _ => directed_start now) hhome hq
  intro n a n' ih hstep hhome' hq'
  have hle := (step_grows hstep).2
  have hq₀ : n.answered = 0 := by omega
  exact (ih (hhome'.of_step hstep) hq₀).step hG hstep hhome' (by omega)

end Net

/-- In every state that a tree of switches reaches, whatever is lost, duplicated, delayed,
reordered or aged, entries point to the home of their address and copies in flight travel
away from the home of their source. -/
theorem tables_point_home {V T : Type} [DecidableEq V] [DecidableEq T] {topo : Topology V T}
    (hG : topo.graph.IsTree) {now : V → Int} {home : Mac → V × T}
    {actions : List (NetAction V T)} {net : Net V T}
    (hrun : Run (Net.Steps topo) (Net.start topo now) actions net)
    (hhome : ∀ i ∈ net.injected, home (header i.data).srcMac = (i.switch, i.tap))
    (hquiet : net.answered = 0) :
    (∀ v key e, (net.switches v).macAddressTable key = some e → ∃ mac, macToString mac = key ∧
      (v = (home mac).1 → e.port = .tap (home mac).2) ∧
      (v ≠ (home mac).1 → ∀ p : topo.graph.Walk v (home mac).1, p.IsPath →
        e.port = .link p.snd)) ∧
    ∀ c ∈ net.flight, topo.graph.Adj c.src c.dst ∧
      c.dst ≠ (home (header c.data).srcMac).1 ∧
      ∀ p : topo.graph.Walk c.dst (home (header c.data).srcMac).1, p.IsPath → p.snd = c.src := by
  have hd := Net.directed_run hG hrun hhome hquiet
  constructor
  · intro v key e he
    obtain ⟨mac, hkey, hleads⟩ := hd.table v key e he
    refine ⟨mac, hkey, ?_, ?_⟩
    · intro hv
      subst hv
      exact hleads.here
    · intro hv p hp
      obtain ⟨w, hport, hw⟩ := hleads.there hv
      rw [hport, hw.eq_snd hG hp]
  · intro c hc
    have hnear := (hd.flight c hc).link
    exact ⟨hnear.adj.symm, hnear.ne, fun p hp => (hnear.eq_snd hG hp).symm⟩

def pair : Topology (Fin 2) Unit where
  graph := ⊤
  ports := fun v => [.tap (), .link (1 - v)]
  ports_nodup := by decide
  link_mem := by decide

theorem pair_isTree : pair.graph.IsTree where
  isAcyclic := .of_card_le_two (by simp)
  connected := SimpleGraph.connected_top

def allAtZero (_ : Mac) : Fin 2 × Unit := (0, ())

/-- A broadcast from the TAP of switch 0 leaves an entry at switch 1 that points back. -/
theorem tables_point_home_pair :
    let hello := EthernetFrame.build (fun _ => 0xff) ![2, 0, 0, 0, 0, 7] 0x0800 []
    ∃ net, Run (Net.Steps pair) (Net.start pair fun _ => 0)
        [.inject ⟨0, (), hello⟩ 0, .deliver ⟨0, 0, 1, hello⟩ 1] net ∧
      ∃ e, (net.switches 1).macAddressTable (macToString ![2, 0, 0, 0, 0, 7]) = some e ∧
        e.port = .link 0 := by
  intro hello
  obtain ⟨net, hrun, hcheck⟩ := Run.exists_of_check (Net.step pair)
    (Net.start pair fun _ => 0) [.inject ⟨0, (), hello⟩ 0, .deliver ⟨0, 0, 1, hello⟩ 1]
    (fun net => net.injected = [⟨0, (), hello⟩] ∧ net.answered = 0 ∧
      ((net.switches 1).macAddressTable (macToString ![2, 0, 0, 0, 0, 7])).isSome)
    (by decide +kernel)
  simp only [Bool.decide_and, Bool.and_eq_true, decide_eq_true_eq] at hcheck
  obtain ⟨hinjected, hanswered, hknown⟩ := hcheck
  have hhome : ∀ i ∈ net.injected, allAtZero (header i.data).srcMac = (i.switch, i.tap) := by
    rw [hinjected]
    decide
  obtain ⟨e, he⟩ := Option.isSome_iff_exists.mp hknown
  obtain ⟨mac, -, -, hport⟩ := (tables_point_home pair_isTree hrun hhome hanswered).1 1 _ e he
  have hadj : pair.graph.Adj 1 0 := pair.link_mem.mp (by decide)
  have hpath : (SimpleGraph.Walk.cons hadj .nil).IsPath := by simp
  have haway : (1 : Fin 2) ≠ 0 := by decide
  exact ⟨net, hrun, e, he, hport haway _ hpath⟩

end VSwitch
