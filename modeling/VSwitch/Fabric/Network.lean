import Mathlib.Combinatorics.SimpleGraph.Basic
import VSwitch.Lib.Runs
import VSwitch.Switch.FrameSteps

/-! Several switches whose UDP ports are joined in pairs. Frames enter at TAP devices and
travel as copies; any copy in flight may be delivered next. -/
namespace VSwitch
open Lib EthernetFrame

/-- The ports of a switch in a network: TAP devices, and a UDP port per linked switch. -/
inductive NetPort (V T : Type) where
  | tap (t : T)
  | link (peer : V)
  deriving DecidableEq

/-- The switches `V`, their links, and the ports of each in the order of `ports_`. -/
structure Topology (V T : Type) where
  graph : SimpleGraph V
  ports : V → List (NetPort V T)
  ports_nodup : ∀ v, (ports v).Nodup
  link_mem : ∀ {v w}, .link w ∈ ports v ↔ graph.Adj v w

/-- A frame on its way from `src` to `dst`; `tag` numbers the injected frame behind it. -/
structure Copy (V : Type) where
  tag : Nat
  src : V
  dst : V
  data : Bytes
  deriving DecidableEq

/-- A call of `Port::write` at a switch. -/
structure PortWrite (V T : Type) where
  tag : Nat
  switch : V
  port : NetPort V T
  data : Bytes
  deriving DecidableEq

/-- A frame that a host handed to a TAP device. -/
structure Injection (V T : Type) where
  switch : V
  tap : T
  data : Bytes
  deriving DecidableEq

/-- The switches and the copies in flight. The rest is history: every write, every
injected frame by its tag, and how often `handle_arp` returned true. -/
structure Net (V T : Type) where
  switches : V → VirtualSwitch (NetPort V T)
  flight : List (Copy V)
  writes : List (PortWrite V T)
  injected : List (Injection V T)
  answered : Nat

inductive NetAction (V T : Type) where
  | inject (i : Injection V T) (now : Int)
  | deliver (copy : Copy V) (now : Int)
  | age (v : V) (now : Int)
  | lose (copy : Copy V)
  | duplicate (copy : Copy V)
  deriving DecidableEq

def NetAction.reliable {V T : Type} : NetAction V T → Bool
  | .lose _ => false
  | .duplicate _ => false
  | _ => true

namespace Net
variable {V T : Type} [DecidableEq V] [DecidableEq T]

def start (topo : Topology V T) (now : V → Int) : Net V T :=
  ⟨fun v => .create (topo.ports v) (topo.ports_nodup v) (now v), [], [], [], 0⟩

def departure (v : V) (tag : Nat) : NetPort V T × Bytes → Option (Copy V)
  | (.link w, data) => some ⟨tag, v, w, data⟩
  | (.tap _, _) => none

/-- Switch `v` is done with a frame. -/
def absorb (net : Net V T) (v : V) (tag : Nat) (o : Outcome (NetPort V T)) : Net V T where
  switches := fun u => if u = v then o.switch else net.switches u
  flight := net.flight ++ o.writes.filterMap (departure v tag)
  writes := net.writes ++ o.writes.map fun (port, data) => ⟨tag, v, port, data⟩
  injected := net.injected
  answered := net.answered + if o.answered then 1 else 0

/-- Switch `v` processes a frame; a fault ends the run. -/
def receive (net : Net V T) (v : V) (source : NetPort V T) (tag : Nat) (data : Bytes)
    (now : Int) : Option (Net V T) :=
  match (net.switches v).processFrame data source now with
  | .error _ => none
  | .ok o => some (net.absorb v tag o)

def inject (net : Net V T) (i : Injection V T) : Net V T :=
  { net with injected := net.injected ++ [i] }

def take (net : Net V T) (c : Copy V) : Net V T := { net with flight := net.flight.erase c }

def step (topo : Topology V T) (net : Net V T) : NetAction V T → Option (Net V T)
  | .inject i now =>
    if .tap i.tap ∈ topo.ports i.switch then
      (net.inject i).receive i.switch (.tap i.tap) net.injected.length i.data now
    else none
  | .deliver c now =>
    if c ∈ net.flight then (net.take c).receive c.dst (.link c.src) c.tag c.data now else none
  | .age v now =>
    let aged := (net.switches v).ageOutMacEntries now
    some { net with switches := fun u => if u = v then aged else net.switches u }
  | .lose c => if c ∈ net.flight then some (net.take c) else none
  | .duplicate c => if c ∈ net.flight then some { net with flight := c :: net.flight } else none

def Steps (topo : Topology V T) (net : Net V T) (a : NetAction V T) (net' : Net V T) : Prop :=
  net.step topo a = some net'

/-- How often copies of frame `tag` were written to a port. -/
def writesTo (net : Net V T) (tag : Nat) (v : V) (port : NetPort V T) : Nat :=
  net.writes.countP fun x => x.tag = tag ∧ x.switch = v ∧ x.port = port

variable {topo : Topology V T} {net net' : Net V T} {a : NetAction V T}
variable {v x : V} {source q : NetPort V T} {k tag : Nat} {data : Bytes} {now : Int}

omit [DecidableEq V] [DecidableEq T] in
theorem mem_departures {writes : List (NetPort V T × Bytes)} {c : Copy V} :
    c ∈ writes.filterMap (departure v tag) ↔
      c.tag = tag ∧ c.src = v ∧ (.link c.dst, c.data) ∈ writes := by
  rw [List.mem_filterMap]
  constructor
  · rintro ⟨⟨port, d⟩, hmem, hdep⟩
    cases port with
    | tap t => cases hdep
    | link w =>
      cases hdep
      exact ⟨rfl, rfl, hmem⟩
  · rintro ⟨rfl, rfl, hmem⟩
    exact ⟨_, hmem, rfl⟩

theorem writesTo_absorb (o : Outcome (NetPort V T)) :
    (net.absorb v tag o).writesTo k x q =
      net.writesTo k x q + if tag = k ∧ v = x then (copiesTo o.writes q).length else 0 := by
  simp only [writesTo, absorb, List.countP_append, List.countP_map, copiesTo, List.length_map,
    ← List.countP_eq_length_filter]
  congr 1
  split_ifs with h
  · exact List.countP_congr fun y _ => by simp [h]
  · apply List.countP_eq_zero.mpr
    intro y _ hy
    apply h
    have hy := of_decide_eq_true hy
    exact ⟨hy.1, hy.2.1⟩

/-- A frame that is not answered is learned from, possibly cached, and forwarded. -/
def forwarded (net : Net V T) (v : V) (source : NetPort V T) (data : Bytes) (now : Int) :
    Outcome (NetPort V T) :=
  let mid := (net.switches v).refresh (header data).srcMac source now
  ⟨mid.cacheFrom data now, false, mid.forwardFrame (header data) data source⟩

theorem forwarded_ports (net : Net V T) (v : V) (source : NetPort V T) (data : Bytes) (now : Int) :
    (net.forwarded v source data now).switch.ports = (net.switches v).ports := by
  rw [forwarded, VirtualSwitch.cacheFrom_ports, VirtualSwitch.refresh_ports]

theorem receive_long (h : 14 ≤ data.length) :
    net.receive v source tag data now =
      some (net.absorb v tag ((net.switches v).switchFrame (header data) data source now)) := by
  rw [receive, VirtualSwitch.processFrame_long _ _ _ _ h]

/-- A frame that is processed at all has a whole header. -/
theorem receive_eq_some (h : net.receive v source tag data now = some net') :
    14 ≤ data.length ∧
      net' = net.absorb v tag ((net.switches v).switchFrame (header data) data source now) := by
  rcases Nat.lt_or_ge data.length 14 with hs | hl
  · rw [receive, VirtualSwitch.processFrame_short _ _ _ _ hs] at h
    cases h
  · rw [receive_long hl] at h
    exact ⟨hl, (Option.some.inj h).symm⟩

private theorem switchFrame_forwarded
    (h : ((net.switches v).switchFrame (header data) data source now).answered = false) :
    (net.switches v).switchFrame (header data) data source now =
      net.forwarded v source data now := by
  have hw := VirtualSwitch.switchFrame_forwards _ _ _ _ _ h
  rw [VirtualSwitch.switchFrame_eq] at h hw ⊢
  exact congr (congr rfl h) hw

theorem receive_quiet (h : net.receive v source tag data now = some net')
    (hq : net'.answered = net.answered) :
    14 ≤ data.length ∧ net' = net.absorb v tag (net.forwarded v source data now) := by
  obtain ⟨hlen, rfl⟩ := receive_eq_some h
  rw [switchFrame_forwarded (by simpa [absorb] using hq)]
  exact ⟨hlen, rfl⟩

theorem receive_plain (h : net.receive v source tag data now = some net')
    (hdata : getEthertype data ≠ ethertypeArp) :
    14 ≤ data.length ∧ net' = net.absorb v tag (net.forwarded v source data now) := by
  obtain ⟨hlen, rfl⟩ := receive_eq_some h
  have hquery : ¬ IsQuery data := fun hq => hdata hq.1.1
  rw [switchFrame_forwarded
    (by simp [VirtualSwitch.switchFrame_answered, VirtualSwitch.cachedAnswer, hquery])]
  exact ⟨hlen, rfl⟩

theorem receive_plain_ok (hlen : 14 ≤ data.length) (hdata : getEthertype data ≠ ethertypeArp) :
    net.receive v source tag data now =
      some (net.absorb v tag (net.forwarded v source data now)) := by
  rw [receive_long hlen, ← (receive_plain (receive_long hlen) hdata).2]

/-- The copies that a forwarded frame puts on links carry the frame itself. -/
theorem mem_forwarded_departures {c : Copy V} :
    c ∈ (net.forwarded v source data now).writes.filterMap (departure v tag) ↔
      c.tag = tag ∧ c.src = v ∧ c.data = data ∧
        ((net.switches v).refresh (header data).srcMac source now).SendsTo (header data).dstMac
          source (.link c.dst) := by
  rw [mem_departures]
  exact and_congr_right fun _ => and_congr_right fun _ => VirtualSwitch.mem_forwardFrame ..

private theorem receive_grows (h : net.receive v source tag data now = some net') :
    net'.injected = net.injected ∧ net.answered ≤ net'.answered := by
  obtain ⟨-, rfl⟩ := receive_eq_some h
  exact ⟨rfl, Nat.le_add_right _ _⟩

section Steps
variable {i : Injection V T} {c : Copy V}

theorem step_inject : net.step topo (.inject i now) = some net' ↔
    .tap i.tap ∈ topo.ports i.switch ∧
      (net.inject i).receive i.switch (.tap i.tap) net.injected.length i.data now = some net' :=
  Option.ite_none_right_eq_some

theorem step_deliver : net.step topo (.deliver c now) = some net' ↔
    c ∈ net.flight ∧
      (net.take c).receive c.dst (.link c.src) c.tag c.data now = some net' :=
  Option.ite_none_right_eq_some

theorem step_lose : net.step topo (.lose c) = some net' ↔ c ∈ net.flight ∧ net.take c = net' := by
  rw [step, Option.ite_none_right_eq_some, Option.some.injEq]

theorem step_duplicate : net.step topo (.duplicate c) = some net' ↔
    c ∈ net.flight ∧ { net with flight := c :: net.flight } = net' := by
  rw [step, Option.ite_none_right_eq_some, Option.some.injEq]

/-- An injected frame enters the history. -/
theorem step_inject_injected (h : net.step topo (.inject i now) = some net') :
    net'.injected = net.injected ++ [i] := (receive_grows (step_inject.mp h).2).1

theorem mem_injected (h : net.step topo (.inject i now) = some net') : i ∈ net'.injected := by
  rw [step_inject_injected h]
  exact List.mem_append_right _ (List.mem_singleton_self i)

end Steps

/-- The history only grows. -/
theorem step_grows (h : net.step topo a = some net') :
    net.injected <+: net'.injected ∧ net.answered ≤ net'.answered := by
  cases a with
  | inject i now =>
    exact ⟨step_inject_injected h ▸ List.prefix_append _ _,
      (receive_grows (step_inject.mp h).2).2⟩
  | deliver c now =>
    obtain ⟨hinjected, hanswered⟩ := receive_grows (step_deliver.mp h).2
    exact ⟨hinjected ▸ List.prefix_refl _, hanswered⟩
  | age v now =>
    cases h
    exact ⟨List.prefix_refl _, le_refl _⟩
  | lose c =>
    obtain ⟨-, rfl⟩ := step_lose.mp h
    exact ⟨List.prefix_refl _, le_refl _⟩
  | duplicate c =>
    obtain ⟨-, rfl⟩ := step_duplicate.mp h
    exact ⟨List.prefix_refl _, le_refl _⟩

/-- Switches own the ports of the topology and know no others; copies travel over its links. -/
structure Routed (topo : Topology V T) (net : Net V T) : Prop where
  ports : ∀ v, (net.switches v).ports = topo.ports v
  table : ∀ v key e, (net.switches v).macAddressTable key = some e → e.port ∈ topo.ports v
  flight : ∀ c ∈ net.flight, topo.graph.Adj c.src c.dst

omit [DecidableEq V] [DecidableEq T] in
theorem routed_start (now : V → Int) : Routed topo (start topo now) where
  ports := fun _ => rfl
  table := fun _ _ _ h => by cases h
  flight := fun _ h => absurd h List.not_mem_nil

omit [DecidableEq V] [DecidableEq T] in
theorem Routed.table_refresh (h : Routed topo net) (hsource : source ∈ topo.ports v) {key : String}
    {e : MacEntry (NetPort V T)}
    (he : ((net.switches v).refresh (header data).srcMac source now).macAddressTable key = some e) :
    e.port ∈ topo.ports v := by
  rcases VirtualSwitch.refresh_eq_some _ _ _ he with ⟨-, rfl⟩ | ⟨-, hold⟩
  · exact hsource
  · exact h.table v key e hold

/-- A frame that arrives on a port leaves over ports of the same switch. -/
theorem Routed.mem_writes (h : Routed topo net) (hsource : source ∈ topo.ports v) {d : Bytes}
    (hw : (q, d) ∈ ((net.switches v).switchFrame (header data) data source now).writes) :
    q ∈ topo.ports v := by
  rcases VirtualSwitch.mem_switchFrame_writes _ _ _ _ _ hw with ⟨-, hs⟩ | ⟨rfl, -⟩
  · by_cases hflood : isMulticast (header data).dstMac = true ∨
        ((net.switches v).refresh (header data).srcMac source now).macAddressTable
          (macToString (header data).dstMac) = none
    · have hmem := ((VirtualSwitch.sendsTo_flood hflood).mp hs).2
      rwa [VirtualSwitch.refresh_ports, h.ports] at hmem
    · obtain ⟨hm, ht⟩ := not_or.mp hflood
      obtain ⟨e, he⟩ := Option.ne_none_iff_exists'.mp ht
      rw [← ((VirtualSwitch.sendsTo_known (Bool.eq_false_iff.mpr hm) he).mp hs).2]
      exact h.table_refresh hsource he
  · exact hsource

theorem Routed.absorb (h : Routed topo net) (hsource : source ∈ topo.ports v) :
    Routed topo (net.absorb v tag
      ((net.switches v).switchFrame (header data) data source now)) where
  ports := fun u => by
    by_cases hu : u = v
    · simp [Net.absorb, hu, VirtualSwitch.switchFrame_ports, h.ports]
    · simp [Net.absorb, hu, h.ports]
  table := fun u key e he => by
    by_cases hu : u = v
    · subst hu
      simp only [Net.absorb, if_true, VirtualSwitch.switchFrame_eq,
        VirtualSwitch.cacheFrom_macAddressTable] at he
      exact h.table_refresh hsource he
    · simp only [Net.absorb, if_neg hu] at he
      exact h.table u key e he
  flight := fun c hc => by
    rcases List.mem_append.mp hc with hold | hnew
    · exact h.flight c hold
    · obtain ⟨-, rfl, hw⟩ := mem_departures.mp hnew
      exact topo.link_mem.mp (h.mem_writes hsource hw)

omit [DecidableEq T] in
theorem Routed.take (h : Routed topo net) (c : Copy V) : Routed topo (net.take c) :=
  ⟨h.ports, h.table, fun c' hc' => h.flight c' (List.mem_of_mem_erase hc')⟩

theorem Routed.step (h : Routed topo net) (hstep : net.step topo a = some net') :
    Routed topo net' := by
  cases a with
  | inject i now =>
    obtain ⟨htap, hrec⟩ := step_inject.mp hstep
    obtain ⟨-, rfl⟩ := receive_eq_some hrec
    have hbase : Routed topo (net.inject i) := ⟨h.ports, h.table, h.flight⟩
    exact hbase.absorb htap
  | deliver c now =>
    obtain ⟨hc, hrec⟩ := step_deliver.mp hstep
    obtain ⟨-, rfl⟩ := receive_eq_some hrec
    exact (h.take c).absorb (topo.link_mem.mpr (h.flight c hc).symm)
  | age v now =>
    cases hstep
    refine ⟨fun u => ?_, fun u key e he => ?_, h.flight⟩
    · by_cases hu : u = v <;> simp [hu, h.ports]
    · by_cases hu : u = v
      · subst hu
        simp only [if_true] at he
        exact h.table u key e (VirtualSwitch.ageOutMacEntries_eq_some _ _ he)
      · simp only [if_neg hu] at he
        exact h.table u key e he
  | lose c =>
    obtain ⟨-, rfl⟩ := step_lose.mp hstep
    exact h.take c
  | duplicate c =>
    obtain ⟨hc, rfl⟩ := step_duplicate.mp hstep
    refine ⟨h.ports, h.table, fun c' hc' => ?_⟩
    rcases List.mem_cons.mp hc' with rfl | hold
    · exact h.flight _ hc
    · exact h.flight c' hold

theorem routed_run {now : V → Int} {actions : List (NetAction V T)}
    (hrun : Run (Steps topo) (start topo now) actions net) : Routed topo net :=
  hrun.invariant (fun h hstep => h.step hstep) (routed_start now)

end Net
end VSwitch
