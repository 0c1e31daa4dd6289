import VSwitch.Fabric.ExactlyOnce
import VSwitch.Lib.Simulation

/-! Links that lose frames. To lose a copy is to delay it for ever, so a run with losses is
one without them in which some copies are never delivered. -/
namespace VSwitch
open Lib EthernetFrame

def NetAction.single {V T : Type} : NetAction V T → Bool
  | .duplicate _ => false
  | _ => true

namespace Net
variable {V T : Type} [DecidableEq V] [DecidableEq T] {topo : Topology V T} {net net' full : Net V T}
variable {v x : V} {source q : NetPort V T} {tag : Nat} {data : Bytes} {now : Int} {c : Copy V}

/-- `full` has everything that `net` has, and possibly more copies in flight. -/
structure Outlasts (net full : Net V T) : Prop where
  switches : full.switches = net.switches
  flight : net.flight.Subperm full.flight
  writes : full.writes = net.writes
  injected : full.injected = net.injected
  answered : full.answered = net.answered

omit [DecidableEq V] [DecidableEq T] in
theorem Outlasts.refl (net : Net V T) : Outlasts net net := ⟨rfl, List.Subperm.refl _, rfl, rfl, rfl⟩

omit [DecidableEq V] [DecidableEq T] in
theorem Outlasts.inject (h : Outlasts net full) (i : Injection V T) :
    Outlasts (net.inject i) (full.inject i) :=
  ⟨h.switches, h.flight, h.writes, congrArg (· ++ [i]) h.injected, h.answered⟩

omit [DecidableEq T] in
theorem Outlasts.take (h : Outlasts net full) (c : Copy V) : Outlasts (net.take c) (full.take c) :=
  ⟨h.switches, h.flight.erase c, h.writes, h.injected, h.answered⟩

omit [DecidableEq T] in
theorem Outlasts.lose (h : Outlasts net full) (c : Copy V) : Outlasts (net.take c) full :=
  ⟨h.switches, (List.erase_sublist.subperm).trans h.flight, h.writes, h.injected, h.answered⟩

theorem Outlasts.receive (h : Outlasts net full)
    (hrec : net.receive v source tag data now = some net') :
    ∃ full', full.receive v source tag data now = some full' ∧ Outlasts net' full' := by
  obtain ⟨hlen, rfl⟩ := receive_eq_some hrec
  refine ⟨_, receive_long hlen, ?_, ?_, ?_, h.injected, ?_⟩
  · simp only [absorb, h.switches]
  · simp only [absorb, h.switches]
    exact (List.subperm_append_right _).mpr h.flight
  · simp only [absorb, h.switches, h.writes]
  · simp only [absorb, h.switches, h.answered]

section Tracked
variable {home : Mac → V × T} {i : Injection V T} {w : V} {t : T}

end Tracked
end Net
end VSwitch
