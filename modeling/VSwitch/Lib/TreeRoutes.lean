import Mathlib.Algebra.Order.BigOperators.Group.Finset
import Mathlib.Combinatorics.SimpleGraph.Acyclic

/-! Routes in a tree: the neighbour one step nearer to a vertex, the vertices that lie between
two others, and the part of the tree beyond an edge. -/
namespace VSwitch.Lib
universe u
variable {V : Type u} {G : SimpleGraph V} {h s v w w' x : V}

/-- `w` is a neighbour of `v` and one step nearer to `h`. -/
def Nearer (G : SimpleGraph V) (h v w : V) : Prop := G.Adj v w ∧ G.dist h w + 1 = G.dist h v

/-- `v` lies on a shortest way from `s` to `x`. -/
def Between (G : SimpleGraph V) (s v x : V) : Prop := G.dist s v + G.dist v x = G.dist s x

noncomputable instance : Decidable (Between G s v x) := inferInstanceAs (Decidable (_ = _))

noncomputable instance : Decidable (Nearer G h v w) := Classical.propDecidable _

namespace Nearer

theorem adj (hn : Nearer G h v w) : G.Adj v w := hn.1

theorem ne (hn : Nearer G h v w) : v ≠ h := by
  rintro rfl
  have := hn.2
  rw [SimpleGraph.dist_self] at this
  omega

theorem asymm (hn : Nearer G h v w) : ¬ Nearer G h w v := fun hw => by
  have := hn.2
  have := hw.2
  omega

/-- Crossing an edge of a tree leads nearer or back. -/
theorem of_adj (hG : G.IsTree) (h : V) (hadj : G.Adj v w) : Nearer G h v w ∨ Nearer G h w v := by
  rcases hG.dist_eq_dist_add_one_of_adj h hadj with hd | hd
  · exact .inl ⟨hadj, hd.symm⟩
  · exact .inr ⟨hadj.symm, hd.symm⟩

/-- The nearer neighbour is the second vertex of every path. -/
theorem eq_snd (hG : G.IsTree) (hn : Nearer G h v w) {p : G.Walk v h} (hp : p.IsPath) :
    w = p.snd := by
  obtain ⟨q, -, hlen⟩ := hG.connected.exists_path_of_dist w h
  have hq : (SimpleGraph.Walk.cons hn.adj q).IsPath := by
    apply SimpleGraph.Walk.isPath_of_length_eq_dist
    rw [SimpleGraph.Walk.length_cons, hlen, G.dist_comm (u := w), G.dist_comm (u := v)]
    exact hn.2
  rw [(hG.existsUnique_path v h).unique hp hq, SimpleGraph.Walk.snd_cons]

theorem unique (hG : G.IsTree) (hn : Nearer G h v w) (hn' : Nearer G h v w') : w = w' := by
  obtain ⟨p, hp, -⟩ := hG.existsUnique_path v h
  exact (hn.eq_snd hG hp).trans (hn'.eq_snd hG hp).symm

theorem exists_of_ne (hG : G.IsTree) (hne : v ≠ h) : ∃ w, Nearer G h v w := by
  obtain ⟨p, -, hlen⟩ := hG.connected.exists_path_of_dist v h
  cases p with
  | nil => exact absurd rfl hne
  | @cons _ w _ hadj q =>
    rcases of_adj hG h hadj with hn | hn
    · exact ⟨w, hn⟩
    · have hfar := hn.2
      have hshort := SimpleGraph.dist_le q
      rw [SimpleGraph.Walk.length_cons, G.dist_comm (u := v)] at hlen
      rw [G.dist_comm (u := w)] at hshort
      omega

/-- Every path begins with the nearer neighbour. -/
theorem snd (hG : G.IsTree) {p : G.Walk v h} (hp : p.IsPath) (hne : v ≠ h) :
    Nearer G h v p.snd := by
  obtain ⟨w, hn⟩ := exists_of_ne hG hne
  rwa [← hn.eq_snd hG hp]

end Nearer

namespace Between

theorem start (G : SimpleGraph V) (s x : V) : Between G s s x := by
  rw [Between, SimpleGraph.dist_self, Nat.zero_add]

theorem finish (G : SimpleGraph V) (s x : V) : Between G s x x := by
  rw [Between, SimpleGraph.dist_self, Nat.add_zero]

/-- One step farther from `s` stays on the way to `x` exactly by stepping nearer to `x`. -/
theorem iff_of_nearer (hG : G.IsTree) (hn : Nearer G s w v) :
    Between G s w x ↔ Between G s v x ∧ Nearer G x v w := by
  have hstep := hn.2
  have htriangle := hG.connected.dist_triangle (u := s) (v := v) (w := x)
  unfold Between
  constructor
  · intro hb
    rcases Nearer.of_adj hG x hn.adj.symm with hx | hx
    · refine ⟨?_, hx⟩
      have := hx.2
      rw [G.dist_comm (u := x), G.dist_comm (u := x)] at this
      omega
    · have := hx.2
      rw [G.dist_comm (u := x), G.dist_comm (u := x)] at this
      omega
  · rintro ⟨hb, hx⟩
    have := hx.2
    rw [G.dist_comm (u := x), G.dist_comm (u := x)] at this
    omega

/-- A step nearer to `x` leads farther from `s`. -/
theorem nearer_start (hG : G.IsTree) (hb : Between G s v x) (hx : Nearer G x v w) :
    Nearer G s w v := by
  have hstep := hx.2
  have htriangle := hG.connected.dist_triangle (u := s) (v := w) (w := x)
  rw [G.dist_comm (u := x), G.dist_comm (u := x)] at hstep
  rcases Nearer.of_adj hG s hx.adj with hn | hn
  · have := hn.2
    unfold Between at hb
    omega
  · exact hn

end Between

section Beyond
variable [Fintype V]

/-- The vertices beyond the edge from `v` to `w`: those that `w` is nearer to. -/
noncomputable def farSide (G : SimpleGraph V) (v w : V) : Finset V := {u | Nearer G u v w}

theorem mem_farSide {u : V} : u ∈ farSide G v w ↔ Nearer G u v w := by
  rw [farSide, Finset.mem_filter, and_iff_right (Finset.mem_univ _)]

theorem self_mem_farSide (hadj : G.Adj v w) : w ∈ farSide G v w := by
  rw [mem_farSide, Nearer, SimpleGraph.dist_self, SimpleGraph.dist_eq_one_iff_adj.mpr hadj.symm]
  exact ⟨hadj, rfl⟩

/-- An edge has two sides. -/
theorem card_farSide_add (hadj : G.Adj v w) :
    (farSide G v w).card + (farSide G w v).card ≤ Fintype.card V ∧ 1 ≤ (farSide G v w).card := by
  have hdisjoint : Disjoint (farSide G v w) (farSide G w v) :=
    Finset.disjoint_left.mpr fun u hu hu' => (mem_farSide.mp hu).asymm (mem_farSide.mp hu')
  classical
  rw [← Finset.card_union_of_disjoint hdisjoint]
  exact ⟨Finset.card_le_univ _, Finset.card_pos.mpr ⟨w, self_mem_farSide hadj⟩⟩

/-- What lies beyond distinct edges out of `w` adds up to no more than a set that contains it
all, and `w` besides. -/
theorem sum_card_farSide_lt (hG : G.IsTree) {l : List V} (hl : l.Nodup) {S : Finset V} (hw : w ∈ S)
    (hsub : ∀ x ∈ l, farSide G w x ⊆ S) : (l.map fun x => (farSide G w x).card).sum + 1 ≤ S.card := by
  classical
  have hpairwise : (l.toFinset : Set V).PairwiseDisjoint (farSide G w) := by
    intro x _ y _ hne
    refine Finset.disjoint_left.mpr fun u hx hy => hne ?_
    exact (mem_farSide.mp hx).unique hG (mem_farSide.mp hy)
  have hinside : l.toFinset.biUnion (farSide G w) ⊆ S.erase w := by
    intro u hu
    obtain ⟨x, hx, hu⟩ := Finset.mem_biUnion.mp hu
    exact Finset.mem_erase.mpr ⟨(mem_farSide.mp hu).ne.symm, hsub x (List.mem_toFinset.mp hx) hu⟩
  have hcard := Finset.card_le_card hinside
  rw [Finset.card_biUnion hpairwise, List.sum_toFinset _ hl, Finset.card_erase_of_mem hw] at hcard
  have hpos := Finset.card_pos.mpr ⟨w, hw⟩
  omega

/-- Going on from an edge leaves its far side by no other way. -/
theorem farSide_subset (hG : G.IsTree) (hadj : G.Adj v w) (hne : x ≠ v) :
    farSide G w x ⊆ farSide G v w := by
  intro u hu
  rcases Nearer.of_adj hG u hadj with hn | hn
  · exact mem_farSide.mpr hn
  · exact absurd ((mem_farSide.mp hu).unique hG hn) hne

end Beyond
end VSwitch.Lib
