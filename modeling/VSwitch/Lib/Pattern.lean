import Mathlib.Data.List.Basic

/-! Patterns of single elements and of bounded runs, matched against a whole list. -/
namespace VSwitch.Lib
universe u
variable {α : Type u} [DecidableEq α]

/-- One element, or between one and `most` elements of a class. -/
inductive Piece (α : Type u) where
  | one (x : α)
  | run (p : α → Bool) (most : Nat)

/-- The pieces match the list, one behind the other, and nothing is left. -/
def fits : List (Piece α) → List α → Bool
  | [], s => s.isEmpty
  | .one _ :: _, [] => false
  | .one x :: pieces, y :: s => y = x ∧ fits pieces s
  | .run p most :: pieces, s => (List.range most).any fun k =>
    k < s.length ∧ (s.take (k + 1)).all p ∧ fits pieces (s.drop (k + 1))

def Piece.Takes : Piece α → α → Prop
  | .one x, y => y = x
  | .run p _, y => p y = true

variable {pieces : List (Piece α)} {p : α → Bool} {most : Nat} {x y : α} {s : List α}

theorem fits_nil_iff : fits ([] : List (Piece α)) s = true ↔ s = [] := List.isEmpty_iff

theorem fits_one_iff : fits (.one x :: pieces) s = true ↔ ∃ t, s = x :: t ∧ fits pieces t = true := by
  cases s with
  | nil => simp [fits]
  | cons y s => simp [fits, and_assoc]

theorem fits_run_iff :
    fits (.run p most :: pieces) s = true ↔
      ∃ a t, s = a ++ t ∧ a ≠ [] ∧ a.length ≤ most ∧ (∀ y ∈ a, p y = true) ∧
        fits pieces t = true := by
  simp only [fits, List.any_eq_true, List.mem_range, decide_eq_true_eq, List.all_eq_true]
  constructor
  · rintro ⟨k, hk, hlen, hall, hrest⟩
    refine ⟨s.take (k + 1), s.drop (k + 1), (List.take_append_drop _ s).symm, ?_, ?_, hall, hrest⟩
    · rw [← List.length_pos_iff, List.length_take]
      omega
    · rw [List.length_take]
      omega
  · rintro ⟨a, t, rfl, hne, hlen, hall, hrest⟩
    have hpos := List.length_pos_iff.mpr hne
    have hcut : a.length - 1 + 1 = a.length := Nat.sub_add_cancel hpos
    refine ⟨a.length - 1, by omega, ?_, ?_, ?_⟩
    · rw [List.length_append]
      omega
    · rwa [hcut, List.take_left]
    · rwa [hcut, List.drop_left]

/-- A match holds nothing that no piece takes. -/
theorem exists_takes (h : fits pieces s = true) (hy : y ∈ s) : ∃ piece ∈ pieces, piece.Takes y := by
  induction pieces generalizing s with
  | nil =>
    rw [fits_nil_iff.mp h] at hy
    cases hy
  | cons piece pieces ih =>
    have hlater {t : List α} (hfits : fits pieces t = true) (hmem : y ∈ t) :
        ∃ piece' ∈ piece :: pieces, piece'.Takes y :=
      (ih hfits hmem).imp fun piece' h => ⟨List.mem_cons_of_mem _ h.1, h.2⟩
    cases piece with
    | one x =>
      obtain ⟨t, rfl, hfits⟩ := fits_one_iff.mp h
      rcases List.mem_cons.mp hy with rfl | hmem
      · exact ⟨_, List.mem_cons_self, rfl⟩
      · exact hlater hfits hmem
    | run p most =>
      obtain ⟨a, t, rfl, -, -, hall, hfits⟩ := fits_run_iff.mp h
      rcases List.mem_append.mp hy with hmem | hmem
      · exact ⟨_, List.mem_cons_self, hall y hmem⟩
      · exact hlater hfits hmem

end VSwitch.Lib
