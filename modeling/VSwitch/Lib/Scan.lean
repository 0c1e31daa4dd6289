import Mathlib.Logic.Relation

/-! Loops that walk from one position to the next until they stop, with fuel. Where the
walk goes down along a measure, enough fuel makes the loop a statement about the walk. -/
namespace VSwitch.Lib
open Relation
universe u v
variable {S : Type u} {R : Type v}

/-- What the body of a loop does at a position. -/
inductive Move (S : Type u) (R : Type v) where
  | stop (r : R)
  | next (s : S)

def scan (body : S → Move S R) : Nat → S → Option R
  | 0, _ => none
  | fuel + 1, s => match body s with
    | .stop r => some r
    | .next t => scan body fuel t

/-- The walk gets from `s` to `t`. -/
def Passes (body : S → Move S R) : S → S → Prop := ReflTransGen fun s t => body s = .next t

namespace Passes
variable {body : S → Move S R} {s t t' : S} {r : R}

theorem refl (s : S) : Passes body s s := ReflTransGen.refl

theorem next_iff (h : body s = .next t) (hs : body t' = .stop r) :
    Passes body s t' ↔ Passes body t t' := by
  constructor
  · intro hpass
    rcases ReflTransGen.cases_head hpass with rfl | ⟨m, hm, hrest⟩
    · cases h.symm.trans hs
    · cases h.symm.trans hm
      exact hrest
  · exact ReflTransGen.head h

/-- The walk does not leave a position where the loop stops. -/
theorem of_stop (h : Passes body s t) (hs : body s = .stop r) : t = s := by
  rcases ReflTransGen.cases_head h with rfl | ⟨m, hm, -⟩
  · rfl
  · cases hs.symm.trans hm

/-- Of two positions on the walk, one comes first. -/
theorem linear (h : Passes body s t) (h' : Passes body s t') :
    Passes body t t' ∨ Passes body t' t :=
  ReflTransGen.total_of_right_unique (fun _ _ _ hm hm' => Move.next.inj (hm.symm.trans hm')) h h'

/-- The loop stops at one position only, behind everything else on the walk. -/
theorem before_stop (h : Passes body s t) (h' : Passes body s t') (hs : body t' = .stop r) :
    Passes body t t' := by
  rcases h.linear h' with hpass | hpass
  · exact hpass
  · rw [hpass.of_stop hs]
    exact refl t'

/-- What the first position has and every step keeps holds along the walk. -/
theorem invariant {I : S → Prop} (h : Passes body s t) (hs : I s)
    (hstep : ∀ {m m'}, I m → body m = .next m' → I m') : I t := by
  induction h with
  | refl => exact hs
  | tail _ hm ih => exact hstep ih hm

end Passes

section Measure
variable {body : S → Move S R} {μ : S → Nat} {fuel : Nat} {s : S} {r : R}
variable (hμ : ∀ s t, body s = .next t → μ t < μ s)
include hμ

theorem scan_total (h : μ s < fuel) : ∃ r, scan body fuel s = some r := by
  induction fuel generalizing s with
  | zero => omega
  | succ fuel ih =>
    unfold scan
    cases hm : body s with
    | stop r => exact ⟨r, rfl⟩
    | next t =>
      have hlt := hμ s t hm
      exact ih (by omega)

/-- With enough fuel the result is what the walk stops at. -/
theorem scan_eq_some_iff (h : μ s < fuel) :
    scan body fuel s = some r ↔ ∃ t, Passes body s t ∧ body t = .stop r := by
  induction fuel generalizing s with
  | zero => omega
  | succ fuel ih =>
    unfold scan
    cases hm : body s with
    | stop r' =>
      constructor
      · intro hr
        cases hr
        exact ⟨s, Passes.refl s, hm⟩
      · rintro ⟨t, hpass, ht⟩
        obtain rfl := hpass.of_stop hm
        cases hm.symm.trans ht
        rfl
    | next t =>
      have hlt := hμ s t hm
      simp only [ih (s := t) (by omega)]
      constructor
      · rintro ⟨t', hpass, hstop⟩
        exact ⟨t', (Passes.next_iff hm hstop).mpr hpass, hstop⟩
      · rintro ⟨t', hpass, hstop⟩
        exact ⟨t', (Passes.next_iff hm hstop).mp hpass, hstop⟩

end Measure
end VSwitch.Lib
