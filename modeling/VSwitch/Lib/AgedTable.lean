import Mathlib.Data.List.Basic
import Mathlib.Logic.Function.Basic
import Mathlib.Order.Basic

/-! Maps whose entries carry a time stamp and are pruned only now and then.
Such a table still shows the last write under every key, cut off at the time of
the last pruning; the cut-off alone decides which writes are visible. -/
namespace VSwitch.Lib

/-- A finite map seen through its lookup function. -/
abbrev Table (K E : Type) := K → Option E

section LastOf
variable {α β : Type}

/-- The most recent value that `f` reads off a chronological log. -/
def lastOf (f : α → Option β) (log : List α) : Option β := log.reverse.findSome? f

@[simp] theorem lastOf_concat (f : α → Option β) (log : List α) (a : α) :
    lastOf f (log ++ [a]) = (f a).or (lastOf f log) := by
  simp only [lastOf, List.reverse_append, List.reverse_singleton, List.singleton_append,
    List.findSome?_cons]
  cases f a <;> rfl

theorem lastOf_append (f : α → Option β) (log later : List α) :
    lastOf f (log ++ later) = (lastOf f later).or (lastOf f log) := by
  rw [lastOf, List.reverse_append, List.findSome?_append]
  rfl

theorem lastOf_mem {f : α → Option β} {log : List α} {b : β} (h : lastOf f log = some b) :
    ∃ a ∈ log, f a = some b := by
  obtain ⟨a, ha, hf⟩ := List.exists_of_findSome?_eq_some h
  exact ⟨a, List.mem_reverse.mp ha, hf⟩

end LastOf

namespace Table
variable {K E : Type} [DecidableEq K]

/-- `t[k] = e`. -/
def put (t : Table K E) (k : K) (e : E) : Table K E := fun k' => if k' = k then some e else t k'

/-- Erase every entry that satisfies `p`. -/
def eraseIf (p : E → Bool) (t : Table K E) : Table K E := fun k => (t k).filter fun e => !p e

@[simp] theorem put_same (t : Table K E) (k : K) (e : E) : t.put k e k = some e := if_pos rfl

theorem put_other {k k' : K} (h : k' ≠ k) (t : Table K E) (e : E) : t.put k e k' = t k' := if_neg h

theorem put_eq_some {t : Table K E} {k k' : K} {e e' : E} (h : t.put k e k' = some e') :
    (k' = k ∧ e' = e) ∨ (k' ≠ k ∧ t k' = some e') := by
  by_cases hk : k' = k
  · subst hk
    rw [put_same] at h
    exact .inl ⟨rfl, (Option.some.inj h).symm⟩
  · rw [put_other hk] at h
    exact .inr ⟨hk, h⟩

omit [DecidableEq K] in
theorem eraseIf_eq_some {p : E → Bool} {t : Table K E} {k : K} {e : E} :
    t.eraseIf p k = some e ↔ t k = some e ∧ p e = false := by
  simp [eraseIf, Option.filter_eq_some_iff]

/-- Keys read through an injective renaming: a write stays a write. -/
theorem put_comp {L : Type} [DecidableEq L] {f : L → K} (hf : Function.Injective f)
    (t : Table K E) (l : L) (e : E) : (t.put (f l) e) ∘ f = Table.put (t ∘ f) l e := by
  funext l'
  simp only [Function.comp_apply, put, hf.eq_iff]

section Reflects
variable {stamp : E → Int} {limit horizon now : Int} {last : Table K E} {t : Table K E}
variable {k : K} {e : E}

/-- The table shows the last write under each key, unless that write had reached
the age `limit` when the table was last pruned, at `horizon`. -/
def Reflects (stamp : E → Int) (limit horizon : Int) (last t : Table K E) : Prop :=
  ∀ k, t k = (last k).filter fun e => decide (horizon - stamp e < limit)

omit [DecidableEq K] in
theorem Reflects.empty : Reflects (K := K) stamp limit horizon (fun _ => none) (fun _ => none) :=
  fun _ => rfl

theorem Reflects.put (h : Reflects stamp limit horizon last t) (hl : 0 < limit)
    (he : horizon ≤ stamp e) : Reflects stamp limit horizon (last.put k e) (t.put k e) := by
  intro k'
  by_cases hk : k' = k
  · subst hk
    have hv : horizon - stamp e < limit := by omega
    rw [put_same, put_same, Option.filter_some, if_pos (decide_eq_true hv)]
  · rw [put_other hk, put_other hk, h k']

omit [DecidableEq K] in
/-- Pruning at a later time moves the horizon and nothing else. -/
theorem Reflects.eraseIf (h : Reflects stamp limit horizon last t) (hn : horizon ≤ now)
    {p : E → Bool} (hp : ∀ e, p e = decide (limit ≤ now - stamp e)) :
    Reflects stamp limit now last (t.eraseIf p) := by
  intro k
  rw [Table.eraseIf, h k, Option.filter_filter]
  congr 1
  funext e
  rw [hp e, Bool.eq_iff_iff]
  simp only [Bool.and_eq_true, Bool.not_eq_true', decide_eq_true_eq, decide_eq_false_iff_not]
  omega

omit [DecidableEq K] in
theorem Reflects.shown (h : Reflects stamp limit horizon last t) :
    t k = some e ↔ last k = some e ∧ horizon - stamp e < limit := by
  rw [h k, Option.filter_eq_some_iff, decide_eq_true_eq]

omit [DecidableEq K] in
theorem Reflects.absent (h : Reflects stamp limit horizon last t) :
    t k = none ↔ ∀ e, last k = some e → limit ≤ horizon - stamp e := by
  simp [h k, Option.filter_eq_none_iff]

end Reflects
end Table
end VSwitch.Lib
