import Mathlib.Data.List.TakeWhile

/-! Lists cut at a separator, by positions and by fields. -/
namespace VSwitch.Lib
universe u
variable {α : Type u} [DecidableEq α] {c : α} {s a b : List α} {pos : Nat}

/-- The first position of `c` in `s` from `pos` on. -/
def findFrom (s : List α) (c : α) (pos : Nat) : Option Nat := ((s.drop pos).idxOf? c).map (pos + ·)

/-- What stands before the first `c`. -/
def upTo (c : α) (s : List α) : List α := s.takeWhile (· ≠ c)

/-- What stands behind the first `c`. -/
def beyond (c : α) (s : List α) : List α := (s.dropWhile (· ≠ c)).tail

theorem upTo_append_beyond (h : c ∈ s) : upTo c s ++ c :: beyond c s = s := by
  induction s with
  | nil => cases h
  | cons x s ih =>
    by_cases hx : x = c
    · subst hx
      simp [upTo, beyond]
    · have hs : c ∈ s := (List.mem_cons.mp h).resolve_left fun heq => hx heq.symm
      simpa [upTo, beyond, hx] using ih hs

theorem take_upTo (h : c ∈ s) : s.take (upTo c s).length = upTo c s := by
  have htake : (upTo c s ++ c :: beyond c s).take (upTo c s).length = upTo c s := List.take_left
  rwa [upTo_append_beyond h] at htake

theorem drop_upTo (h : c ∈ s) : s.drop ((upTo c s).length + 1) = beyond c s := by
  have hdrop : (upTo c s ++ c :: beyond c s).drop ((upTo c s).length + 1) = beyond c s := by
    rw [List.drop_append, Nat.add_sub_cancel_left, List.drop_of_length_le (Nat.le_succ _)]
    rfl
  rwa [upTo_append_beyond h] at hdrop

theorem idxOf?_eq (c : α) (s : List α) :
    s.idxOf? c = if c ∈ s then some (upTo c s).length else none := by
  induction s with
  | nil => rfl
  | cons x s ih =>
    rw [List.idxOf?_cons, ih]
    by_cases hx : x = c
    · subst hx
      simp [upTo]
    · have hne : c ≠ x := fun heq => hx heq.symm
      by_cases hs : c ∈ s <;> simp [upTo, hx, hne, hs]

theorem findFrom_eq (s : List α) (c : α) (pos : Nat) :
    findFrom s c pos = if c ∈ s.drop pos then some (pos + (upTo c (s.drop pos)).length) else none := by
  rw [findFrom, idxOf?_eq]
  split_ifs <;> rfl

/-- A separator cuts off whatever follows it. -/
theorem upTo_append_cons (c : α) (a b : List α) : upTo c (a ++ c :: b) = upTo c a := by
  induction a with
  | nil => simp [upTo]
  | cons x a ih =>
    by_cases hx : x = c
    · simp [upTo, hx]
    · simpa [upTo, hx] using ih

theorem not_mem_upTo (c : α) (s : List α) : c ∉ upTo c s := by
  intro h
  have hne : decide (c ≠ c) = true := List.mem_takeWhile_imp (p := fun x => decide (x ≠ c)) h
  exact absurd rfl (of_decide_eq_true hne)

/-- Behind a field without separators stands the rest. -/
theorem upTo_cut (h : c ∉ a) (b : List α) : upTo c (a ++ c :: b) = a := by
  rw [upTo_append_cons]
  apply List.takeWhile_eq_self_iff.mpr
  intro x hx
  exact decide_eq_true fun heq => h (heq ▸ hx)

theorem beyond_cut (h : c ∉ a) (b : List α) : beyond c (a ++ c :: b) = b := by
  have hmem : c ∈ a ++ c :: b := by simp
  have hsplit := upTo_append_beyond hmem
  rw [upTo_cut h] at hsplit
  exact List.cons_inj_right c |>.mp (List.append_cancel_left hsplit)

/-- The last position of `c` in `s`. -/
def findLast (s : List α) (c : α) : Option Nat := (s.reverse.idxOf? c).map (s.length - 1 - ·)

theorem findLast_none (h : c ∉ s) : findLast s c = none := by
  rw [findLast, idxOf?_eq, if_neg (by rwa [List.mem_reverse])]
  rfl

theorem findLast_cut (h : c ∉ b) : findLast (a ++ c :: b) c = some a.length := by
  have hreverse : (a ++ c :: b).reverse = b.reverse ++ c :: a.reverse := by simp
  have hrest : c ∉ b.reverse := by rwa [List.mem_reverse]
  rw [findLast, hreverse, idxOf?_eq, if_pos (by simp), upTo_cut hrest, Option.map_some,
    List.length_reverse, List.length_append, List.length_cons]
  congr 1
  omega

omit [DecidableEq α] in
/-- A separator has a last occurrence. -/
theorem exists_last (h : c ∈ s) : ∃ a b, s = a ++ c :: b ∧ c ∉ b := by
  obtain ⟨b, a, hsplit, hrest⟩ := List.eq_append_cons_of_mem (List.mem_reverse.mpr h)
  refine ⟨a.reverse, b.reverse, ?_, by rwa [List.mem_reverse]⟩
  rw [← List.reverse_reverse s, hsplit]
  simp

omit [DecidableEq α] in
/-- What stands in a joined list stands in the separator or in a field. -/
theorem mem_of_mem_intercalate {sep : List α} {fields : List (List α)}
    (h : c ∈ sep.intercalate fields) : c ∈ sep ∨ ∃ field ∈ fields, c ∈ field := by
  induction fields with
  | nil => cases h
  | cons field fields ih =>
    by_cases hlast : fields = []
    · rw [hlast, List.intercalate_singleton] at h
      exact .inr ⟨field, List.mem_cons_self, h⟩
    · rw [List.intercalate_cons_of_ne_nil hlast, List.mem_append, List.mem_append] at h
      rcases h with (hfield | hsep) | hlater
      · exact .inr ⟨field, List.mem_cons_self, hfield⟩
      · exact .inl hsep
      · exact (ih hlater).imp_right fun ⟨f, hf, hc⟩ => ⟨f, List.mem_cons_of_mem _ hf, hc⟩

end VSwitch.Lib
