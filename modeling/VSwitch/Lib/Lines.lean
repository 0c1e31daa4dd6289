import VSwitch.Lib.Fields

/-! A stream that arrives in pieces, read by complete records: the records do not depend on where
the pieces are cut. -/
namespace VSwitch.Lib
universe u
variable {α : Type u} [DecidableEq α] {c : α} {s rest record : List α} {n : Nat}

/-- While there is a complete record in the buffer, it is taken out; `c` ends a record. The
number bounds the loop. -/
def takeRecords (c : α) : Nat → List α → List (List α) × List α
  | 0, s => ([], s)
  | n + 1, s =>
    if c ∈ s then
      let later := takeRecords c n (beyond c s)
      (upTo c s :: later.1, later.2)
    else ([], s)

/-- The complete records in a buffer, without their ends, and what is left. -/
def records (c : α) (s : List α) : List (List α) × List α := takeRecords c s.length s

theorem length_beyond (h : c ∈ s) : (beyond c s).length < s.length := by
  have hlength := congrArg List.length (upTo_append_beyond h)
  rw [List.length_append, List.length_cons] at hlength
  omega

/-- The loop ends before its bound. -/
theorem takeRecords_enough {m : Nat} (hn : s.length ≤ n) (hm : s.length ≤ m) :
    takeRecords c n s = takeRecords c m s := by
  induction n generalizing s m with
  | zero =>
    obtain rfl := List.length_eq_zero_iff.mp (Nat.le_zero.mp hn)
    cases m <;> rfl
  | succ n ih =>
    cases m with
    | zero =>
      obtain rfl := List.length_eq_zero_iff.mp (Nat.le_zero.mp hm)
      rfl
    | succ m =>
      unfold takeRecords
      split_ifs with hc
      · have hshort := length_beyond hc
        rw [ih (m := m) (by omega) (by omega)]
      · rfl

theorem records_of_mem (h : c ∈ s) :
    records c s = (upTo c s :: (records c (beyond c s)).1, (records c (beyond c s)).2) := by
  have hpos : 0 < s.length := List.length_pos_of_mem h
  have hshort := length_beyond h
  obtain ⟨m, hm⟩ := Nat.exists_eq_succ_of_ne_zero hpos.ne'
  rw [records, hm, takeRecords, if_pos h, takeRecords_enough (by omega) (le_refl _)]
  rfl

theorem records_of_not_mem (h : c ∉ s) : records c s = ([], s) := by
  cases s with
  | nil => rfl
  | cons x s => rw [records, List.length_cons, takeRecords, if_neg h]

/-- A record that begins the buffer is the first to be taken out. -/
theorem records_cut (h : c ∉ record) (rest : List α) :
    records c (record ++ c :: rest) = (record :: (records c rest).1, (records c rest).2) := by
  rw [records_of_mem (by simp), upTo_cut h, beyond_cut h]

/-- What stands before and behind the first `c` when more follows. -/
theorem cut_append (h : c ∈ s) (more : List α) :
    upTo c (s ++ more) = upTo c s ∧ beyond c (s ++ more) = beyond c s ++ more := by
  have hsplit : s ++ more = upTo c s ++ c :: (beyond c s ++ more) := by
    rw [← List.cons_append, ← List.append_assoc, upTo_append_beyond h]
  rw [hsplit]
  exact ⟨upTo_cut (not_mem_upTo c s) _, beyond_cut (not_mem_upTo c s) _⟩

/-- To read more of a stream is to go on with what was left. -/
theorem records_append (s more : List α) :
    records c (s ++ more) = ((records c s).1 ++ (records c ((records c s).2 ++ more)).1,
      (records c ((records c s).2 ++ more)).2) := by
  induction hn : s.length using Nat.strongRecOn generalizing s with
  | _ n ih =>
    by_cases hc : c ∈ s
    · have hshort := length_beyond hc
      rw [records_of_mem (List.mem_append_left _ hc), (cut_append hc more).1,
        (cut_append hc more).2,
        ih _ (hn ▸ hshort) (beyond c s) rfl, records_of_mem hc, List.cons_append]
    · rw [records_of_not_mem hc]
      rfl

/-- A stream that ends with a record leaves nothing. -/
theorem records_left (h : s = [] ∨ s.getLast? = some c) : (records c s).2 = [] := by
  induction hn : s.length using Nat.strongRecOn generalizing s with
  | _ n ih =>
    rcases h with rfl | hlast
    · rfl
    · have hc : c ∈ s := List.mem_of_getLast? hlast
      rw [records_of_mem hc]
      apply ih _ (hn ▸ length_beyond hc) _ rfl
      rw [← upTo_append_beyond hc] at hlast
      cases hbeyond : beyond c s with
      | nil => exact .inl rfl
      | cons x rest =>
        rw [hbeyond, List.getLast?_append, List.getLast?_cons_cons] at hlast
        simpa using hlast

end VSwitch.Lib
