import Mathlib.Data.List.Induction

/-! Runs of a labelled transition relation, and folds in which some events do nothing. -/
namespace VSwitch.Lib
universe u v
variable {S : Type u} {E : Type v}

/-- `Run R s events t`: the events lead from `s` to `t`, one transition each. -/
def Run (R : S → E → S → Prop) (s : S) : List E → S → Prop
  | [], t => s = t
  | e :: events, t => ∃ m, R s e m ∧ Run R m events t

namespace Run
variable {R : S → E → S → Prop} {s t t' : S} {e : E} {events later : List E}

theorem nil_iff : Run R s [] t ↔ s = t := Iff.rfl

theorem cons_iff : Run R s (e :: events) t ↔ ∃ m, R s e m ∧ Run R m events t := Iff.rfl

theorem append_iff :
    Run R s (events ++ later) t' ↔ ∃ t, Run R s events t ∧ Run R t later t' := by
  induction events generalizing s with
  | nil => simp [nil_iff]
  | cons e events ih =>
    simp only [List.cons_append, cons_iff, ih]
    constructor
    · rintro ⟨m, hm, t, hevents, hlater⟩
      exact ⟨t, ⟨m, hm, hevents⟩, hlater⟩
    · rintro ⟨t, ⟨m, hm, hevents⟩, hlater⟩
      exact ⟨m, hm, t, hevents, hlater⟩

theorem concat_iff : Run R s (events ++ [e]) t' ↔ ∃ t, Run R s events t ∧ R t e t' := by
  simp [append_iff, cons_iff, nil_iff]

theorem append (h : Run R s events t) (h' : Run R t later t') : Run R s (events ++ later) t' :=
  append_iff.mpr ⟨t, h, h'⟩

theorem concat (h : Run R s events t) (h' : R t e t') : Run R s (events ++ [e]) t' :=
  concat_iff.mpr ⟨t, h, h'⟩

/-- What holds at the start and is kept by every event of the run holds after it. -/
theorem invariant_of {I : S → Prop} {P : E → Prop}
    (hstep : ∀ {s e t}, I s → P e → R s e t → I t) (hs : I s)
    (hevents : ∀ e ∈ events, P e) (h : Run R s events t) : I t := by
  induction events generalizing s with
  | nil => exact nil_iff.mp h ▸ hs
  | cons e events ih =>
    obtain ⟨m, hm, hrest⟩ := h
    exact ih (hstep hs (hevents e List.mem_cons_self) hm)
      (fun e he => hevents e (List.mem_cons_of_mem _ he)) hrest

/-- What holds at the start and is kept by every event holds after every run. -/
theorem invariant {I : S → Prop} (hstep : ∀ {s e t}, I s → R s e t → I t) (hs : I s)
    (h : Run R s events t) : I t :=
  h.invariant_of (P := fun _ => True) (fun hi _ => hstep hi) hs fun _ _ => trivial

/-- What holds at the start, before any event, and is kept by every event, holds of a run and the
state it leads to. -/
theorem history {I : List E → S → Prop} (hs : I [] s)
    (hstep : ∀ {past t e t'}, I past t → R t e t' → I (past ++ [e]) t')
    (h : Run R s events t) : I events t := by
  induction events using List.reverseRecOn generalizing t with
  | nil => exact nil_iff.mp h ▸ hs
  | append_singleton past e ih =>
    obtain ⟨m, hpast, hlast⟩ := concat_iff.mp h
    exact hstep (ih hpast) hlast

/-- A run that was computed, with a check of where it ends. -/
theorem exists_of_check (step : S → E → Option S) (s : S) (events : List E) (check : S → Bool)
    (h : (events.foldlM step s).any check = true) :
    ∃ t, Run (fun s e t => step s e = some t) s events t ∧ check t = true := by
  induction events generalizing s with
  | nil => exact ⟨s, rfl, by simpa using h⟩
  | cons e events ih =>
    rw [List.foldlM_cons] at h
    rcases hm : step s e with _ | m
    · rw [hm] at h
      cases h
    · rw [hm] at h
      obtain ⟨t, ht, hcheck⟩ := ih m h
      exact ⟨t, ⟨m, hm, ht⟩, hcheck⟩

/-- If every transition out of a state the run reaches can be taken, the run exists. -/
theorem exists_of_enabled
    (h : ∀ past e rest t, events = past ++ e :: rest → Run R s past t → ∃ t', R t e t') :
    ∃ t, Run R s events t := by
  induction events using List.reverseRecOn with
  | nil => exact ⟨s, rfl⟩
  | append_singleton past e ih =>
    obtain ⟨t, ht⟩ := ih fun past' e' rest t hsplit =>
      h past' e' (rest ++ [e]) t (by simp [hsplit])
    obtain ⟨t', ht'⟩ := h past e [] t rfl ht
    exact ⟨t', ht.concat ht'⟩

end Run

/-- Events that change nothing wherever the invariant holds may be struck from a run. -/
theorem foldl_purge {step : S → E → S} {Inv : S → Prop} {keep : E → Bool}
    (hinv : ∀ s e, Inv s → Inv (step s e))
    (hinert : ∀ s e, Inv s → keep e = false → step s e = s) {s : S} (hs : Inv s) (events : List E) :
    events.foldl step s = (events.filter keep).foldl step s := by
  induction events generalizing s with
  | nil => rfl
  | cons e events ih =>
    cases hk : keep e with
    | true =>
      rw [List.filter_cons_of_pos hk, List.foldl_cons, List.foldl_cons]
      exact ih (hinv s e hs)
    | false =>
      rw [List.filter_cons_of_neg (by simp [hk]), List.foldl_cons, hinert s e hs hk]
      exact ih hs

end VSwitch.Lib
