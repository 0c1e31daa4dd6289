import VSwitch.Lib.Runs

/-! Forward simulations between labelled transition relations. A transition below may take
several above, or none. -/
namespace VSwitch.Lib
universe u v u' v'
variable {S : Type u} {E : Type v} {T : Type u'} {F : Type v'}

/-- From corresponding states, a transition of `R` is followed by a run of `R'` to
corresponding states. Each event of that run is one that `allowed` grants the transition. -/
def Simulates (R : S → E → S → Prop) (R' : T → F → T → Prop) (Abs : S → T → Prop)
    (allowed : E → F → Prop) : Prop :=
  ∀ s e s' t, R s e s' → Abs s t →
    ∃ events t', Run R' t events t' ∧ Abs s' t' ∧ ∀ f ∈ events, allowed e f

namespace Simulates
variable {R : S → E → S → Prop} {R' : T → F → T → Prop} {Abs : S → T → Prop}
variable {allowed : E → F → Prop} {s s' : S} {t : T} {events : List E}

/-- Every run below is followed by one above. -/
theorem run (hsim : Simulates R R' Abs allowed) (hrun : Run R s events s') (h : Abs s t) :
    ∃ events' t', Run R' t events' t' ∧ Abs s' t' ∧
      ∀ f ∈ events', ∃ e ∈ events, allowed e f := by
  induction events generalizing s t with
  | nil =>
    obtain rfl := Run.nil_iff.mp hrun
    exact ⟨[], t, rfl, h, fun _ hf => absurd hf List.not_mem_nil⟩
  | cons e events ih =>
    obtain ⟨m, hm, hrest⟩ := hrun
    obtain ⟨first, n, hfirst, hn, hallowed⟩ := hsim _ _ _ _ hm h
    obtain ⟨later, t', hlater, ht', hmore⟩ := ih hrest hn
    refine ⟨first ++ later, t', hfirst.append hlater, ht', fun f hf => ?_⟩
    rcases List.mem_append.mp hf with hf | hf
    · exact ⟨e, List.mem_cons_self, hallowed f hf⟩
    · obtain ⟨e', he', hgranted⟩ := hmore f hf
      exact ⟨e', List.mem_cons_of_mem _ he', hgranted⟩

end Simulates
end VSwitch.Lib
