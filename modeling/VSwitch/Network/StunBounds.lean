import VSwitch.Network.StunMessage

/-! The declared length of a response against the attributes in it. The loop checks the
header of an attribute against the declared end, and its value against the received one. -/
namespace VSwitch
open Lib StunClient

namespace StunClient
variable {response : Bytes} {offset o o' : Nat} {txid : TransactionId}

/-- The value runs past the declared end of the message. -/
def Straddles (response : Bytes) (offset : Nat) : Prop :=
  stunHeaderSize + msgLength response < valueEnd response offset

/-- The whole attribute lies inside the declared message and the bytes received. -/
def InsideMessage (response : Bytes) (offset : Nat) : Prop :=
  stunHeaderSize ≤ offset ∧ valueEnd response offset ≤ stunHeaderSize + msgLength response ∧
    valueEnd response offset ≤ response.length

/-- The attributes of a message by their lengths alone, whatever they are. -/
def Chained (response : Bytes) : Nat → Prop := Along response fun _ => True

/-- A complete mapped address of IPv4 in a response to this request, which the loop reaches. -/
def Decides (txid : TransactionId) (response : Bytes) (offset : Nat) : Prop :=
  IsResponseTo response txid ∧ Reached response offset ∧ HasIpv4 response offset

private theorem accepts_iff :
    (∃ a, parseResponse txid response = .ok (offset, a)) ↔ Decides txid response offset := by
  simp only [parseResponse_eq_ok, Decides]
  constructor
  · rintro ⟨a, hown, hreached, hipv4, -⟩
    exact ⟨hown, hreached, hipv4⟩
  · rintro ⟨hown, hreached, hipv4⟩
    exact ⟨_, hown, hreached, hipv4, rfl⟩

theorem Decides.inside (h : Decides txid response offset) :
    InsideMessage response offset ↔ ¬ Straddles response offset := by
  obtain ⟨-, hreached, -, hreceived, -⟩ := h
  constructor
  · rintro ⟨-, hdeclared, -⟩
    exact Nat.not_lt.mpr hdeclared
  · intro hdeclared
    exact ⟨(Along.inside hreached).1, Nat.not_lt.mp hdeclared, hreceived⟩

/-- The loop never goes on behind an attribute that straddles the end. -/
theorem Straddles.last (h : Straddles response o)
    (hpass : Passes (attributeMove response (attrsEnd response)) o o')
    (hend : o' + 4 ≤ attrsEnd response) : o' = o := by
  rcases Relation.ReflTransGen.cases_head hpass with rfl | ⟨m, hm, hrest⟩
  · rfl
  · obtain ⟨-, -, rfl⟩ := (attributeMove_next_iff (attrsEnd_le response)).mp hm
    have hbehind : attrsEnd response < behind response o := by
      have hdeclared : attrsEnd response ≤ stunHeaderSize + msgLength response :=
        Nat.min_le_left _ _
      have hpadded := le_padded (attrLength response o)
      unfold Straddles valueEnd at h
      unfold behind
      omega
    have hrise : behind response o ≤ o' := by
      apply Passes.invariant (I := fun m => behind response o ≤ m) hrest (le_refl _)
      intro m m' hle hm'
      obtain ⟨-, -, rfl⟩ := (attributeMove_next_iff (attrsEnd_le response)).mp hm'
      have hforward : m ≤ behind response m := by
        unfold behind
        omega
      omega
    omega

private theorem Chained.le_straddles (h : Chained response o) (hstraddles : Straddles response o)
    (h' : Chained response o') : o' ≤ o := by
  let Follows (m m' : Nat) : Prop := m' = behind response m ∧ m' + 4 ≤ attrsEnd response
  have hwalk {m : Nat} (hm : Chained response m) :
      Relation.ReflTransGen Follows stunHeaderSize m := by
    induction hm with
    | first _ => exact .refl
    | next _ _ hend ih => exact ih.tail ⟨rfl, hend⟩
  have hunique : Relator.RightUnique Follows := fun _ _ _ hm hm' => hm.1.trans hm'.1.symm
  rcases Relation.ReflTransGen.total_of_right_unique hunique (hwalk h) (hwalk h') with hpass | hpass
  · rcases Relation.ReflTransGen.cases_head hpass with rfl | ⟨m, ⟨rfl, hend⟩, -⟩
    · exact le_refl _
    · have hdeclared : attrsEnd response ≤ stunHeaderSize + msgLength response :=
        Nat.min_le_left _ _
      have hpadded := le_padded (attrLength response o)
      unfold Straddles valueEnd at hstraddles
      unfold behind at hend
      omega
  · clear h h' hstraddles
    induction hpass with
    | refl => exact le_refl _
    | tail _ hm ih =>
      obtain ⟨rfl, -⟩ := hm
      unfold behind
      omega

private theorem Decides.straddles (h : Decides txid response o') (hreached : Reached response o)
    (hstraddles : Straddles response o) : o' = o := by
  obtain ⟨-, hreached', hipv4⟩ := h
  obtain ⟨hpass, hend⟩ := reached_iff.mp hreached
  obtain ⟨hpass', hend'⟩ := reached_iff.mp hreached'
  have hstop := (attributeMove_found_iff (attrsEnd_le response)).mpr ⟨hend', hipv4, rfl, rfl⟩
  exact hstraddles.last (hpass.before_stop hpass' hstop) hend'

end StunClient

/-- The address comes from inside the declared message exactly when the deciding attribute
does not straddle its end, and then every straddling attribute that the loop reaches makes
the response rejected. One that stands behind the deciding attribute does not: it is the last
of the message, and the loop does not come to it. -/
theorem address_inside_message_iff (txid : TransactionId) (response : Bytes) :
    ((∀ offset a, parseResponse txid response = .ok (offset, a) → InsideMessage response offset) ↔
      ∀ offset, Decides txid response offset → ¬ Straddles response offset) ∧
    ((∀ offset, Reached response offset → Straddles response offset →
        ∀ found, parseResponse txid response ≠ .ok found) ↔
      ∀ offset, Decides txid response offset → ¬ Straddles response offset) ∧
    ((∀ offset, Chained response offset → Straddles response offset →
        ∀ found, parseResponse txid response ≠ .ok found) ↔
      ∀ offset, Chained response offset → Straddles response offset →
        ∀ decisive, ¬ Decides txid response decisive) ∧
    ∀ offset, Chained response offset → Straddles response offset →
      ∀ other, Chained response other → other ≤ offset := by
  refine ⟨?_, ?_, ?_, fun offset hchained hstraddles other hother =>
    hchained.le_straddles hstraddles hother⟩
  · constructor
    · intro h offset hdecides
      obtain ⟨a, ha⟩ := accepts_iff.mpr hdecides
      exact hdecides.inside.mp (h offset a ha)
    · intro h offset a ha
      have hdecides := accepts_iff.mp ⟨a, ha⟩
      exact hdecides.inside.mpr (h offset hdecides)
  · constructor
    · intro h offset hdecides hstraddles
      obtain ⟨a, ha⟩ := accepts_iff.mpr hdecides
      exact h offset hdecides.2.1 hstraddles (offset, a) ha
    · rintro h offset hreached hstraddles ⟨decisive, a⟩ ha
      have hdecides := accepts_iff.mp ⟨a, ha⟩
      obtain rfl := hdecides.straddles hreached hstraddles
      exact h decisive hdecides hstraddles
  · constructor
    · intro h offset hchained hstraddles decisive hdecides
      obtain ⟨a, ha⟩ := accepts_iff.mpr hdecides
      exact h offset hchained hstraddles (decisive, a) ha
    · rintro h offset hchained hstraddles ⟨decisive, a⟩ ha
      exact h offset hchained hstraddles decisive (accepts_iff.mp ⟨a, ha⟩)

/-- A message that declares four bytes of attributes, the header of a mapped address whose
value stands behind the declared end. -/
theorem address_outside_message :
    let response := responseHeader (fun _ => 7) 4 ++ (plainAddress ![10, 0, 0, 1] 4000).bytes
    response.length = 32 ∧ msgLength response = 4 ∧
      parseResponse (fun _ => 7) response = .ok (20, ⟨"10.0.0.1", 4000⟩) ∧
      valueEnd response 20 = 32 ∧
      ¬ ∀ offset a, parseResponse (fun _ => 7) response = .ok (offset, a) →
        InsideMessage response offset := by
  intro response
  have hparse : parseResponse (fun _ => 7) response = .ok (20, ⟨"10.0.0.1", 4000⟩) := by
    decide +kernel
  have hend : valueEnd response 20 = 32 := by decide
  have hdeclared : msgLength response = 4 := by decide
  refine ⟨by decide, hdeclared, hparse, hend, ?_⟩
  intro h
  obtain ⟨-, hinside, -⟩ := h 20 _ hparse
  rw [hend, hdeclared] at hinside
  exact absurd hinside (by decide)

end VSwitch
