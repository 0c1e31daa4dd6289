import Mathlib.Data.List.Basic

/-! Address translation: a router that gives the socket behind it an outer port towards each
endpoint it sends to, and lets in what it takes for an answer. -/
namespace VSwitch.Lib
universe u v x
variable {E : Type u} {H : Type v} {P : Type x}

/-- How much of an endpoint a router looks at. -/
inductive Scope where
  | any
  | host
  | endpoint
  deriving DecidableEq

namespace Scope

/-- The router sees no difference between the two endpoints. -/
def Same (addr : E → H) : Scope → E → E → Prop
  | .any, _, _ => True
  | .host, e, e' => addr e = addr e'
  | .endpoint, e, e' => e = e'

instance [DecidableEq E] [DecidableEq H] (addr : E → H) (scope : Scope) (e e' : E) :
    Decidable (scope.Same addr e e') :=
  match scope with
  | .any => inferInstanceAs (Decidable True)
  | .host => inferInstanceAs (Decidable (addr e = addr e'))
  | .endpoint => inferInstanceAs (Decidable (e = e'))

variable {addr : E → H} {scope : Scope} {e e' e'' : E}

@[simp] theorem Same.refl (scope : Scope) (e : E) : scope.Same addr e e := by
  cases scope
  · exact True.intro
  · exact rfl
  · exact rfl

theorem Same.symm (h : scope.Same addr e e') : scope.Same addr e' e := by
  cases scope
  · exact True.intro
  · exact Eq.symm h
  · exact Eq.symm h

theorem Same.trans (h : scope.Same addr e e') (h' : scope.Same addr e' e'') :
    scope.Same addr e e'' := by
  cases scope
  · exact True.intro
  · exact Eq.trans h h'
  · exact Eq.trans h h'

/-- A scope other than `any` sees the host. -/
theorem Same.addr_eq (h : scope.Same addr e e') (hscope : scope ≠ .any) : addr e = addr e' := by
  cases scope
  · exact absurd rfl hscope
  · exact h
  · exact congrArg addr h

/-- A scope other than `endpoint` sees no more than the host. -/
theorem same_of_addr_eq (h : addr e = addr e') (hscope : scope ≠ .endpoint) :
    scope.Same addr e e' := by
  cases scope
  · exact True.intro
  · exact h
  · exact absurd rfl hscope

end Scope

/-- Something has been sent to `remote` that left the router from `port`. -/
structure Session (E : Type u) (P : Type x) where
  port : P
  remote : E
  deriving DecidableEq

/-- A router as one socket behind it sees it: which endpoints are sent to from the same outer
port, and which may answer to it. -/
structure Router (E : Type u) (P : Type x) where
  mapping : Scope
  filtering : Scope
  sessions : List (Session E P)
  deriving DecidableEq

namespace Router
variable [DecidableEq E] [DecidableEq H] (addr : E → H) (r : Router E P) (dst : E) (fresh : P)

/-- The outer port towards `dst`; `fresh` if there is none yet. -/
def portTo : P :=
  ((r.sessions.find? fun s => r.mapping.Same addr s.remote dst).map Session.port).getD fresh

/-- The socket has sent something to `dst`. -/
def afterSend : Router E P :=
  { r with sessions := ⟨r.portTo addr dst fresh, dst⟩ :: r.sessions }

/-- A datagram from `src` to the outer port is let in. -/
def Admits (port : P) (src : E) : Prop :=
  ∃ s ∈ r.sessions, s.port = port ∧ r.filtering.Same addr s.remote src

instance [DecidableEq P] (port : P) (src : E) : Decidable (r.Admits addr port src) :=
  inferInstanceAs (Decidable (∃ s ∈ r.sessions, _))

def Uses (port : P) : Prop := ∃ s ∈ r.sessions, s.port = port

instance [DecidableEq P] (port : P) : Decidable (r.Uses port) :=
  inferInstanceAs (Decidable (∃ s ∈ r.sessions, _))

/-- A new session can be opened: it needs no new outer port, or `fresh` is one. -/
def Available : Prop :=
  (∃ s ∈ r.sessions, r.mapping.Same addr s.remote dst) ∨ ¬ r.Uses fresh

instance [DecidableEq P] : Decidable (r.Available addr dst fresh) :=
  inferInstanceAs (Decidable ((∃ s ∈ r.sessions, _) ∨ _))

/-- Everything leaves from one port, and hosts that were sent to may answer from any of theirs. -/
def Anchors (r : Router E P) : Prop := r.mapping = .any ∧ r.filtering ≠ .endpoint

/-- The pairs of routers that let two sockets behind them find each other. -/
def Compatible (r r' : Router E P) : Prop :=
  (r.mapping = .any ∧ r'.mapping = .any) ∨ r.Anchors ∨ r'.Anchors ∨
    (r.filtering = .any ∧ r'.filtering ≠ .endpoint) ∨
    (r'.filtering = .any ∧ r.filtering ≠ .endpoint)

/-- Endpoints that look the same are sent to from the same outer port. -/
def Consistent : Prop :=
  ∀ s ∈ r.sessions, ∀ s' ∈ r.sessions, r.mapping.Same addr s.remote s'.remote → s.port = s'.port

variable {addr r dst fresh} {r' : Router E P} {port : P} {src : E} {s : Session E P}

omit [DecidableEq E] in
/-- What keeps two sockets apart. -/
theorem not_compatible (h : ¬ r.Compatible r') :
    (r'.mapping ≠ .any ∧ r.filtering = .endpoint) ∨ (r.mapping ≠ .any ∧ r'.filtering = .endpoint) ∨
      (r.mapping ≠ .any ∧ r'.mapping ≠ .any ∧ r.filtering = .host ∧ r'.filtering = .host) := by
  have hhost (scope : Scope) (hany : scope ≠ .any) (hendpoint : scope ≠ .endpoint) :
      scope = .host := by cases scope <;> trivial
  simp only [Compatible, Anchors, not_or, not_and, not_not] at h
  obtain ⟨hboth, hanchor, hanchor', hopen, hopen'⟩ := h
  by_cases hstrict : r.filtering = .endpoint
  · by_cases hmapping : r'.mapping = .any
    · exact .inr (.inl ⟨fun h => hboth h hmapping, hanchor' hmapping⟩)
    · exact .inl ⟨hmapping, hstrict⟩
  · have hmapping : r.mapping ≠ .any := fun h => hstrict (hanchor h)
    by_cases hstrict' : r'.filtering = .endpoint
    · exact .inr (.inl ⟨hmapping, hstrict'⟩)
    · have hmapping' : r'.mapping ≠ .any := fun h => hstrict' (hanchor' h)
      exact .inr (.inr ⟨hmapping, hmapping', hhost _ (fun h => hstrict' (hopen h)) hstrict,
        hhost _ (fun h => hstrict (hopen' h)) hstrict'⟩)

theorem Uses.afterSend (h : r.Uses port) : (r.afterSend addr dst fresh).Uses port := by
  obtain ⟨s, hs, hport⟩ := h
  exact ⟨s, List.mem_cons_of_mem _ hs, hport⟩

@[simp] theorem mapping_afterSend : (r.afterSend addr dst fresh).mapping = r.mapping := rfl

@[simp] theorem filtering_afterSend : (r.afterSend addr dst fresh).filtering = r.filtering := rfl

theorem mem_afterSend :
    s ∈ (r.afterSend addr dst fresh).sessions ↔
      s = ⟨r.portTo addr dst fresh, dst⟩ ∨ s ∈ r.sessions := List.mem_cons

variable (addr r dst fresh) in
/-- The port is taken from a session that serves `dst`, and is new only if there is none. -/
theorem portTo_spec :
    (∃ s ∈ r.sessions, r.mapping.Same addr s.remote dst ∧ s.port = r.portTo addr dst fresh) ∨
      (r.portTo addr dst fresh = fresh ∧ ∀ s ∈ r.sessions, ¬ r.mapping.Same addr s.remote dst) := by
  unfold portTo
  cases hfind : r.sessions.find? fun s => r.mapping.Same addr s.remote dst with
  | none => exact .inr ⟨rfl, by simpa using hfind⟩
  | some s => exact .inl ⟨s, List.mem_of_find?_eq_some hfind, by simpa using List.find?_some hfind, rfl⟩

theorem Consistent.portTo_eq (h : r.Consistent addr) (hs : s ∈ r.sessions)
    (hsame : r.mapping.Same addr s.remote dst) : r.portTo addr dst fresh = s.port := by
  rcases portTo_spec addr r dst fresh with
    ⟨s', hs', hsame', hport⟩ | ⟨-, hnone⟩
  · rw [← hport]
    exact h s' hs' s hs (hsame'.trans hsame.symm)
  · exact absurd hsame (hnone s hs)

theorem Consistent.afterSend (h : r.Consistent addr) : (r.afterSend addr dst fresh).Consistent addr := by
  intro s hs s' hs' hsame
  rw [mapping_afterSend] at hsame
  rcases mem_afterSend.mp hs with rfl | hs <;> rcases mem_afterSend.mp hs' with rfl | hs'
  · rfl
  · exact h.portTo_eq hs' hsame.symm
  · exact (h.portTo_eq hs hsame).symm
  · exact h s hs s' hs' hsame

/-- A port that no session towards the host of `dst` has is not taken for `dst`. -/
theorem portTo_ne (hmapping : r.mapping ≠ .any) (havailable : r.Available addr dst fresh)
    (huses : r.Uses port) (hports : ∀ s ∈ r.sessions, addr s.remote = addr dst → s.port ≠ port) :
    r.portTo addr dst fresh ≠ port := by
  rcases portTo_spec addr r dst fresh with
    ⟨s, hs, hsame, hport⟩ | ⟨hport, hnone⟩
  · rw [← hport]
    exact hports s hs (hsame.addr_eq hmapping)
  · rcases havailable with ⟨s, hs, hsame⟩ | hfresh
    · exact absurd hsame (hnone s hs)
    · rintro rfl
      exact hfresh (hport ▸ huses)

/-- More sessions let in more. -/
theorem Admits.afterSend (h : r.Admits addr port src) :
    (r.afterSend addr dst fresh).Admits addr port src := by
  obtain ⟨s, hs, hport, hsame⟩ := h
  exact ⟨s, mem_afterSend.mpr (.inr hs), hport, hsame⟩

variable (addr) in
omit [DecidableEq E] [DecidableEq H] in
/-- An answer is let in. -/
theorem admits_answer (hs : s ∈ r.sessions) : r.Admits addr s.port s.remote :=
  ⟨s, hs, rfl, Scope.Same.refl _ _⟩

end Router
end VSwitch.Lib
