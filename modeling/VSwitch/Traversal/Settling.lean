import VSwitch.Traversal.Path

/-! What stays true on the way between two peers. A router that sends everything from one port
is found where the peer was told to look; once each side points to where the other sends from,
nothing can come between them; and what keeps two peers apart does so for good. -/
namespace VSwitch
open Lib

namespace Path

/-- Every datagram goes from one of the two public addresses to the other. -/
structure Facing (t : Path) : Prop where
  remote : ∀ s, (t.peer s).port.remoteAddr.addr = (t.peer s.other).addr
  consistent : ∀ s, (t.peer s).router.Consistent SockAddr.addr
  src : ∀ d ∈ t.flight, d.src.addr = (t.peer d.sender).addr
  dst : ∀ d ∈ t.flight, d.dst.addr = (t.peer d.sender.other).addr

/-- The router of `s` sends everything from `port`, and the other side sends it there. -/
structure Steady (t : Path) (s : Side) (port : UInt16) : Prop where
  mapping : (t.peer s).router.mapping = .any
  uses : (t.peer s).router.Uses port
  session : ∀ x ∈ (t.peer s).router.sessions, x.port = port
  remote : (t.peer s.other).port.remoteAddr.port = port
  flight : ∀ d ∈ t.flight, d.sender = s → d.src.port = port

/-- Each side sends to where the other sends from, and has done so. -/
structure Settled (t : Path) (ports : Side → UInt16) : Prop where
  remote : ∀ s, (t.peer s).port.remoteAddr = ⟨(t.peer s.other).addr, ports s.other⟩
  session : ∀ s, ⟨ports s, ⟨(t.peer s.other).addr, ports s.other⟩⟩ ∈ (t.peer s).router.sessions
  flight : ∀ d ∈ t.flight, d.src.port = ports d.sender ∧ d.dst.port = ports d.sender.other

/-- Something has left the router of `s` from `port` towards the other side. -/
def Shown (t : Path) (s : Side) (port : UInt16) : Prop :=
  ∃ x ∈ (t.peer s).router.sessions, x.port = port ∧ x.remote.addr = (t.peer s.other).addr

/-- The router on the other side of `s` lets anybody in, and `s` sends to a port in use there. -/
structure Welcome (t : Path) (s : Side) : Prop where
  filtering : (t.peer s.other).router.filtering = .any
  remote : (t.peer s.other).router.Uses (t.peer s).port.remoteAddr.port
  flight : ∀ d ∈ t.flight, d.sender = s →
    t.Shown s d.src.port ∧ (t.peer s.other).router.Uses d.dst.port
  answers : ∀ d ∈ t.flight, d.sender = s.other → (t.peer s.other).router.Uses d.src.port

/-- Besides, the other side answers to a port that has been shown, which is enough for the
router of `s`. The ports need not settle. -/
structure Answered (t : Path) (s : Side) : Prop extends t.Welcome s where
  lenient : (t.peer s).router.filtering ≠ .endpoint
  shown : t.Shown s (t.peer s.other).port.remoteAddr.port
  replies : ∀ d ∈ t.flight, d.sender = s.other → t.Shown s d.dst.port

/-- The other side never sends from `port`, from where alone the router of `s` would let it in. -/
structure Deaf (t : Path) (s : Side) (port : UInt16) : Prop where
  mapping : (t.peer s.other).router.mapping ≠ .any
  filtering : (t.peer s).router.filtering = .endpoint
  uses : (t.peer s.other).router.Uses port
  remote : (t.peer s).port.remoteAddr.port = port
  asked : ∀ x ∈ (t.peer s).router.sessions, x.remote.addr = (t.peer s.other).addr →
    x.remote.port = port
  session : ∀ x ∈ (t.peer s.other).router.sessions, x.remote.addr = (t.peer s).addr →
    x.port ≠ port
  flight : ∀ d ∈ t.flight, d.sender = s.other → d.src.port ≠ port
  heard : ∀ d ∈ t.heard, d.sender ≠ s.other

/-- Both sides send to ports from which the other has never sent anything to them. -/
structure Apart (t : Path) (ports : Side → UInt16) : Prop where
  mapping : ∀ s, (t.peer s).router.mapping ≠ .any
  filtering : ∀ s, (t.peer s).router.filtering = .host
  uses : ∀ s, (t.peer s).router.Uses (ports s)
  remote : ∀ s, (t.peer s).port.remoteAddr.port = ports s.other
  session : ∀ s, ∀ x ∈ (t.peer s).router.sessions, x.remote.addr = (t.peer s.other).addr →
    x.port ≠ ports s
  flight : ∀ d ∈ t.flight, d.dst.port = ports d.sender.other
  heard : t.heard = []

variable {t t' : Path} {forgets : Option Side} {s : Side} {port : UInt16} {ports : Side → UInt16}

private theorem Effect.remote_addr (h : t.Effect forgets t') (s : Side) :
    (t'.peer s).port.remoteAddr.addr = (t.peer s).port.remoteAddr.addr := by
  rcases h.port s with hport | ⟨d, -, -, -, hport⟩ <;> rw [hport]
  rfl

theorem Facing.next (h : t.Facing) (heffect : t.Effect forgets t') : t'.Facing where
  remote s := by rw [heffect.remote_addr, heffect.addr, h.remote]
  consistent s := heffect.consistent s (h.consistent s)
  src d hd := by
    rw [heffect.addr]
    rcases heffect.flight d hd with hold | ⟨fresh, -, hsrc, -, -⟩
    · exact h.src d hold
    · rw [hsrc]
      rfl
  dst d hd := by
    rw [heffect.addr]
    rcases heffect.flight d hd with hold | ⟨fresh, -, -, hdst, -⟩
    · exact h.dst d hold
    · rw [hdst, h.remote]

theorem Effect.uses (h : t.Effect forgets t') (hs : forgets ≠ some s)
    (huses : (t.peer s).router.Uses port) : (t'.peer s).router.Uses port := by
  obtain ⟨x, hx, hport⟩ := huses
  exact ⟨x, h.kept s hs x hx, hport⟩

theorem Effect.shown (h : t.Effect forgets t') (hs : forgets ≠ some s)
    (hshown : t.Shown s port) : t'.Shown s port := by
  obtain ⟨x, hx, hport, haddr⟩ := hshown
  exact ⟨x, h.kept s hs x hx, hport, by rw [haddr, h.addr]⟩

section Steady

theorem Steady.outer_port (h : t.Steady s port) (hfacing : t.Facing) (fresh : UInt16) :
    (t.outer s fresh).port = port := by
  obtain ⟨x, hx, hport⟩ := h.uses
  have hsame : (t.peer s).router.mapping.Same SockAddr.addr x.remote (t.peer s).port.remoteAddr := by
    rw [h.mapping]
    trivial
  rw [outer, (hfacing.consistent s).portTo_eq hx hsame, hport]

theorem Steady.next (h : t.Steady s port) (hfacing : t.Facing) (heffect : t.Effect forgets t')
    (hs : forgets ≠ some s) : t'.Steady s port where
  mapping := by rw [heffect.mapping, h.mapping]
  uses := heffect.uses hs h.uses
  session x hx := by
    rcases heffect.session s x hx with hold | ⟨fresh, -, rfl⟩
    · exact h.session x hold
    · exact h.outer_port hfacing fresh
  remote := by
    rcases heffect.port s.other with hport | ⟨d, hd, hsender, -, hport⟩
    · rw [hport, h.remote]
    · rw [hport]
      exact h.flight d hd (by rw [hsender, Side.other_other])
  flight d hd hsender := by
    rcases heffect.flight d hd with hold | ⟨fresh, -, hsrc, -, -⟩
    · exact h.flight d hold hsender
    · rw [hsrc, hsender]
      exact h.outer_port hfacing fresh

end Steady

section Settled

theorem Settled.outer_port (h : t.Settled ports) (hfacing : t.Facing) (s : Side) (fresh : UInt16) :
    (t.outer s fresh).port = ports s := by
  have hsame : (t.peer s).router.mapping.Same SockAddr.addr ⟨(t.peer s.other).addr, ports s.other⟩
      (t.peer s).port.remoteAddr := by
    rw [h.remote s]
    exact Scope.Same.refl _ _
  rw [outer, (hfacing.consistent s).portTo_eq (h.session s) hsame]

private theorem Settled.letsIn (h : t.Settled ports) (hfacing : t.Facing) {d : Packet}
    (hd : d ∈ t.flight) :
    t.LetsIn d := by
  obtain ⟨hsrc, hdst⟩ := h.flight d hd
  have hanswer := Router.admits_answer SockAddr.addr (h.session d.sender.other)
  rw [Side.other_other, ← hsrc, ← hdst, ← hfacing.src d hd] at hanswer
  exact ⟨hfacing.dst d hd, hanswer⟩

theorem Settled.next (h : t.Settled ports) (hfacing : t.Facing) (heffect : t.Effect none t') :
    t'.Settled ports ∧ t'.refused = t.refused := by
  refine ⟨⟨fun s => ?_, fun s => ?_, fun d hd => ?_⟩, ?_⟩
  · rw [heffect.addr]
    rcases heffect.port s with hport | ⟨d, hd, hsender, -, hport⟩
    · rw [hport, h.remote]
    · have hsrc := (h.flight d hd).1
      rw [hsender] at hsrc
      rw [hport, UdpPort.setPort, h.remote, hsrc]
  · rw [heffect.addr]
    exact heffect.kept s (by simp) _ (h.session s)
  · rcases heffect.flight d hd with hold | ⟨fresh, -, hsrc, hdst, -⟩
    · exact h.flight d hold
    · rw [hsrc, hdst, h.remote]
      exact ⟨h.outer_port hfacing d.sender fresh, rfl⟩
  · rcases heffect.refused with hsame | ⟨d, hd, hout⟩
    · exact hsame
    · exact absurd (h.letsIn hfacing hd) hout

end Settled

section Answered

theorem Welcome.next (h : t.Welcome s) (hfacing : t.Facing) (heffect : t.Effect none t') :
    t'.Welcome s where
  filtering := by rw [heffect.filtering, h.filtering]
  remote := by
    apply heffect.uses (by simp)
    rcases heffect.port s with hport | ⟨d, hd, hsender, -, hport⟩
    · rw [hport]
      exact h.remote
    · rw [hport]
      exact h.answers d hd hsender
  flight d hd hsender := by
    rcases heffect.flight d hd with hold | ⟨fresh, -, -, hdst, hsession⟩
    · obtain ⟨hshown, huses⟩ := h.flight d hold hsender
      exact ⟨heffect.shown (by simp) hshown, heffect.uses (by simp) huses⟩
    · rw [hsender] at hdst hsession
      refine ⟨⟨_, hsession, rfl, ?_⟩, ?_⟩
      · rw [hdst, hfacing.remote, heffect.addr]
      · rw [hdst]
        exact heffect.uses (by simp) h.remote
  answers d hd hsender := by
    rcases heffect.flight d hd with hold | ⟨fresh, -, -, -, hsession⟩
    · exact heffect.uses (by simp) (h.answers d hold hsender)
    · rw [hsender] at hsession
      exact ⟨_, hsession, rfl⟩

private theorem Welcome.letsIn (h : t.Welcome s) (hfacing : t.Facing) {d : Packet}
    (hd : d ∈ t.flight) (hsender : d.sender = s) : t.LetsIn d := by
  obtain ⟨x, hx, hport⟩ := (h.flight d hd hsender).2
  refine ⟨hfacing.dst d hd, ?_⟩
  rw [hsender]
  refine ⟨x, hx, hport, ?_⟩
  rw [h.filtering]
  trivial

private theorem Answered.letsIn (h : t.Answered s) (hfacing : t.Facing) {d : Packet}
    (hd : d ∈ t.flight) :
    t.LetsIn d := by
  rcases Side.eq_or_other s d.sender with hsender | hsender
  · exact h.toWelcome.letsIn hfacing hd hsender
  · obtain ⟨x, hx, hport, haddr⟩ := h.replies d hd hsender
    refine ⟨hfacing.dst d hd, ?_⟩
    have hsrc := hfacing.src d hd
    rw [hsender] at hsrc ⊢
    rw [Side.other_other]
    exact ⟨x, hx, hport, Scope.same_of_addr_eq (haddr.trans hsrc.symm) h.lenient⟩

theorem Answered.next (h : t.Answered s) (hfacing : t.Facing) (heffect : t.Effect none t') :
    t'.Answered s ∧ t'.refused = t.refused := by
  refine ⟨⟨h.toWelcome.next hfacing heffect, ?_, ?_, fun d hd hsender => ?_⟩, ?_⟩
  · rw [heffect.filtering]
    exact h.lenient
  · apply heffect.shown (by simp)
    rcases heffect.port s.other with hport | ⟨d, hd, hsender, -, hport⟩
    · rw [hport]
      exact h.shown
    · rw [hport]
      exact (h.flight d hd (by rw [hsender, Side.other_other])).1
  · apply heffect.shown (by simp)
    rcases heffect.flight d hd with hold | ⟨fresh, -, -, hdst, -⟩
    · exact h.replies d hold hsender
    · rw [hdst, hsender]
      exact h.shown
  · rcases heffect.refused with hsame | ⟨d, hd, hout⟩
    · exact hsame
    · exact absurd (h.letsIn hfacing hd) hout

end Answered

section Apart

private theorem outer_port_ne {fresh : UInt16} (hfacing : t.Facing) (hsend : t.CanSend s fresh)
    (hmapping : (t.peer s).router.mapping ≠ .any) (huses : (t.peer s).router.Uses port)
    (hsession : ∀ x ∈ (t.peer s).router.sessions, x.remote.addr = (t.peer s.other).addr →
      x.port ≠ port) : (t.outer s fresh).port ≠ port :=
  Router.portTo_ne hmapping hsend huses fun x hx haddr =>
    hsession x hx (haddr.trans (hfacing.remote s))

private theorem Deaf.not_letsIn (h : t.Deaf s port) (hfacing : t.Facing) {d : Packet}
    (hd : d ∈ t.flight) (hsender : d.sender = s.other) : ¬ t.LetsIn d := by
  rintro ⟨-, x, hx, -, hsame⟩
  have hsrc := hfacing.src d hd
  rw [hsender] at hx hsame hsrc
  rw [Side.other_other] at hx hsame
  rw [h.filtering] at hsame
  have hremote : x.remote = d.src := hsame
  apply h.flight d hd hsender
  rw [← hremote]
  exact h.asked x hx (by rw [hremote, hsrc])

theorem Deaf.next (h : t.Deaf s port) (hfacing : t.Facing) (heffect : t.Effect none t') :
    t'.Deaf s port where
  mapping := by
    rw [heffect.mapping]
    exact h.mapping
  filtering := by rw [heffect.filtering, h.filtering]
  uses := heffect.uses (by simp) h.uses
  remote := by
    rcases heffect.port s with hport | ⟨d, hd, hsender, hin, -⟩
    · rw [hport, h.remote]
    · exact absurd hin (h.not_letsIn hfacing hd hsender)
  asked x hx haddr := by
    rw [heffect.addr] at haddr
    rcases heffect.session s x hx with hold | ⟨fresh, -, rfl⟩
    · exact h.asked x hold haddr
    · exact h.remote
  session x hx haddr := by
    rw [heffect.addr] at haddr
    rcases heffect.session s.other x hx with hold | ⟨fresh, hsend, rfl⟩
    · exact h.session x hold haddr
    · refine outer_port_ne hfacing hsend h.mapping h.uses ?_
      rw [Side.other_other]
      exact h.session
  flight d hd hsender := by
    rcases heffect.flight d hd with hold | ⟨fresh, hsend, hsrc, -, -⟩
    · exact h.flight d hold hsender
    · rw [hsrc, hsender]
      rw [hsender] at hsend
      refine outer_port_ne hfacing hsend h.mapping h.uses ?_
      rw [Side.other_other]
      exact h.session
  heard d hd hsender := by
    rcases heffect.heard d hd with hold | ⟨hd, hin⟩
    · exact h.heard d hold hsender
    · exact h.not_letsIn hfacing hd hsender hin

private theorem Apart.not_letsIn (h : t.Apart ports) (hfacing : t.Facing) {d : Packet}
    (hd : d ∈ t.flight) :
    ¬ t.LetsIn d := by
  rintro ⟨-, x, hx, hport, hsame⟩
  rw [h.filtering] at hsame
  have haddr : x.remote.addr = d.src.addr := hsame
  refine h.session d.sender.other x hx ?_ (hport.trans (h.flight d hd))
  rw [haddr, hfacing.src d hd, Side.other_other]

theorem Apart.next (h : t.Apart ports) (hfacing : t.Facing) (heffect : t.Effect none t') :
    t'.Apart ports where
  mapping s := by
    rw [heffect.mapping]
    exact h.mapping s
  filtering s := by rw [heffect.filtering, h.filtering]
  uses s := heffect.uses (by simp) (h.uses s)
  remote s := by
    rcases heffect.port s with hport | ⟨d, hd, -, hin, -⟩
    · rw [hport, h.remote]
    · exact absurd hin (h.not_letsIn hfacing hd)
  session s x hx haddr := by
    rw [heffect.addr] at haddr
    rcases heffect.session s x hx with hold | ⟨fresh, hsend, rfl⟩
    · exact h.session s x hold haddr
    · exact outer_port_ne hfacing hsend (h.mapping s) (h.uses s) (h.session s)
  flight d hd := by
    rcases heffect.flight d hd with hold | ⟨fresh, -, -, hdst, -⟩
    · exact h.flight d hold
    · rw [hdst, h.remote]
  heard := by
    rw [List.eq_nil_iff_forall_not_mem]
    intro d hd
    rcases heffect.heard d hd with hold | ⟨hd, hin⟩
    · rw [h.heard] at hold
      cases hold
    · exact h.not_letsIn hfacing hd hin

end Apart
end Path
end VSwitch
