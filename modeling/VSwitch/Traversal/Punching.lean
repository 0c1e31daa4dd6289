import VSwitch.Traversal.Settling

/-! Which routers let two peers find each other. What is sent first may be refused; from then on
each side goes where the other was heard from. -/
namespace VSwitch
open Lib

/-- What opens the way: punches between ports without a key, frames between ports with one. -/
def PathAction.Knocks (key : Option Key) (frame : Bytes) : PathAction → Prop
  | .punch _ _ => key = none
  | .write _ f _ _ => key ≠ none ∧ f = frame
  | .arrive _ => True
  | _ => False

namespace Path

/-- Each socket has asked a STUN server, and the other side was told what it answered. -/
structure Announced (t : Path) (key : Option Key) (ports : Side → UInt16) : Prop where
  key : ∀ s, (t.peer s).port.key = key
  remote : ∀ s, (t.peer s).port.remoteAddr = ⟨(t.peer s.other).addr, ports s.other⟩
  session : ∀ s, ∃ server : SockAddr, server.addr ≠ (t.peer s.other).addr ∧
    (t.peer s).router.sessions = [⟨ports s, server⟩]
  flight : t.flight = []
  heard : t.heard = []

/-- Neither router has run out of ports. -/
def Spare (t : Path) : Prop := ∀ s, ∃ fresh, ¬ (t.peer s).router.Uses fresh

def Reaches (A : Aead) (w : SizeT) (key : Option Key) (frame : Bytes) (t t' : Path) : Prop :=
  ∃ actions, Run (Goes A w) t actions t' ∧ ∀ a ∈ actions, a.Knocks key frame

/-- A few knocks make each side heard, and from then on nothing is refused any more, as long as
the routers keep their sessions. -/
def Opens (A : Aead) (w : SizeT) (key : Option Key) (frame : Bytes) (t : Path) : Prop :=
  ∃ t', Reaches A w key frame t t' ∧ (∀ s, ∃ d ∈ t'.heard, d.sender = s) ∧
    ∀ later t'', Run (Goes A w) t' later t'' → (∀ a ∈ later, a.forgets = none) →
      t''.refused = t'.refused

variable {A : Aead} {w : SizeT} {t t' t'' : Path} {s : Side} {key : Option Key} {frame : Bytes}
variable {port : UInt16} {ports : Side → UInt16} {actions : List PathAction}

private theorem forgets_of_knocks {a : PathAction} (h : a.Knocks key frame) : a.forgets = none := by
  cases a <;> first | rfl | exact h.elim

private theorem invariant_run {I : Path → Prop} (ok : Option Side → Prop)
    (hnext : ∀ {t t' forgets}, ok forgets → I t → t.Facing → t.Effect forgets t' → I t')
    (h : I t) (hfacing : t.Facing) (hok : ∀ a ∈ actions, ok a.forgets)
    (hrun : Run (Goes A w) t actions t') : I t' ∧ t'.Facing := by
  refine hrun.invariant_of (I := fun u => I u ∧ u.Facing) (P := fun a => ok a.forgets) ?_
    ⟨h, hfacing⟩ hok
  rintro u a u' ⟨hu, hfacing⟩ ha hgoes
  exact ⟨hnext ha hu hfacing hgoes.moves.effect, hfacing.next hgoes.moves.effect⟩

private theorem invariant_calm {I : Path → Prop}
    (hnext : ∀ {t t'}, I t → t.Facing → t.Effect none t' → I t') (h : I t) (hfacing : t.Facing)
    (hkeep : ∀ a ∈ actions, a.forgets = none) (hrun : Run (Goes A w) t actions t') : I t' := by
  refine (invariant_run (fun x => x = none) ?_ h hfacing hkeep hrun).1
  rintro u u' forgets rfl hu hfacing heffect
  exact hnext hu hfacing heffect

theorem Reaches.trans (h : Reaches A w key frame t t') (h' : Reaches A w key frame t' t'') :
    Reaches A w key frame t t'' := by
  obtain ⟨actions, hrun, hknocks⟩ := h
  obtain ⟨later, hlater, hknocks'⟩ := h'
  refine ⟨actions ++ later, hrun.append hlater, fun a ha => ?_⟩
  exact (List.mem_append.mp ha).elim (hknocks a) (hknocks' a)

private theorem Reaches.facing (h : Reaches A w key frame t t') (hfacing : t.Facing) :
    t'.Facing := by
  obtain ⟨actions, hrun, -⟩ := h
  exact hrun.invariant (fun hu hgoes => hu.next hgoes.moves.effect) hfacing

private theorem Reaches.keeps {I : Path → Prop} (h : Reaches A w key frame t t')
    (hfacing : t.Facing)
    (hnext : ∀ {t t'}, I t → t.Facing → t.Effect none t' → I t') (hI : I t) : I t' := by
  obtain ⟨actions, hrun, hknocks⟩ := h
  exact invariant_calm hnext hI hfacing (fun a ha => forgets_of_knocks (hknocks a ha)) hrun

/-- The ports keep their key. -/
def Keyed (key : Option Key) (t : Path) : Prop := ∀ s, (t.peer s).port.key = key

theorem Keyed.next {forgets : Option Side} (h : t.Keyed key) (heffect : t.Effect forgets t') :
    t'.Keyed key := fun s => (heffect.key s).trans (h s)

section Announced

private theorem Announced.facing (h : t.Announced key ports) : t.Facing where
  remote s := by rw [h.remote]
  consistent s := by
    obtain ⟨server, -, hsessions⟩ := h.session s
    intro x hx x' hx' _
    rw [hsessions, List.mem_singleton] at hx hx'
    rw [hx, hx']
  src d hd := by
    rw [h.flight] at hd
    cases hd
  dst d hd := by
    rw [h.flight] at hd
    cases hd

theorem Announced.uses (h : t.Announced key ports) (s : Side) :
    (t.peer s).router.Uses (ports s) := by
  obtain ⟨server, -, hsessions⟩ := h.session s
  exact ⟨⟨ports s, server⟩, by simp [hsessions], rfl⟩

private theorem Announced.not_asked (h : t.Announced key ports) {s : Side}
    {x : Session SockAddr UInt16}
    (hx : x ∈ (t.peer s).router.sessions) : x.remote.addr ≠ (t.peer s.other).addr := by
  obtain ⟨server, hserver, hsessions⟩ := h.session s
  rw [hsessions, List.mem_singleton] at hx
  rw [hx]
  exact hserver

private theorem Announced.steady (h : t.Announced key ports)
    (hmapping : (t.peer s).router.mapping = .any) :
    t.Steady s (ports s) where
  mapping := hmapping
  uses := h.uses s
  session x hx := by
    obtain ⟨server, -, hsessions⟩ := h.session s
    rw [hsessions, List.mem_singleton] at hx
    rw [hx]
  remote := by rw [h.remote, Side.other_other]
  flight d hd _ := by
    rw [h.flight] at hd
    cases hd

private theorem Announced.welcome (h : t.Announced key ports)
    (hfiltering : (t.peer s.other).router.filtering = .any) : t.Welcome s where
  filtering := hfiltering
  remote := by
    rw [h.remote]
    exact h.uses s.other
  flight d hd _ := by
    rw [h.flight] at hd
    cases hd
  answers d hd _ := by
    rw [h.flight] at hd
    cases hd

private theorem Announced.deaf (h : t.Announced key ports)
    (hmapping : (t.peer s.other).router.mapping ≠ .any)
    (hfiltering : (t.peer s).router.filtering = .endpoint) : t.Deaf s (ports s.other) where
  mapping := hmapping
  filtering := hfiltering
  uses := h.uses s.other
  remote := by rw [h.remote]
  asked x hx haddr := absurd haddr (h.not_asked hx)
  session x hx haddr := by
    refine absurd ?_ (h.not_asked hx)
    rw [Side.other_other]
    exact haddr
  flight d hd _ := by
    rw [h.flight] at hd
    cases hd
  heard d hd := by
    rw [h.heard] at hd
    cases hd

theorem Announced.apart (h : t.Announced key ports)
    (hmapping : ∀ s, (t.peer s).router.mapping ≠ .any)
    (hfiltering : ∀ s, (t.peer s).router.filtering = .host) : t.Apart ports where
  mapping := hmapping
  filtering := hfiltering
  uses := h.uses
  remote s := by rw [h.remote]
  session s x hx haddr := absurd haddr (h.not_asked hx)
  flight d hd := by
    rw [h.flight] at hd
    cases hd
  heard := h.heard

end Announced

section Exchange

/-- What is left of the path when `s` has sent one datagram and it has arrived, or not. -/
structure Exchanged (t : Path) (s : Side) (fresh : UInt16) (t' : Path) : Prop where
  flight : t'.flight = []
  port : (t'.peer s).port = (t.peer s).port
  router : (t'.peer s).router =
    (t.peer s).router.afterSend SockAddr.addr (t.peer s).port.remoteAddr fresh
  other : (t'.peer s.other).router = (t.peer s.other).router
  heard : ∀ d ∈ t.heard, d ∈ t'.heard
  admitted : (t.peer s.other).router.Admits SockAddr.addr (t.peer s).port.remoteAddr.port
      (t.outer s fresh) → (∃ d ∈ t'.heard, d.sender = s) ∧
    (t'.peer s.other).port = (t.peer s.other).port.setPort (t.outer s fresh).port

private theorem exists_knock (hA : A.Lawful) (hfit : frame.length ≤ maxPlaintext)
    (hkey : t.Keyed key) {fresh : UInt16} (hsend : t.CanSend s fresh) :
    ∃ a payload, a.Knocks key frame ∧
      t.Goes A w a (t.send s ⟨(t.peer s).port.remoteAddr, payload⟩ fresh) ∧
      ∀ (u : UdpPort) (src : SockAddr), u.key = key → src.addr = u.remoteAddr.addr →
        (u.read A w (.datagram src payload) maxFrameSize).1 = u.setPort src.port := by
  cases key with
  | none =>
    refine ⟨.punch s fresh, [0, 0, 0, 0], rfl, if_pos hsend, fun u src hu hsrc => ?_⟩
    rw [UdpPort.read_plain_fst hu, if_pos ⟨hsrc, by simp⟩]
  | some key =>
    refine ⟨.write s frame (fun _ => 0) fresh,
      UdpPort.sealedPacket A.encrypt key (fun _ => 0) frame, ⟨by simp, rfl⟩, ?_,
      fun u src hu hsrc => ?_⟩
    · simp only [Goes, step, if_pos hsend, UdpPort.write_sealed A _ (hkey s),
        if_neg (Nat.not_lt.mpr hfit)]
    · have hopens : UdpPort.opens A src
          (UdpPort.sealedPacket A.encrypt key (fun _ => 0) frame) maxFrameSize src.addr key =
            some frame := UdpPort.opens_written hA hfit (hfit.trans (by decide))
      rw [UdpPort.read_sealed A w u src _ maxFrameSize hu, ← hsrc, hopens]

private theorem exists_exchange (hA : A.Lawful) (hfit : frame.length ≤ maxPlaintext)
    (hkey : t.Keyed key)
    (hfacing : t.Facing) (hempty : t.flight = []) {fresh : UInt16} (hsend : t.CanSend s fresh) :
    ∃ t', Reaches A w key frame t t' ∧ t.Exchanged s fresh t' := by
  obtain ⟨a, payload, hknock, hgoes, hread⟩ := exists_knock (w := w) hA hfit hkey hsend
  let d : Packet := ⟨s, t.outer s fresh, (t.peer s).port.remoteAddr, payload⟩
  let mid := t.send s ⟨(t.peer s).port.remoteAddr, payload⟩ fresh
  have hflight : mid.flight = [d] := by
    change t.flight ++ [d] = [d]
    rw [hempty, List.nil_append]
  have hself : mid.peer s = ⟨(t.peer s).port, (t.peer s).addr,
      (t.peer s).router.afterSend SockAddr.addr (t.peer s).port.remoteAddr fresh⟩ :=
    t.peer_send_self s _ fresh
  have hother : mid.peer s.other = t.peer s.other := t.peer_send_other s _ fresh
  have hknocks : ∀ a' ∈ [a, .arrive d], a'.Knocks key frame :=
    List.forall_mem_cons.mpr ⟨hknock, List.forall_mem_singleton.mpr True.intro⟩
  by_cases hin : mid.LetsIn d
  · have hport : mid.afterRead A w s.other d.src payload =
        (t.peer s.other).port.setPort (t.outer s fresh).port := by
      rw [afterRead, hother]
      refine hread _ _ (hkey s.other) ?_
      rw [hfacing.remote, Side.other_other]
      rfl
    have harrive : mid.Goes A w (.arrive d) (mid.hear d (mid.afterRead A w s.other d.src payload)) := by
      simp only [Goes, step, hflight, List.mem_singleton, if_true, if_pos hin]
      rfl
    have hsame : (mid.hear d (mid.afterRead A w s.other d.src payload)).peer s = mid.peer s :=
      mid.peer_hear_self d _
    have hmoved : (mid.hear d (mid.afterRead A w s.other d.src payload)).peer s.other =
        { mid.peer s.other with port := mid.afterRead A w s.other d.src payload } :=
      mid.peer_hear_other d _
    refine ⟨_, ⟨[a, .arrive d], ⟨mid, hgoes, _, harrive, rfl⟩, hknocks⟩, ?_, ?_, ?_, ?_, ?_,
      fun _ => ⟨⟨d, ?_, rfl⟩, ?_⟩⟩
    · change mid.flight.erase d = []
      rw [hflight, List.erase_cons_head]
    · rw [hsame, hself]
    · rw [hsame, hself]
    · rw [hmoved, hother]
    · exact fun d' hd' => List.mem_append_left _ hd'
    · exact List.mem_append_right _ (List.mem_singleton_self d)
    · rw [hmoved]
      exact hport
  · have harrive : mid.Goes A w (.arrive d) (mid.refuse d) := by
      simp only [Goes, step, hflight, List.mem_singleton, if_true, if_neg hin]
    refine ⟨_, ⟨[a, .arrive d], ⟨mid, hgoes, _, harrive, rfl⟩, hknocks⟩, ?_, ?_, ?_, ?_, ?_,
      fun hadmits => absurd ⟨?_, ?_⟩ hin⟩
    · change mid.flight.erase d = []
      rw [hflight, List.erase_cons_head]
    · rw [peer_refuse, hself]
    · rw [peer_refuse, hself]
    · rw [peer_refuse, hother]
    · exact fun d' hd' => hd'
    · change _ = (mid.peer s.other).addr
      rw [hother]
      exact hfacing.remote s
    · change (mid.peer s.other).router.Admits _ _ _
      rw [hother]
      exact hadmits

variable (A w key frame) in
/-- What is in flight arrives, in turn. -/
theorem exists_drained (t : Path) : ∃ t', Reaches A w key frame t t' ∧ t'.flight = [] ∧
    ∀ s, (t'.peer s).router = (t.peer s).router := by
  induction hflight : t.flight generalizing t with
  | nil => exact ⟨t, ⟨[], rfl, by simp⟩, hflight, fun _ => rfl⟩
  | cons d flight ih =>
    have hnext : ∃ mid, t.Goes A w (.arrive d) mid ∧ mid.flight = flight ∧
        ∀ s, (mid.peer s).router = (t.peer s).router := by
      by_cases hin : t.LetsIn d
      · refine ⟨t.hear d (t.afterRead A w d.sender.other d.src d.payload), ?_, ?_, fun s => ?_⟩
        · simp [Goes, step, hflight, hin]
        · simp [hear, hflight]
        · obtain rfl | rfl := Side.eq_or_other d.sender s <;> simp
      · refine ⟨t.refuse d, ?_, ?_, fun s => rfl⟩
        · simp [Goes, step, hflight, hin]
        · simp [refuse, hflight]
    obtain ⟨mid, hgoes, hrest, hmid⟩ := hnext
    obtain ⟨t', ⟨later, hrun, hknocks⟩, hempty, hrouter⟩ := ih mid hrest
    have hlater : ∀ a ∈ .arrive d :: later, a.Knocks key frame :=
      List.forall_mem_cons.mpr ⟨True.intro, hknocks⟩
    exact ⟨t', ⟨.arrive d :: later, ⟨mid, hgoes, hrun⟩, hlater⟩, hempty,
      fun s => (hrouter s).trans (hmid s)⟩

end Exchange

section Opening
variable {fresh fresh' : UInt16}

theorem Exchanged.session (h : t.Exchanged s fresh t') :
    ⟨(t.outer s fresh).port, (t.peer s).port.remoteAddr⟩ ∈ (t'.peer s).router.sessions := by
  rw [h.router]
  exact Router.mem_afterSend.mpr (.inl rfl)

private theorem Steady.canSend (h : t.Steady s port) (fresh : UInt16) : t.CanSend s fresh := by
  obtain ⟨x, hx, -⟩ := h.uses
  refine .inl ⟨x, hx, ?_⟩
  rw [h.mapping]
  trivial

theorem Steady.reach (h : t.Steady s port) (hfacing : t.Facing)
    (hreach : Reaches A w key frame t t') : t'.Steady s port :=
  hreach.keeps hfacing (fun hu hfacing heffect => Steady.next hu hfacing heffect (by simp)) h

theorem Keyed.reach (h : t.Keyed key) (hfacing : t.Facing) (hreach : Reaches A w key frame t t') :
    t'.Keyed key := hreach.keeps hfacing (fun hu _ heffect => hu.next heffect) h

theorem Welcome.reach (h : t.Welcome s) (hfacing : t.Facing)
    (hreach : Reaches A w key frame t t') : t'.Welcome s :=
  hreach.keeps hfacing (fun hu hfacing heffect => Welcome.next hu hfacing heffect) h

theorem Reaches.addr (h : Reaches A w key frame t t') (hfacing : t.Facing) (s : Side) :
    (t'.peer s).addr = (t.peer s).addr :=
  h.keeps (I := fun u => (u.peer s).addr = (t.peer s).addr) hfacing
    (fun hu _ heffect => (heffect.addr s).trans hu) rfl

private theorem Exchanged.settled (h : t.Exchanged s fresh t') (hreach : Reaches A w key frame t t')
    (hfacing : t.Facing) (hsteady : t.Steady s port)
    (hanswer : ⟨(t.peer s).port.remoteAddr.port, ⟨(t.peer s).addr, port⟩⟩ ∈
      (t.peer s.other).router.sessions) :
    (∃ d ∈ t'.heard, d.sender = s) ∧
      t'.Settled fun x => if x = s then port else (t.peer s).port.remoteAddr.port := by
  have hfacing' := hreach.facing hfacing
  have houter : t.outer s fresh = ⟨(t.peer s).addr, port⟩ := by
    rw [SockAddr.mk.injEq]
    exact ⟨rfl, hsteady.outer_port hfacing fresh⟩
  have hremote : (t.peer s).port.remoteAddr =
      ⟨(t'.peer s.other).addr, (t.peer s).port.remoteAddr.port⟩ := by
    rw [hreach.addr hfacing, ← hfacing.remote]
  have hadmits := Router.admits_answer SockAddr.addr hanswer
  rw [← houter] at hadmits
  refine ⟨(h.admitted hadmits).1, fun x => ?_, fun x => ?_, fun d hd => ?_⟩
  · obtain rfl | rfl := Side.eq_or_other s x
    · rw [h.port, if_neg (Side.other_ne x)]
      exact hremote
    · rw [Side.other_other, if_pos rfl, SockAddr.mk.injEq]
      exact ⟨(hfacing'.remote s.other).trans (by rw [Side.other_other]),
        (hsteady.reach hfacing hreach).remote⟩
  · obtain rfl | rfl := Side.eq_or_other s x
    · have hsession := h.session
      rw [houter, hremote] at hsession
      rw [if_pos rfl, if_neg (Side.other_ne x)]
      exact hsession
    · rw [Side.other_other, if_pos rfl, if_neg (Side.other_ne s), h.other,
        hreach.addr hfacing]
      exact hanswer
  · rw [h.flight] at hd
    cases hd

private theorem exists_settled (hA : A.Lawful) (hfit : frame.length ≤ maxPlaintext)
    (hkey : t.Keyed key) (hfacing : t.Facing) (hempty : t.flight = []) (hsteady : t.Steady s port)
    (hback : (t.peer s).router.filtering ≠ .endpoint ∨ ∃ port', t.Steady s.other port')
    (hfresh : ¬ (t.peer s.other).router.Uses fresh) :
    ∃ t' ports, Reaches A w key frame t t' ∧ (∀ s, ∃ d ∈ t'.heard, d.sender = s) ∧
      t'.Facing ∧ t'.Settled ports := by
  obtain ⟨t₁, hto₁, h₁⟩ :=
    exists_exchange (w := w) hA hfit hkey hfacing hempty (hsteady.canSend 0)
  have hfacing₁ := hto₁.facing hfacing
  have hsteady₁ := hsteady.reach hfacing hto₁
  have hsend₁ : t₁.CanSend s.other fresh := by
    refine .inr ?_
    rwa [h₁.other]
  obtain ⟨t₂, hto₂, h₂⟩ :=
    exists_exchange (w := w) hA hfit (hkey.reach hfacing hto₁) hfacing₁ h₁.flight hsend₁
  have hfacing₂ := hto₂.facing hfacing₁
  have hsteady₂ := hsteady₁.reach hfacing₁ hto₂
  have hanswered : (t₁.peer s.other.other).router.Admits SockAddr.addr
      (t₁.peer s.other).port.remoteAddr.port (t₁.outer s.other fresh) := by
    rw [Side.other_other, hsteady₁.remote]
    refine ⟨_, h₁.session, hsteady.outer_port hfacing 0, ?_⟩
    have haddr : (t.peer s).port.remoteAddr.addr = (t₁.outer s.other fresh).addr :=
      (hfacing.remote s).trans (hto₁.addr hfacing s.other).symm
    rw [h₁.router, Router.filtering_afterSend]
    rcases hback with hlenient | ⟨port', hother⟩
    · exact Scope.same_of_addr_eq haddr hlenient
    · have hport : (t.peer s).port.remoteAddr.port = (t₁.outer s.other fresh).port := by
        rw [(hother.reach hfacing hto₁).outer_port hfacing₁, ← hother.remote, Side.other_other]
      have hsame : (t.peer s).port.remoteAddr = t₁.outer s.other fresh := by
        rw [SockAddr.mk.injEq]
        exact ⟨haddr, hport⟩
      rw [hsame]
      exact Scope.Same.refl _ _
  obtain ⟨⟨d, hd, hsender⟩, hport⟩ := h₂.admitted hanswered
  rw [Side.other_other] at hport
  obtain ⟨t₃, hto₃, h₃⟩ := exists_exchange (w := w) hA hfit
    ((hkey.reach hfacing hto₁).reach hfacing₁ hto₂) hfacing₂ h₂.flight (hsteady₂.canSend 0)
  have hanswer : ⟨(t₂.peer s).port.remoteAddr.port, ⟨(t₂.peer s).addr, port⟩⟩ ∈
      (t₂.peer s.other).router.sessions := by
    have hsession := h₂.session
    have hremote : (t₁.peer s.other).port.remoteAddr = ⟨(t₂.peer s).addr, port⟩ := by
      rw [hto₂.addr hfacing₁, SockAddr.mk.injEq]
      exact ⟨(hfacing₁.remote s.other).trans (by rw [Side.other_other]), hsteady₁.remote⟩
    rw [hport]
    rwa [hremote] at hsession
  obtain ⟨hheard, hsettled⟩ := h₃.settled hto₃ hfacing₂ hsteady₂ hanswer
  refine ⟨t₃, _, (hto₁.trans hto₂).trans hto₃, fun x => ?_, hto₃.facing hfacing₂, hsettled⟩
  obtain rfl | rfl := Side.eq_or_other s x
  · exact hheard
  · exact ⟨d, h₃.heard d hd, hsender⟩

private theorem exists_answered (hA : A.Lawful) (hfit : frame.length ≤ maxPlaintext)
    (hkey : t.Keyed key) (hfacing : t.Facing) (hempty : t.flight = []) (hwelcome : t.Welcome s)
    (hlenient : (t.peer s).router.filtering ≠ .endpoint) (hspare : t.Spare) :
    ∃ t', Reaches A w key frame t t' ∧ (∀ s, ∃ d ∈ t'.heard, d.sender = s) ∧
      t'.Facing ∧ t'.Answered s := by
  obtain ⟨fresh, hfresh⟩ := hspare s
  obtain ⟨fresh', hfresh'⟩ := hspare s.other
  have hsend : t.CanSend s fresh := .inr hfresh
  obtain ⟨t₁, hto₁, h₁⟩ := exists_exchange (w := w) hA hfit hkey hfacing hempty hsend
  have hfacing₁ := hto₁.facing hfacing
  obtain ⟨x, hx, hxport⟩ := hwelcome.remote
  have hadmits : (t.peer s.other).router.Admits SockAddr.addr (t.peer s).port.remoteAddr.port
      (t.outer s fresh) := by
    refine ⟨x, hx, hxport, ?_⟩
    rw [hwelcome.filtering]
    trivial
  obtain ⟨⟨d, hd, hsender⟩, hport⟩ := h₁.admitted hadmits
  have hshown : t₁.Shown s (t₁.peer s.other).port.remoteAddr.port := by
    rw [hport]
    exact ⟨_, h₁.session, rfl, (hfacing.remote s).trans (hto₁.addr hfacing s.other).symm⟩
  have hanswered₁ : t₁.Answered s := by
    refine ⟨hwelcome.reach hfacing hto₁, ?_, hshown, fun d hd => ?_⟩
    · rw [h₁.router]
      exact hlenient
    · rw [h₁.flight] at hd
      cases hd
  have hsend₁ : t₁.CanSend s.other fresh' := by
    refine .inr ?_
    rwa [h₁.other]
  obtain ⟨t₂, hto₂, h₂⟩ :=
    exists_exchange (w := w) hA hfit (hkey.reach hfacing hto₁) hfacing₁ h₁.flight hsend₁
  obtain ⟨y, hy, hyport, hyaddr⟩ := hshown
  have hback : (t₁.peer s.other.other).router.Admits SockAddr.addr
      (t₁.peer s.other).port.remoteAddr.port (t₁.outer s.other fresh') := by
    rw [Side.other_other]
    exact ⟨y, hy, hyport, Scope.same_of_addr_eq hyaddr hanswered₁.lenient⟩
  refine ⟨t₂, hto₁.trans hto₂, fun side => ?_, hto₂.facing hfacing₁,
    hto₂.keeps hfacing₁ (fun hu hfacing heffect => (Answered.next hu hfacing heffect).1) hanswered₁⟩
  obtain rfl | rfl := Side.eq_or_other s side
  · exact ⟨d, h₂.heard d hd, hsender⟩
  · exact (h₂.admitted hback).1

private theorem refused_run {I : Path → Prop} (hnext : ∀ {t t'}, I t → t.Facing → t.Effect none t' →
      I t' ∧ t'.refused = t.refused) (hI : I t) (hfacing : t.Facing)
    (hrun : Run (Goes A w) t actions t') (hkeep : ∀ a ∈ actions, a.forgets = none) :
    t'.refused = t.refused := by
  refine (invariant_calm (I := fun u => I u ∧ u.refused = t.refused) ?_ ⟨hI, rfl⟩ hfacing hkeep
    hrun).2
  rintro u u' ⟨hu, hrefused⟩ hfacing heffect
  obtain ⟨hu', hsame⟩ := hnext hu hfacing heffect
  exact ⟨hu', hsame.trans hrefused⟩

private theorem opens_of_steady (hA : A.Lawful) (hfit : frame.length ≤ maxPlaintext)
    (hkey : t.Keyed key) (hfacing : t.Facing) (hsteady : t.Steady s port)
    (hback : (t.peer s).router.filtering ≠ .endpoint ∨ ∃ port', t.Steady s.other port')
    (hspare : t.Spare) : t.Opens A w key frame := by
  obtain ⟨mid, hmid, hempty, hrouter⟩ := exists_drained A w key frame t
  obtain ⟨fresh, hfresh⟩ := hspare s.other
  rw [← hrouter] at hfresh hback
  have hback' : (mid.peer s).router.filtering ≠ .endpoint ∨ ∃ port', mid.Steady s.other port' :=
    hback.imp_right fun ⟨port', h⟩ => ⟨port', h.reach hfacing hmid⟩
  obtain ⟨t', ports, hto, hheard, hfacing', hsettled⟩ := exists_settled (w := w) hA hfit
    (hkey.reach hfacing hmid) (hmid.facing hfacing) hempty (hsteady.reach hfacing hmid) hback' hfresh
  exact ⟨t', hmid.trans hto, hheard, fun later t'' hrun hkeep =>
    refused_run (fun hu hfacing heffect => Settled.next hu hfacing heffect) hsettled hfacing' hrun hkeep⟩

private theorem opens_of_welcome (hA : A.Lawful) (hfit : frame.length ≤ maxPlaintext)
    (hkey : t.Keyed key) (hfacing : t.Facing) (hwelcome : t.Welcome s)
    (hlenient : (t.peer s).router.filtering ≠ .endpoint) (hspare : t.Spare) :
    t.Opens A w key frame := by
  obtain ⟨mid, hmid, hempty, hrouter⟩ := exists_drained A w key frame t
  rw [← hrouter] at hlenient
  have hspare' : mid.Spare := fun side => by
    rw [hrouter]
    exact hspare side
  obtain ⟨t', hto, hheard, hfacing', hanswered⟩ := exists_answered (w := w) hA hfit
    (hkey.reach hfacing hmid) (hmid.facing hfacing) hempty
    (hwelcome.reach hfacing hmid) hlenient hspare'
  exact ⟨t', hmid.trans hto, hheard, fun later t'' hrun hkeep =>
    refused_run (fun hu hfacing heffect => Answered.next hu hfacing heffect) hanswered hfacing' hrun hkeep⟩

end Opening

private theorem filtering_run (hrun : Run (Goes A w) t actions t') (s : Side) :
    (t'.peer s).router.filtering = (t.peer s).router.filtering :=
  hrun.invariant (I := fun u => (u.peer s).router.filtering = (t.peer s).router.filtering)
    (fun hu hgoes => (hgoes.moves.effect.filtering s).trans hu) rfl

theorem Announced.reach (h : t.Announced key ports) (hrun : Run (Goes A w) t actions t') :
    t'.Keyed key ∧ t'.Facing :=
  invariant_run (fun _ => True) (fun _ hu _ heffect => hu.next heffect) h.key h.facing
    (fun _ _ => True.intro) hrun

private theorem Announced.opens_of_anchors (hA : A.Lawful) (hfit : frame.length ≤ maxPlaintext)
    (h : t.Announced key ports) (hanchors : (t.peer s).router.Anchors)
    (hrun : Run (Goes A w) t actions t') (hkeep : ∀ a ∈ actions, a.forgets ≠ some s)
    (hspare : t'.Spare) : t'.Opens A w key frame := by
  obtain ⟨hmapping, hlenient⟩ := hanchors
  obtain ⟨hkey, hfacing⟩ := h.reach hrun
  have hsteady := (invariant_run (fun x => x ≠ some s)
    (fun hs hu hfacing heffect => Steady.next hu hfacing heffect hs) (h.steady hmapping) h.facing
    hkeep hrun).1
  refine opens_of_steady hA hfit hkey hfacing hsteady (.inl ?_) hspare
  rwa [filtering_run hrun]

private theorem Announced.opens_of_open (hA : A.Lawful) (hfit : frame.length ≤ maxPlaintext)
    (h : t.Announced key ports) (hopen : (t.peer s.other).router.filtering = .any)
    (hlenient : (t.peer s).router.filtering ≠ .endpoint) (hrun : Run (Goes A w) t actions t')
    (hkeep : ∀ a ∈ actions, a.forgets = none) (hspare : t'.Spare) : t'.Opens A w key frame := by
  obtain ⟨hkey, hfacing⟩ := h.reach hrun
  have hwelcome := invariant_calm
    (fun hu hfacing heffect => Welcome.next hu hfacing heffect) (h.welcome hopen) h.facing hkeep hrun
  refine opens_of_welcome hA hfit hkey hfacing hwelcome ?_ hspare
  rwa [filtering_run hrun]

private theorem Announced.opens_of_compatible (hA : A.Lawful) (hfit : frame.length ≤ maxPlaintext)
    (h : t.Announced key ports)
    (hcompatible : (t.peer .here).router.Compatible (t.peer .there).router)
    (hrun : Run (Goes A w) t actions t') (hkeep : ∀ a ∈ actions, a.forgets = none)
    (hspare : t'.Spare) : t'.Opens A w key frame := by
  have hkeep' (s : Side) : ∀ a ∈ actions, a.forgets ≠ some s := fun a ha => by simp [hkeep a ha]
  rcases hcompatible with ⟨hhere, hthere⟩ | hhere | hthere | ⟨hopen, hlenient⟩ | ⟨hopen, hlenient⟩
  · obtain ⟨hkey, hfacing⟩ := h.reach hrun
    have hsteady {s : Side} (hmapping : (t.peer s).router.mapping = .any) :
        t'.Steady s (ports s) :=
      invariant_calm (fun hu hfacing heffect => Steady.next hu hfacing heffect (by simp))
        (h.steady hmapping) h.facing hkeep hrun
    exact opens_of_steady hA hfit hkey hfacing (hsteady hhere) (.inr ⟨_, hsteady hthere⟩) hspare
  · exact h.opens_of_anchors hA hfit hhere hrun (hkeep' .here) hspare
  · exact h.opens_of_anchors hA hfit hthere hrun (hkeep' .there) hspare
  · exact h.opens_of_open (s := .there) hA hfit hopen hlenient hrun hkeep hspare
  · exact h.opens_of_open (s := .here) hA hfit hopen hlenient hrun hkeep hspare

private theorem Announced.deaf_of_not_compatible (h : t.Announced key ports)
    (hcompatible : ¬ (t.peer .here).router.Compatible (t.peer .there).router)
    (hrun : Run (Goes A w) t actions t') (hkeep : ∀ a ∈ actions, a.forgets = none) :
    ∃ s, ∀ d ∈ t'.heard, d.sender ≠ s := by
  rcases Router.not_compatible hcompatible with
    ⟨hmapping, hfiltering⟩ | ⟨hmapping, hfiltering⟩ | ⟨hhere, hthere, hhost, hhost'⟩
  · have hdeaf := invariant_calm (fun hu hfacing heffect => Deaf.next hu hfacing heffect)
      (h.deaf (s := .here) hmapping hfiltering) h.facing hkeep hrun
    exact ⟨.there, hdeaf.heard⟩
  · have hdeaf := invariant_calm (fun hu hfacing heffect => Deaf.next hu hfacing heffect)
      (h.deaf (s := .there) hmapping hfiltering) h.facing hkeep hrun
    exact ⟨.here, hdeaf.heard⟩
  · have hapart := invariant_calm (fun hu hfacing heffect => Apart.next hu hfacing heffect)
      (h.apart (fun s => by cases s <;> assumption) (fun s => by cases s <;> assumption))
      h.facing hkeep hrun
    refine ⟨.here, fun d hd => ?_⟩
    rw [hapart.heard] at hd
    cases hd

end Path

/-- Hole punching succeeds exactly if the two routers are compatible: both keep one outer port,
or one does and lets in known hosts from any port, or one lets in everybody and the other known
hosts. Then from every state that a run can reach, whatever was lost, repeated or refused, a few
punches (with a key, a few frames) make each side heard by the other, and nothing either sends is
refused any more. Otherwise one of the two is never heard. A router of the second kind finds the
other side again even when the one there keeps changing its ports. -/
theorem punching_succeeds_iff {A : Aead} {w : SizeT} (hA : A.Lawful) {frame : Bytes}
    (hfit : frame.length ≤ maxPlaintext) {start : Path} {key : Option Key} {ports : Side → UInt16}
    (hstart : start.Announced key ports) :
    (∀ actions t, Run (Path.Goes A w) start actions t → (∀ a ∈ actions, a.forgets = none) →
      ((start.peer .here).router.Compatible (start.peer .there).router → t.Spare →
        t.Opens A w key frame) ∧
      (¬ (start.peer .here).router.Compatible (start.peer .there).router →
        ∃ s, ∀ d ∈ t.heard, d.sender ≠ s)) ∧
    ∀ s, (start.peer s).router.Anchors → ∀ actions t, Run (Path.Goes A w) start actions t →
      (∀ a ∈ actions, a.forgets ≠ some s) → t.Spare → t.Opens A w key frame := by
  refine ⟨fun actions t hrun hkeep => ⟨fun hcompatible hspare => ?_, fun hcompatible => ?_⟩,
    fun s hanchors actions t hrun hkeep hspare => ?_⟩
  · exact hstart.opens_of_compatible hA hfit hcompatible hrun hkeep hspare
  · exact hstart.deaf_of_not_compatible hcompatible hrun hkeep
  · exact hstart.opens_of_anchors hA hfit hanchors hrun hkeep hspare

/-- Two ports without a key. The router here keeps its port, the one there takes a new port for
every endpoint and lets in none but the endpoint itself. -/
def homeAndCampus (filtering : Scope) : Path where
  peer
    | .here => ⟨⟨⟨0x0a000002, 5000⟩, none⟩, 0x0a000001,
        ⟨.any, filtering, [⟨5000, ⟨0x08080808, 19302⟩⟩]⟩⟩
    | .there => ⟨⟨⟨0x0a000001, 5000⟩, none⟩, 0x0a000002,
        ⟨.endpoint, .endpoint, [⟨5000, ⟨0x08080808, 19302⟩⟩]⟩⟩
  flight := []
  heard := []
  refused := []

private theorem homeAndCampus_announced (filtering : Scope) :
    (homeAndCampus filtering).Announced none fun _ => 5000 where
  key s := by cases s <;> rfl
  remote s := by cases s <;> rfl
  session s := by
    have hserver : (0x08080808 : UInt32) ≠ 0x0a000001 ∧ (0x08080808 : UInt32) ≠ 0x0a000002 := by
      decide
    cases s
    · exact ⟨_, hserver.2, rfl⟩
    · exact ⟨_, hserver.1, rfl⟩
  flight := rfl
  heard := rfl

/-- A router that lets in known hosts finds the other side although that changes its port in the
middle; one that lets in none but known endpoints never hears it. -/
theorem punching_succeeds_iff_symmetric :
    (∃ t, Run (Path.Goes zeroTag .bits64) (homeAndCampus .host)
        [.punch .there 6001, .expire .there ⟨6001, ⟨0x0a000001, 5000⟩⟩, .punch .there 6002] t ∧
      t.Opens zeroTag .bits64 none [1]) ∧
    ∀ actions t, Run (Path.Goes zeroTag .bits64) (homeAndCampus .endpoint) actions t →
      (∀ a ∈ actions, a.forgets = none) → ∃ s, ∀ d ∈ t.heard, d.sender ≠ s := by
  constructor
  · obtain ⟨t, hrun, hcheck⟩ := Run.exists_of_check (Path.step zeroTag .bits64)
      (homeAndCampus .host)
      [.punch .there 6001, .expire .there ⟨6001, ⟨0x0a000001, 5000⟩⟩, .punch .there 6002]
      (fun t => ¬ (t.peer .here).router.Uses 1 ∧ ¬ (t.peer .there).router.Uses 1)
      (by decide +kernel)
    obtain ⟨hhere, hthere⟩ := of_decide_eq_true hcheck
    refine ⟨t, hrun, (punching_succeeds_iff zeroTag_lawful (by decide)
      (homeAndCampus_announced .host)).2 .here ⟨rfl, by decide⟩ _ t hrun (by decide) fun s => ?_⟩
    cases s
    · exact ⟨1, hhere⟩
    · exact ⟨1, hthere⟩
  · intro actions t hrun hkeep
    have hfit : ([1] : Bytes).length ≤ maxPlaintext := by decide
    refine ((punching_succeeds_iff zeroTag_lawful hfit (homeAndCampus_announced .endpoint)).1
      actions t hrun hkeep).2 ?_
    rintro (⟨-, h⟩ | ⟨-, h⟩ | ⟨h, -⟩ | ⟨h, -⟩ | ⟨h, -⟩)
    · cases h
    · exact h rfl
    · cases h
    · cases h
    · cases h

end VSwitch
