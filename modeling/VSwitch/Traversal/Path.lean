import Mathlib.Logic.Function.Basic
import VSwitch.Lib.Runs
import VSwitch.Lib.Translation
import VSwitch.Network.PortLearning
import VSwitch.Switch.Datagrams

/-! The way between two peers that are both behind a router. The sockets are those of the
switches; the routers translate addresses and let in what they take for an answer. -/
namespace VSwitch
open Lib

/-- The two ends of a link. -/
inductive Side where
  | here
  | there
  deriving DecidableEq

namespace Side

def other : Side → Side
  | here => there
  | there => here

@[simp] theorem other_other (s : Side) : s.other.other = s := by cases s <;> rfl

@[simp] theorem other_ne (s : Side) : s.other ≠ s := by cases s <;> decide

theorem eq_or_other (s s' : Side) : s' = s ∨ s' = s.other := by
  cases s <;> cases s' <;> decide

end Side

/-- A socket, the public address of the router before it, and that router. -/
structure RoutedPort where
  port : UdpPort
  addr : UInt32
  router : Router SockAddr UInt16

/-- A datagram between the routers. -/
structure Packet where
  sender : Side
  src : SockAddr
  dst : SockAddr
  payload : Bytes
  deriving DecidableEq

/-- The two peers and what is between them. The rest is history: which datagrams of the other
side the routers have let in, and which not. -/
structure Path where
  peer : Side → RoutedPort
  flight : List Packet
  heard : List Packet
  refused : List Packet

/-- `fresh` is the outer port that a router takes if it needs a new one. -/
inductive PathAction where
  | punch (s : Side) (fresh : UInt16)
  | write (s : Side) (frame : Bytes) (nonce : Nonce) (fresh : UInt16)
  | arrive (d : Packet)
  | stray (s : Side) (src : SockAddr) (outer : UInt16) (payload : Bytes)
  | lose (d : Packet)
  | duplicate (d : Packet)
  | expire (s : Side) (session : Session SockAddr UInt16)

def PathAction.forgets : PathAction → Option Side
  | .expire s _ => some s
  | _ => none

namespace Path

/-- The peer on side `s` has changed. -/
def set (t : Path) (s : Side) (p : RoutedPort) : Path := { t with peer := Function.update t.peer s p }

/-- The socket of `s` has sent a datagram, which leaves its router. -/
def send (t : Path) (s : Side) (sent : Sent) (fresh : UInt16) : Path :=
  let p := t.peer s
  let outer := p.router.portTo SockAddr.addr sent.dst fresh
  { t.set s { p with router := p.router.afterSend SockAddr.addr sent.dst fresh } with
    flight := t.flight ++ [⟨s, ⟨p.addr, outer⟩, sent.dst, sent.payload⟩] }

/-- The router of `s` can translate what its socket sends. -/
def CanSend (t : Path) (s : Side) (fresh : UInt16) : Prop :=
  (t.peer s).router.Available SockAddr.addr (t.peer s).port.remoteAddr fresh

instance (t : Path) (s : Side) (fresh : UInt16) : Decidable (t.CanSend s fresh) :=
  inferInstanceAs (Decidable ((t.peer s).router.Available _ _ _))

/-- The router on the other side takes the datagram for an answer. -/
def LetsIn (t : Path) (d : Packet) : Prop :=
  d.dst.addr = (t.peer d.sender.other).addr ∧
    (t.peer d.sender.other).router.Admits SockAddr.addr d.dst.port d.src

instance (t : Path) (d : Packet) : Decidable (t.LetsIn d) :=
  inferInstanceAs (Decidable (_ ∧ (t.peer d.sender.other).router.Admits _ _ _))

/-- The other side's socket is now `port`, after it has read the datagram. -/
def hear (t : Path) (d : Packet) (port : UdpPort) : Path :=
  let r := d.sender.other
  { t.set r { t.peer r with port := port } with
    flight := t.flight.erase d
    heard := t.heard ++ [d] }

def refuse (t : Path) (d : Packet) : Path :=
  { t with
    flight := t.flight.erase d
    refused := t.refused ++ [d] }

/-- The router of `s` has forgotten a session. -/
def forget (t : Path) (s : Side) (session : Session SockAddr UInt16) : Path :=
  let p := t.peer s
  t.set s { p with router := { p.router with sessions := p.router.sessions.erase session } }

variable (A : Aead) (w : SizeT)

/-- What the socket of `s` becomes when it reads a datagram. -/
def afterRead (t : Path) (s : Side) (src : SockAddr) (payload : Bytes) : UdpPort :=
  ((t.peer s).port.read A w (.datagram src payload) maxFrameSize).1

/-- Strangers do not have the address of a peer. -/
def step (t : Path) : PathAction → Option Path
  | .punch s fresh =>
    if t.CanSend s fresh then
      some ((t.peer s).port.keepalive.foldl (fun t sent => t.send s sent fresh) t)
    else none
  | .write s frame nonce fresh =>
    if t.CanSend s fresh then
      match (t.peer s).port.write A nonce frame with
      | .ok sent => some (t.send s sent fresh)
      | .error _ => none
    else none
  | .arrive d =>
    if d ∈ t.flight then
      if t.LetsIn d then some (t.hear d (t.afterRead A w d.sender.other d.src d.payload))
      else some (t.refuse d)
    else none
  | .stray s src outer payload =>
    if src.addr = (t.peer s).port.remoteAddr.addr then none
    else if (t.peer s).router.Admits SockAddr.addr outer src then
      some (t.set s { t.peer s with port := t.afterRead A w s src payload })
    else some t
  | .lose d => if d ∈ t.flight then some { t with flight := t.flight.erase d } else none
  | .duplicate d => if d ∈ t.flight then some { t with flight := d :: t.flight } else none
  | .expire s session =>
    if session ∈ (t.peer s).router.sessions then some (t.forget s session) else none

def Goes (t : Path) (a : PathAction) (t' : Path) : Prop := t.step A w a = some t'

/-- All that a step can do to the two peers. -/
inductive Moves (t : Path) : Option Side → Path → Prop
  | send (s : Side) (payload : Bytes) (fresh : UInt16) (h : t.CanSend s fresh) :
      Moves t none (t.send s ⟨(t.peer s).port.remoteAddr, payload⟩ fresh)
  | hear (d : Packet) (port : UdpPort) (hd : d ∈ t.flight) (hin : t.LetsIn d)
      (hport : port = (t.peer d.sender.other).port ∨
        port = (t.peer d.sender.other).port.setPort d.src.port) : Moves t none (t.hear d port)
  | refuse (d : Packet) (hd : d ∈ t.flight) (hout : ¬ t.LetsIn d) : Moves t none (t.refuse d)
  | quiet (t' : Path) (hpeer : t'.peer = t.peer) (hflight : ∀ d ∈ t'.flight, d ∈ t.flight)
      (hheard : t'.heard = t.heard) (hrefused : t'.refused = t.refused) : Moves t none t'
  | forget (s : Side) (session : Session SockAddr UInt16) : Moves t (some s) (t.forget s session)

section Effects
variable (t : Path) (s : Side) (p : RoutedPort) (sent : Sent) (fresh : UInt16) (d d' : Packet)
variable (port : UdpPort) (session : Session SockAddr UInt16)

@[simp] theorem peer_set_self : (t.set s p).peer s = p := by
  simp only [set, Function.update_self]

@[simp] theorem peer_set_other : (t.set s p).peer s.other = t.peer s.other := by
  simp only [set, ne_eq, Side.other_ne, not_false_eq_true, Function.update_of_ne]

@[simp] theorem peer_send_self : (t.send s sent fresh).peer s =
    { t.peer s with router := (t.peer s).router.afterSend SockAddr.addr sent.dst fresh } :=
  t.peer_set_self s _

@[simp] theorem peer_send_other : (t.send s sent fresh).peer s.other = t.peer s.other :=
  t.peer_set_other s _

@[simp] theorem peer_hear_self : (t.hear d port).peer d.sender = t.peer d.sender := by
  have h := t.peer_set_other d.sender.other { t.peer d.sender.other with port := port }
  rwa [Side.other_other] at h

@[simp] theorem peer_hear_other :
    (t.hear d port).peer d.sender.other = { t.peer d.sender.other with port := port } :=
  t.peer_set_self d.sender.other _

@[simp] theorem peer_refuse : (t.refuse d).peer = t.peer := rfl

@[simp] theorem peer_forget_self : (t.forget s session).peer s = { t.peer s with
    router := { (t.peer s).router with sessions := (t.peer s).router.sessions.erase session } } :=
  t.peer_set_self s _

@[simp] theorem peer_forget_other : (t.forget s session).peer s.other = t.peer s.other :=
  t.peer_set_other s _

variable {t s sent fresh d d' port session}

private theorem mem_flight_send (h : d ∈ (t.send s sent fresh).flight) : d ∈ t.flight ∨
    d = ⟨s, ⟨(t.peer s).addr, (t.peer s).router.portTo SockAddr.addr sent.dst fresh⟩, sent.dst,
      sent.payload⟩ := by
  rcases List.mem_append.mp h with h | h
  · exact .inl h
  · exact .inr (List.mem_singleton.mp h)

private theorem mem_flight_hear (h : d' ∈ (t.hear d port).flight) :
    d' ∈ t.flight :=
  List.mem_of_mem_erase h

private theorem mem_flight_refuse (h : d' ∈ (t.refuse d).flight) :
    d' ∈ t.flight :=
  List.mem_of_mem_erase h

end Effects

section Steps
variable {A : Aead} {w : SizeT} {t t' : Path} {a : PathAction}

private theorem afterRead_eq (s : Side) (src : SockAddr) (payload : Bytes) :
    t.afterRead A w s src payload = (t.peer s).port ∨
      t.afterRead A w s src payload = (t.peer s).port.setPort src.port := by
  unfold afterRead
  rw [UdpPort.read_learns]
  cases hlearns : PortEvent.learns A maxFrameSize (t.peer s).port.remoteAddr (t.peer s).port.key
      (.read (.datagram src payload)) with
  | none => exact .inl rfl
  | some port =>
    right
    unfold PortEvent.learns at hlearns
    cases hkey : (t.peer s).port.key with
    | none =>
      simp only [hkey] at hlearns
      split_ifs at hlearns
      cases hlearns
      rfl
    | some key =>
      simp only [hkey, Option.map_eq_some_iff] at hlearns
      obtain ⟨-, -, rfl⟩ := hlearns
      rfl

theorem Goes.moves (h : t.Goes A w a t') : t.Moves a.forgets t' := by
  unfold Goes step at h
  cases a with
  | punch s fresh =>
    simp only [Option.ite_none_right_eq_some] at h
    obtain ⟨hsend, ht⟩ := h
    cases ht
    exact .send s _ fresh hsend
  | write s frame nonce fresh =>
    simp only [Option.ite_none_right_eq_some] at h
    obtain ⟨hsend, h⟩ := h
    cases hwrite : (t.peer s).port.write A nonce frame with
    | error fault =>
      rw [hwrite] at h
      cases h
    | ok sent =>
      rw [hwrite] at h
      cases h
      rw [(UdpPort.write_eq hwrite).1]
      exact .send s _ fresh hsend
  | arrive d =>
    simp only [Option.ite_none_right_eq_some] at h
    obtain ⟨hd, h⟩ := h
    split_ifs at h with hin
    · cases h
      exact .hear d _ hd hin (afterRead_eq _ _ _)
    · cases h
      exact .refuse d hd hin
  | stray s src outer payload =>
    simp only at h
    split_ifs at h with haddr hin
    · cases h
      refine .quiet _ ?_ (fun d hd => hd) rfl rfl
      have hread : t.afterRead A w s src payload = (t.peer s).port := by
        unfold afterRead
        rw [UdpPort.read_foreign A w _ src payload maxFrameSize haddr]
        rfl
      rw [hread]
      exact Function.update_eq_self s t.peer
    · cases h
      exact .quiet t rfl (fun d hd => hd) rfl rfl
  | lose d =>
    simp only [Option.ite_none_right_eq_some] at h
    obtain ⟨-, ht⟩ := h
    cases ht
    exact .quiet _ rfl (fun d' hd' => List.mem_of_mem_erase hd') rfl rfl
  | duplicate d =>
    simp only [Option.ite_none_right_eq_some] at h
    obtain ⟨hd, ht⟩ := h
    cases ht
    exact .quiet _ rfl (List.forall_mem_cons.mpr ⟨hd, fun d' hd' => hd'⟩) rfl rfl
  | expire s session =>
    simp only [Option.ite_none_right_eq_some] at h
    obtain ⟨-, ht⟩ := h
    cases ht
    exact .forget s session

end Steps

/-- The outer endpoint from which `s` sends to its peer. -/
def outer (t : Path) (s : Side) (fresh : UInt16) : SockAddr :=
  ⟨(t.peer s).addr,
    (t.peer s).router.portTo SockAddr.addr (t.peer s).port.remoteAddr fresh⟩

/-- What a step changes, seen from either side: the port moves only to where a datagram let in
came from, and what is new in a router or in flight was sent to where the port points. -/
structure Effect (t : Path) (forgets : Option Side) (t' : Path) : Prop where
  addr : ∀ s, (t'.peer s).addr = (t.peer s).addr
  mapping : ∀ s, (t'.peer s).router.mapping = (t.peer s).router.mapping
  filtering : ∀ s, (t'.peer s).router.filtering = (t.peer s).router.filtering
  key : ∀ s, (t'.peer s).port.key = (t.peer s).port.key
  port : ∀ s, (t'.peer s).port = (t.peer s).port ∨
    ∃ d ∈ t.flight, d.sender = s.other ∧ t.LetsIn d ∧
      (t'.peer s).port = (t.peer s).port.setPort d.src.port
  session : ∀ s, ∀ x ∈ (t'.peer s).router.sessions, x ∈ (t.peer s).router.sessions ∨
    ∃ fresh, t.CanSend s fresh ∧ x = ⟨(t.outer s fresh).port, (t.peer s).port.remoteAddr⟩
  kept : ∀ s, forgets ≠ some s → ∀ x ∈ (t.peer s).router.sessions, x ∈ (t'.peer s).router.sessions
  consistent : ∀ s, (t.peer s).router.Consistent SockAddr.addr →
    (t'.peer s).router.Consistent SockAddr.addr
  flight : ∀ d ∈ t'.flight, d ∈ t.flight ∨
    ∃ fresh, t.CanSend d.sender fresh ∧ d.src = t.outer d.sender fresh ∧
      d.dst = (t.peer d.sender).port.remoteAddr ∧
      ⟨d.src.port, d.dst⟩ ∈ (t'.peer d.sender).router.sessions
  heard : ∀ d ∈ t'.heard, d ∈ t.heard ∨ (d ∈ t.flight ∧ t.LetsIn d)
  refused : t'.refused = t.refused ∨ ∃ d ∈ t.flight, ¬ t.LetsIn d

section Effects
variable {t t' : Path} {forgets : Option Side}

private theorem Effect.of_send (s : Side) (payload : Bytes) (fresh : UInt16)
    (h : t.CanSend s fresh) :
    t.Effect none (t.send s ⟨(t.peer s).port.remoteAddr, payload⟩ fresh) where
  addr s' := by obtain rfl | rfl := Side.eq_or_other s s' <;> simp
  mapping s' := by obtain rfl | rfl := Side.eq_or_other s s' <;> simp
  filtering s' := by obtain rfl | rfl := Side.eq_or_other s s' <;> simp
  key s' := by obtain rfl | rfl := Side.eq_or_other s s' <;> simp
  port s' := by obtain rfl | rfl := Side.eq_or_other s s' <;> simp
  session s' x hx := by
    obtain rfl | rfl := Side.eq_or_other s s'
    · rw [peer_send_self] at hx
      rcases Router.mem_afterSend.mp hx with rfl | hold
      · exact .inr ⟨fresh, h, rfl⟩
      · exact .inl hold
    · rw [peer_send_other] at hx
      exact .inl hx
  kept s' _ x hx := by
    obtain rfl | rfl := Side.eq_or_other s s'
    · rw [peer_send_self]
      exact Router.mem_afterSend.mpr (.inr hx)
    · rwa [peer_send_other]
  consistent s' hs := by
    obtain rfl | rfl := Side.eq_or_other s s'
    · rw [peer_send_self]
      exact hs.afterSend
    · rwa [peer_send_other]
  flight d hd := by
    rcases mem_flight_send hd with hold | rfl
    · exact .inl hold
    · refine .inr ⟨fresh, h, rfl, rfl, ?_⟩
      rw [peer_send_self]
      exact Router.mem_afterSend.mpr (.inl rfl)
  heard d hd := .inl hd
  refused := .inl rfl

private theorem Effect.of_hear (d : Packet) (port : UdpPort) (hd : d ∈ t.flight) (hin : t.LetsIn d)
    (hport : port = (t.peer d.sender.other).port ∨
      port = (t.peer d.sender.other).port.setPort d.src.port) :
    t.Effect none (t.hear d port) where
  addr s' := by obtain rfl | rfl := Side.eq_or_other d.sender s' <;> simp
  mapping s' := by obtain rfl | rfl := Side.eq_or_other d.sender s' <;> simp
  filtering s' := by obtain rfl | rfl := Side.eq_or_other d.sender s' <;> simp
  key s' := by
    obtain rfl | rfl := Side.eq_or_other d.sender s'
    · rw [peer_hear_self]
    · rw [peer_hear_other]
      rcases hport with rfl | rfl <;> rfl
  port s' := by
    obtain rfl | rfl := Side.eq_or_other d.sender s'
    · exact .inl (by rw [peer_hear_self])
    · rw [peer_hear_other]
      rcases hport with rfl | rfl
      · exact .inl rfl
      · exact .inr ⟨d, hd, (Side.other_other _).symm, hin, rfl⟩
  session s' x hx := by
    obtain rfl | rfl := Side.eq_or_other d.sender s'
    · rw [peer_hear_self] at hx
      exact .inl hx
    · rw [peer_hear_other] at hx
      exact .inl hx
  kept s' _ x hx := by
    obtain rfl | rfl := Side.eq_or_other d.sender s'
    · rwa [peer_hear_self]
    · rwa [peer_hear_other]
  consistent s' hs := by
    obtain rfl | rfl := Side.eq_or_other d.sender s'
    · rwa [peer_hear_self]
    · rwa [peer_hear_other]
  flight d' hd' := .inl (mem_flight_hear hd')
  heard d' hd' := by
    rcases List.mem_append.mp hd' with hold | hnew
    · exact .inl hold
    · rw [List.mem_singleton.mp hnew]
      exact .inr ⟨hd, hin⟩
  refused := .inl rfl

private theorem Effect.of_forget (s : Side) (session : Session SockAddr UInt16) :
    t.Effect (some s) (t.forget s session) where
  addr s' := by obtain rfl | rfl := Side.eq_or_other s s' <;> simp
  mapping s' := by obtain rfl | rfl := Side.eq_or_other s s' <;> simp
  filtering s' := by obtain rfl | rfl := Side.eq_or_other s s' <;> simp
  key s' := by obtain rfl | rfl := Side.eq_or_other s s' <;> simp
  port s' := by obtain rfl | rfl := Side.eq_or_other s s' <;> simp
  session s' x hx := by
    obtain rfl | rfl := Side.eq_or_other s s'
    · rw [peer_forget_self] at hx
      exact .inl (List.mem_of_mem_erase hx)
    · rw [peer_forget_other] at hx
      exact .inl hx
  kept s' hs' x hx := by
    obtain rfl | rfl := Side.eq_or_other s s'
    · exact absurd rfl hs'
    · rwa [peer_forget_other]
  consistent s' hs := by
    obtain rfl | rfl := Side.eq_or_other s s'
    · rw [peer_forget_self]
      intro x hx x' hx'
      exact hs x (List.mem_of_mem_erase hx) x' (List.mem_of_mem_erase hx')
    · rwa [peer_forget_other]
  flight d hd := .inl hd
  heard d hd := .inl hd
  refused := .inl rfl

private theorem Effect.of_peer_eq (hpeer : t'.peer = t.peer)
    (hflight : ∀ d ∈ t'.flight, d ∈ t.flight) (hheard : t'.heard = t.heard)
    (hrefused : t'.refused = t.refused ∨ ∃ d ∈ t.flight, ¬ t.LetsIn d) : t.Effect none t' where
  addr _ := by rw [hpeer]
  mapping _ := by rw [hpeer]
  filtering _ := by rw [hpeer]
  key _ := by rw [hpeer]
  port _ := .inl (by rw [hpeer])
  session _ _ hx := .inl (by rwa [hpeer] at hx)
  kept _ _ _ hx := by rwa [hpeer]
  consistent _ hs := by rwa [hpeer]
  flight d hd := .inl (hflight d hd)
  heard _ hd := .inl (by rwa [hheard] at hd)
  refused := hrefused

theorem Moves.effect (h : t.Moves forgets t') : t.Effect forgets t' := by
  cases h with
  | send s payload fresh h => exact .of_send s payload fresh h
  | hear d port hd hin hport => exact .of_hear d port hd hin hport
  | refuse d hd hout =>
    exact .of_peer_eq rfl (fun d' hd' => mem_flight_refuse hd') rfl (.inr ⟨d, hd, hout⟩)
  | quiet t' hpeer hflight hheard hrefused => exact .of_peer_eq hpeer hflight hheard (.inl hrefused)
  | forget s session => exact .of_forget s session

end Effects
end Path
end VSwitch
