import Mathlib.Data.Multiset.AddSub
import Mathlib.Tactic.Abel
import VSwitch.Lib.Runs
import VSwitch.Tunnel.Ends

/-! The tunnel as a whole: both ends, the datagrams between them, and a helper that is stopped
and started again and comes from another port each time. -/
namespace VSwitch
open Lib

/-- The two ends and the datagrams in flight. The rest is history: what each device gave and got,
where a helper was started, and what others sent to the relay and to a helper. -/
structure Tunnel where
  relay : Relay
  helper : Option SockAddr
  toRelay : List Datagram
  toHelper : List Datagram
  hostSent : List Bytes
  hostGot : List Bytes
  containerSent : List Bytes
  containerGot : List Bytes
  launched : List SockAddr
  strays : List Datagram
  straysBack : List Bytes
  deriving DecidableEq

inductive TunnelAction where
  | launch (addr : SockAddr)
  | kill
  | helperTurn (poll : HelperPoll)
  | relayTurn (packet : Option Bytes) (datagram : Option Datagram)
  | stray (d : Datagram)
  | strayBack (payload : Bytes)
  | loseInbound (d : Datagram)
  | loseOutbound (d : Datagram)
  | repeatInbound (d : Datagram)
  | repeatOutbound (d : Datagram)
  deriving DecidableEq

def TunnelAction.single : TunnelAction → Bool
  | .repeatInbound _ => false
  | .repeatOutbound _ => false
  | _ => true

def TunnelAction.reliable : TunnelAction → Bool
  | .loseInbound _ => false
  | .loseOutbound _ => false
  | a => a.single

private theorem TunnelAction.single_of_reliable {a : TunnelAction} (h : a.reliable = true) :
    a.single = true := by
  cases a <;> first | rfl | exact h

def TunnelAction.calm : TunnelAction → Bool
  | .launch _ => false
  | .kill => false
  | .stray _ => false
  | _ => true

namespace Tunnel

def start : Tunnel := ⟨.start, none, [], [], [], [], [], [], [], [], []⟩

/-- The helper at `addr` has had its turn. -/
def afterHelper (t : Tunnel) (addr : SockAddr) (poll : HelperPoll) : Tunnel :=
  let turn := Helper.turn poll
  { t with
    toRelay := t.toRelay ++ turn.sent.map fun p => ⟨addr, p⟩
    toHelper := poll.payload.elim t.toHelper fun p => t.toHelper.erase ⟨addr, p⟩
    hostSent := t.hostSent ++ poll.frame.toList
    hostGot := t.hostGot ++ turn.written }

def afterRelay (t : Tunnel) (packet : Option Bytes) (datagram : Option Datagram) : Tunnel :=
  let turn := t.relay.turn packet datagram
  { t with
    relay := turn.relay
    toRelay := datagram.elim t.toRelay t.toRelay.erase
    toHelper := t.toHelper ++ turn.sent
    containerSent := t.containerSent ++ packet.toList
    containerGot := t.containerGot ++ turn.written }

/-- A helper that starts says hello first. It gets only what is addressed to it, whoever sent it:
its socket is not connected. -/
def step (t : Tunnel) : TunnelAction → Option Tunnel
  | .launch addr => some { t with
      helper := some addr
      toRelay := t.toRelay ++ [⟨addr, Helper.hello⟩]
      launched := t.launched ++ [addr] }
  | .kill => some { t with helper := none }
  | .helperTurn poll =>
    match t.helper with
    | none => none
    | some addr =>
      if poll.payload.all fun p => t.toHelper.contains ⟨addr, p⟩ then
        some (t.afterHelper addr poll)
      else none
  | .relayTurn packet datagram =>
    if datagram.all t.toRelay.contains then some (t.afterRelay packet datagram) else none
  | .stray d => some { t with toRelay := t.toRelay ++ [d], strays := t.strays ++ [d] }
  | .strayBack payload => t.helper.map fun addr => { t with
      toHelper := t.toHelper ++ [⟨addr, payload⟩]
      straysBack := t.straysBack ++ [payload] }
  | .loseInbound d =>
    if d ∈ t.toRelay then some { t with toRelay := t.toRelay.erase d } else none
  | .loseOutbound d =>
    if d ∈ t.toHelper then some { t with toHelper := t.toHelper.erase d } else none
  | .repeatInbound d => if d ∈ t.toRelay then some { t with toRelay := d :: t.toRelay } else none
  | .repeatOutbound d =>
    if d ∈ t.toHelper then some { t with toHelper := d :: t.toHelper } else none

def Goes (t : Tunnel) (a : TunnelAction) (t' : Tunnel) : Prop := t.step a = some t'

/-- What `tun0` has got, and what it gets when all that is in flight arrives. -/
def inward (t : Tunnel) : Multiset Bytes :=
  t.containerGot + (t.toRelay.flatMap fun d => Relay.toTun d.payload : List Bytes)

/-- What `tun0` should get: the packets of the host, and those that others send. -/
def inwardDue (t : Tunnel) : Multiset Bytes :=
  (t.hostSent.flatMap packetOf : List Bytes) +
    (t.strays.flatMap fun d => Relay.toTun d.payload : List Bytes)

/-- Whether the running helper can still receive a datagram. -/
def reachable (t : Tunnel) (d : Datagram) : Bool := t.helper = some d.peer

/-- What the utun device has got, and what it gets when all that is in flight to the running
helper arrives. -/
def outward (t : Tunnel) : Multiset Bytes :=
  t.hostGot + ((t.toHelper.filter t.reachable).flatMap fun d => Helper.toUtun d.payload : List Bytes)

/-- What is in flight to helpers that have stopped. -/
def stale (t : Tunnel) : Multiset Bytes :=
  ((t.toHelper.filter fun d => !t.reachable d).flatMap fun d => Helper.toUtun d.payload : List Bytes)

/-- What the utun device should get: the packets of the container, and what others send. -/
def outwardDue (t : Tunnel) : Multiset Bytes :=
  (t.containerSent.flatMap frameOf : List Bytes) + (t.straysBack.flatMap Helper.toUtun : List Bytes)

variable {t t' : Tunnel} {a : TunnelAction} {d : Datagram} {addr : SockAddr}

private theorem step_helperTurn {poll : HelperPoll} :
    t.step (.helperTurn poll) = some t' ↔ ∃ addr, t.helper = some addr ∧
      (∀ p ∈ poll.payload, ⟨addr, p⟩ ∈ t.toHelper) ∧ t.afterHelper addr poll = t' := by
  unfold step
  cases t.helper with
  | none => simp
  | some addr => cases hpayload : poll.payload <;> simp [Option.ite_none_right_eq_some, hpayload]

private theorem step_relayTurn {packet : Option Bytes} {datagram : Option Datagram} :
    t.step (.relayTurn packet datagram) = some t' ↔
      (∀ d ∈ datagram, d ∈ t.toRelay) ∧ t.afterRelay packet datagram = t' := by
  unfold step
  cases datagram <;> simp [Option.ite_none_right_eq_some]

private theorem step_strayBack {payload : Bytes} :
    t.step (.strayBack payload) = some t' ↔ ∃ addr, t.helper = some addr ∧
      { t with
        toHelper := t.toHelper ++ [⟨addr, payload⟩]
        straysBack := t.straysBack ++ [payload] } = t' := Option.map_eq_some_iff

section Accounts
variable {poll : HelperPoll} {packet : Option Bytes} {datagram : Option Datagram}
variable {lost more out outMore : Multiset Bytes}

/-- What the utun device has got, and all that is in flight to any helper. -/
private def afloat (t : Tunnel) : Multiset Bytes :=
  t.hostGot + (t.toHelper.flatMap fun d => Helper.toUtun d.payload : List Bytes)

private theorem outward_add_stale (t : Tunnel) : t.outward + t.stale = t.afloat := by
  have hsplit := (List.filter_append_perm t.reachable t.toHelper).flatMap_right
    fun d => Helper.toUtun d.payload
  rw [List.flatMap_append] at hsplit
  rw [outward, stale, afloat, add_assoc, Multiset.coe_add (_ : List Bytes) (_ : List Bytes),
    Multiset.coe_eq_coe.mpr hsplit]

/-- What happens between two states: `lost` never gets to `tun0`, `out` not to the host. -/
structure Account (t t' : Tunnel) (lost out : Multiset Bytes) : Prop where
  inward : t'.inward + lost + t.inwardDue = t.inward + t'.inwardDue
  afloat : t'.afloat + out + t.outwardDue = t.afloat + t'.outwardDue

theorem Account.refl (t : Tunnel) : Account t t 0 0 := ⟨by rw [add_zero], by rw [add_zero]⟩

private theorem chain {got got' got'' due due' due'' : Multiset Bytes}
    (h : got' + lost + due = got + due') (h' : got'' + more + due' = got' + due'') :
    got'' + (lost + more) + due = got + due'' := by
  have hsum := congrArg₂ (· + ·) h h'
  apply add_right_cancel (b := got' + due')
  calc got'' + (lost + more) + due + (got' + due')
      = got' + lost + due + (got'' + more + due') := by abel
    _ = got + due' + (got' + due'') := hsum
    _ = got + due'' + (got' + due') := by abel

theorem Account.trans {t'' : Tunnel} (h : Account t t' lost out) (h' : Account t' t'' more outMore) :
    Account t t'' (lost + more) (out + outMore) :=
  ⟨chain h.inward h'.inward, chain h.afloat h'.afloat⟩

private theorem settle {flight : List Datagram} (h : d ∈ flight) (f : Datagram → List Bytes) :
    (f d + (flight.erase d).flatMap f : Multiset Bytes) = (flight.flatMap f : List Bytes) := by
  rw [Multiset.coe_add, Multiset.coe_eq_coe]
  exact ((List.perm_cons_erase h).flatMap_right f).symm

private theorem account_helper (h : ∀ p ∈ poll.payload, ⟨addr, p⟩ ∈ t.toHelper) :
    Account t (t.afterHelper addr poll) 0 0 := by
  have hsent : ((Helper.turn poll).sent.map fun p => (⟨addr, p⟩ : Datagram)).flatMap
      (fun d => Relay.toTun d.payload) = poll.frame.toList.flatMap packetOf := by
    rw [List.flatMap_map, Helper.sent_turn, inbound_eq]
  constructor
  · simp only [inward, inwardDue, afterHelper, List.flatMap_append, ← Multiset.coe_add, hsent]
    abel
  · have hgot : (t.afterHelper addr poll).afloat = t.afloat := by
      simp only [Tunnel.afloat, afterHelper, Helper.written_turn]
      cases hpayload : poll.payload with
      | none => simp only [Option.elim_none, List.append_nil]
      | some p =>
        have hflight := settle (h p hpayload) fun d => Helper.toUtun d.payload
        simp only [Option.elim_some, ← Multiset.coe_add]
        rw [add_assoc, hflight]
    rw [hgot, add_zero]
    rfl

private theorem account_relay (packet : Option Bytes) (h : ∀ d ∈ datagram, d ∈ t.toRelay) :
    ∃ out, Account t (t.afterRelay packet datagram) 0 out ∧
      (t.relay.haveMac = true → out = 0) := by
  have hgot : (t.afterRelay packet datagram).inward = t.inward := by
    unfold inward afterRelay Relay.turn
    cases datagram with
    | none => simp
    | some d =>
      have hflight := settle (h d rfl) fun d => Relay.toTun d.payload
      simp only [Option.elim_some, ← Multiset.coe_add]
      rw [add_assoc, hflight]
  have hsent : ∃ out : Multiset Bytes,
      ((packet.elim [] t.relay.fromTun).flatMap fun d => Helper.toUtun d.payload : List Bytes) + out =
        (packet.toList.flatMap frameOf : List Bytes) ∧ (t.relay.haveMac = true → out = 0) := by
    cases packet with
    | none => exact ⟨0, rfl, fun _ => rfl⟩
    | some packet =>
      simp only [Option.elim_some, Relay.fromTun_outbound, outbound_eq, Option.toList_some,
        List.flatMap_singleton]
      split_ifs with hmac
      · exact ⟨0, add_zero _, fun _ => rfl⟩
      · exact ⟨frameOf packet, zero_add _, fun h => absurd h hmac⟩
  obtain ⟨out, hout, hnone⟩ := hsent
  refine ⟨out, ⟨?_, ?_⟩, hnone⟩
  · rw [hgot, add_zero]
    rfl
  · simp only [Tunnel.afloat, outwardDue, afterRelay, Relay.turn, List.flatMap_append, ← Multiset.coe_add,
      ← hout]
    abel

private theorem account_step (hsingle : a.single = true) (hstep : t.step a = some t') :
    ∃ lost out, Account t t' lost out ∧
      (a.reliable = true → lost = 0 ∧ (t.relay.haveMac = true → out = 0)) := by
  cases a with
  | launch addr =>
    cases hstep
    refine ⟨0, 0, ⟨?_, (Account.refl t).afloat⟩, fun _ => ⟨rfl, fun _ => rfl⟩⟩
    have hhello : Relay.toTun Helper.hello = [] := rfl
    simp only [inward, inwardDue, List.flatMap_append, List.flatMap_singleton, hhello,
      List.append_nil, add_zero]
  | kill =>
    cases hstep
    exact ⟨0, 0, ⟨(Account.refl t).inward, (Account.refl t).afloat⟩, fun _ => ⟨rfl, fun _ => rfl⟩⟩
  | helperTurn poll =>
    obtain ⟨addr, -, hpayload, rfl⟩ := step_helperTurn.mp hstep
    exact ⟨0, 0, account_helper hpayload, fun _ => ⟨rfl, fun _ => rfl⟩⟩
  | relayTurn packet datagram =>
    obtain ⟨hdatagram, rfl⟩ := step_relayTurn.mp hstep
    obtain ⟨out, haccount, hnone⟩ := account_relay packet hdatagram
    exact ⟨0, out, haccount, fun _ => ⟨rfl, hnone⟩⟩
  | stray d =>
    cases hstep
    refine ⟨0, 0, ⟨?_, (Account.refl t).afloat⟩, fun _ => ⟨rfl, fun _ => rfl⟩⟩
    simp only [inward, inwardDue, List.flatMap_append, ← Multiset.coe_add]
    abel
  | strayBack payload =>
    obtain ⟨addr, -, rfl⟩ := step_strayBack.mp hstep
    refine ⟨0, 0, ⟨(Account.refl t).inward, ?_⟩, fun _ => ⟨rfl, fun _ => rfl⟩⟩
    simp only [Tunnel.afloat, outwardDue, List.flatMap_append, List.flatMap_singleton,
      ← Multiset.coe_add]
    abel
  | loseInbound d =>
    obtain ⟨hd, ht⟩ := Option.ite_none_right_eq_some.mp hstep
    cases ht
    refine ⟨Relay.toTun d.payload, 0, ⟨?_, (Account.refl t).afloat⟩, fun h => by cases h⟩
    simp only [inward, inwardDue, ← settle hd fun d => Relay.toTun d.payload]
    abel
  | loseOutbound d =>
    obtain ⟨hd, ht⟩ := Option.ite_none_right_eq_some.mp hstep
    cases ht
    refine ⟨0, Helper.toUtun d.payload, ⟨(Account.refl t).inward, ?_⟩, fun h => by cases h⟩
    simp only [Tunnel.afloat, outwardDue, ← settle hd fun d => Helper.toUtun d.payload]
    abel
  | repeatInbound d => cases hsingle
  | repeatOutbound d => cases hsingle

private theorem haveMac_step (h : t.relay.haveMac = true) (hstep : t.step a = some t') :
    t'.relay.haveMac = true := by
  cases a with
  | relayTurn packet datagram =>
    obtain ⟨-, rfl⟩ := step_relayTurn.mp hstep
    cases datagram with
    | none => exact h
    | some d => simp [afterRelay, Relay.turn, Relay.receive, h]
  | helperTurn poll =>
    obtain ⟨addr, -, -, rfl⟩ := step_helperTurn.mp hstep
    exact h
  | launch addr => cases hstep; exact h
  | kill => cases hstep; exact h
  | stray d => cases hstep; exact h
  | strayBack payload =>
    obtain ⟨addr, -, rfl⟩ := step_strayBack.mp hstep
    exact h
  | loseInbound d => cases (Option.ite_none_right_eq_some.mp hstep).2; exact h
  | loseOutbound d => cases (Option.ite_none_right_eq_some.mp hstep).2; exact h
  | repeatInbound d => cases (Option.ite_none_right_eq_some.mp hstep).2; exact h
  | repeatOutbound d => cases (Option.ite_none_right_eq_some.mp hstep).2; exact h

private theorem account_run {actions : List TunnelAction} (hrun : Run Goes t actions t')
    (hsingle : ∀ a ∈ actions, a.single = true) :
    ∃ lost out, Account t t' lost out ∧ ((∀ a ∈ actions, a.reliable = true) →
      lost = 0 ∧ (t.relay.haveMac = true → out = 0)) := by
  induction actions generalizing t with
  | nil =>
    obtain rfl := Run.nil_iff.mp hrun
    exact ⟨0, 0, Account.refl t, fun _ => ⟨rfl, fun _ => rfl⟩⟩
  | cons a actions ih =>
    obtain ⟨mid, hmid, hrest⟩ := hrun
    obtain ⟨lost, out, hfirst, hnone⟩ := account_step (hsingle a List.mem_cons_self) hmid
    obtain ⟨more, outMore, hlater, hnothing⟩ :=
      ih hrest fun b hb => hsingle b (List.mem_cons_of_mem _ hb)
    refine ⟨lost + more, out + outMore, hfirst.trans hlater, fun hreliable => ?_⟩
    obtain ⟨rfl, hout⟩ := hnone (hreliable a List.mem_cons_self)
    obtain ⟨rfl, hmore⟩ := hnothing fun b hb => hreliable b (List.mem_cons_of_mem _ hb)
    refine ⟨add_zero 0, fun hmac => ?_⟩
    rw [hout hmac, hmore (haveMac_step hmac hmid), add_zero]

/-- A device gets nothing but what it should, also where the network repeats it. -/
structure Told (t : Tunnel) : Prop where
  inward : t.inward ⊆ t.inwardDue
  afloat : t.afloat ⊆ t.outwardDue

private theorem due_le (hstep : t.step a = some t') :
    t.inwardDue ≤ t'.inwardDue ∧ t.outwardDue ≤ t'.outwardDue := by
  cases a with
  | helperTurn poll =>
    obtain ⟨addr, -, -, rfl⟩ := step_helperTurn.mp hstep
    refine ⟨?_, le_refl _⟩
    simp only [inwardDue, afterHelper, List.flatMap_append, ← Multiset.coe_add]
    exact add_le_add_left (Multiset.le_add_right _ _) _
  | relayTurn packet datagram =>
    obtain ⟨-, rfl⟩ := step_relayTurn.mp hstep
    refine ⟨le_refl _, ?_⟩
    simp only [outwardDue, afterRelay, List.flatMap_append, ← Multiset.coe_add]
    exact add_le_add_left (Multiset.le_add_right _ _) _
  | stray d =>
    cases hstep
    refine ⟨?_, le_refl _⟩
    simp only [inwardDue, List.flatMap_append, ← Multiset.coe_add]
    exact add_le_add_right (Multiset.le_add_right _ _) _
  | strayBack payload =>
    obtain ⟨addr, -, rfl⟩ := step_strayBack.mp hstep
    refine ⟨le_refl _, ?_⟩
    simp only [outwardDue, List.flatMap_append, ← Multiset.coe_add]
    exact add_le_add_right (Multiset.le_add_right _ _) _
  | launch addr => cases hstep; exact ⟨le_refl _, le_refl _⟩
  | kill => cases hstep; exact ⟨le_refl _, le_refl _⟩
  | loseInbound d =>
    cases (Option.ite_none_right_eq_some.mp hstep).2
    exact ⟨le_refl _, le_refl _⟩
  | loseOutbound d =>
    cases (Option.ite_none_right_eq_some.mp hstep).2
    exact ⟨le_refl _, le_refl _⟩
  | repeatInbound d =>
    cases (Option.ite_none_right_eq_some.mp hstep).2
    exact ⟨le_refl _, le_refl _⟩
  | repeatOutbound d =>
    cases (Option.ite_none_right_eq_some.mp hstep).2
    exact ⟨le_refl _, le_refl _⟩

private theorem subset_of_account {got got' due due' : Multiset Bytes} (hgot : got ⊆ due)
    (hdue : due ≤ due') (h : got' + lost + due = got + due') : got' ⊆ due' := by
  intro p hp
  have hmem : p ∈ got + due' :=
    h ▸ Multiset.mem_add.mpr (.inl (Multiset.mem_add.mpr (.inl hp)))
  rcases Multiset.mem_add.mp hmem with hold | hnew
  · exact Multiset.mem_of_le hdue (hgot hold)
  · exact hnew

private theorem repeat_subset {flight : List Datagram} (hd : d ∈ flight)
    (f : Datagram → List Bytes) : (d :: flight).flatMap f ⊆ flight.flatMap f := by
  intro p hmem
  obtain ⟨d', hd', hp⟩ := List.mem_flatMap.mp hmem
  refine List.mem_flatMap.mpr ⟨d', ?_, hp⟩
  exact (List.mem_cons.mp hd').elim (fun hsame => hsame ▸ hd) id

private theorem told_step (h : Told t) (hstep : t.step a = some t') : Told t' := by
  by_cases hsingle : a.single = true
  · obtain ⟨lost, out, haccount, -⟩ := account_step hsingle hstep
    obtain ⟨hin, hout⟩ := due_le hstep
    exact ⟨subset_of_account h.inward hin haccount.inward,
      subset_of_account h.afloat hout haccount.afloat⟩
  · cases a with
    | repeatInbound d =>
      obtain ⟨hd, ht⟩ := Option.ite_none_right_eq_some.mp hstep
      cases ht
      refine ⟨fun p hp => h.inward ?_, h.afloat⟩
      exact Multiset.mem_add.mpr ((Multiset.mem_add.mp hp).imp_right fun hflight =>
        repeat_subset hd _ hflight)
    | repeatOutbound d =>
      obtain ⟨hd, ht⟩ := Option.ite_none_right_eq_some.mp hstep
      cases ht
      refine ⟨h.inward, fun p hp => h.afloat ?_⟩
      exact Multiset.mem_add.mpr ((Multiset.mem_add.mp hp).imp_right fun hflight =>
        repeat_subset hd _ hflight)
    | _ => exact absurd rfl hsingle

private theorem told_run {actions : List TunnelAction} (hrun : Run Goes .start actions t) :
    Told t :=
  hrun.invariant (fun h hstep => told_step h hstep)
    ⟨fun _ hp => absurd hp (Multiset.notMem_zero _), fun _ hp => absurd hp (Multiset.notMem_zero _)⟩

end Accounts

section ReturnPath

/-- Whoever is answered has sent something to the relay before. -/
structure Introduced (t : Tunnel) : Prop where
  inbound : ∀ d ∈ t.toRelay, d.peer ∈ t.launched ∨ d ∈ t.strays
  helper : ∀ addr ∈ t.helper, addr ∈ t.launched
  mac : t.relay.haveMac = true → t.relay.mac ∈ t.launched ∨ ∃ d ∈ t.strays, d.peer = t.relay.mac
  outbound : ∀ d ∈ t.toHelper, d.peer ∈ t.launched ∨ ∃ s ∈ t.strays, s.peer = d.peer

/-- The relay sends to the helper that runs, and nothing on its way can change that. -/
structure Bound (t : Tunnel) (addr : SockAddr) : Prop where
  helper : t.helper = some addr
  haveMac : t.relay.haveMac = true
  mac : t.relay.mac = addr
  inbound : ∀ d ∈ t.toRelay, d.peer = addr

private theorem mem_fromTun {r : Relay} {packet : Bytes} (h : d ∈ r.fromTun packet) :
    r.haveMac = true ∧ d.peer = r.mac := by
  unfold Relay.fromTun at h
  simp only at h
  split_ifs at h with hsent
  · rw [List.mem_singleton.mp h]
    exact ⟨hsent.2, rfl⟩
  · cases h

private theorem mem_afterRelay {packet : Option Bytes} {datagram : Option Datagram}
    (h : d ∈ (t.afterRelay packet datagram).toHelper) :
    d ∈ t.toHelper ∨ (t.relay.haveMac = true ∧ d.peer = t.relay.mac) := by
  rcases List.mem_append.mp h with hold | hnew
  · exact .inl hold
  · cases packet with
    | none => cases hnew
    | some packet => exact .inr (mem_fromTun hnew)

private theorem mem_of_afterHelper {poll : HelperPoll}
    (h : d ∈ (t.afterHelper addr poll).toHelper) :
    d ∈ t.toHelper := by
  unfold afterHelper at h
  cases hpayload : poll.payload with
  | none =>
    simp only [hpayload, Option.elim_none] at h
    exact h
  | some p =>
    simp only [hpayload, Option.elim_some] at h
    exact List.mem_of_mem_erase h

private theorem mem_of_elim_erase {datagram : Option Datagram} {flight : List Datagram}
    (h : d ∈ datagram.elim flight flight.erase) : d ∈ flight := by
  cases datagram with
  | none => exact h
  | some d' => exact List.mem_of_mem_erase h

private theorem introduced_start : Introduced start where
  inbound := fun _ h => absurd h List.not_mem_nil
  helper := fun _ h => by cases h
  mac := fun h => by cases h
  outbound := fun _ h => absurd h List.not_mem_nil

theorem Introduced.step (h : Introduced t) (hstep : t.step a = some t') : Introduced t' := by
  cases a with
  | launch addr =>
    cases hstep
    have hlaunched {s : SockAddr} (hs : s ∈ t.launched) : s ∈ t.launched ++ [addr] :=
      List.mem_append_left _ hs
    refine ⟨fun d hd => ?_, fun s hs => ?_, fun hmac => (h.mac hmac).imp_left hlaunched,
      fun d hd => (h.outbound d hd).imp_left hlaunched⟩
    · rcases List.mem_append.mp hd with hold | hnew
      · exact (h.inbound d hold).imp_left hlaunched
      · rw [List.mem_singleton.mp hnew]
        exact .inl (List.mem_append_right _ (List.mem_singleton_self _))
    · cases hs
      exact List.mem_append_right _ (List.mem_singleton_self _)
  | kill =>
    cases hstep
    exact ⟨h.inbound, fun _ hs => (by cases hs), h.mac, h.outbound⟩
  | helperTurn poll =>
    obtain ⟨addr, hhelper, -, rfl⟩ := step_helperTurn.mp hstep
    refine ⟨fun d hd => ?_, h.helper, h.mac, fun d hd => h.outbound d (mem_of_afterHelper hd)⟩
    rcases List.mem_append.mp hd with hold | hnew
    · exact h.inbound d hold
    · obtain ⟨p, -, rfl⟩ := List.mem_map.mp hnew
      exact .inl (h.helper addr hhelper)
  | relayTurn packet datagram =>
    obtain ⟨hdatagram, rfl⟩ := step_relayTurn.mp hstep
    refine ⟨fun d hd => h.inbound d (mem_of_elim_erase hd), h.helper, fun hmac => ?_, fun d hd => ?_⟩
    · cases datagram with
      | none => exact h.mac hmac
      | some d => exact (h.inbound d (hdatagram d rfl)).imp_right fun hstray => ⟨d, hstray, rfl⟩
    · rcases mem_afterRelay hd with hold | ⟨hmac, hpeer⟩
      · exact h.outbound d hold
      · rw [hpeer]
        exact h.mac hmac
  | stray s =>
    cases hstep
    have hstrays {d : Datagram} (hd : d ∈ t.strays) : d ∈ t.strays ++ [s] :=
      List.mem_append_left _ hd
    refine ⟨fun d hd => ?_, h.helper,
      fun hmac => (h.mac hmac).imp_right fun ⟨d, hd, hpeer⟩ => ⟨d, hstrays hd, hpeer⟩,
      fun d hd => (h.outbound d hd).imp_right fun ⟨d', hd', hpeer⟩ => ⟨d', hstrays hd', hpeer⟩⟩
    rcases List.mem_append.mp hd with hold | hnew
    · exact (h.inbound d hold).imp_right hstrays
    · exact .inr (List.mem_append_right _ hnew)
  | strayBack payload =>
    obtain ⟨addr, hhelper, rfl⟩ := step_strayBack.mp hstep
    refine ⟨h.inbound, h.helper, h.mac, fun d hd => ?_⟩
    rcases List.mem_append.mp hd with hold | hnew
    · exact h.outbound d hold
    · rw [List.mem_singleton.mp hnew]
      exact .inl (h.helper addr hhelper)
  | loseInbound d =>
    cases (Option.ite_none_right_eq_some.mp hstep).2
    exact ⟨fun d' hd' => h.inbound d' (List.mem_of_mem_erase hd'), h.helper, h.mac, h.outbound⟩
  | loseOutbound d =>
    cases (Option.ite_none_right_eq_some.mp hstep).2
    exact ⟨h.inbound, h.helper, h.mac, fun d' hd' => h.outbound d' (List.mem_of_mem_erase hd')⟩
  | repeatInbound d =>
    obtain ⟨hd, ht⟩ := Option.ite_none_right_eq_some.mp hstep
    cases ht
    exact ⟨List.forall_mem_cons.mpr ⟨h.inbound d hd, h.inbound⟩, h.helper, h.mac, h.outbound⟩
  | repeatOutbound d =>
    obtain ⟨hd, ht⟩ := Option.ite_none_right_eq_some.mp hstep
    cases ht
    exact ⟨h.inbound, h.helper, h.mac, List.forall_mem_cons.mpr ⟨h.outbound d hd, h.outbound⟩⟩

/-- While the helper runs undisturbed, the relay goes on sending to it. -/
theorem Bound.step (h : Bound t addr) (hcalm : a.calm = true) (hstep : t.step a = some t') :
    Bound t' addr ∧ ∀ d ∈ t'.toHelper, d ∈ t.toHelper ∨ d.peer = addr := by
  have hmac := haveMac_step h.haveMac hstep
  cases a with
  | launch addr => cases hcalm
  | kill => cases hcalm
  | stray d => cases hcalm
  | helperTurn poll =>
    obtain ⟨addr', hhelper, -, rfl⟩ := step_helperTurn.mp hstep
    cases h.helper.symm.trans hhelper
    refine ⟨⟨h.helper, hmac, h.mac, fun d hd => ?_⟩, fun d hd => .inl (mem_of_afterHelper hd)⟩
    rcases List.mem_append.mp hd with hold | hnew
    · exact h.inbound d hold
    · obtain ⟨p, -, rfl⟩ := List.mem_map.mp hnew
      rfl
  | relayTurn packet datagram =>
    obtain ⟨hdatagram, rfl⟩ := step_relayTurn.mp hstep
    refine ⟨⟨h.helper, hmac, ?_, fun d hd => h.inbound d (mem_of_elim_erase hd)⟩, fun d hd => ?_⟩
    · cases datagram with
      | none => exact h.mac
      | some d => exact h.inbound d (hdatagram d rfl)
    · exact (mem_afterRelay hd).imp_right fun hsent => hsent.2.trans h.mac
  | strayBack payload =>
    obtain ⟨addr', hhelper, rfl⟩ := step_strayBack.mp hstep
    cases h.helper.symm.trans hhelper
    refine ⟨⟨h.helper, hmac, h.mac, h.inbound⟩, fun d hd => ?_⟩
    rcases List.mem_append.mp hd with hold | hnew
    · exact .inl hold
    · rw [List.mem_singleton.mp hnew]
      exact .inr rfl
  | loseInbound d =>
    cases (Option.ite_none_right_eq_some.mp hstep).2
    exact ⟨⟨h.helper, hmac, h.mac, fun d' hd' => h.inbound d' (List.mem_of_mem_erase hd')⟩,
      fun d' hd' => .inl hd'⟩
  | loseOutbound d =>
    cases (Option.ite_none_right_eq_some.mp hstep).2
    exact ⟨⟨h.helper, hmac, h.mac, h.inbound⟩, fun d' hd' => .inl (List.mem_of_mem_erase hd')⟩
  | repeatInbound d =>
    obtain ⟨hd, ht⟩ := Option.ite_none_right_eq_some.mp hstep
    cases ht
    exact ⟨⟨h.helper, hmac, h.mac, List.forall_mem_cons.mpr ⟨h.inbound d hd, h.inbound⟩⟩,
      fun d' hd' => .inl hd'⟩
  | repeatOutbound d =>
    obtain ⟨hd, ht⟩ := Option.ite_none_right_eq_some.mp hstep
    cases ht
    exact ⟨⟨h.helper, hmac, h.mac, h.inbound⟩,
      List.forall_mem_cons.mpr ⟨.inl hd, fun d' hd' => .inl hd'⟩⟩

private theorem Bound.stale_step (h : Bound t addr) (hcalm : a.calm = true)
    (hreliable : a.reliable = true) (hstep : t.step a = some t') : t'.stale = t.stale := by
  have hown {d : Datagram} (hd : d.peer = addr) : (!t.reachable d) = false := by
    simp [reachable, h.helper, hd]
  have hfilter {u : Tunnel} (hhelper : u.helper = t.helper)
      (hsame : u.toHelper.filter (fun d => !t.reachable d) =
        t.toHelper.filter fun d => !t.reachable d) : u.stale = t.stale := by
    simp only [stale, reachable, hhelper] at hsame ⊢
    rw [hsame]
  cases a with
  | launch addr => cases hcalm
  | kill => cases hcalm
  | stray d => cases hcalm
  | loseInbound d => cases hreliable
  | loseOutbound d => cases hreliable
  | repeatInbound d => cases hreliable
  | repeatOutbound d => cases hreliable
  | helperTurn poll =>
    obtain ⟨addr', hhelper, -, rfl⟩ := step_helperTurn.mp hstep
    cases h.helper.symm.trans hhelper
    refine hfilter rfl ?_
    cases hpayload : poll.payload with
    | none => simp only [afterHelper, hpayload, Option.elim_none]
    | some p =>
      have hnot : (⟨addr, p⟩ : Datagram) ∉ t.toHelper.filter fun d => !t.reachable d := fun hmem =>
        absurd (List.mem_filter.mp hmem).2 (by simp [hown (d := ⟨addr, p⟩) rfl])
      simp only [afterHelper, hpayload, Option.elim_some]
      rw [← List.erase_filter, List.erase_of_not_mem hnot]
  | relayTurn packet datagram =>
    obtain ⟨-, rfl⟩ := step_relayTurn.mp hstep
    refine hfilter rfl ?_
    have hnew : ((t.relay.turn packet datagram).sent.filter fun d => !t.reachable d) = [] := by
      refine List.filter_eq_nil_iff.mpr fun d hd => ?_
      cases packet with
      | none => cases hd
      | some packet => simp [hown ((mem_fromTun hd).2.trans h.mac)]
    simp only [afterRelay, List.filter_append, hnew, List.append_nil]
  | strayBack payload =>
    obtain ⟨addr', hhelper, rfl⟩ := step_strayBack.mp hstep
    cases h.helper.symm.trans hhelper
    refine hfilter rfl ?_
    simp [hown (d := ⟨addr, payload⟩) rfl]

private theorem bound_run {later : List TunnelAction} (h : Bound t addr)
    (hrun : Run Goes t later t') (hcalm : ∀ a ∈ later, a.calm = true) :
    Bound t' addr ∧ ∀ d ∈ t'.toHelper, d ∈ t.toHelper ∨ d.peer = addr := by
  refine hrun.invariant_of
    (I := fun u => Bound u addr ∧ ∀ d ∈ u.toHelper, d ∈ t.toHelper ∨ d.peer = addr)
    (P := fun a => a.calm = true) ?_ ⟨h, fun d hd => .inl hd⟩ hcalm
  rintro u a u' ⟨hu, hsent⟩ ha hstep
  obtain ⟨hu', hnew⟩ := hu.step ha hstep
  exact ⟨hu', fun d hd => (hnew d hd).elim (hsent d) .inr⟩

private theorem bound_delivers {later : List TunnelAction} (h : Bound t addr)
    (hrun : Run Goes t later t')
    (hcalm : ∀ a ∈ later, a.calm = true) (hreliable : ∀ a ∈ later, a.reliable = true) :
    t'.outward + t.outwardDue = t.outward + t'.outwardDue := by
  have hstale : Bound t' addr ∧ t'.stale = t.stale := by
    refine hrun.invariant_of (I := fun u => Bound u addr ∧ u.stale = t.stale)
      (P := fun a => a.calm = true ∧ a.reliable = true) ?_ ⟨h, rfl⟩
      fun a ha => ⟨hcalm a ha, hreliable a ha⟩
    rintro u a u' ⟨hu, hsame⟩ ⟨ha, hr⟩ hstep
    exact ⟨(hu.step ha hstep).1, (hu.stale_step ha hr hstep).trans hsame⟩
  obtain ⟨lost, out, haccount, hnone⟩ :=
    account_run hrun fun a ha => TunnelAction.single_of_reliable (hreliable a ha)
  obtain rfl := (hnone hreliable).2 h.haveMac
  have hafloat := haccount.afloat
  rw [← outward_add_stale, ← outward_add_stale, hstale.2, add_zero] at hafloat
  refine add_right_cancel (b := t.stale) ?_
  calc t'.outward + t.outwardDue + t.stale
      = t'.outward + t.stale + t.outwardDue := by abel
    _ = t.outward + t.stale + t'.outwardDue := hafloat
    _ = t.outward + t'.outwardDue + t.stale := by abel

/-- The relay takes what is in flight, in turn. -/
theorem exists_drained (t : Tunnel) :
    ∃ later t', Run Goes t later t' ∧ (∀ a ∈ later, a.calm = true ∧ a.reliable = true) ∧
      t'.toRelay = [] ∧ t'.helper = t.helper := by
  induction hflight : t.toRelay generalizing t with
  | nil => exact ⟨[], t, rfl, by simp, hflight, rfl⟩
  | cons d flight ih =>
    have hturn : t.step (.relayTurn none (some d)) = some (t.afterRelay none (some d)) :=
      step_relayTurn.mpr ⟨by simp [hflight], rfl⟩
    have hrest : (t.afterRelay none (some d)).toRelay = flight := by
      simp [afterRelay, hflight]
    obtain ⟨later, t', hrun, hcalm, hempty, hhelper⟩ := ih _ hrest
    exact ⟨.relayTurn none (some d) :: later, t', ⟨_, hturn, hrun⟩,
      List.forall_mem_cons.mpr ⟨⟨rfl, rfl⟩, hcalm⟩, hempty, hhelper⟩

private theorem exists_bound (hhelper : t.helper = some addr) :
    ∃ later t', Run Goes t later t' ∧ (∀ a ∈ later, a.calm = true ∧ a.reliable = true) ∧
      Bound t' addr := by
  obtain ⟨later, mid, hrun, hcalm, hempty, hsame⟩ := exists_drained t
  have hidle : mid.step (.helperTurn .timeout) = some (mid.afterHelper addr .timeout) :=
    step_helperTurn.mpr ⟨addr, hsame.trans hhelper, by simp [HelperPoll.payload], rfl⟩
  have hflight : (mid.afterHelper addr .timeout).toRelay = [⟨addr, Helper.hello⟩] := by
    simp [afterHelper, Helper.turn, hempty]
  have hturn : (mid.afterHelper addr .timeout).step (.relayTurn none (some ⟨addr, Helper.hello⟩)) =
      some ((mid.afterHelper addr .timeout).afterRelay none (some ⟨addr, Helper.hello⟩)) :=
    step_relayTurn.mpr ⟨by simp [hflight], rfl⟩
  refine ⟨_, _, (hrun.concat hidle).concat hturn, ?_, ⟨hsame.trans hhelper, ?_, rfl, ?_⟩⟩
  · intro a ha
    simp only [List.append_assoc, List.mem_append, List.mem_singleton] at ha
    rcases ha with hlater | rfl | rfl
    · exact hcalm a hlater
    · exact ⟨rfl, rfl⟩
    · exact ⟨rfl, rfl⟩
  · simp [afterRelay, Relay.turn, Relay.receive, Helper.hello]
  · intro d hd
    simp [afterRelay, hflight] at hd

end ReturnPath

end Tunnel

/-- The tunnel carries what it is given, whatever the interleaving and however often the helper
is started anew. Each device gets the packets of the other end and those that others send there,
in the form it expects, and no packet twice unless the network repeats it. A reliable network
loses nothing on the way to `tun0`, from any state on. Only who has sent something is answered.
And from every state in which a helper runs, a hello brings the way back, which then stays, and
on which a reliable network loses nothing either. -/
theorem tunnel_carries {actions : List TunnelAction} {t : Tunnel}
    (hrun : Run Tunnel.Goes .start actions t) :
    (t.inward ⊆ t.inwardDue ∧ t.outward ⊆ t.outwardDue) ∧
    ((∀ a ∈ actions, a.single = true) → ∃ lost out,
      t.inward + lost = t.inwardDue ∧ t.outward + out = t.outwardDue ∧
        ((∀ a ∈ actions, a.reliable = true) → lost = 0)) ∧
    (∀ d ∈ t.toHelper, d.peer ∈ t.launched ∨ ∃ s ∈ t.strays, s.peer = d.peer) ∧
    (∀ later t', Run Tunnel.Goes t later t' → (∀ a ∈ later, a.reliable = true) →
      t'.inward + t.inwardDue = t.inward + t'.inwardDue) ∧
    ∀ addr, t.helper = some addr →
      (∃ later t', Run Tunnel.Goes t later t' ∧
        (∀ a ∈ later, a.calm = true ∧ a.reliable = true) ∧ t'.Bound addr) ∧
      (t.Bound addr → ∀ later t', Run Tunnel.Goes t later t' →
        (∀ a ∈ later, a.calm = true) →
        t'.Bound addr ∧ (∀ d ∈ t'.toHelper, d ∈ t.toHelper ∨ d.peer = addr) ∧
          ((∀ a ∈ later, a.reliable = true) →
            t'.outward + t.outwardDue = t.outward + t'.outwardDue)) := by
  refine ⟨⟨(Tunnel.told_run hrun).inward, fun p hp => (Tunnel.told_run hrun).afloat ?_⟩,
    fun hsingle => ?_, ?_, ?_, fun addr hhelper => ⟨Tunnel.exists_bound hhelper, ?_⟩⟩
  · rw [← Tunnel.outward_add_stale]
    exact Multiset.mem_add.mpr (.inl hp)
  · obtain ⟨lost, out, haccount, hnone⟩ := Tunnel.account_run hrun hsingle
    have hin := haccount.inward
    have hout := haccount.afloat
    rw [← Tunnel.outward_add_stale, ← Tunnel.outward_add_stale] at hout
    simp only [Tunnel.inwardDue, Tunnel.outwardDue, Tunnel.inward, Tunnel.outward, Tunnel.stale,
      Tunnel.start, List.filter_nil, List.flatMap_nil, Multiset.coe_nil, add_zero, zero_add]
      at hin hout
    refine ⟨lost, t.stale + out, hin, ?_, fun hreliable => (hnone hreliable).1⟩
    rw [← add_assoc]
    exact hout
  · exact (hrun.invariant (fun h hstep => h.step hstep) Tunnel.introduced_start).outbound
  · intro later t' hlater hreliable
    obtain ⟨lost, out, haccount, hnone⟩ := Tunnel.account_run hlater fun a ha =>
      TunnelAction.single_of_reliable (hreliable a ha)
    obtain ⟨rfl, -⟩ := hnone hreliable
    have hin := haccount.inward
    rwa [add_zero] at hin
  · intro hbound later t' hlater hcalm
    obtain ⟨hbound', hpeers⟩ := Tunnel.bound_run hbound hlater hcalm
    exact ⟨hbound', hpeers, Tunnel.bound_delivers hbound hlater hcalm⟩

/-- A packet each way, a stranger's datagram, and a helper that is started anew while both are on
their way to the old one. -/
theorem tunnel_carries_restart :
    let old : SockAddr := ⟨0x7f000001, 50001⟩
    let new : SockAddr := ⟨0x7f000001, 50002⟩
    let packet : Bytes := List.replicate 20 1
    ∃ t, Run Tunnel.Goes .start
        [.launch old, .relayTurn none (some ⟨old, Helper.hello⟩),
          .helperTurn (.ready (some (htonl afInet ++ packet)) none),
          .relayTurn (some packet) (some ⟨old, packet⟩), .strayBack [9], .launch new] t ∧
      t.containerGot = [packet] ∧ t.toHelper = [⟨old, packet⟩, ⟨old, [9]⟩] ∧
      t.inward = t.inwardDue ∧ t.outward = 0 ∧
      ∃ later t', Run Tunnel.Goes t later t' ∧ t'.Bound new := by
  intro old new packet
  obtain ⟨t, hrun, hcheck⟩ := Run.exists_of_check Tunnel.step .start
    [.launch old, .relayTurn none (some ⟨old, Helper.hello⟩),
      .helperTurn (.ready (some (htonl afInet ++ packet)) none),
      .relayTurn (some packet) (some ⟨old, packet⟩), .strayBack [9], .launch new]
    (fun t => t.containerGot = [packet] ∧ t.toHelper = [⟨old, packet⟩, ⟨old, [9]⟩] ∧
      t.helper = some new ∧ t.outward = 0)
    (by decide +kernel)
  obtain ⟨hgot, hsent, hhelper, hnone⟩ := of_decide_eq_true hcheck
  obtain ⟨-, haccount, -, -, hback⟩ := tunnel_carries hrun
  obtain ⟨lost, out, hin, -, hlost⟩ := haccount (by decide)
  have hall : t.inward = t.inwardDue := by rw [← hin, hlost (by decide), add_zero]
  obtain ⟨later, t', hlater, -, hbound⟩ := (hback new hhelper).1
  exact ⟨t, hrun, hgot, hsent, hall, hnone, later, t', hlater, hbound⟩

end VSwitch
