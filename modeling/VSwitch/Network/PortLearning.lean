import VSwitch.Lib.AgedTable
import VSwitch.Network.KeyedPort

/-! The endpoint that a port has learned. Whatever arrives in between, the history of the
datagrams from the configured address determines where everything is sent. -/
namespace VSwitch
open Lib

/-- The source port that an event teaches. Without a key, every non-empty datagram from the
peer's address teaches its own, well formed or not; with a key, it has to decrypt first. -/
def PortEvent.learns (A : Aead) (size : Nat) (remote : SockAddr) (key : Option Key) :
    PortEvent → Option UInt16
  | .read (.datagram src payload) =>
    match key with
    | none => if src.addr = remote.addr ∧ payload ≠ [] then some src.port else none
    | some key => (UdpPort.opens A src payload size remote.addr key).map fun _ => src.port
  | .read .error => none
  | .write _ => none
  | .keepalive => none

/-- The configured address, with the last port learned, or the configured port. -/
def endpoint (A : Aead) (size : Nat) (remote : SockAddr) (key : Option Key)
    (events : List PortEvent) : SockAddr :=
  ⟨remote.addr, (lastOf (PortEvent.learns A size remote key) events).getD remote.port⟩

namespace UdpPort
variable {A : Aead} {w : SizeT} {u : UdpPort} {src : SockAddr} {payload : Bytes} {size : Nat}

private theorem readPlain_fst (packet : Bytes) (frameLen : Nat) :
    (u.readPlain packet frameLen size).1 = u := by
  unfold readPlain
  split_ifs <;> rfl

private theorem readBody_plain_fst (hk : u.key = none) (srcPort : UInt16) (packet : Bytes)
    (frameLen : Nat) : (u.readBody A srcPort packet frameLen size).1 = u := by
  unfold readBody
  split
  · rename_i key hsome
    cases hk.symm.trans hsome
  · exact readPlain_fst packet frameLen

/-- Without a key the port is taken over before the framing is looked at. -/
theorem read_plain_fst (hk : u.key = none) :
    (u.read A w (.datagram src payload) size).1 =
      if src.addr = u.remoteAddr.addr ∧ payload ≠ [] then u.setPort src.port else u := by
  by_cases ha : src.addr = u.remoteAddr.addr
  · by_cases hne : payload = []
    · rw [hne, read_empty, if_neg fun h => h.2 rfl]
      rfl
    · have hpos := List.length_pos_iff.mpr hne
      have hmax : maxPacket = 1562 := rfl
      have hb : ¬ ((min payload.length maxPacket : Nat) : Int) ≤ 0 := by omega
      have hfollow := follow_plain u hk src.port
      have hkey : (u.setPort src.port).key = none := hk
      rw [if_pos ⟨ha, hne⟩]
      unfold read
      simp only [if_neg hb, ne_eq, ha, not_true_eq_false, if_false, hfollow]
      split_ifs
      · rfl
      · rfl
      · exact readBody_plain_fst hkey _ _ _
  · rw [read_foreign A w u src payload size ha, if_neg fun h => ha h.1]
    rfl

/-- A read moves the port to where the event teaches, and changes nothing else. -/
theorem read_learns (recv : Recv) :
    (u.read A w recv size).1 =
      match PortEvent.learns A size u.remoteAddr u.key (.read recv) with
      | some port => u.setPort port
      | none => u := by
  cases recv with
  | error => rfl
  | datagram src payload =>
    unfold PortEvent.learns
    rcases hk : u.key with _ | key
    · rw [read_plain_fst hk]
      simp only
      split_ifs <;> rfl
    · rw [read_sealed A w u src payload size hk]
      simp only
      cases opens A src payload size u.remoteAddr.addr key <;> rfl

end UdpPort

namespace PortLog
variable {A : Aead} {w : SizeT} {size : Nat} {nonces : Nat → Nonce} {remote : SockAddr}
variable {key : Option Key} {past served : List PortEvent} {event : PortEvent} {log : PortLog}

theorem run_concat (u : UdpPort) :
    run A w size nonces u (past ++ [event]) =
      (run A w size nonces u past).step A w size nonces event := by
  rw [run, List.foldl_append]
  rfl

private theorem learns_endpoint (hevent : event.learns A size remote key = none) :
    endpoint A size remote key (served ++ [event]) = endpoint A size remote key served := by
  rw [endpoint, endpoint, lastOf_concat, hevent, Option.none_or]

private theorem read_endpoint (served : List PortEvent) (recv : Recv) :
    (UdpPort.read A w ⟨endpoint A size remote key served, key⟩ recv size).1 =
      ⟨endpoint A size remote key (served ++ [.read recv]), key⟩ := by
  have hsame : PortEvent.learns A size (endpoint A size remote key served) key (.read recv) =
      PortEvent.learns A size remote key (.read recv) := rfl
  rw [UdpPort.read_learns, hsame]
  conv_rhs => rw [endpoint, lastOf_concat]
  cases PortEvent.learns A size remote key (.read recv) <;> rfl

/-- What a port looks like that has gone through `past`. The events behind an overflowing
`write` are not served any more. -/
def Learned (A : Aead) (size : Nat) (remote : SockAddr) (key : Option Key)
    (past : List PortEvent) (log : PortLog) : Prop :=
  ∃ served, served <+: past ∧ (log.halted = none → served = past) ∧
    log.port = ⟨endpoint A size remote key served, key⟩

theorem Learned.start (remote : SockAddr) (key : Option Key) :
    Learned A size remote key [] (start ⟨remote, key⟩) :=
  ⟨[], List.nil_prefix, fun _ => rfl, rfl⟩

theorem Learned.step (h : Learned A size remote key past log) (event : PortEvent) :
    Learned A size remote key (past ++ [event]) (log.step A w size nonces event) := by
  obtain ⟨served, hlead, hserved, hport⟩ := h
  have hlonger := hlead.trans (List.prefix_append past [event])
  unfold PortLog.step
  split_ifs with hhalted
  · refine ⟨served, hlonger, fun hnone => ?_, hport⟩
    rw [hnone] at hhalted
    cases hhalted
  · rw [Option.not_isSome_iff_eq_none] at hhalted
    obtain rfl := hserved hhalted
    cases event with
    | read recv =>
      refine ⟨_, List.prefix_rfl, fun _ => rfl, ?_⟩
      simp only [hport]
      exact read_endpoint served recv
    | write frame =>
      simp only
      cases log.port.write A (nonces log.sent.length) frame with
      | error fault => exact ⟨served, hlonger, by simp, hport⟩
      | ok sent =>
        refine ⟨_, List.prefix_rfl, fun _ => rfl, ?_⟩
        rw [learns_endpoint rfl]
        exact hport
    | keepalive =>
      refine ⟨_, List.prefix_rfl, fun _ => rfl, ?_⟩
      rw [learns_endpoint rfl]
      exact hport

private theorem run_learned (remote : SockAddr) (key : Option Key) (past : List PortEvent) :
    Learned A size remote key past (run A w size nonces ⟨remote, key⟩ past) := by
  induction past using List.reverseRecOn with
  | nil => exact Learned.start remote key
  | append_singleton past event ih =>
    rw [run_concat]
    exact ih.step event

private theorem step_halted (hnone : log.halted = none) (event : PortEvent)
    (hfits : ∀ frame, event = .write frame →
      log.port.key = none ∨ frame.length ≤ maxPlaintext) :
    (log.step A w size nonces event).halted = none := by
  unfold PortLog.step
  rw [if_neg (by simp [hnone])]
  cases event with
  | read recv => exact hnone
  | write frame =>
    simp only
    cases hwrite : log.port.write A (nonces log.sent.length) frame with
    | ok sent => exact hnone
    | error fault =>
      rcases hk : log.port.key with _ | key
      · rw [log.port.write_plain A hk] at hwrite
        cases hwrite
      · have hlen : frame.length ≤ maxPlaintext :=
          (hfits frame rfl).resolve_left (by simp [hk])
        rw [log.port.write_sealed A hk, if_neg (by omega)] at hwrite
        cases hwrite
  | keepalive => exact hnone

private theorem run_halted (remote : SockAddr) (hfits : key = none ∨
      ∀ frame, PortEvent.write frame ∈ past → frame.length ≤ maxPlaintext) :
    (run A w size nonces ⟨remote, key⟩ past).halted = none := by
  induction past using List.reverseRecOn with
  | nil => rfl
  | append_singleton past event ih =>
    have hbefore : key = none ∨
        ∀ frame, PortEvent.write frame ∈ past → frame.length ≤ maxPlaintext :=
      hfits.imp_right fun h frame hmem => h frame (List.mem_append_left _ hmem)
    have hlearned : Learned A size remote key past (run A w size nonces ⟨remote, key⟩ past) :=
      run_learned remote key past
    obtain ⟨served, -, -, hport⟩ := hlearned
    rw [run_concat]
    apply step_halted (ih hbefore) event
    rintro frame rfl
    rw [hport]
    exact hfits.imp_right fun h => h frame (List.mem_append_right _ (List.mem_singleton_self _))

private theorem write_dst {u : UdpPort} {nonce : Nonce} {frame : Bytes} {sent : Sent}
    (h : u.write A nonce frame = .ok sent) : sent.dst = u.remoteAddr := by
  rcases hk : u.key with _ | key
  · rw [u.write_plain A hk] at h
    cases h
    rfl
  · rw [u.write_sealed A hk] at h
    split_ifs at h
    cases h
    rfl

private theorem step_sent (A : Aead) (w : SizeT) (size : Nat) (nonces : Nat → Nonce) (log : PortLog)
    (event : PortEvent) :
    ∃ new, (log.step A w size nonces event).sent = log.sent ++ new ∧
      (new ≠ [] → log.halted = none) ∧ ∀ datagram ∈ new, datagram.dst = log.port.remoteAddr := by
  have hnothing : ∃ new, log.sent = log.sent ++ new ∧ (new ≠ [] → log.halted = none) ∧
      ∀ datagram ∈ new, datagram.dst = log.port.remoteAddr :=
    ⟨[], (List.append_nil _).symm, fun h => absurd rfl h, fun _ h => absurd h List.not_mem_nil⟩
  unfold PortLog.step
  split_ifs with hhalted
  · exact hnothing
  · rw [Option.not_isSome_iff_eq_none] at hhalted
    cases event with
    | read recv => exact hnothing
    | write frame =>
      simp only
      cases hwrite : log.port.write A (nonces log.sent.length) frame with
      | error fault => exact hnothing
      | ok sent =>
        refine ⟨[sent], rfl, fun _ => hhalted, fun datagram hmem => ?_⟩
        rw [List.mem_singleton.mp hmem]
        exact write_dst hwrite
    | keepalive =>
      refine ⟨log.port.keepalive, rfl, fun _ => hhalted, fun datagram hmem => ?_⟩
      rw [List.eq_of_mem_replicate hmem]

end PortLog

/-- Over every history, keyed or not: the peer's address stays the configured one, its port
is the last one learned, and every datagram goes to the endpoint of the moment it is sent. Only
an overflowing `write` with a key ends the history before its last event. -/
theorem sends_to_learned_endpoint (A : Aead) (w : SizeT) (size : Nat) (nonces : Nat → Nonce)
    (remote : SockAddr) (key : Option Key) (events : List PortEvent) :
    let after := PortLog.run A w size nonces ⟨remote, key⟩
    (after events).port.remoteAddr.addr = remote.addr ∧
    ((key = none ∨ ∀ frame, PortEvent.write frame ∈ events → frame.length ≤ maxPlaintext) →
      (after events).halted = none) ∧
    (∃ served, served <+: events ∧ ((after events).halted = none → served = events) ∧
      (after events).port.remoteAddr = endpoint A size remote key served) ∧
    (∀ punch ∈ (after []).sent, punch.dst = endpoint A size remote key []) ∧
    ∀ past event, past ++ [event] <+: events →
      ∃ new, (after (past ++ [event])).sent = (after past).sent ++ new ∧
        ∀ datagram ∈ new, datagram.dst = endpoint A size remote key past := by
  intro after
  have hlearned (past : List PortEvent) : PortLog.Learned A size remote key past (after past) :=
    PortLog.run_learned remote key past
  refine ⟨?_, PortLog.run_halted remote, ?_, ?_, ?_⟩
  · obtain ⟨served, -, -, hport⟩ := hlearned events
    exact congrArg (fun u => u.remoteAddr.addr) hport
  · obtain ⟨served, hlead, hserved, hport⟩ := hlearned events
    exact ⟨served, hlead, hserved, congrArg UdpPort.remoteAddr hport⟩
  · intro punch hpunch
    rw [List.eq_of_mem_replicate hpunch]
    rfl
  · intro past event hlead
    obtain ⟨served, -, hserved, hport⟩ := hlearned past
    obtain ⟨new, hsent, hopen, hdst⟩ := PortLog.step_sent A w size nonces (after past) event
    refine ⟨new, by rw [← hsent, ← PortLog.run_concat], fun datagram hmem => ?_⟩
    obtain rfl := hserved (hopen (List.ne_nil_of_mem hmem))
    rw [hdst datagram hmem, hport]

end VSwitch
