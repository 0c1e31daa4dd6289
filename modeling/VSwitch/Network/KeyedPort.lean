import VSwitch.Lib.Runs
import VSwitch.Network.UdpPort

/-! One UDP port over time. With a key, datagrams that do not decrypt leave no trace:
neither in what the switch is given, nor in the endpoint, nor in what is sent. -/
namespace VSwitch
open Lib

/-- What the switch does with a port, and what `recvfrom` finds when it reads. -/
inductive PortEvent where
  | read (recv : Recv)
  | write (frame : Bytes)
  | keepalive
  deriving DecidableEq

/-- A port, the frames handed to the loop body, the frames that `write` sent out with their
nonces, every datagram sent, and the fault of `write` that stopped the process. -/
structure PortLog where
  port : UdpPort
  delivered : List Bytes
  written : List (Nonce × Bytes)
  sent : List Sent
  halted : Option Fault
  deriving DecidableEq

namespace PortLog
variable (A : Aead) (w : SizeT) (size : Nat)

def start (u : UdpPort) : PortLog := ⟨u, [], [], u.punch 5, none⟩

/-- One event. The loop body is not entered when `len <= 0`; the nonce of the `n`th
transmission is `nonces n`. -/
def step (nonces : Nat → Nonce) (log : PortLog) (event : PortEvent) : PortLog :=
  if log.halted.isSome then log
  else match event with
    | .read recv =>
      let (port, result) := log.port.read A w recv size
      let frames := if result.ret ≤ 0 then [] else [result.copied]
      { log with port, delivered := log.delivered ++ frames }
    | .write frame =>
      let nonce := nonces log.sent.length
      match log.port.write A nonce frame with
      | .error fault => { log with halted := some fault }
      | .ok sent =>
        { log with written := log.written ++ [(nonce, frame)], sent := log.sent ++ [sent] }
    | .keepalive => { log with sent := log.sent ++ log.port.keepalive }

def run (nonces : Nat → Nonce) (u : UdpPort) (events : List PortEvent) : PortLog :=
  events.foldl (step A w size nonces) (start u)

end PortLog

/-- Strikes out the datagrams that come from another address, are malformed, or fail to
decrypt, and the failed reads. -/
def PortEvent.authentic (A : Aead) (size : Nat) (ip : UInt32) (key : Key) : PortEvent → Bool
  | .read .error => false
  | .read (.datagram src payload) => (UdpPort.opens A src payload size ip key).isSome
  | .write _ => true
  | .keepalive => true

namespace PortLog
variable {A : Aead} {w : SizeT} {size : Nat} {nonces nonces' : Nat → Nonce} {log log' : PortLog}
variable {ip : UInt32} {key : Key}

theorem step_keyedFor (h : log.port.KeyedFor ip key) (event : PortEvent) :
    (log.step A w size nonces event).port.KeyedFor ip key := by
  unfold step
  split
  · exact h
  · cases event with
    | read recv => exact h.read A w size recv
    | write frame =>
      simp only
      split <;> exact h
    | keepalive => exact h

private theorem step_inert (h : log.port.KeyedFor ip key) (event : PortEvent)
    (hevent : event.authentic A size ip key = false) : log.step A w size nonces event = log := by
  unfold step
  split
  · rfl
  · cases event with
    | read recv =>
      cases recv with
      | error => simp [UdpPort.read_error]
      | datagram src payload =>
        have hclosed : UdpPort.opens A src payload size log.port.remoteAddr.addr key = none := by
          rw [h.1]
          exact Option.isNone_iff_eq_none.mp (Option.isSome_eq_false_iff.mp hevent)
        simp [UdpPort.read_sealed _ _ _ _ _ _ h.2, hclosed, UdpPort.dropped]
    | write frame => cases hevent
    | keepalive => cases hevent

/-- A keyed port delivers a frame or moves only on a datagram that opens. -/
theorem step_opens (h : log.port.KeyedFor ip key) (event : PortEvent) :
    (log.step A w size nonces event).port = log.port ∧
        (log.step A w size nonces event).delivered = log.delivered ∨
      ∃ src payload plain, event = .read (.datagram src payload) ∧
        UdpPort.opens A src payload size ip key = some plain ∧
        (log.step A w size nonces event).port = log.port.setPort src.port ∧
        ∀ frame ∈ (log.step A w size nonces event).delivered,
          frame ∈ log.delivered ∨ frame = plain := by
  by_cases hkeep : event.authentic A size ip key = false
  · exact .inl (by rw [step_inert h event hkeep]; exact ⟨rfl, rfl⟩)
  · unfold step
    split_ifs
    · exact .inl ⟨rfl, rfl⟩
    · cases event with
      | read recv =>
        cases recv with
        | error => exact absurd rfl hkeep
        | datagram src payload =>
          rw [Bool.not_eq_false] at hkeep
          obtain ⟨plain, hopen⟩ := Option.isSome_iff_exists.mp hkeep
          have hopen' := hopen
          rw [← h.1] at hopen'
          simp only [UdpPort.read_sealed _ _ _ _ _ _ h.2, hopen']
          refine .inr ⟨src, payload, plain, rfl, hopen, rfl, fun frame hframe => ?_⟩
          rcases List.mem_append.mp hframe with hold | hnew
          · exact .inl hold
          · split_ifs at hnew
            · cases hnew
            · exact .inr (List.mem_singleton.mp hnew)
      | write frame =>
        simp only
        split <;> exact .inl ⟨rfl, rfl⟩
      | keepalive => exact .inl ⟨rfl, rfl⟩

/-- Equal but for the bytes of the datagrams sent. -/
def Alike (log log' : PortLog) : Prop :=
  log.port = log'.port ∧ log.delivered = log'.delivered ∧
    log.written.map Prod.snd = log'.written.map Prod.snd ∧
    log.sent.map Sent.dst = log'.sent.map Sent.dst ∧ log.halted = log'.halted

theorem Alike.step (h : log.Alike log') (hk : log.port.KeyedFor ip key) (event : PortEvent) :
    (log.step A w size nonces event).Alike (log'.step A w size nonces' event) := by
  obtain ⟨port, delivered, written, sent, halted⟩ := log
  obtain ⟨port', delivered', written', sent', halted'⟩ := log'
  obtain ⟨hport, hdelivered, hwritten, hsent, hhalted⟩ := h
  simp only at hport hdelivered hsent hhalted hk
  subst hport hdelivered hhalted
  cases halted with
  | some fault => exact ⟨rfl, rfl, hwritten, hsent, rfl⟩
  | none =>
    cases event with
    | read recv => exact ⟨rfl, rfl, hwritten, hsent, rfl⟩
    | write frame =>
      simp only [PortLog.step, UdpPort.write_sealed A _ hk.2]
      by_cases hlong : maxPlaintext < frame.length
      · simpa [hlong] using ⟨rfl, rfl, hwritten, hsent, rfl⟩
      · simpa [hlong, Alike] using ⟨hwritten, hsent⟩
    | keepalive => exact ⟨rfl, rfl, hwritten, by simp [PortLog.step, hsent], rfl⟩

private theorem run_purge {u : UdpPort} (h : u.KeyedFor ip key) (events : List PortEvent) :
    run A w size nonces u events =
      run A w size nonces u (events.filter fun event => event.authentic A size ip key) :=
  foldl_purge (fun _ event hlog => step_keyedFor hlog event)
    (fun _ event hlog => step_inert hlog event) h events

private theorem run_alike {u : UdpPort} (h : u.KeyedFor ip key) (events : List PortEvent) :
    (run A w size nonces u events).Alike (run A w size nonces' u events) := by
  have hrel := List.foldl_rel (r := fun l l' : PortLog => l.Alike l' ∧ l.port.KeyedFor ip key)
    (f := step A w size nonces) (g := step A w size nonces') (l := events) (a := start u)
    (b := start u) ⟨⟨rfl, rfl, rfl, rfl, rfl⟩, h⟩
    fun event _ l l' hl => ⟨hl.1.step hl.2 event, step_keyedFor hl.2 event⟩
  exact hrel.1

end PortLog

/-- A keyed port does not show the datagrams that fail to authenticate. Two runs that
agree on everything else deliver the same frames and send to the same endpoints, whatever
their nonces; a punch is among what is struck out. -/
theorem unauthenticated_invisible (A : Aead) (w : SizeT) (size : Nat) (remote : SockAddr)
    (key : Key) (nonces nonces' : Nat → Nonce) (events events' : List PortEvent)
    (h : events.filter (fun event => event.authentic A size remote.addr key) =
      events'.filter fun event => event.authentic A size remote.addr key) :
    let log := PortLog.run A w size nonces ⟨remote, some key⟩ events
    let log' := PortLog.run A w size nonces' ⟨remote, some key⟩ events'
    log.delivered = log'.delivered ∧ log.port.remoteAddr = log'.port.remoteAddr ∧
      log.sent.map Sent.dst = log'.sent.map Sent.dst ∧ log.halted = log'.halted ∧
      ∀ src, ∀ punch ∈ log.port.keepalive,
        (PortEvent.read (.datagram src punch.payload)).authentic A size remote.addr key = false := by
  intro log log'
  have hkeyed : UdpPort.KeyedFor ⟨remote, some key⟩ remote.addr key := ⟨rfl, rfl⟩
  have halike : log.Alike log' := by
    simp only [log, log', PortLog.run_purge hkeyed events, PortLog.run_purge hkeyed events', h]
    exact PortLog.run_alike hkeyed _
  obtain ⟨hport, hdelivered, -, hsent, hhalted⟩ := halike
  refine ⟨hdelivered, congrArg UdpPort.remoteAddr hport, hsent, hhalted, fun src punch hp => ?_⟩
  have hunframed : ¬ Framed [0, 0, 0, 0] := by decide
  obtain rfl := List.eq_of_mem_replicate hp
  rw [PortEvent.authentic, UdpPort.opens, if_neg fun hopen => hunframed hopen.2.1]
  rfl

/-- A punch from a remapped port and a forged datagram leave no trace. -/
theorem unauthenticated_invisible_forgery :
    let peer : UdpPort := ⟨⟨0x0a000002, 5000⟩, some fun _ => 7⟩
    let good := PortEvent.read (.datagram ⟨0x0a000002, 5000⟩
      (UdpPort.sealedPacket zeroTag.encrypt (fun _ => 7) (fun _ => 1) [1, 2, 3]))
    let punch := PortEvent.read (.datagram ⟨0x0a000002, 6000⟩ [0, 0, 0, 0])
    let forged := PortEvent.read (.datagram ⟨0x0a000002, 7000⟩
      (htonl 42 ++ List.replicate 24 0 ++ List.replicate 18 9))
    let noisy := PortLog.run zeroTag .bits64 1600 (fun _ _ => 1) peer
      [punch, good, forged, .write [4, 5]]
    let quiet := PortLog.run zeroTag .bits64 1600 (fun _ _ => 2) peer [good, .write [4, 5]]
    noisy.delivered = quiet.delivered ∧ noisy.port.remoteAddr = quiet.port.remoteAddr ∧
      quiet.delivered = [[1, 2, 3]] := by
  intro peer good punch forged noisy quiet
  have hpurged : [punch, good, forged, .write [4, 5]].filter
        (fun event => event.authentic zeroTag 1600 0x0a000002 fun _ => 7) =
      [good, .write [4, 5]].filter
        fun event => event.authentic zeroTag 1600 0x0a000002 fun _ => 7 := by
    decide +kernel
  have hdelivered : quiet.delivered = [[1, 2, 3]] := by decide +kernel
  obtain ⟨hframes, hremote, -⟩ := unauthenticated_invisible zeroTag .bits64 1600
    ⟨0x0a000002, 5000⟩ (fun _ => 7) (fun _ _ => 1) (fun _ _ => 2) _ _ hpurged
  exact ⟨hframes, hremote, hdelivered⟩

end VSwitch
