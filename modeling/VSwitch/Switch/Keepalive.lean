import VSwitch.Switch.Datagrams

/-! The loop of `run` against a clock: how long a socket stays silent. Times are
milliseconds; only `poll` and the pause after a punch take any. -/
namespace VSwitch
open Lib EthernetFrame

/-- The timeout that `run` gives to `poll`. -/
def pollTimeout : Nat := 2500
/-- `usleep(50000)` after each punch. -/
def punchPause : Nat := 50

/-- A return of `poll`: nothing came, or some ports became readable after `wait`. -/
inductive Wake (P : Type) where
  | timeout
  | ready (wait : Nat) (readings : List (Reading P))

def Wake.wait {P : Type} : Wake P → Nat
  | .timeout => pollTimeout
  | .ready wait _ => wait

/-- The loop, the time at which it enters `poll`, and when each socket last sent. -/
structure Timed (P : Type) where
  loop : EventLoop P
  clock : Nat
  lastSent : P → Nat

namespace EventLoop
variable {P : Type} [DecidableEq P]

/-- The inner loop of `run` over the readable ports, and the datagrams it sends. -/
def serveAll (A : Aead) (w : SizeT) (loop : EventLoop P) :
    List (Reading P) → Except Fault (EventLoop P × List (P × Sent))
  | [] => .ok (loop, [])
  | r :: readings => do
    let served ← loop.serve A w r
    let (last, sent) ← served.loop.serveAll A w readings
    return (last, served.sent ++ sent)

/-- The port hands over a frame that the tables send out of `q`, or that the cache answers
out of `q`. -/
def Feeds (A : Aead) (q : P) (loop : EventLoop P) (r : Reading P) : Prop :=
  ∃ f, (loop.device r.port).frame A r.recv = some f ∧
    let mid := loop.switch.refresh (header f).srcMac r.port r.now
    if mid.cachedAnswer f = none then mid.SendsTo (header f).dstMac r.port q else q = r.port

/-- One of the readings, in the state that those before it leave, feeds `q`. -/
def FeedsAny (A : Aead) (w : SizeT) (q : P) (loop : EventLoop P) : List (Reading P) → Prop
  | [] => False
  | r :: readings => loop.Feeds A q r ∨
    ∃ served, loop.serve A w r = .ok served ∧ served.loop.FeedsAny A w q readings

end EventLoop

namespace Timed
variable {P : Type} [DecidableEq P] (A : Aead) (w : SizeT)

/-- When `poll` returns. -/
def returnTime (t : Timed P) (wake : Wake P) : Nat := t.clock + wake.wait

def afterPunch (time : Nat × (P → Nat)) (punch : P × Sent) : Nat × (P → Nat) :=
  (time.1 + punchPause, fun q => if q = punch.1 then time.1 else time.2 q)

/-- A timeout: one punch after the other. -/
def afterTimeout (t : Timed P) : Timed P :=
  let time := t.loop.keepalives.foldl afterPunch (t.clock + pollTimeout, t.lastSent)
  ⟨t.loop, time.1, time.2⟩

/-- The loop after the readable ports were served, all at the instant `poll` returned. -/
def afterReady (t : Timed P) (wait : Nat) (loop : EventLoop P) (sent : List (P × Sent)) : Timed P :=
  ⟨loop, t.clock + wait, fun q => if q ∈ sent.map Prod.fst then t.clock + wait else t.lastSent q⟩

/-- What `poll` may report, in time: the ports are read in their order, each at most once. -/
def Returns (t : Timed P) : Wake P → Prop
  | .timeout => True
  | .ready wait readings =>
    wait ≤ pollTimeout ∧ (readings.map Reading.port).Sublist t.loop.switch.ports ∧
      ∀ r ∈ readings, r.now = (t.clock + wait : Nat) * 1000000

instance (t : Timed P) : ∀ wake, Decidable (t.Returns wake)
  | .timeout => .isTrue trivial
  | .ready _ _ => inferInstanceAs (Decidable (_ ∧ _))

def turn (t : Timed P) (wake : Wake P) : Option (Timed P) :=
  if t.Returns wake then
    match wake with
    | .timeout => some t.afterTimeout
    | .ready wait readings =>
      (t.loop.serveAll A w readings).toOption.map fun served =>
        t.afterReady wait served.1 served.2
  else none

def Wakes (t : Timed P) (wake : Wake P) (t' : Timed P) : Prop := t.turn A w wake = some t'

def Socket (t : Timed P) (q : P) : Prop :=
  q ∈ t.loop.switch.ports ∧ ∃ u, t.loop.device q = .udp u

/-- How long the socket of `q` has been silent when `poll` returns. -/
def silence (t : Timed P) (wake : Wake P) (q : P) : Nat := t.returnTime wake - t.lastSent q

/-- A return that is due a datagram to the socket of `q`: a timeout, or a frame that goes there. -/
def Reaches (q : P) (t : Timed P) : Wake P → Prop
  | .timeout => True
  | .ready _ readings => t.loop.FeedsAny A w q readings

/-- However the run goes, the returns of `poll` between one that reaches `q` and the next have
waited for at most `busy` in total; `waited` is what the last ones have. -/
def Attended (busy : Nat) (q : P) (waited : Nat) (t : Timed P) : List (Wake P) → Prop
  | [] => waited ≤ busy
  | wake :: wakes => waited ≤ busy ∧ ∀ t', t.Wakes A w wake t' →
    (t.Reaches A w q wake → t'.Attended busy q 0 wakes) ∧
    (¬ t.Reaches A w q wake → t'.Attended busy q (waited + wake.wait) wakes)

/-- At every return of `poll` the socket of `q` has been silent for at most `bound`. -/
def SilentFor (bound : Nat) (q : P) (t : Timed P) : List (Wake P) → Prop
  | [] => True
  | wake :: wakes => (t.Returns wake → t.silence wake q ≤ bound) ∧
    ∀ t', t.Wakes A w wake t' → t'.SilentFor bound q wakes

end Timed

namespace EventLoop
variable {P : Type} [DecidableEq P] {A : Aead} {w : SizeT}

private theorem serveAll_ok {loop loop' : EventLoop P} {readings : List (Reading P)}
    {sent : List (P × Sent)} (h : loop.serveAll A w readings = .ok (loop', sent)) :
    loop'.switch.ports = loop.switch.ports ∧
      ∀ q, (∃ u, loop.device q = .udp u) → ∃ u, loop'.device q = .udp u := by
  induction readings generalizing loop loop' sent with
  | nil =>
    cases h
    exact ⟨rfl, fun _ hu => hu⟩
  | cons r readings ih =>
    rw [serveAll, bind_eq_ok] at h
    obtain ⟨served, hs, h⟩ := h
    obtain ⟨⟨last, later⟩, hrest, h⟩ := bind_eq_ok.mp h
    cases h
    obtain ⟨hdevice, hports⟩ := serve_ok hs
    obtain ⟨hports', hudp⟩ := ih hrest
    refine ⟨hports'.trans hports, fun q hu => hudp q ?_⟩
    rw [hdevice]
    exact deviceAfter_udp hu

omit [DecidableEq P] in
private theorem mem_datagrams {device : P → Device} {nonces : P → Nonce}
    {writes : List (P × Bytes)} {q : P} {u : UdpPort} (hu : device q = .udp u) :
    q ∈ (datagrams A device nonces writes).map Prod.fst ↔ ∃ d, (q, d) ∈ writes := by
  simp only [datagrams, List.mem_map, List.mem_filterMap, Option.map_eq_some_iff]
  constructor
  · rintro ⟨_, ⟨⟨p, d⟩, hmem, _, -, rfl⟩, rfl⟩
    exact ⟨d, hmem⟩
  · rintro ⟨d, hmem⟩
    have hsent : (device q).datagram A (nonces q) d =
        some ⟨u.remoteAddr, u.encapsulate A (nonces q) d⟩ := by rw [hu]; rfl
    exact ⟨_, ⟨(q, d), hmem, _, hsent, rfl⟩, rfl⟩

private theorem mem_serve_sent {loop : EventLoop P} {r : Reading P} {served : Served P} {q : P}
    (hq : ∃ u, loop.device q = .udp u) (h : loop.serve A w r = .ok served) :
    q ∈ served.sent.map Prod.fst ↔ loop.Feeds A q r := by
  rcases hf : (loop.device r.port).frame A r.recv with _ | f
  · rw [serve_quiet hf] at h
    cases h
    simp [Feeds, hf]
  · obtain ⟨u, hu⟩ := deviceAfter_udp (A := A) (w := w) (r := r) hq
    obtain ⟨-, -, rfl, -⟩ := serve_frame_ok hf h
    have hfeeds : loop.Feeds A q r ↔
        let mid := loop.switch.refresh (header f).srcMac r.port r.now
        if mid.cachedAnswer f = none then mid.SendsTo (header f).dstMac r.port q
        else q = r.port := by
      simp only [Feeds, hf, Option.some.injEq, exists_eq_left']
    rw [hfeeds]
    refine (mem_datagrams hu).trans ?_
    rcases ha : (loop.switch.refresh (header f).srcMac r.port r.now).cachedAnswer f with _ | e
    · rw [VirtualSwitch.switchFrame_forwards _ _ _ _ _ (by
        rw [VirtualSwitch.switchFrame_answered, ha, Option.isSome_none])]
      simp [VirtualSwitch.mem_forwardFrame, ha]
    · rw [VirtualSwitch.switchFrame_replies _ _ _ _ _ ha]
      simp [ha]

private theorem mem_serveAll_sent {loop loop' : EventLoop P} {readings : List (Reading P)}
    {sent : List (P × Sent)} {q : P} (hq : ∃ u, loop.device q = .udp u)
    (h : loop.serveAll A w readings = .ok (loop', sent)) :
    q ∈ sent.map Prod.fst ↔ loop.FeedsAny A w q readings := by
  induction readings generalizing loop sent with
  | nil =>
    cases h
    simp [FeedsAny]
  | cons r readings ih =>
    rw [serveAll, bind_eq_ok] at h
    obtain ⟨served, hs, h⟩ := h
    obtain ⟨⟨last, later⟩, hrest, h⟩ := bind_eq_ok.mp h
    cases h
    have hserved : ∃ u, served.loop.device q = .udp u := by
      rw [(serve_ok hs).1]
      exact deviceAfter_udp hq
    rw [List.map_append, List.mem_append, mem_serve_sent hq hs, ih hserved hrest, FeedsAny]
    refine or_congr_right ⟨fun hlater => ⟨served, hs, hlater⟩, ?_⟩
    rintro ⟨served', hs', hlater⟩
    cases hs.symm.trans hs'
    exact hlater

omit [DecidableEq P] in
private theorem length_keepalives (loop : EventLoop P) :
    loop.keepalives.length ≤ loop.switch.ports.length := by
  unfold keepalives
  induction loop.switch.ports with
  | nil => exact le_refl 0
  | cons q ports ih =>
    have hone : (loop.device q).keepalive.length ≤ 1 := by
      cases loop.device q
      · exact Nat.zero_le 1
      · exact le_refl 1
    rw [List.flatMap_cons, List.length_append, List.length_map, List.length_cons]
    omega

omit [DecidableEq P] in
private theorem mem_keepalives {loop : EventLoop P} {q : P} {u : UdpPort}
    (hq : q ∈ loop.switch.ports)
    (hu : loop.device q = .udp u) : q ∈ loop.keepalives.map Prod.fst := by
  refine List.mem_map.mpr ⟨(q, ⟨u.remoteAddr, [0, 0, 0, 0]⟩), ?_, rfl⟩
  refine List.mem_flatMap.mpr ⟨q, hq, List.mem_map.mpr ⟨_, ?_, rfl⟩⟩
  rw [hu]
  exact List.mem_singleton_self _

end EventLoop

namespace Timed
variable {P : Type} [DecidableEq P] {A : Aead} {w : SizeT}

private theorem foldl_afterPunch (sends : List (P × Sent)) (time : Nat × (P → Nat)) :
    (sends.foldl afterPunch time).1 = time.1 + punchPause * sends.length ∧
      ∀ q, q ∈ sends.map Prod.fst → time.1 ≤ (sends.foldl afterPunch time).2 q ∧
        (sends.foldl afterPunch time).2 q ≤ (sends.foldl afterPunch time).1 := by
  induction sends using List.reverseRecOn with
  | nil => exact ⟨rfl, fun q hq => absurd hq List.not_mem_nil⟩
  | append_singleton sends punch ih =>
    obtain ⟨htime, hsent⟩ := ih
    rw [List.foldl_concat, afterPunch]
    refine ⟨?_, fun q hq => ?_⟩
    · simp only [htime, List.length_append, List.length_singleton, Nat.mul_add, Nat.mul_one,
        Nat.add_assoc]
    · by_cases hlast : q = punch.1
      · simp only [hlast, if_true, htime]
        omega
      · have hearlier : q ∈ sends.map Prod.fst := by simpa [hlast] using hq
        have hq' := hsent q hearlier
        simp only [if_neg hlast]
        omega

variable {n busy bound waited slack : Nat} {q : P} {t t' : Timed P} {wake : Wake P}
variable {wakes : List (Wake P)}

omit [DecidableEq P] in
private theorem Returns.wait_le (h : t.Returns wake) : wake.wait ≤ pollTimeout := by
  cases wake with
  | timeout => exact le_refl _
  | ready wait readings => exact h.1

private theorem toOption_eq_some {X : Type} {m : Except Fault X} {x : X} :
    m.toOption = some x ↔ m = .ok x := by
  cases m <;> simp [Except.toOption]

private theorem wakes_ready {wait : Nat} {readings : List (Reading P)} :
    t.Wakes A w (.ready wait readings) t' ↔ t.Returns (.ready wait readings) ∧
      ∃ loop sent, t.loop.serveAll A w readings = .ok (loop, sent) ∧
        t' = t.afterReady wait loop sent := by
  simp only [Wakes, turn, Option.ite_none_right_eq_some, Option.map_eq_some_iff]
  refine and_congr_right fun _ => ⟨?_, ?_⟩
  · rintro ⟨⟨loop, sent⟩, hserved, rfl⟩
    exact ⟨loop, sent, toOption_eq_some.mp hserved, rfl⟩
  · rintro ⟨loop, sent, hserved, rfl⟩
    exact ⟨(loop, sent), toOption_eq_some.mpr hserved, rfl⟩

private theorem Wakes.returns (h : t.Wakes A w wake t') : t.Returns wake :=
  (Option.ite_none_right_eq_some.mp h).1

/-- What one turn means for a socket: one that is reached has just sent, for any other only
the wait has passed. -/
theorem Wakes.socket (hq : t.Socket q) (h : t.Wakes A w wake t') :
    t'.Socket q ∧ t'.loop.switch.ports = t.loop.switch.ports ∧
      (t.Reaches A w q wake → t'.lastSent q ≤ t'.clock ∧
        t'.clock ≤ t'.lastSent q + punchPause * t.loop.switch.ports.length) ∧
      (¬ t.Reaches A w q wake → t'.lastSent q = t.lastSent q ∧ t'.clock = t.clock + wake.wait) := by
  obtain ⟨hport, u, hu⟩ := hq
  cases wake with
  | timeout =>
    cases h
    obtain ⟨htime, hpunched⟩ :=
      foldl_afterPunch t.loop.keepalives (t.clock + pollTimeout, t.lastSent)
    obtain ⟨hsince, huntil⟩ := hpunched q (EventLoop.mem_keepalives hport hu)
    have hlen := Nat.mul_le_mul_left punchPause t.loop.length_keepalives
    refine ⟨⟨hport, u, hu⟩, rfl, fun _ => ⟨huntil, ?_⟩, fun hmiss => absurd trivial hmiss⟩
    simp only [afterTimeout, htime] at hsince ⊢
    omega
  | ready wait readings =>
    obtain ⟨-, loop, sent, hserved, rfl⟩ := wakes_ready.mp h
    obtain ⟨hports, hudp⟩ := EventLoop.serveAll_ok hserved
    have hsent := EventLoop.mem_serveAll_sent ⟨u, hu⟩ hserved
    refine ⟨⟨hports ▸ hport, hudp q ⟨u, hu⟩⟩, hports, fun hreach => ?_, fun hmiss => ?_⟩
    · simp only [afterReady, if_pos (hsent.mpr hreach)]
      omega
    · simp only [afterReady, if_neg (mt hsent.mp hmiss)]
      exact ⟨trivial, rfl⟩

private theorem Attended.silentFor (hq : t.Socket q)
    (hslack : punchPause * t.loop.switch.ports.length ≤ slack)
    (hlag : t.clock ≤ t.lastSent q + waited + slack) (h : t.Attended A w busy q waited wakes) :
    t.SilentFor A w (busy + pollTimeout + slack) q wakes := by
  induction wakes generalizing t waited with
  | nil => trivial
  | cons wake wakes ih =>
    obtain ⟨hwaited, hrest⟩ := h
    refine ⟨fun hreturn => ?_, fun t' ht' => ?_⟩
    · have := hreturn.wait_le
      simp only [silence, returnTime]
      omega
    · obtain ⟨hq', hports, hfed, hunfed⟩ := ht'.socket hq
      obtain ⟨hreach, hmiss⟩ := hrest t' ht'
      rw [← hports] at hslack hfed
      by_cases hr : t.Reaches A w q wake
      · have := (hfed hr).2
        exact ih hq' hslack (by omega) (hreach hr)
      · obtain ⟨hsent, hclock⟩ := hunfed hr
        exact ih hq' hslack (by omega) (hmiss hr)

private theorem SilentFor.attended (hq : t.Socket q) (hpast : t.lastSent q + waited ≤ t.clock)
    (hwaited : waited ≤ bound) (h : t.SilentFor A w bound q wakes) :
    t.Attended A w bound q waited wakes := by
  induction wakes generalizing t waited with
  | nil => exact hwaited
  | cons wake wakes ih =>
    obtain ⟨hsilence, hrest⟩ := h
    refine ⟨hwaited, fun t' ht' => ?_⟩
    obtain ⟨hq', -, hfed, hunfed⟩ := ht'.socket hq
    refine ⟨fun hreach => ih hq' (hfed hreach).1 (Nat.zero_le bound) (hrest t' ht'),
      fun hmiss => ?_⟩
    obtain ⟨hsent, hclock⟩ := hunfed hmiss
    have hsilent := hsilence ht'.returns
    simp only [silence, returnTime] at hsilent
    exact ih hq' (by omega) (by omega) (hrest t' ht')

private theorem SilentFor.of_run {past later : List (Wake P)} (hrun : Run (Wakes A w) t past t')
    (hreturn : t'.Returns wake) (h : t.SilentFor A w bound q (past ++ wake :: later)) :
    t'.silence wake q ≤ bound := by
  induction past generalizing t with
  | nil =>
    cases hrun
    exact h.1 hreturn
  | cons first past ih =>
    obtain ⟨mid, hfirst, hrest⟩ := hrun
    exact ih hrest (h.2 mid hfirst)

/-- A punch of the peer of `u`, read at `time`. -/
def punchReading (q : P) (u : UdpPort) (time : Nat) : Reading P :=
  ⟨q, .datagram u.remoteAddr [0, 0, 0, 0], time * 1000000, fun _ _ => 0⟩

private theorem wakes_punch {u : UdpPort} (hq : q ∈ t.loop.switch.ports)
    (hu : t.loop.device q = .udp u) :
    t.Wakes A w (.ready 1000 [punchReading q u (t.clock + 1000)])
      { t with clock := t.clock + 1000 } := by
  have hread : (t.loop.device q).read A w (.datagram u.remoteAddr [0, 0, 0, 0]) maxFrameSize =
      (.udp u, ⟨0, []⟩) := by
    rw [hu, Device.read, UdpPort.read_punch A w u maxFrameSize (by decide)]
    rfl
  have hdevice : (fun p => if p = q then Device.udp u else t.loop.device p) = t.loop.device := by
    funext p
    split_ifs with hp
    · rw [hp, hu]
    · rfl
  have hserve : t.loop.serve A w (punchReading q u (t.clock + 1000)) = .ok ⟨t.loop, [], []⟩ := by
    simp only [EventLoop.serve, punchReading, hread, hdevice, le_refl, if_true]
    rfl
  refine wakes_ready.mpr ⟨⟨by rw [pollTimeout]; omega, List.singleton_sublist.mpr hq, ?_⟩,
    t.loop, [], ?_, rfl⟩
  · rintro r hr
    rw [List.mem_singleton.mp hr]
    rfl
  · simp only [EventLoop.serveAll, hserve]
    rfl

private theorem silence_unbounded (hpast : t.lastSent q ≤ t.clock) (hsocket : t.Socket q)
    (bound : Nat) :
    ∃ wakes, ¬ t.SilentFor A w bound q wakes := by
  obtain ⟨hq, u, hu⟩ := hsocket
  have hrun (k : Nat) :
      ∃ wakes, Run (Wakes A w) t wakes { t with clock := t.clock + 1000 * k } := by
    induction k with
    | zero => exact ⟨[], rfl⟩
    | succ k ih =>
      obtain ⟨wakes, hwakes⟩ := ih
      rw [Nat.mul_succ, ← Nat.add_assoc]
      exact ⟨_, hwakes.concat (wakes_punch hq hu)⟩
  obtain ⟨wakes, hwakes⟩ := hrun bound
  refine ⟨wakes ++ [.timeout], fun h => ?_⟩
  have hsilent : silence { t with clock := t.clock + 1000 * bound } .timeout q ≤ bound :=
    h.of_run hwakes trivial
  simp only [silence, returnTime, Wake.wait, pollTimeout] at hsilent
  omega

end Timed

/-- A run keeps a socket from silence as far as it attends to it: where `poll` waits for at most
`busy` milliseconds from one return that reaches the socket to the next, the silence has a bound
in `busy`, its age at the start and the number of ports, and a bound on the silence is such a
`busy`. So a set of runs has a bound exactly when it has a `busy`. The set of all runs has none. -/
theorem keepalive_bound {P : Type} [DecidableEq P] (A : Aead) (w : SizeT) (start : Timed P)
    {q : P} (hq : start.Socket q) (hpast : start.lastSent q ≤ start.clock) :
    (∀ wakes busy age, start.clock ≤ start.lastSent q + age →
      start.Attended A w busy q 0 wakes →
        start.SilentFor A w
          (busy + pollTimeout + max age (punchPause * start.loop.switch.ports.length)) q wakes) ∧
    (∀ wakes bound, start.SilentFor A w bound q wakes → start.Attended A w bound q 0 wakes) ∧
    (∀ runs : Set (List (Wake P)),
      (∃ bound, ∀ wakes ∈ runs, start.SilentFor A w bound q wakes) ↔
        ∃ busy, ∀ wakes ∈ runs, start.Attended A w busy q 0 wakes) ∧
    ∀ bound, ∃ wakes, ¬ start.SilentFor A w bound q wakes := by
  have hforward (wakes : List (Wake P)) (busy age : Nat) (hage : start.clock ≤ start.lastSent q + age)
      (h : start.Attended A w busy q 0 wakes) : start.SilentFor A w
        (busy + pollTimeout + max age (punchPause * start.loop.switch.ports.length)) q wakes :=
    h.silentFor hq (le_max_right _ _) (by omega)
  have hback (wakes : List (Wake P)) (bound : Nat) (h : start.SilentFor A w bound q wakes) :
      start.Attended A w bound q 0 wakes := h.attended hq hpast (Nat.zero_le bound)
  refine ⟨hforward, hback, fun runs => ⟨?_, ?_⟩, Timed.silence_unbounded hpast hq⟩
  · rintro ⟨bound, h⟩
    exact ⟨bound, fun wakes hmem => hback wakes bound (h wakes hmem)⟩
  · rintro ⟨busy, h⟩
    exact ⟨_, fun wakes hmem =>
      hforward wakes busy start.clock (Nat.le_add_left _ _) (h wakes hmem)⟩

/-- A TAP and two sockets at the moment `run` begins. -/
def twoPeers : Timed Nat where
  loop := ⟨.create [0, 1, 2] (by decide) 0, fun q =>
    if q = 0 then .tap else .udp ⟨⟨0x0a000000 + q.toUInt32, 5000⟩, none⟩⟩
  clock := 1000
  lastSent := fun q => if q = 1 then 200 else 950

def shout : Bytes := EthernetFrame.build (fun _ => 0xff) ![2, 0, 0, 0, 0, 7] 0x0800 []

/-- The frame is broadcast, the peer of socket 2 punches, nothing comes for 2500 ms, and the peer
punches again: between two returns that reach socket 1, `poll` waits for at most 1500 ms. -/
theorem keepalive_bound_two_peers :
    let punch (time : Nat) : Reading Nat := Timed.punchReading 2 ⟨⟨0x0a000002, 5000⟩, none⟩ time
    let heard : Reading Nat := ⟨0, .datagram ⟨0, 0⟩ shout, 2000000000, fun _ _ => 0⟩
    let past : List (Wake Nat) := [.ready 1000 [heard], .ready 700 [punch 2700], .timeout]
    let last : Wake Nat := .ready 1500 [punch 6800]
    ∃ mid, Run (Timed.Wakes zeroTag .bits64) twoPeers past mid ∧ mid.Returns last ∧
      mid.silence last 1 = 1600 ∧
      twoPeers.Attended zeroTag .bits64 1500 1 0 (past ++ [last]) ∧
      twoPeers.SilentFor zeroTag .bits64 (1500 + pollTimeout + max 800 (punchPause * 3)) 1
        (past ++ [last]) := by
  intro punch heard past last
  have hsocket : twoPeers.Socket 1 := ⟨by decide, _, rfl⟩
  have hshout : twoPeers.Reaches zeroTag .bits64 1 (.ready 1000 [heard]) :=
    .inl ⟨shout, rfl, by decide +kernel⟩
  have hlast (t : Timed Nat) : t.Attended zeroTag .bits64 1500 1 0 [last] :=
    ⟨Nat.zero_le 1500, fun _ _ => ⟨fun _ => Nat.zero_le 1500, fun _ => le_refl 1500⟩⟩
  have hround (t : Timed Nat) (waited : Nat) (h : waited ≤ 1500) :
      t.Attended zeroTag .bits64 1500 1 waited [.timeout, last] :=
    ⟨h, fun t' _ => ⟨fun _ => hlast t', fun hmiss => absurd trivial hmiss⟩⟩
  have hattended : twoPeers.Attended zeroTag .bits64 1500 1 0 (past ++ [last]) :=
    ⟨by decide, fun t' _ => ⟨fun _ => ⟨by decide, fun t'' _ =>
      ⟨fun _ => hround t'' 0 (by decide), fun _ => hround t'' (0 + 700) (by decide)⟩⟩,
      fun hmiss => absurd hshout hmiss⟩⟩
  obtain ⟨mid, hrun, hcheck⟩ := Run.exists_of_check (Timed.turn zeroTag .bits64) twoPeers past
    (fun t => t.Returns last ∧ t.silence last 1 = 1600) (by decide +kernel)
  obtain ⟨hreturns, hsilence⟩ := of_decide_eq_true hcheck
  exact ⟨mid, hrun, hreturns, hsilence, hattended,
    (keepalive_bound zeroTag .bits64 twoPeers hsocket (by decide)).1 _ 1500 800 (by decide)
      hattended⟩

/-- No function of the number of ports bounds the silence of a socket. -/
theorem no_keepalive_bound :
    ¬ ∃ bound : Nat → Nat, ∀ wakes q, twoPeers.Socket q →
      twoPeers.SilentFor zeroTag .bits64 (bound 3) q wakes := by
  rintro ⟨bound, h⟩
  have hsocket : twoPeers.Socket 1 := ⟨by decide, _, rfl⟩
  obtain ⟨wakes, hsilent⟩ :=
    Timed.silence_unbounded (A := zeroTag) (w := .bits64) (t := twoPeers) (by decide) hsocket
      (bound 3)
  exact hsilent (h wakes 1 hsocket)

end VSwitch
