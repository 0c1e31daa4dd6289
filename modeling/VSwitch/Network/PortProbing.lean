import Mathlib.Tactic.Push
import VSwitch.Network.StunClient

/-! The search for a local port that the NAT leaves alone, with every call that opens, uses
or closes a socket. -/
namespace VSwitch
open Lib StunClient

/-- What the environment does with one attempt: `socket` fails, or `bind` does, or both
succeed and the bound socket sees one STUN query. -/
inductive Attempt where
  | noSocket
  | bindFails
  | bound (query : StunQuery)

/-- The system calls of the probe. Sockets are numbered by the attempt that opens them. -/
inductive SocketCall where
  | socket (fd : Nat)
  | bind (fd : Nat) (port : UInt16)
  | query (fd : Nat)
  | close (fd : Nat)
  deriving DecidableEq

structure Probe where
  calls : List SocketCall
  result : Except StunError UInt16

namespace StunClient

/-- `start_port + static_cast<uint16_t>(i)`, which wraps around. -/
def testPort (startPort : UInt16) (i : Nat) : UInt16 := startPort + UInt16.ofNat i

/-- The loop body: the calls of one attempt, and whether the loop goes on. -/
def attempt (env : Nat → Attempt) (startPort : UInt16) (i : Nat) :
    List SocketCall × Move Nat (Except StunError UInt16) :=
  let port := testPort startPort i
  match env i with
  | .noSocket => ([], .stop (.error (.runtime "Failed to create socket for port probing")))
  | .bindFails => ([.socket i, .bind i port, .close i], .next (i + 1))
  | .bound query =>
    ([.socket i, .bind i port, .query i, .close i],
      match getPublicAddress query with
      | .error _ => .next (i + 1)
      | .ok addr => if addr.port = port then .stop (.ok port) else .next (i + 1))

/-- The loop of `probe_stable_port` from attempt `i` on, with so many attempts left. -/
def probeFrom (env : Nat → Attempt) (startPort : UInt16) : Nat → Nat → Probe
  | 0, _ => ⟨[], .ok startPort⟩
  | left + 1, i =>
    let (calls, move) := attempt env startPort i
    match move with
    | .stop result => ⟨calls, result⟩
    | .next i =>
      let later := probeFrom env startPort left i
      ⟨calls ++ later.calls, later.result⟩

/-- `StunClient::probe_stable_port`, without what it prints. -/
def probeStablePort (env : Nat → Attempt) (startPort : UInt16) (maxAttempts : Nat) : Probe :=
  probeFrom env startPort maxAttempts 0

/-- The attempt binds its port, and STUN reports the same port outside. -/
def StableAt (env : Nat → Attempt) (startPort : UInt16) (i : Nat) : Prop :=
  ∃ query addr, env i = .bound query ∧ getPublicAddress query = .ok addr ∧
    addr.port = testPort startPort i

/-- The least of the stable attempts; a throw ends the probe before it gets any further. -/
def FirstStable (env : Nat → Attempt) (startPort : UInt16) (maxAttempts i : Nat) : Prop :=
  i < maxAttempts ∧ StableAt env startPort i ∧
    ∀ j < i, ¬ StableAt env startPort j ∧ env j ≠ .noSocket

/-- Every attempt is made, and none is stable. -/
def NeverStable (env : Nat → Attempt) (startPort : UInt16) (maxAttempts : Nat) : Prop :=
  ∀ j < maxAttempts, ¬ StableAt env startPort j ∧ env j ≠ .noSocket

/-- `socket` fails before any attempt is stable. -/
def Throws (env : Nat → Attempt) (startPort : UInt16) (maxAttempts : Nat) : Prop :=
  ∃ t < maxAttempts, env t = .noSocket ∧ ∀ j < t, ¬ StableAt env startPort j ∧ env j ≠ .noSocket

/-- The attempts test different ports, as long as the numbers do not wrap around. -/
theorem testPort_inj {startPort : UInt16} {i j : Nat} (hi : i < 65536) (hj : j < 65536) :
    testPort startPort i = testPort startPort j ↔ i = j := by
  have hstart := startPort.toNat_lt
  rw [← UInt16.toNat_inj, testPort, testPort, UInt16.toNat_add, UInt16.toNat_add,
    UInt16.toNat_ofNat', UInt16.toNat_ofNat']
  omega

theorem testPort_zero (startPort : UInt16) : testPort startPort 0 = startPort :=
  UInt16.add_zero startPort

theorem testPort_eq_start {startPort : UInt16} {i : Nat} (h : i < 65536) :
    testPort startPort i = startPort ↔ i = 0 := by
  have hinj := @testPort_inj startPort i 0 h (by decide)
  rwa [testPort_zero] at hinj

section Steps
variable {env : Nat → Attempt} {startPort : UInt16} {left i : Nat}

theorem attempt_stable (h : StableAt env startPort i) :
    (attempt env startPort i).2 = .stop (.ok (testPort startPort i)) := by
  obtain ⟨query, addr, henv, haddr, hport⟩ := h
  simp only [attempt, henv, haddr, if_pos hport]

theorem attempt_next (hstable : ¬ StableAt env startPort i) (hsocket : env i ≠ .noSocket) :
    (attempt env startPort i).2 = .next (i + 1) := by
  unfold attempt
  cases henv : env i with
  | noSocket => exact absurd henv hsocket
  | bindFails => rfl
  | bound query =>
    simp only
    cases haddr : getPublicAddress query with
    | error e => rfl
    | ok addr => exact if_neg fun hport => hstable ⟨query, addr, henv, haddr, hport⟩

theorem attempt_noSocket (h : env i = .noSocket) :
    attempt env startPort i =
      ([], .stop (.error (.runtime "Failed to create socket for port probing"))) := by
  simp only [attempt, h]

private theorem socket_mem_attempt {fd : Nat} (h : .socket fd ∈ (attempt env startPort i).1) :
    fd = i := by
  unfold attempt at h
  cases henv : env i with
  | noSocket => simp [henv] at h
  | bindFails => simpa [henv] using h
  | bound query => simpa [henv] using h

theorem probeFrom_stop {result : Except StunError UInt16}
    (h : (attempt env startPort i).2 = .stop result) :
    probeFrom env startPort (left + 1) i = ⟨(attempt env startPort i).1, result⟩ := by
  simp only [probeFrom, h]

theorem probeFrom_next {i' : Nat} (h : (attempt env startPort i).2 = .next i') :
    probeFrom env startPort (left + 1) i =
      ⟨(attempt env startPort i).1 ++ (probeFrom env startPort left i').calls,
        (probeFrom env startPort left i').result⟩ := by
  simp only [probeFrom, h]

private theorem probeFrom_passed {n : Nat} (left : Nat) (h : NeverStable env startPort n) :
    (probeFrom env startPort (n + left) 0).result = (probeFrom env startPort left n).result ∧
      ∀ fd, .socket fd ∈ (probeFrom env startPort (n + left) 0).calls →
        fd < n ∨ .socket fd ∈ (probeFrom env startPort left n).calls := by
  induction n generalizing left with
  | zero =>
    rw [Nat.zero_add]
    exact ⟨rfl, fun fd hfd => .inr hfd⟩
  | succ n ih =>
    obtain ⟨hunstable, hsocket⟩ := h n (Nat.lt_succ_self n)
    obtain ⟨hresult, hcalls⟩ := ih (left + 1) fun j hj => h j (Nat.lt_succ_of_lt hj)
    rw [probeFrom_next (attempt_next hunstable hsocket)] at hresult hcalls
    rw [Nat.add_assoc, Nat.add_comm 1 left]
    refine ⟨hresult, fun fd hfd => ?_⟩
    rcases hcalls fd hfd with hearlier | hnow
    · exact .inl (Nat.lt_succ_of_lt hearlier)
    · rcases List.mem_append.mp hnow with hown | hlater
      · exact .inl (Nat.lt_succ_of_le (Nat.le_of_eq (socket_mem_attempt hown)))
      · exact .inr hlater

end Steps

section Result
variable {env : Nat → Attempt} {startPort port : UInt16} {maxAttempts i : Nat}

private theorem FirstStable.decides (h : FirstStable env startPort maxAttempts i) :
    (probeStablePort env startPort maxAttempts).result = .ok (testPort startPort i) ∧
      ∀ fd, .socket fd ∈ (probeStablePort env startPort maxAttempts).calls → fd ≤ i := by
  obtain ⟨hlt, hstable, hpassed⟩ := h
  obtain ⟨left, rfl⟩ := Nat.exists_eq_add_of_lt hlt
  obtain ⟨hresult, hcalls⟩ := probeFrom_passed (left + 1) hpassed
  rw [probeFrom_stop (attempt_stable hstable)] at hresult hcalls
  refine ⟨hresult, fun fd hfd => ?_⟩
  rcases hcalls fd hfd with hearlier | hown
  · exact Nat.le_of_lt hearlier
  · exact Nat.le_of_eq (socket_mem_attempt hown)

theorem FirstStable.result (h : FirstStable env startPort maxAttempts i) :
    (probeStablePort env startPort maxAttempts).result = .ok (testPort startPort i) := h.decides.1

/-- Without a stable attempt the probe falls back to the start port. -/
theorem NeverStable.result (h : NeverStable env startPort maxAttempts) :
    (probeStablePort env startPort maxAttempts).result = .ok startPort :=
  (probeFrom_passed 0 h).1

/-- A failure of `socket` before any stable attempt leaves the loop. -/
theorem Throws.result (h : Throws env startPort maxAttempts) :
    (probeStablePort env startPort maxAttempts).result =
      .error (.runtime "Failed to create socket for port probing") := by
  obtain ⟨t, hlt, hsocket, hpassed⟩ := h
  obtain ⟨left, rfl⟩ := Nat.exists_eq_add_of_lt hlt
  have hresult := (probeFrom_passed (left + 1) hpassed).1
  rwa [probeFrom_stop (congrArg Prod.snd (attempt_noSocket hsocket))] at hresult

theorem FirstStable.unique {i' : Nat} (h : FirstStable env startPort maxAttempts i)
    (h' : FirstStable env startPort maxAttempts i') : i = i' := by
  rcases Nat.lt_trichotomy i i' with hlt | heq | hgt
  · exact absurd h.2.1 (h'.2.2 i hlt).1
  · exact heq
  · exact absurd h'.2.1 (h.2.2 i' hgt).1

theorem FirstStable.not_throws (h : FirstStable env startPort maxAttempts i) :
    ¬ Throws env startPort maxAttempts := by
  intro hthrows
  cases h.result.symm.trans hthrows.result

theorem NeverStable.not_throws (h : NeverStable env startPort maxAttempts) :
    ¬ Throws env startPort maxAttempts := by
  intro hthrows
  cases h.result.symm.trans hthrows.result

/-- The first attempt that is stable or gets no socket decides. -/
theorem probe_cases (env : Nat → Attempt) (startPort : UInt16) (maxAttempts : Nat) :
    (∃ i, FirstStable env startPort maxAttempts i) ∨ NeverStable env startPort maxAttempts ∨
      Throws env startPort maxAttempts := by
  by_cases hnever : NeverStable env startPort maxAttempts
  · exact .inr (.inl hnever)
  · classical
    unfold NeverStable at hnever
    push Not at hnever
    have hfound := Nat.find_spec hnever
    have hleast (j : Nat) (hj : j < Nat.find hnever) :
        ¬ StableAt env startPort j ∧ env j ≠ .noSocket := by
      have hmin := Nat.find_min hnever hj
      push Not at hmin
      exact hmin (hj.trans hfound.1)
    by_cases hstable : StableAt env startPort (Nat.find hnever)
    · exact .inl ⟨_, hfound.1, hstable, hleast⟩
    · exact .inr (.inr ⟨_, hfound.1, hfound.2 hstable, hleast⟩)

/-- A port that the probe returns is the first stable one, or the start port because no
attempt was stable. -/
theorem probe_ok_iff :
    (probeStablePort env startPort maxAttempts).result = .ok port ↔
      (∃ i, FirstStable env startPort maxAttempts i ∧ port = testPort startPort i) ∨
        (NeverStable env startPort maxAttempts ∧ port = startPort) := by
  constructor
  · intro h
    rcases probe_cases env startPort maxAttempts with ⟨i, hi⟩ | hnever | hthrows
    · cases hi.result.symm.trans h
      exact .inl ⟨i, hi, rfl⟩
    · cases hnever.result.symm.trans h
      exact .inr ⟨hnever, rfl⟩
    · cases hthrows.result.symm.trans h
  · rintro (⟨i, hi, rfl⟩ | ⟨hnever, rfl⟩)
    · exact hi.result
    · exact hnever.result

end Result

section Discipline
variable {env : Nat → Attempt} {startPort : UInt16} {left i fd : Nat}
variable {held held' : Option Nat} {calls later : List SocketCall}

/-- The socket held after a call, if the call is in order: one socket at a time, used and
closed while it is open. -/
def hold (held : Option Nat) : SocketCall → Option (Option Nat)
  | .socket fd => if held = none then some (some fd) else none
  | .bind fd _ => if held = some fd then some held else none
  | .query fd => if held = some fd then some held else none
  | .close fd => if held = some fd then some none else none

def holdAll (held : Option Nat) (calls : List SocketCall) : Option (Option Nat) :=
  calls.foldlM hold held

private theorem holdAll_append (h : holdAll held calls = some held') :
    holdAll held (calls ++ later) = holdAll held' later := by
  rw [holdAll, List.foldlM_append, ← holdAll, h]
  rfl

private theorem holdAll_prefix {past : List SocketCall} (h : holdAll held calls = some held')
    (hpast : past <+: calls) : ∃ mid, holdAll held past = some mid := by
  obtain ⟨rest, rfl⟩ := hpast
  rw [holdAll, List.foldlM_append] at h
  cases hmid : past.foldlM hold held with
  | none =>
    rw [hmid] at h
    cases h
  | some mid => exact ⟨mid, hmid⟩

private theorem count_close (h : holdAll none calls = some held) (fd : Nat) :
    calls.count (.socket fd) = calls.count (.close fd) + if held = some fd then 1 else 0 := by
  induction calls using List.reverseRecOn generalizing held with
  | nil =>
    cases h
    rfl
  | append_singleton calls call ih =>
    obtain ⟨mid, hmid⟩ := holdAll_prefix h (List.prefix_append calls [call])
    have hcount := ih hmid
    have hlast : hold mid call = some held := by
      rw [holdAll_append hmid] at h
      simpa [holdAll] using h
    rw [List.count_append, List.count_append, hcount]
    cases call with
    | socket fd' =>
      obtain ⟨rfl, hheld⟩ := Option.ite_none_right_eq_some.mp hlast
      cases hheld
      simp [List.count_singleton]
    | bind fd' port =>
      obtain ⟨rfl, hheld⟩ := Option.ite_none_right_eq_some.mp hlast
      cases hheld
      simp
    | query fd' =>
      obtain ⟨rfl, hheld⟩ := Option.ite_none_right_eq_some.mp hlast
      cases hheld
      simp
    | close fd' =>
      obtain ⟨rfl, hheld⟩ := Option.ite_none_right_eq_some.mp hlast
      cases hheld
      simp [List.count_singleton]

private theorem attempt_held : holdAll none (attempt env startPort i).1 = some none := by
  unfold attempt
  cases env i with
  | noSocket => rfl
  | bindFails => simp [holdAll, hold]
  | bound query => simp [holdAll, hold]

private theorem probeFrom_held :
    holdAll none (probeFrom env startPort left i).calls = some none := by
  induction left generalizing i with
  | zero => rfl
  | succ left ih =>
    cases hmove : (attempt env startPort i).2 with
    | stop result =>
      rw [probeFrom_stop hmove]
      exact attempt_held
    | next i' =>
      rw [probeFrom_next hmove, holdAll_append attempt_held]
      exact ih

theorem attempt_next_eq {i' : Nat} (h : (attempt env startPort i).2 = .next i') : i' = i + 1 := by
  by_cases hsocket : env i = .noSocket
  · rw [attempt_noSocket hsocket] at h
    cases h
  · by_cases hstable : StableAt env startPort i
    · cases (attempt_stable hstable).symm.trans h
    · cases (attempt_next hstable hsocket).symm.trans h
      rfl

private theorem count_attempt (env : Nat → Attempt) (startPort : UInt16) (i fd : Nat) :
    (attempt env startPort i).1.count (.socket fd) ≤ if i = fd then 1 else 0 := by
  unfold attempt
  cases env i with
  | noSocket => exact Nat.zero_le _
  | bindFails => simp [List.count_cons]
  | bound query => simp [List.count_cons]

private theorem count_socket (fd : Nat) :
    (probeFrom env startPort left i).calls.count (.socket fd) ≤ if i ≤ fd then 1 else 0 := by
  induction left generalizing i with
  | zero => exact Nat.zero_le _
  | succ left ih =>
    have hown := count_attempt env startPort i fd
    cases hmove : (attempt env startPort i).2 with
    | stop result =>
      rw [probeFrom_stop hmove]
      split_ifs at hown ⊢ <;> simp only <;> omega
    | next i' =>
      obtain rfl := attempt_next_eq hmove
      have hlater := ih (i := i + 1)
      rw [probeFrom_next hmove, List.count_append]
      split_ifs at hown hlater ⊢ <;> omega

/-- A socket that was opened and not yet closed. -/
def StillOpen (past : List SocketCall) (fd : Nat) : Prop :=
  past.count (.close fd) < past.count (.socket fd)

end Discipline
end StunClient

/-- The probe returns the first stable port and opens no socket after it. On every path each
socket that was opened is closed once, and no two are open at a time. -/
theorem probe_first_stable (env : Nat → Attempt) (startPort : UInt16) (maxAttempts : Nat) :
    let probe := probeStablePort env startPort maxAttempts
    (∀ i, FirstStable env startPort maxAttempts i →
      probe.result = .ok (testPort startPort i) ∧ ∀ fd, .socket fd ∈ probe.calls → fd ≤ i) ∧
    (∀ fd, .socket fd ∈ probe.calls →
      probe.calls.count (.socket fd) = 1 ∧ probe.calls.count (.close fd) = 1) ∧
    ∀ past, past <+: probe.calls →
      ∀ fd fd', StillOpen past fd → StillOpen past fd' → fd = fd' := by
  intro probe
  have hheld : holdAll none probe.calls = some none := probeFrom_held
  refine ⟨?_, ?_, ?_⟩
  · exact fun i hi => hi.decides
  · intro fd hfd
    have honce : probe.calls.count (.socket fd) ≤ if 0 ≤ fd then 1 else 0 := count_socket fd
    rw [if_pos (Nat.zero_le fd)] at honce
    have hpos := List.count_pos_iff.mpr hfd
    have hclosed := count_close hheld fd
    rw [if_neg (by simp)] at hclosed
    omega
  · intro past hpast fd fd' hopen hopen'
    obtain ⟨mid, hmid⟩ := holdAll_prefix hheld hpast
    have hmine {fd : Nat} (h : StillOpen past fd) : mid = some fd := by
      have hcount := count_close hmid fd
      unfold StillOpen at h
      split_ifs at hcount with heq
      · exact heq
      · omega
    exact Option.some.inj ((hmine hopen).symm.trans (hmine hopen'))

end VSwitch
