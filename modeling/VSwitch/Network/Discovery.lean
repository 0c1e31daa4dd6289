import VSwitch.Network.PortProbing
import VSwitch.Network.StunMessage

/-! STUN discovery among foreign traffic. A query takes one datagram, so what arrives first
decides; a punch that comes before the response spoils the query, and the probe moves on. -/
namespace VSwitch
open Lib StunClient

/-- A datagram that is no response to the request of this transaction. -/
def Foreign (txid : TransactionId) (datagram : Bytes) : Prop :=
  ¬ IsResponseTo (datagram.take 512) txid

instance (txid : TransactionId) (datagram : Bytes) : Decidable (Foreign txid datagram) :=
  inferInstanceAs (Decidable (¬ _))

/-- A response to the request of this transaction that tells the client its address. -/
def Announces (txid : TransactionId) (datagram : Bytes) (addr : StunAddress) : Prop :=
  IsResponseTo (datagram.take 512) txid ∧
    ∃ offset, Reached (datagram.take 512) offset ∧ HasIpv4 (datagram.take 512) offset ∧
      addr = decodeAt (datagram.take 512) offset

/-- The request gets out, and the datagram that arrives first announces the address. -/
def StunQuery.Answered (query : StunQuery) (addr : StunAddress) : Prop :=
  query.resolved = true ∧ query.sent (bindingRequest query.txid) = true ∧
    ∃ first later, query.arrivals = first :: later ∧ Announces query.txid first addr

/-- The attempt binds, and its query is answered by the port it tests. -/
def Attempt.Confirms (attempt : Attempt) (port : UInt16) : Prop :=
  ∃ query addr, attempt = .bound query ∧ query.Answered addr ∧ addr.port = port

/-- Up to the `n`th, every attempt gets a socket and none confirms its port. -/
def PassedOver (env : Nat → Attempt) (startPort : UInt16) (n : Nat) : Prop :=
  ∀ j < n, ¬ (env j).Confirms (testPort startPort j) ∧ env j ≠ .noSocket

/-- The attempt whose datagrams are the first to confirm the port it tests. -/
def FirstConfirmed (env : Nat → Attempt) (startPort : UInt16) (maxAttempts i : Nat) : Prop :=
  i < maxAttempts ∧ (env i).Confirms (testPort startPort i) ∧ PassedOver env startPort i

def StunQuery.quiet (query : StunQuery) : StunQuery :=
  { query with arrivals := query.arrivals.filter fun d => ¬ Foreign query.txid d }

def Attempt.quiet : Attempt → Attempt
  | .noSocket => .noSocket
  | .bindFails => .bindFails
  | .bound query => .bound query.quiet

/-- A foreign datagram arrives before the first response to the request. -/
def StunQuery.Spoiled (query : StunQuery) : Prop :=
  ∃ first later, query.arrivals = first :: later ∧ Foreign query.txid first ∧
    ∃ own ∈ later, ¬ Foreign query.txid own

def Attempt.Spoiled (attempt : Attempt) : Prop := ∃ query, attempt = .bound query ∧ query.Spoiled

section Query
variable {query : StunQuery} {datagram : Bytes} {later : List Bytes} {addr : StunAddress}

private theorem announces_iff {txid : TransactionId} :
    Prod.snd <$> parseResponse txid (datagram.take 512) = .ok addr ↔
      Announces txid datagram addr := by
  have hmap : Prod.snd <$> parseResponse txid (datagram.take 512) = .ok addr ↔
      ∃ offset, parseResponse txid (datagram.take 512) = .ok (offset, addr) := by
    cases parseResponse txid (datagram.take 512) with
    | error e => simp
    | ok found => simp [Prod.ext_iff, eq_comm]
  rw [hmap]
  simp only [parseResponse_eq_ok, Announces]
  constructor
  · rintro ⟨offset, hown, hreached, hipv4, haddr⟩
    exact ⟨hown, offset, hreached, hipv4, haddr⟩
  · rintro ⟨hown, offset, hreached, hipv4, haddr⟩
    exact ⟨offset, hown, hreached, hipv4, haddr⟩

private theorem Announces.own {txid : TransactionId} (h : Announces txid datagram addr) :
    ¬ Foreign txid datagram :=
  not_not.mpr h.1

/-- A query succeeds by the datagram that arrives first. -/
theorem getPublicAddress_eq_ok : getPublicAddress query = .ok addr ↔ query.Answered addr := by
  unfold StunQuery.Answered
  simp only [getPublicAddress, bind_eq_ok, check_eq_ok]
  constructor
  · rintro ⟨-, hresolved, -, hsent, hparse⟩
    refine ⟨hresolved, hsent, ?_⟩
    cases harrivals : query.arrivals with
    | nil =>
      rw [harrivals] at hparse
      cases hparse
    | cons first later =>
      rw [harrivals] at hparse
      exact ⟨first, later, rfl, announces_iff.mp hparse⟩
  · rintro ⟨hresolved, hsent, first, later, harrivals, hannounces⟩
    refine ⟨(), hresolved, (), hsent, ?_⟩
    rw [harrivals]
    exact announces_iff.mpr hannounces

private theorem getPublicAddress_spoiled (h : query.Spoiled) :
    getPublicAddress query ≠ .ok addr := by
  obtain ⟨first, later, harrivals, hforeign, -⟩ := h
  intro hok
  obtain ⟨-, -, first', later', harrivals', hannounces⟩ := getPublicAddress_eq_ok.mp hok
  cases harrivals.symm.trans harrivals'
  exact hannounces.own hforeign

private theorem getPublicAddress_quiet (h : ¬ query.Spoiled) :
    getPublicAddress query.quiet = .ok addr ↔ getPublicAddress query = .ok addr := by
  simp only [getPublicAddress_eq_ok, StunQuery.Answered, StunQuery.quiet]
  refine and_congr_right fun _ => and_congr_right fun _ => ?_
  cases harrivals : query.arrivals with
  | nil => simp
  | cons first later =>
    by_cases hforeign : Foreign query.txid first
    · rw [List.filter_cons_of_neg (by simpa using hforeign)]
      constructor
      · rintro ⟨own, rest, hfilter, -⟩
        have hown : own ∈ later.filter fun d => ¬ Foreign query.txid d := by
          rw [hfilter]
          exact List.mem_cons_self
        obtain ⟨hmem, hkept⟩ := List.mem_filter.mp hown
        exact absurd ⟨first, later, harrivals, hforeign, own, hmem, of_decide_eq_true hkept⟩ h
      · rintro ⟨first', later', heq, hannounces⟩
        cases heq
        exact absurd hforeign hannounces.own
    · rw [List.filter_cons_of_pos (by simpa using hforeign)]
      constructor
      · rintro ⟨first', later', heq, hannounces⟩
        cases heq
        exact ⟨first, later, rfl, hannounces⟩
      · rintro ⟨first', later', heq, hannounces⟩
        cases heq
        exact ⟨first, _, rfl, hannounces⟩

end Query

section Probing
variable {env : Nat → Attempt} {startPort : UInt16} {maxAttempts i : Nat}

private theorem stableAt_iff :
    StableAt env startPort i ↔ (env i).Confirms (testPort startPort i) := by
  unfold StableAt Attempt.Confirms
  simp only [getPublicAddress_eq_ok]

private theorem firstStable_iff :
    FirstStable env startPort maxAttempts i ↔ FirstConfirmed env startPort maxAttempts i := by
  unfold FirstStable FirstConfirmed PassedOver
  simp only [stableAt_iff]

private theorem neverStable_iff :
    NeverStable env startPort maxAttempts ↔ PassedOver env startPort maxAttempts := by
  unfold NeverStable PassedOver
  simp only [stableAt_iff]

def quietly (env : Nat → Attempt) : Nat → Attempt := fun i => (env i).quiet

private theorem quietly_noSocket_iff : quietly env i = .noSocket ↔ env i = .noSocket := by
  unfold quietly
  cases env i <;> simp [Attempt.quiet]

private theorem stableAt_quietly (h : ¬ (env i).Spoiled) :
    StableAt (quietly env) startPort i ↔ StableAt env startPort i := by
  unfold StableAt quietly
  cases henv : env i with
  | noSocket => simp [Attempt.quiet]
  | bindFails => simp [Attempt.quiet]
  | bound query =>
    have hquiet : ¬ query.Spoiled := fun hspoiled => h ⟨query, henv, hspoiled⟩
    constructor
    · rintro ⟨query', addr, heq, haddr, hport⟩
      cases heq
      exact ⟨query, addr, rfl, (getPublicAddress_quiet hquiet).mp haddr, hport⟩
    · rintro ⟨query', addr, heq, haddr, hport⟩
      cases heq
      exact ⟨query.quiet, addr, rfl, (getPublicAddress_quiet hquiet).mpr haddr, hport⟩

private theorem quietly_stable (h : StableAt env startPort i) :
    StableAt (quietly env) startPort i := by
  have hunspoiled : ¬ (env i).Spoiled := by
    rintro ⟨query, henv, hspoiled⟩
    obtain ⟨query', addr, henv', haddr, -⟩ := h
    cases henv.symm.trans henv'
    exact getPublicAddress_spoiled hspoiled haddr
  exact (stableAt_quietly hunspoiled).mpr h

private theorem passed_quietly {n : Nat} (h : NeverStable (quietly env) startPort n) :
    NeverStable env startPort n := by
  intro j hj
  obtain ⟨hunstable, hsocket⟩ := h j hj
  exact ⟨fun hstable => hunstable (quietly_stable hstable),
    fun hnone => hsocket (quietly_noSocket_iff.mpr hnone)⟩

private theorem probe_quietly_iff :
    (probeStablePort env startPort maxAttempts).result =
        (probeStablePort (quietly env) startPort maxAttempts).result ↔
      ∀ i, FirstConfirmed (quietly env) startPort maxAttempts i → (env i).Spoiled →
        (∃ j, FirstConfirmed env startPort maxAttempts j ∧
          testPort startPort j = testPort startPort i) ∨
        (PassedOver env startPort maxAttempts ∧ startPort = testPort startPort i) := by
  simp only [← firstStable_iff, ← neverStable_iff]
  constructor
  · intro heq i hi _
    rw [hi.result, probe_ok_iff] at heq
    rcases heq with ⟨j, hj, hport⟩ | ⟨hnever, hport⟩
    · exact .inl ⟨j, hj, hport.symm⟩
    · exact .inr ⟨hnever, hport.symm⟩
  · intro h
    rcases probe_cases (quietly env) startPort maxAttempts with ⟨i, hi⟩ | hnever | hthrows
    · rw [hi.result, probe_ok_iff]
      by_cases hspoiled : (env i).Spoiled
      · rcases h i hi hspoiled with ⟨j, hj, hport⟩ | ⟨hnever, hport⟩
        · exact .inl ⟨j, hj, hport.symm⟩
        · exact .inr ⟨hnever, hport.symm⟩
      · obtain ⟨hlt, hstable, hfirst⟩ := hi
        exact .inl ⟨i, ⟨hlt, (stableAt_quietly hspoiled).mp hstable, passed_quietly hfirst⟩, rfl⟩
    · rw [hnever.result, (passed_quietly hnever).result]
    · obtain ⟨t, hlt, hsocket, hfirst⟩ := hthrows
      have hthrows' : Throws env startPort maxAttempts :=
        ⟨t, hlt, quietly_noSocket_iff.mp hsocket, passed_quietly hfirst⟩
      rw [hthrows'.result, Throws.result ⟨t, hlt, hsocket, hfirst⟩]

end Probing

/-- A query returns the address of the response it was sent for exactly when the datagram
that arrives first announces that address; among foreign datagrams the response itself has
to be the first. A probe is unaffected exactly when the attempt that is the first to confirm
its port without foreign datagrams is not spoiled, or the first that confirms its port among
them tests the same port, or none does and that port is the start port. -/
theorem discovery_iff (query : StunQuery) (hresolved : query.resolved = true)
    (hsent : query.sent (bindingRequest query.txid) = true) (before after : List Bytes)
    (response : Bytes) (addr : StunAddress)
    (harrivals : query.arrivals = before ++ response :: after)
    (hannounces : Announces query.txid response addr)
    (env : Nat → Attempt) (startPort : UInt16) (maxAttempts : Nat) :
    (getPublicAddress query = .ok addr ↔
      ∃ first later, query.arrivals = first :: later ∧ Announces query.txid first addr) ∧
    ((∀ datagram ∈ before, Foreign query.txid datagram) →
      (getPublicAddress query = .ok addr ↔ before = [])) ∧
    ((probeStablePort env startPort maxAttempts).result =
        (probeStablePort (quietly env) startPort maxAttempts).result ↔
      ∀ i, FirstConfirmed (quietly env) startPort maxAttempts i → (env i).Spoiled →
        (∃ j, FirstConfirmed env startPort maxAttempts j ∧
          testPort startPort j = testPort startPort i) ∨
        (PassedOver env startPort maxAttempts ∧ startPort = testPort startPort i)) := by
  have hfirst : getPublicAddress query = .ok addr ↔
      ∃ first later, query.arrivals = first :: later ∧ Announces query.txid first addr := by
    rw [getPublicAddress_eq_ok]
    exact ⟨fun h => h.2.2, fun h => ⟨hresolved, hsent, h⟩⟩
  refine ⟨hfirst, ?_, probe_quietly_iff⟩
  intro hbefore
  rw [hfirst, harrivals]
  constructor
  · rintro ⟨first, later, heq, hown⟩
    cases before with
    | nil => rfl
    | cons d before =>
      cases heq
      exact absurd (hbefore first List.mem_cons_self) hown.own
  · rintro rfl
    exact ⟨response, after, rfl, hannounces⟩

section Punch

def stableResponse : Bytes := bindingResponse (fun _ => 7) [xoredAddress ![203, 0, 113, 7] 5000]

private theorem stableResponse_announces (query : StunQuery) (h : query.txid = fun _ => 7) :
    Announces query.txid stableResponse ⟨"203.0.113.7", 5000⟩ := by
  rw [h]
  apply announces_iff.mp
  decide +kernel

def receiving (arrivals : List Bytes) : StunQuery :=
  ⟨"stun.l.google.com", true, fun _ => true, fun _ => 7, arrivals⟩

/-- A punch behind the response does no harm. -/
theorem discovery_iff_punch_later :
    getPublicAddress (receiving [stableResponse, [0, 0, 0, 0]]) = .ok ⟨"203.0.113.7", 5000⟩ := by
  have hresponse := stableResponse_announces (receiving [stableResponse, [0, 0, 0, 0]]) rfl
  obtain ⟨-, hforeign, -⟩ := discovery_iff (receiving [stableResponse, [0, 0, 0, 0]]) rfl rfl []
    [[0, 0, 0, 0]] stableResponse _ rfl hresponse (fun _ => .noSocket) 5000 0
  exact (hforeign fun _ h => absurd h List.not_mem_nil).mpr rfl

/-- A punch in front of the response: the query fails, and the probe passes over port 5000,
which is stable, to the next one. -/
theorem punch_spoils_discovery :
    let query := receiving [[0, 0, 0, 0], stableResponse]
    let next := receiving [bindingResponse (fun _ => 7) [xoredAddress ![203, 0, 113, 7] 5001]]
    let env : Nat → Attempt := fun i => if i = 0 then .bound query else .bound next
    query.resolved = true ∧ query.sent (bindingRequest query.txid) = true ∧
      query.arrivals = [[0, 0, 0, 0]] ++ stableResponse :: [] ∧
      Announces query.txid stableResponse ⟨"203.0.113.7", 5000⟩ ∧
      getPublicAddress query = .error (.runtime "STUN response too short or timed out") ∧
      (probeStablePort env 5000 20).result = .ok 5001 ∧
      (probeStablePort (quietly env) 5000 20).result = .ok 5000 := by
  intro query next env
  refine ⟨rfl, rfl, rfl, stableResponse_announces _ rfl, ?_, ?_, ?_⟩
  · decide +kernel
  · decide +kernel
  · decide +kernel

end Punch

end VSwitch
