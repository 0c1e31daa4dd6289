import VSwitch.Network.PortProbing
import VSwitch.Network.StunMessage
import VSwitch.Startup.PeerConfig

/-! The start-up loop over the `--udp` options. The first peer's local port is replaced by
what the probe returns; nobody compares that with the ports of the other peers. -/
namespace VSwitch
open Lib StunClient

/-- What the constructor of a `UdpPort` is given; its name is made of these. -/
structure PortArgs where
  config : UdpPeerConfig
  key : Option Key

/-- What the start-up meets: the answers to the probe, and for each peer in turn the
exception that its constructor throws, if it does. -/
structure Surroundings where
  probe : Nat → Attempt
  refuses : Nat → Option StartupError

/-- The default of `max_attempts`. -/
def probeAttempts : Nat := 20

def StunError.what : StunError → Text
  | .runtime what => what.toList
  | .pastEnd _ => []
  | .endless => []

/-- The local port for a peer. Only the first peer is probed for, if there is a server. -/
def localPortFor (env : Surroundings) (stunHost : Text) (stunDone : Bool) (cfg : UdpPeerConfig) :
    Except StartupError UInt16 :=
  if stunDone = false ∧ stunHost ≠ [] then
    match (probeStablePort env.probe cfg.localPort probeAttempts).result with
    | .ok port => .ok port
    | .error e => .error (.runtime e.what)
  else .ok cfg.localPort

/-- `add_udp_peer` for peer number `i`: the constructor calls, and `stun_done` afterwards. -/
def addUdpPeer (env : Surroundings) (stunHost : Text) (key : Option Key) (i : Nat) (peer : Text)
    (stunDone : Bool) : List PortArgs × Except StartupError Bool :=
  match parseUdpPeer peer with
  | .error e => ([], .error e)
  | .ok cfg =>
    match localPortFor env stunHost stunDone cfg with
    | .error e => ([], .error e)
    | .ok localPort =>
      ([⟨{ cfg with localPort := localPort }, key⟩],
        match env.refuses i with
        | some e => .error e
        | none => .ok (stunDone || stunHost ≠ []))

/-- The loop of `main` over the peers from number `i` on. -/
def addUdpPeers (env : Surroundings) (stunHost : Text) (key : Option Key) :
    Nat → List Text → Bool → List PortArgs × Except StartupError Unit
  | _, [], _ => ([], .ok ())
  | i, peer :: peers, stunDone =>
    let (ports, result) := addUdpPeer env stunHost key i peer stunDone
    match result with
    | .error e => (ports, .error e)
    | .ok stunDone =>
      let (later, result) := addUdpPeers env stunHost key (i + 1) peers stunDone
      (ports ++ later, result)

/-- The local ports that the constructors are given, in order. -/
def passedPorts (env : Surroundings) (stunHost : Text) (key : Option Key) (peers : List Text) :
    List UInt16 := (addUdpPeers env stunHost key 0 peers false).1.map fun p => p.config.localPort

/-- The peers whose turn comes when nothing else goes wrong: up to the first that does not
parse or whose constructor throws. -/
def reachedFrom (env : Surroundings) : Nat → List Text → List UdpPeerConfig
  | _, [] => []
  | i, peer :: peers =>
    match parseUdpPeer peer with
    | .error _ => []
    | .ok cfg => cfg :: if env.refuses i = none then reachedFrom env (i + 1) peers else []

/-- The local ports that the options configure. -/
def configuredPorts (peers : List Text) : List UInt16 :=
  peers.filterMap fun peer => (parseUdpPeer peer).toOption.map UdpPeerConfig.localPort

section Loop
variable {env : Surroundings} {stunHost : Text} {key : Option Key} {peer : Text}
variable {peers : List Text} {i : Nat} {stunDone : Bool} {cfg : UdpPeerConfig} {port : UInt16}
variable {rest : List UdpPeerConfig}

/-- With a server the first peer is given the port that the probe returns. -/
theorem localPortFor_probed (hhost : stunHost ≠ [])
    (hprobe : (probeStablePort env.probe cfg.localPort probeAttempts).result = .ok port) :
    localPortFor env stunHost false cfg = .ok port := by
  rw [localPortFor, if_pos ⟨rfl, hhost⟩, hprobe]

/-- What the probe throws leaves the loop. -/
theorem localPortFor_throws {e : StunError} (hhost : stunHost ≠ [])
    (hprobe : (probeStablePort env.probe cfg.localPort probeAttempts).result = .error e) :
    localPortFor env stunHost false cfg = .error (.runtime e.what) := by
  rw [localPortFor, if_pos ⟨rfl, hhost⟩, hprobe]

private theorem addUdpPeers_ok (hparse : parseUdpPeer peer = .ok cfg)
    (hlocal : localPortFor env stunHost stunDone cfg = .ok port) :
    (addUdpPeers env stunHost key i (peer :: peers) stunDone).1.map (fun p => p.config.localPort) =
      port :: if env.refuses i = none then
        (addUdpPeers env stunHost key (i + 1) peers (stunDone || stunHost ≠ [])).1.map
          fun p => p.config.localPort
      else [] := by
  rw [addUdpPeers, addUdpPeer, hparse]
  simp only [hlocal]
  cases env.refuses i with
  | none => rfl
  | some e => rfl

theorem addUdpPeers_error {e : StartupError} (hparse : parseUdpPeer peer = .error e) :
    (addUdpPeers env stunHost key i (peer :: peers) stunDone).1 = [] := by
  rw [addUdpPeers, addUdpPeer, hparse]

private theorem addUdpPeers_configured (h : stunDone = true ∨ stunHost = []) :
    (addUdpPeers env stunHost key i peers stunDone).1.map (fun p => p.config.localPort) =
      (reachedFrom env i peers).map UdpPeerConfig.localPort := by
  induction peers generalizing i stunDone with
  | nil => rfl
  | cons peer peers ih =>
    unfold reachedFrom
    cases hparse : parseUdpPeer peer with
    | error e =>
      rw [addUdpPeers_error hparse]
      rfl
    | ok cfg =>
      have hlocal : localPortFor env stunHost stunDone cfg = .ok cfg.localPort := by
        apply if_neg
        rintro ⟨hpending, hhost⟩
        rcases h with hdone | hempty
        · exact absurd (hpending.symm.trans hdone) (by decide)
        · exact hhost hempty
      have hlater : (stunDone || stunHost ≠ []) = true ∨ stunHost = [] := by
        rcases h with hdone | hempty
        · exact .inl (by rw [hdone, Bool.true_or])
        · exact .inr hempty
      rw [addUdpPeers_ok hparse hlocal, ih hlater, List.map_cons]
      split_ifs <;> rfl

private theorem passedPorts_noStun :
    passedPorts env [] key peers = (reachedFrom env 0 peers).map UdpPeerConfig.localPort :=
  addUdpPeers_configured (.inr rfl)

theorem passedPorts_unreached (h : reachedFrom env 0 peers = []) :
    passedPorts env stunHost key peers = [] := by
  cases peers with
  | nil => rfl
  | cons peer peers =>
    unfold reachedFrom at h
    cases hparse : parseUdpPeer peer with
    | error e => rw [passedPorts, addUdpPeers_error hparse, List.map_nil]
    | ok cfg => simp [hparse] at h

/-- With a server the first peer gets what the probe returns; if the probe throws, no
constructor is called at all. -/
theorem passedPorts_probed (hhost : stunHost ≠ []) (h : reachedFrom env 0 peers = cfg :: rest) :
    passedPorts env stunHost key peers =
      match (probeStablePort env.probe cfg.localPort probeAttempts).result with
      | .ok port => port :: rest.map UdpPeerConfig.localPort
      | .error _ => [] := by
  cases peers with
  | nil => cases h
  | cons peer peers =>
    unfold reachedFrom at h
    cases hparse : parseUdpPeer peer with
    | error e => simp [hparse] at h
    | ok first =>
      rw [hparse] at h
      obtain ⟨rfl, rfl⟩ := List.cons.inj h
      cases hprobe : (probeStablePort env.probe first.localPort probeAttempts).result with
      | error e =>
        rw [passedPorts, addUdpPeers, addUdpPeer, hparse]
        simp only [localPortFor_throws hhost hprobe, List.map_nil]
      | ok port =>
        have hlocal := localPortFor_probed hhost hprobe
        have hdone : (false || stunHost ≠ []) = true ∨ stunHost = [] := .inl (by simp [hhost])
        rw [passedPorts, addUdpPeers_ok hparse hlocal, addUdpPeers_configured hdone]
        split_ifs <;> rfl

private theorem reachedFrom_sublist :
    ((reachedFrom env i peers).map UdpPeerConfig.localPort).Sublist (configuredPorts peers) := by
  induction peers generalizing i with
  | nil => exact List.Sublist.refl _
  | cons peer peers ih =>
    unfold reachedFrom configuredPorts
    cases hparse : parseUdpPeer peer with
    | error e => exact List.nil_sublist _
    | ok cfg =>
      rw [List.filterMap_cons_some (by rw [hparse]; rfl), List.map_cons]
      apply List.Sublist.cons_cons
      split_ifs
      · exact ih
      · exact List.nil_sublist _

theorem reachedFrom_entrypoint {localPort : Text} {list : List Text}
    (h : cfg ∈ reachedFrom env i (list.map (entrypointPeer localPort))) :
    ∃ peer, parseUdpPeer (entrypointPeer localPort peer) = .ok cfg := by
  induction list generalizing i with
  | nil => cases h
  | cons peer list ih =>
    rw [List.map_cons, reachedFrom] at h
    cases hparse : parseUdpPeer (entrypointPeer localPort peer) with
    | error e =>
      rw [hparse] at h
      cases h
    | ok first =>
      rw [hparse] at h
      rcases List.mem_cons.mp h with rfl | hlater
      · exact ⟨peer, hparse⟩
      · split_ifs at hlater
        · exact ih hlater
        · cases hlater

end Loop

section Distinct
variable {env : Surroundings} {stunHost : Text} {key : Option Key} {peers : List Text}

theorem forall_cons_iff {cfg : UdpPeerConfig} {rest : List UdpPeerConfig}
    {P : UdpPeerConfig → List UdpPeerConfig → Prop} :
    (∀ cfg' rest', cfg :: rest = cfg' :: rest' → P cfg' rest') ↔ P cfg rest := by
  constructor
  · exact fun h => h cfg rest rfl
  · intro h cfg' rest' heq
    cases heq
    exact h

private theorem nodup_shared {rest : List UdpPeerConfig} {port shared : UInt16}
    (hsame : ∀ cfg ∈ rest, cfg.localPort = shared) :
    (port :: rest.map UdpPeerConfig.localPort).Nodup ↔
      rest = [] ∨ rest.length = 1 ∧ port ≠ shared := by
  match rest, hsame with
  | [], _ => simp
  | [cfg], hsame => simp [hsame cfg List.mem_cons_self]
  | cfg :: cfg' :: rest, hsame =>
    have h := hsame cfg List.mem_cons_self
    have h' := hsame cfg' (List.mem_cons_of_mem _ List.mem_cons_self)
    simp [h, h']

private theorem passedPorts_nodup_iff (hdistinct : (configuredPorts peers).Nodup) :
    (passedPorts env stunHost key peers).Nodup ↔
      ∀ cfg rest, reachedFrom env 0 peers = cfg :: rest → stunHost = [] ∨
        ∀ i, FirstStable env.probe cfg.localPort probeAttempts i →
          testPort cfg.localPort i ∉ rest.map UdpPeerConfig.localPort := by
  have hkept : ((reachedFrom env 0 peers).map UdpPeerConfig.localPort).Nodup :=
    hdistinct.sublist reachedFrom_sublist
  cases hreached : reachedFrom env 0 peers with
  | nil => simp [passedPorts_unreached hreached]
  | cons cfg rest =>
    rw [hreached, List.map_cons, List.nodup_cons] at hkept
    obtain ⟨hstart, hrest⟩ := hkept
    rw [forall_cons_iff]
    by_cases hhost : stunHost = []
    · subst hhost
      rw [passedPorts_noStun, hreached, List.map_cons, List.nodup_cons]
      exact ⟨fun _ => .inl rfl, fun _ => ⟨hstart, hrest⟩⟩
    · rw [passedPorts_probed hhost hreached, or_iff_right hhost]
      rcases probe_cases env.probe cfg.localPort probeAttempts with ⟨i, hi⟩ | hnever | hthrows
      · rw [hi.result]
        simp only [List.nodup_cons, hrest, and_true]
        constructor
        · intro h i' hi'
          rwa [← hi.unique hi']
        · exact fun h => h i hi
      · rw [hnever.result]
        simp only [List.nodup_cons, hrest, hstart, not_false_eq_true, and_self, true_iff]
        intro i hi
        exact absurd hi.2.1 (hnever i hi.1).1
      · rw [hthrows.result]
        simp only [List.nodup_nil, true_iff]
        intro i hi
        exact absurd hthrows hi.not_throws

/-- The arguments of `entrypoint.sh` share one local port, which only the probe can change,
and only for the first of them. -/
theorem passedPorts_entrypoint_iff {port : Text} {list : List Text} (hhost : stunHost ≠ []) :
    (passedPorts env stunHost key (list.map (entrypointPeer port))).Nodup ↔
      ∀ cfg rest, reachedFrom env 0 (list.map (entrypointPeer port)) = cfg :: rest →
        rest = [] ∨ Throws env.probe cfg.localPort probeAttempts ∨
          rest.length = 1 ∧ ∃ i, FirstStable env.probe cfg.localPort probeAttempts i ∧ i ≠ 0 := by
  cases hreached : reachedFrom env 0 (list.map (entrypointPeer port)) with
  | nil => simp [passedPorts_unreached hreached]
  | cons cfg rest =>
    have hsame : ∀ other ∈ rest, other.localPort = cfg.localPort := by
      intro other hother
      have hmem : ∀ c ∈ cfg :: rest, ∃ peer, parseUdpPeer (entrypointPeer port peer) = .ok c :=
        fun c hc => reachedFrom_entrypoint (hreached ▸ hc)
      obtain ⟨peer, hpeer⟩ := hmem other (List.mem_cons_of_mem _ hother)
      obtain ⟨peer', hpeer'⟩ := hmem cfg List.mem_cons_self
      exact entrypointPeer_localPort hpeer hpeer'
    rw [forall_cons_iff, passedPorts_probed hhost hreached]
    rcases probe_cases env.probe cfg.localPort probeAttempts with ⟨i, hi⟩ | hnever | hthrows
    · have hwrap : i < 65536 := lt_trans hi.1 (by decide)
      have hmoved : (∃ i', FirstStable env.probe cfg.localPort probeAttempts i' ∧ i' ≠ 0) ↔
          testPort cfg.localPort i ≠ cfg.localPort := by
        rw [ne_eq, testPort_eq_start hwrap]
        constructor
        · rintro ⟨i', hi', hne⟩
          rwa [hi.unique hi']
        · exact fun hne => ⟨i, hi, hne⟩
      rw [hi.result, hmoved, or_iff_right hi.not_throws]
      exact nodup_shared hsame
    · have hnone : ¬ ∃ i, FirstStable env.probe cfg.localPort probeAttempts i ∧ i ≠ 0 := by
        rintro ⟨i, hi, -⟩
        exact (hnever i hi.1).1 hi.2.1
      have hshared : (cfg.localPort :: rest.map UdpPeerConfig.localPort).Nodup ↔
          rest = [] ∨ rest.length = 1 ∧ cfg.localPort ≠ cfg.localPort := nodup_shared hsame
      rw [hnever.result, or_iff_right hnever.not_throws]
      simpa [hnone] using hshared
    · rw [hthrows.result]
      simp [hthrows]

end Distinct

/-- The server that `entrypoint.sh` names. -/
def entrypointStunHost : Text := "stun.l.google.com".toList

/-- Exactly when all constructors are given different local ports: for options that configure
different ones, and for the arguments that `entrypoint.sh` makes of a list of peers. -/
theorem local_ports_distinct_iff (env : Surroundings) (stunHost : Text) (key : Option Key)
    (peers : List Text) (port : Text) (list : List Text) :
    ((configuredPorts peers).Nodup →
      ((passedPorts env stunHost key peers).Nodup ↔
        ∀ cfg rest, reachedFrom env 0 peers = cfg :: rest → stunHost = [] ∨
          ∀ i, FirstStable env.probe cfg.localPort probeAttempts i →
            testPort cfg.localPort i ∉ rest.map UdpPeerConfig.localPort)) ∧
    ((passedPorts env entrypointStunHost key (list.map (entrypointPeer port))).Nodup ↔
      ∀ cfg rest, reachedFrom env 0 (list.map (entrypointPeer port)) = cfg :: rest →
        rest = [] ∨ Throws env.probe cfg.localPort probeAttempts ∨
          rest.length = 1 ∧ ∃ i, FirstStable env.probe cfg.localPort probeAttempts i ∧ i ≠ 0) := by
  have hhost : entrypointStunHost ≠ [] := by decide
  exact ⟨passedPorts_nodup_iff, passedPorts_entrypoint_iff hhost⟩

section Collisions

/-- Every attempt binds and every constructor succeeds; STUN reports the ports given. -/
def reporting (ports : Nat → UInt16) : Surroundings where
  probe i := .bound (answered [xoredAddress ![203, 0, 113, 7] (ports i)])
  refuses _ := none

/-- Two peers on ports 5000 and 5001, of which only 5001 is stable, and two peers of
`entrypoint.sh` whose port 5000 is stable. -/
theorem peers_share_port :
    let peers := ["0.0.0.0:5000:1.2.3.4:5000".toList, "0.0.0.0:5001:5.6.7.8:5000".toList]
    let list := ["1.2.3.4:5000".toList, "5.6.7.8:5000".toList]
    let moved := reporting fun i => if i = 0 then 6000 else 5001
    let stable := reporting fun _ => 5000
    (configuredPorts peers).Nodup ∧
      passedPorts moved entrypointStunHost none peers = [5001, 5001] ∧
      ¬ (passedPorts moved entrypointStunHost none peers).Nodup ∧
      list.Nodup ∧
      ¬ (passedPorts stable entrypointStunHost none
        (list.map (entrypointPeer "5000".toList))).Nodup := by
  intro peers list moved stable
  have hmoved : passedPorts moved entrypointStunHost none peers = [5001, 5001] := by
    decide +kernel
  refine ⟨by decide +kernel, hmoved, ?_, by decide +kernel, by decide +kernel⟩
  rw [hmoved]
  decide

end Collisions
end VSwitch
