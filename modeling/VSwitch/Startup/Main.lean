import VSwitch.Startup.Addresses
import VSwitch.Startup.Constructor
import VSwitch.Switch.KeyedWrites

/-! The program from its arguments to the call of `run`. The key travels as a string whose
emptiness also says that there is none. -/
namespace VSwitch
open Lib StunClient

structure Args where
  taps : List Text := []
  udpPeers : List Text := []
  stunServer : Text := []
  keyHex : Text := []

/-- How the program ends before `run`, or that it gets there. An exception is caught in
`main`, which returns 1. -/
inductive Ending where
  | exit (code : Nat)
  | failed (e : StartupError)
  | running
  deriving DecidableEq

/-- An argument that is no option with a value: `exit(0)` behind the help, or `exit(1)`. -/
def unknownOption (arg : Text) : Ending :=
  if arg = "--help".toList ∨ arg = "-h".toList then .exit 0 else .exit 1

/-- The loop of `parse_args` over the arguments that are left. An option takes the next
argument as its value, whatever it is. -/
def parseArgs (args : Args) : List Text → Except Ending Args
  | [] => .ok args
  | [arg] => .error (unknownOption arg)
  | arg :: value :: rest =>
    if arg = "--local".toList then parseArgs { args with taps := args.taps ++ [value] } rest
    else if arg = "--udp".toList then
      parseArgs { args with udpPeers := args.udpPeers ++ [value] } rest
    else if arg = "--stun".toList then parseArgs { args with stunServer := value } rest
    else if arg = "--key".toList then parseArgs { args with keyHex := value } rest
    else .error (unknownOption arg)

/-- What `main` depends on besides its arguments: libsodium, the exceptions of the TAP
constructors in turn, and what it meets with the peers. `hex2bin` is `sodium_hex2bin` into an
array of 32 bytes, with the bytes written if it returns zero. -/
structure Machine where
  sodiumInit : Bool
  hex2bin : Text → Option Bytes
  tap : Nat → Option StartupError
  peers : Surroundings

def parseKey (hex2bin : Text → Option Bytes) (hex : Text) : Except StartupError Key :=
  match hex2bin hex with
  | some key =>
    if key.length ≠ 32 then .error (.runtime "Invalid --key: expected 64 hex characters".toList)
    else .ok (copyOut 32 key 0)
  | none => .error (.runtime "Invalid --key: expected 64 hex characters".toList)

/-- The loop of `main` over the TAP devices. -/
def addTaps (refuses : Nat → Option StartupError) : Nat → List Text → Except StartupError Unit
  | _, [] => .ok ()
  | i, _ :: names =>
    match refuses i with
    | some e => .error e
    | none => addTaps refuses (i + 1) names

def stunHostOf (server : Text) : Except StartupError Text :=
  if server = [] then .ok [] else HostPort.host <$> parseHostPort server

def keyOf (hex2bin : Text → Option Bytes) (keyHex : Text) : Except StartupError (Option Key) :=
  if keyHex = [] then .ok none else some <$> parseKey hex2bin keyHex

/-- What the start-up loop over the peers is given. -/
structure Setup where
  taps : List Text
  udpPeers : List Text
  stunHost : Text
  key : Option Key

/-- The program ends here unless the condition holds. -/
def require (pass : Prop) [Decidable pass] (ending : Ending) : Except Ending Unit :=
  if pass then .ok () else .error ending

/-- `main` up to that loop. No UDP port exists yet. -/
def setUp (machine : Machine) (argv : List Text) : Except Ending Setup := do
  require (machine.sodiumInit = true) (.failed (.runtime "Failed to initialize libsodium".toList))
  let args ← parseArgs {} argv.tail
  require (args.taps ≠ [] ∨ args.udpPeers ≠ []) (.exit 1)
  (addTaps machine.tap 0 args.taps).mapError .failed
  let stunHost ← (stunHostOf args.stunServer).mapError .failed
  let key ← (keyOf machine.hex2bin args.keyHex).mapError .failed
  return ⟨args.taps, args.udpPeers, stunHost, key⟩

/-- The TAP devices and the UDP ports constructed, and how the start-up ends. -/
structure Startup where
  taps : List Text
  udpPorts : List UdpPort
  ending : Ending
  deriving DecidableEq

/-- The ports that exist after these constructor calls: one that throws leaves none. -/
def builtPorts (env : Surroundings) (calls : List PortArgs) : List UdpPort :=
  (calls.zipIdx.filter fun call => env.refuses call.2 = none).map fun call => call.1.port

/-- `main`, up to the call of `run`. -/
def main (machine : Machine) (argv : List Text) : Startup :=
  match setUp machine argv with
  | .error ending => ⟨[], [], ending⟩
  | .ok setup =>
    let (calls, result) :=
      addUdpPeers machine.peers setup.stunHost setup.key 0 setup.udpPeers false
    ⟨setup.taps, builtPorts machine.peers calls, match result with
      | .error e => .failed e
      | .ok () => .running⟩

def Startup.devices (s : Startup) : List Device :=
  s.taps.map (fun _ => .tap) ++ s.udpPorts.map .udp

/-- The loop of `run` as `main` enters it. -/
def Startup.loop (s : Startup) (now : Int) : EventLoop (Fin s.devices.length) :=
  ⟨.create (List.finRange _) (List.nodup_finRange _) now, s.devices.get⟩

/-- The values of the `--key` options that `parse_args` consumes, in order. -/
def keyValues : List Text → List Text
  | arg :: value :: rest =>
    if arg = "--key".toList then value :: keyValues rest
    else if arg = "--local".toList ∨ arg = "--udp".toList ∨ arg = "--stun".toList then
      keyValues rest
    else []
  | _ => []

/-- In every run, each UDP port has a key: what it sends for a frame is sealed under it, and a
frame that it delivers was opened with it. -/
def EventLoop.Encrypts {P : Type} [DecidableEq P] (A : Aead) (w : SizeT) (loop : EventLoop P) :
    Prop :=
  ∀ events later, Run (EventLoop.Goes A w) loop events later → ∀ q u, later.device q = .udp u →
    ∃ key, u.key = some key ∧
      (∀ nonce frame sent, u.write A nonce frame = .ok sent →
        sent.payload = UdpPort.sealedPacket A.encrypt key nonce frame) ∧
      ∀ src payload, 0 < (u.read A w (.datagram src payload) maxFrameSize).2.ret →
        UdpPort.opens A src payload maxFrameSize u.remoteAddr.addr key =
          some (u.read A w (.datagram src payload) maxFrameSize).2.copied

/-- The program gets as far as constructing the first UDP port: the arguments are options, the
TAP devices and the server are in order, and the first peer is there, parses, gets a port from
the probe and is not refused. -/
def FirstPeerStarts (machine : Machine) (argv : List Text) : Prop :=
  machine.sodiumInit = true ∧ ∃ args, parseArgs {} argv.tail = .ok args ∧
    (∀ i < args.taps.length, machine.tap i = none) ∧
    ∃ stunHost, stunHostOf args.stunServer = .ok stunHost ∧
      ∃ peer rest cfg, args.udpPeers = peer :: rest ∧ parseUdpPeer peer = .ok cfg ∧
        (stunHost = [] ∨ ¬ Throws machine.peers.probe cfg.localPort probeAttempts) ∧
        machine.peers.refuses 0 = none

section Arguments
variable {args result : Args} {argv : List Text} {arg value : Text}

private theorem keyValues_other
    (hother : arg = "--local".toList ∨ arg = "--udp".toList ∨ arg = "--stun".toList) :
    keyValues (arg :: value :: argv) = keyValues argv := by
  have hkey : arg ≠ "--key".toList := by
    rcases hother with rfl | rfl | rfl <;> decide
  rw [keyValues, if_neg hkey, if_pos hother]

private theorem keyValues_key :
    keyValues ("--key".toList :: value :: argv) = value :: keyValues argv := by
  rw [keyValues, if_pos rfl]

private theorem parseArgs_keyHex (h : parseArgs args argv = .ok result) :
    result.keyHex = (keyValues argv).getLastD args.keyHex := by
  induction args, argv using parseArgs.induct with
  | case1 args =>
    cases h
    rfl
  | case2 args arg => cases h
  | case3 args value rest ih =>
    rw [parseArgs, if_pos rfl] at h
    rw [keyValues_other (.inl rfl)]
    exact ih h
  | case4 args value rest hlocal ih =>
    rw [parseArgs, if_neg hlocal, if_pos rfl] at h
    rw [keyValues_other (.inr (.inl rfl))]
    exact ih h
  | case5 args value rest hlocal hudp ih =>
    rw [parseArgs, if_neg hlocal, if_neg hudp, if_pos rfl] at h
    rw [keyValues_other (.inr (.inr rfl))]
    exact ih h
  | case6 args value rest hlocal hudp hstun ih =>
    rw [parseArgs, if_neg hlocal, if_neg hudp, if_neg hstun, if_pos rfl] at h
    rw [keyValues_key, List.getLastD_cons]
    exact ih h
  | case7 args arg value rest hlocal hudp hstun hkey =>
    rw [parseArgs, if_neg hlocal, if_neg hudp, if_neg hstun, if_neg hkey] at h
    cases h

end Arguments

section Constructed
variable {env : Surroundings} {stunHost : Text} {key : Option Key} {peers : List Text}
variable {peer : Text} {i : Nat} {stunDone : Bool} {cfg : UdpPeerConfig} {args : PortArgs}
variable {calls : List PortArgs} {u : UdpPort}

private theorem key_addUdpPeer (h : args ∈ (addUdpPeer env stunHost key i peer stunDone).1) :
    args.key = key := by
  unfold addUdpPeer at h
  cases hparse : parseUdpPeer peer with
  | error e => simp [hparse] at h
  | ok cfg =>
    cases hlocal : localPortFor env stunHost stunDone cfg with
    | error e => simp [hparse, hlocal] at h
    | ok port =>
      simp only [hparse, hlocal, List.mem_singleton] at h
      rw [h]

private theorem key_addUdpPeers (h : args ∈ (addUdpPeers env stunHost key i peers stunDone).1) :
    args.key = key := by
  induction peers generalizing i stunDone with
  | nil => cases h
  | cons peer peers ih =>
    unfold addUdpPeers at h
    cases hturn : (addUdpPeer env stunHost key i peer stunDone).2 with
    | error e =>
      simp only [hturn] at h
      exact key_addUdpPeer h
    | ok stunDone' =>
      simp only [hturn] at h
      rcases List.mem_append.mp h with hnow | hlater
      · exact key_addUdpPeer hnow
      · exact ih hlater

private theorem mem_builtPorts (h : u ∈ builtPorts env calls) : ∃ args ∈ calls, u = args.port := by
  obtain ⟨⟨args, i⟩, hcall, rfl⟩ := List.mem_map.mp h
  exact ⟨args, List.fst_mem_of_mem_zipIdx (List.mem_filter.mp hcall).1, rfl⟩

theorem localPortFor_ok_iff :
    (∃ port, localPortFor env stunHost false cfg = .ok port) ↔
      stunHost = [] ∨ ¬ Throws env.probe cfg.localPort probeAttempts := by
  by_cases hhost : stunHost = []
  · have hlocal : localPortFor env stunHost false cfg = .ok cfg.localPort :=
      if_neg fun h => h.2 hhost
    exact ⟨fun _ => .inl hhost, fun _ => ⟨_, hlocal⟩⟩
  · rw [or_iff_right hhost]
    rcases probe_cases env.probe cfg.localPort probeAttempts with ⟨i, hi⟩ | hnever | hthrows
    · exact ⟨fun _ => hi.not_throws, fun _ => ⟨_, localPortFor_probed hhost hi.result⟩⟩
    · exact ⟨fun _ => hnever.not_throws, fun _ => ⟨_, localPortFor_probed hhost hnever.result⟩⟩
    · rw [localPortFor_throws hhost hthrows.result]
      constructor
      · rintro ⟨port, hport⟩
        cases hport
      · exact fun h => absurd hthrows h

private theorem builtPorts_ne_nil_iff :
    builtPorts env (addUdpPeers env stunHost key 0 peers false).1 ≠ [] ↔
      ∃ peer rest cfg, peers = peer :: rest ∧ parseUdpPeer peer = .ok cfg ∧
        (stunHost = [] ∨ ¬ Throws env.probe cfg.localPort probeAttempts) ∧
        env.refuses 0 = none := by
  simp only [← localPortFor_ok_iff]
  constructor
  · intro h
    cases peers with
    | nil => exact absurd rfl h
    | cons peer rest =>
      cases hparse : parseUdpPeer peer with
      | error e =>
        rw [addUdpPeers_error hparse] at h
        exact absurd rfl h
      | ok cfg =>
        cases hlocal : localPortFor env stunHost false cfg with
        | error e =>
          rw [addUdpPeers, addUdpPeer, hparse] at h
          simp [hlocal, builtPorts] at h
        | ok port =>
          refine ⟨peer, rest, cfg, rfl, hparse, ⟨port, hlocal⟩, ?_⟩
          cases hrefuses : env.refuses 0 with
          | none => rfl
          | some e =>
            rw [addUdpPeers, addUdpPeer, hparse] at h
            simp [hlocal, hrefuses, builtPorts] at h
  · rintro ⟨peer, rest, cfg, rfl, hparse, ⟨port, hlocal⟩, hrefuses⟩
    rw [addUdpPeers, addUdpPeer, hparse]
    simp [hlocal, hrefuses, builtPorts, List.zipIdx_cons]

end Constructed

section Setup
variable {machine : Machine} {argv : List Text} {setup : Setup}

private theorem mapError_eq_ok {E E' X : Type} {m : Except E X} {f : E → E'} {x : X} :
    m.mapError f = .ok x ↔ m = .ok x := by
  cases m <;> simp [Except.mapError]

private theorem require_eq_ok {pass : Prop} [Decidable pass] {ending : Ending} {u : Unit} :
    require pass ending = .ok u ↔ pass := by
  unfold require
  split_ifs with h <;> simp [h]

theorem addTaps_ok_iff {refuses : Nat → Option StartupError} {i : Nat} {names : List Text}
    {u : Unit} : addTaps refuses i names = .ok u ↔ ∀ j < names.length, refuses (i + j) = none := by
  induction names generalizing i with
  | nil => simp [addTaps]
  | cons name names ih =>
    unfold addTaps
    cases hrefuses : refuses i with
    | some e =>
      constructor
      · intro h
        cases h
      · intro h
        have hfirst := h 0 (Nat.succ_pos _)
        rw [Nat.add_zero, hrefuses] at hfirst
        cases hfirst
    | none =>
      simp only [ih]
      constructor
      · intro h j hj
        cases j with
        | zero => exact hrefuses
        | succ j =>
          rw [Nat.add_comm j 1, ← Nat.add_assoc]
          exact h j (Nat.lt_of_succ_lt_succ hj)
      · intro h j hj
        rw [Nat.add_assoc, Nat.add_comm 1 j]
        exact h (j + 1) (Nat.succ_lt_succ hj)

/-- All checks that `main` makes before the first UDP port. -/
theorem setUp_ok_iff :
    setUp machine argv = .ok setup ↔
      machine.sodiumInit = true ∧ ∃ args, parseArgs {} argv.tail = .ok args ∧
        (args.taps ≠ [] ∨ args.udpPeers ≠ []) ∧ addTaps machine.tap 0 args.taps = .ok () ∧
        ∃ stunHost, stunHostOf args.stunServer = .ok stunHost ∧
          ∃ key, keyOf machine.hex2bin args.keyHex = .ok key ∧
            setup = ⟨args.taps, args.udpPeers, stunHost, key⟩ := by
  simp only [setUp, bind_eq_ok, require_eq_ok, mapError_eq_ok]
  constructor
  · rintro ⟨-, hsodium, args, hargs, -, hports, ⟨⟩, htaps, stunHost, hhost, key, hkey, hsetup⟩
    cases hsetup
    exact ⟨hsodium, args, hargs, hports, htaps, stunHost, hhost, key, hkey, rfl⟩
  · rintro ⟨hsodium, args, hargs, hports, htaps, stunHost, hhost, key, hkey, rfl⟩
    exact ⟨(), hsodium, args, hargs, (), hports, (), htaps, stunHost, hhost, key, hkey, rfl⟩

private theorem keyHex_last {args : Args} (h : parseArgs {} argv = .ok args)
    (hkeys : keyValues argv ≠ []) : args.keyHex = (keyValues argv).getLast hkeys := by
  rw [parseArgs_keyHex h, List.getLastD_eq_getLast?, List.getLast?_eq_some_getLast hkeys]
  rfl

private theorem keyOf_given {hex2bin : Text → Option Bytes} {keyHex : Text} {key : Option Key}
    (h : keyOf hex2bin keyHex = .ok key) (hgiven : keyHex ≠ []) : key ≠ none := by
  rw [keyOf, if_neg hgiven] at h
  cases hparse : parseKey hex2bin keyHex with
  | error e =>
    rw [hparse] at h
    cases h
  | ok k =>
    rw [hparse] at h
    cases h
    exact Option.some_ne_none k

theorem udpPorts_main (h : setUp machine argv = .ok setup) :
    (main machine argv).udpPorts = builtPorts machine.peers
      (addUdpPeers machine.peers setup.stunHost setup.key 0 setup.udpPeers false).1 := by
  rw [main, h]

private theorem key_main {u : UdpPort} (h : setUp machine argv = .ok setup)
    (hu : u ∈ (main machine argv).udpPorts) : u.key = setup.key := by
  rw [udpPorts_main h] at hu
  obtain ⟨args, hcall, rfl⟩ := mem_builtPorts hu
  exact key_addUdpPeers hcall

private theorem udpPorts_ne_nil_iff (h : setUp machine argv = .ok setup) :
    (main machine argv).udpPorts ≠ [] ↔ FirstPeerStarts machine argv := by
  rw [udpPorts_main h, builtPorts_ne_nil_iff]
  obtain ⟨hsodium, args, hargs, -, htaps, stunHost, hhost, key, -, rfl⟩ := setUp_ok_iff.mp h
  have htaps' : ∀ i < args.taps.length, machine.tap i = none := by
    simpa only [Nat.zero_add] using addTaps_ok_iff.mp htaps
  constructor
  · intro hfirst
    exact ⟨hsodium, args, hargs, htaps', stunHost, hhost, hfirst⟩
  · rintro ⟨-, args', hargs', -, stunHost', hhost', hfirst⟩
    cases hargs.symm.trans hargs'
    cases hhost.symm.trans hhost'
    exact hfirst

private theorem FirstPeerStarts.setUp_ok (h : FirstPeerStarts machine argv)
    (hkeys : keyValues argv.tail ≠ []) (hempty : (keyValues argv.tail).getLast hkeys = []) :
    ∃ setup, setUp machine argv = .ok setup ∧ setup.key = none := by
  obtain ⟨hsodium, args, hargs, htaps, stunHost, hhost, peer, rest, cfg, hpeers, -⟩ := h
  have hnone : keyOf machine.hex2bin args.keyHex = .ok none := by
    rw [keyHex_last hargs hkeys, hempty]
    rfl
  have htaps' : addTaps machine.tap 0 args.taps = .ok () :=
    addTaps_ok_iff.mpr (by simpa only [Nat.zero_add] using htaps)
  exact ⟨_, setUp_ok_iff.mpr ⟨hsodium, args, hargs, .inr (by simp [hpeers]), htaps', stunHost, hhost,
    none, hnone, rfl⟩, rfl⟩

private theorem keyed_iff (hkeys : keyValues argv.tail ≠ []) :
    (∀ u ∈ (main machine argv).udpPorts, u.key ≠ none) ↔
      (keyValues argv.tail).getLast hkeys ≠ [] ∨ ¬ FirstPeerStarts machine argv := by
  constructor
  · intro h
    by_contra hplain
    obtain ⟨hempty, hstarts⟩ := not_or.mp hplain
    rw [not_not] at hempty hstarts
    obtain ⟨setup, hsetup, hnone⟩ := hstarts.setUp_ok hkeys hempty
    obtain ⟨u, hu⟩ := List.exists_mem_of_ne_nil _ ((udpPorts_ne_nil_iff hsetup).mpr hstarts)
    exact h u hu ((key_main hsetup hu).trans hnone)
  · intro h u hu
    cases hsetup : setUp machine argv with
    | error ending =>
      rw [main, hsetup] at hu
      cases hu
    | ok setup =>
      have hstarts := (udpPorts_ne_nil_iff hsetup).mp (List.ne_nil_of_mem hu)
      have hgiven := h.resolve_right (not_not.mpr hstarts)
      obtain ⟨-, args, hargs, -, -, stunHost, -, key, hkey, rfl⟩ := setUp_ok_iff.mp hsetup
      rw [key_main hsetup hu]
      rw [← keyHex_last hargs hkeys] at hgiven
      exact keyOf_given hkey hgiven

end Setup

section Encrypted
variable {A : Aead} {w : SizeT}

private theorem EventLoop.encrypts_of_secured {P : Type} [DecidableEq P] {loop : EventLoop P}
    (hports : ∀ q, (loop.device q).Secured) : loop.Encrypts A w := by
  intro events later hrun q u hdevice
  have hsecured : (later.device q).Secured :=
    hrun.invariant (I := fun l => ∀ q, (l.device q).Secured) (fun hl hstep => hstep.secured hl)
      hports q
  rw [hdevice] at hsecured
  obtain ⟨key, hk⟩ := Option.isSome_iff_exists.mp (hsecured.resolve_left nofun)
  refine ⟨key, hk, ?_, ?_⟩
  · intro nonce frame sent hwrite
    rw [u.write_sealed A hk] at hwrite
    split_ifs at hwrite
    cases hwrite
    rfl
  · intro src payload hret
    rw [UdpPort.read_sealed A w u src payload maxFrameSize hk] at hret ⊢
    cases hopen : UdpPort.opens A src payload maxFrameSize u.remoteAddr.addr key with
    | none =>
      rw [hopen] at hret
      cases hret
    | some plain => rfl

theorem Startup.secured {s : Startup} (h : ∀ u ∈ s.udpPorts, u.key ≠ none) (now : Int)
    (q : Fin s.devices.length) : ((s.loop now).device q).Secured := by
  have hmem : s.devices.get q ∈ s.devices := List.get_mem _ q
  rcases List.mem_append.mp hmem with htap | hudp
  · obtain ⟨name, -, hdevice⟩ := List.mem_map.mp htap
    exact .inl hdevice.symm
  · obtain ⟨u, hu, hdevice⟩ := List.mem_map.mp hudp
    right
    change (s.devices.get q).keyed = true
    rw [← hdevice]
    exact Option.isSome_iff_ne_none.mpr (h u hu)

end Encrypted

/-- Exactly when asking for a key yields one: every UDP port has a key, and the switch sends and
accepts no frame in the clear, unless the last `--key` is empty and the program gets as far as
the first peer. -/
theorem encryption_kept_iff (A : Aead) (w : SizeT) (machine : Machine) (argv : List Text)
    (now : Int) (hkeys : keyValues argv.tail ≠ []) :
    ((∀ u ∈ (main machine argv).udpPorts, u.key ≠ none) ∧
        ((main machine argv).ending = .running →
          ((main machine argv).loop now).Encrypts A w)) ↔
      (keyValues argv.tail).getLast hkeys ≠ [] ∨ ¬ FirstPeerStarts machine argv := by
  rw [← keyed_iff hkeys]
  constructor
  · exact fun h => h.1
  · intro hkeyed
    exact ⟨hkeyed, fun _ => EventLoop.encrypts_of_secured (Startup.secured hkeyed now)⟩

section Runs

def zeroKey : Text := List.replicate 64 '0'

/-- Everything succeeds, with `hex2bin` as it is on that key. -/
def fineMachine : Machine where
  sodiumInit := true
  hex2bin hex := if hex = zeroKey then some (List.replicate 32 0) else none
  tap _ := none
  peers := ⟨fun _ => .noSocket, fun _ => none⟩

def argvWithKey (keyHex : Text) : List Text :=
  ["vswitch".toList, "--local".toList, "tap0".toList, "--key".toList, keyHex, "--udp".toList,
    "0.0.0.0:5000:1.2.3.4:5000".toList]

private theorem keyValues_argvWithKey (keyHex : Text) :
    keyValues (argvWithKey keyHex).tail = [keyHex] := by
  rw [argvWithKey, List.tail_cons, keyValues_other (.inl rfl), keyValues_key,
    keyValues_other (.inr (.inl rfl))]
  rfl

theorem encryption_kept_zeros :
    (main fineMachine (argvWithKey zeroKey)).udpPorts.length = 1 ∧
      ∀ u ∈ (main fineMachine (argvWithKey zeroKey)).udpPorts, u.key ≠ none := by
  have hvalues := keyValues_argvWithKey zeroKey
  have hkeys : keyValues (argvWithKey zeroKey).tail ≠ [] := by simp [hvalues]
  have hgiven : (keyValues (argvWithKey zeroKey).tail).getLast hkeys ≠ [] := by
    simp only [hvalues, List.getLast_singleton]
    decide
  have hkept := encryption_kept_iff zeroTag .bits64 fineMachine (argvWithKey zeroKey) 0 hkeys
  exact ⟨by decide +kernel, (hkept.mpr (.inl hgiven)).1⟩

/-- An empty key is taken for no key: the program runs, and the peer is sent the frames as
they are. -/
theorem empty_key_plaintext :
    let outcome := main fineMachine (argvWithKey [])
    keyValues (argvWithKey []).tail = [[]] ∧ outcome.ending = .running ∧
      outcome.udpPorts = [⟨⟨0x01020304, 5000⟩, none⟩] ∧
      ∀ u ∈ outcome.udpPorts, ∀ nonce frame,
        u.write zeroTag nonce frame = .ok ⟨u.remoteAddr, htonl frame.length ++ frame⟩ := by
  intro outcome
  have hports : outcome.udpPorts = [⟨⟨0x01020304, 5000⟩, none⟩] := by decide +kernel
  refine ⟨keyValues_argvWithKey [], by decide +kernel, hports, ?_⟩
  intro u hu nonce frame
  rw [hports] at hu
  obtain rfl := List.mem_singleton.mp hu
  exact UdpPort.write_plain zeroTag _ rfl nonce frame

end Runs
end VSwitch
