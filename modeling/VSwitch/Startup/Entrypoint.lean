import VSwitch.Startup.Main

/-! The last part of `entrypoint.sh`: the list of peers in the environment of the container
becomes the arguments of the switch, by way of a string that the shell takes apart again. -/
namespace VSwitch
open Lib StunClient

/-- The variables of the container that end up in the arguments. One that is not set is empty. -/
structure ContainerEnv where
  peers : Text
  port : Text
  key : Text
  deriving DecidableEq

/-- `PORT="${PORT:-5000}"`. -/
def ContainerEnv.portOrDefault (env : ContainerEnv) : Text :=
  if env.port = [] then "5000".toList else env.port

/-- `IFS=',' read -ra` of the list: its first line, cut at the commas. Nothing follows the last. -/
def readPeers (peers : Text) : List Text :=
  let fields := (upTo '\n' peers).splitOn ','
  if fields.getLast? = some [] then fields.dropLast else fields

/-- `UDP_ARGS` after the loop over the peers. -/
def udpArgs (port : Text) (peers : List Text) : Text :=
  peers.foldl (fun args peer => args ++ " --udp ".toList ++ entrypointPeer port peer) []

/-- `KEY_ARGS`. -/
def keyArgs (key : Text) : Text := if key = [] then [] else "--key ".toList ++ key

def isBlank (c : Char) : Bool := c = ' ' ∨ c = '\t' ∨ c = '\n'

def isPattern (c : Char) : Bool := ['*', '?', '[', '\\'].contains c

/-- An expansion without quotes: split into words, each of which may be a pattern. -/
def expand (glob : Text → List Text) (s : Text) : List Text :=
  ((s.splitOnP isBlank).filter (· ≠ [])).flatMap glob

/-- The arguments behind `exec`, or the exit code if there are no peers. `glob` is the pathname
expansion. -/
def entrypoint (glob : Text → List Text) (env : ContainerEnv) : Except Nat (List Text) :=
  if env.peers = [] then .error 1
  else .ok (["vswitch".toList, "--local".toList, "tap0".toList, "--stun".toList,
      "stun.l.google.com:19302".toList] ++
    expand glob (udpArgs env.portOrDefault (readPeers env.peers)) ++ expand glob (keyArgs env.key))

def isHexDigit (c : Char) : Bool :=
  c.isDigit = true ∨ (65 ≤ c.toNat ∧ c.toNat ≤ 70) ∨ (97 ≤ c.toNat ∧ c.toNat ≤ 102)

def hexValue (c : Char) : Nat :=
  if c.toNat ≤ 57 then c.toNat - 48 else if c.toNat ≤ 70 then c.toNat - 55 else c.toNat - 87

def hexBytes : Text → Bytes
  | a :: b :: rest => UInt8.ofNat (16 * hexValue a + hexValue b) :: hexBytes rest
  | _ => []

/-- A word without a pattern stands for itself. -/
def Literal (glob : Text → List Text) : Prop :=
  ∀ word, (∀ c ∈ word, isPattern c = false) → glob word = [word]

/-- A text that the shell passes on as one word. -/
structure Plain (s : Text) : Prop where
  nonempty : s ≠ []
  blank : ∀ c ∈ s, isBlank c = false
  pattern : ∀ c ∈ s, isPattern c = false

variable {glob : Text → List Text} {env : ContainerEnv} {peers : List Text} {s t port peer : Text}
variable {c : Char}

theorem Plain.append (hs : Plain s) (ht : Plain t) : Plain (s ++ t) where
  nonempty := List.append_ne_nil_of_left_ne_nil hs.nonempty t
  blank c hc := (List.mem_append.mp hc).elim (hs.blank c) (ht.blank c)
  pattern c hc := (List.mem_append.mp hc).elim (hs.pattern c) (ht.pattern c)

private theorem plain_of_all (hne : s ≠ [])
    (h : (s.all fun c => !isBlank c && !isPattern c) = true) :
    Plain s := by
  have hchar (c : Char) (hc : c ∈ s) : isBlank c = false ∧ isPattern c = false := by
    simpa using List.all_eq_true.mp h c hc
  exact ⟨hne, fun c hc => (hchar c hc).1, fun c hc => (hchar c hc).2⟩

theorem toNat_isDigit (h : c.isDigit = true) : 48 ≤ c.toNat ∧ c.toNat ≤ 57 := by
  simp only [Char.isDigit, Bool.and_eq_true, decide_eq_true_eq, ge_iff_le,
    UInt32.le_iff_toNat_le] at h
  exact h

/-- A digit neither ends a word nor makes it a pattern. -/
theorem plain_digit (h : c.isDigit = true) : isBlank c = false ∧ isPattern c = false := by
  have hrange := toNat_isDigit h
  have hne {x : Char} (hx : x.toNat < 48 ∨ 57 < x.toNat) : c ≠ x := by
    rintro rfl
    omega
  simp [isBlank, isPattern, hne]

private theorem mem_validFormat (h : fits validFormat s = true) (hc : c ∈ s) :
    c.isDigit = true ∨ c = '.' ∨ c = ':' := by
  obtain ⟨piece, hpiece, htakes⟩ := exists_takes h hc
  simp only [validFormat, List.mem_cons, List.not_mem_nil, or_false] at hpiece
  rcases hpiece with rfl | rfl | rfl | rfl | rfl | rfl | rfl | rfl | rfl
  all_goals first | exact .inl htakes | exact .inr (.inl htakes) | exact .inr (.inr htakes)

/-- An address of the input field is one word of the list. -/
theorem plain_validFormat (h : fits validFormat s = true) : Plain s ∧ ',' ∉ s := by
  have hchar {x : Char} (hx : x ∈ s) : isBlank x = false ∧ isPattern x = false ∧ x ≠ ',' := by
    rcases mem_validFormat h hx with hdigit | rfl | rfl
    · obtain ⟨hblank, hpattern⟩ := plain_digit hdigit
      refine ⟨hblank, hpattern, ?_⟩
      rintro rfl
      cases hdigit
    · decide
    · decide
  obtain ⟨host, port, rfl, -⟩ := fits_validFormat h
  exact ⟨⟨by simp, fun x hx => (hchar hx).1, fun x hx => (hchar hx).2.1⟩,
    fun hx => (hchar hx).2.2 rfl⟩

private theorem plain_entrypointPeer (hport : Plain port) (hpeer : Plain peer) :
    Plain (entrypointPeer port peer) := by
  have hany : Plain ['0', '.', '0', '.', '0', '.', '0', ':'] := plain_of_all (by decide) (by decide)
  have hcolon : Plain [':'] := plain_of_all (by decide) (by decide)
  exact (hany.append hport).append (hcolon.append hpeer)

section Words

private theorem expand_nil : expand glob [] = [] := rfl

private theorem expand_word (hglob : Literal glob) (hs : Plain s) {c : Char} (hc : isBlank c = true)
    (rest : Text) : expand glob (s ++ c :: rest) = s :: expand glob rest := by
  rw [expand, List.splitOnP_append_cons_of_forall_mem hs.blank c hc,
    List.filter_cons_of_pos (by simpa using hs.nonempty), List.flatMap_cons, hglob s hs.pattern]
  rfl

private theorem expand_last (hglob : Literal glob) (hs : Plain s) : expand glob s = [s] := by
  rw [expand, List.splitOnP_eq_singleton hs.blank,
    List.filter_cons_of_pos (by simpa using hs.nonempty), List.filter_nil, List.flatMap_singleton,
    hglob s hs.pattern]

private theorem expand_blank {c : Char} (hc : isBlank c = true) (rest : Text) :
    expand glob (c :: rest) = expand glob rest := by
  have hsplit : ([] ++ c :: rest).splitOnP isBlank = [] :: rest.splitOnP isBlank :=
    List.splitOnP_append_cons_of_forall_mem (by simp) c hc rest
  rw [expand, ← List.nil_append (c :: rest), hsplit, List.filter_cons_of_neg (by simp)]
  rfl

private theorem expand_option (hglob : Literal glob) (hs : Plain s) (rest : Text)
    (hrest : rest = [] ∨ ∃ later, rest = ' ' :: later) :
    expand glob (s ++ rest) = s :: expand glob rest := by
  rcases hrest with rfl | ⟨later, rfl⟩
  · rw [List.append_nil, expand_last hglob hs, expand_nil]
  · rw [expand_word hglob hs (by decide), expand_blank (by decide)]

private theorem udpArgs_eq (port : Text) (peers : List Text) :
    udpArgs port peers = peers.flatMap fun peer => " --udp ".toList ++ entrypointPeer port peer := by
  have hfrom (args : Text) : peers.foldl
      (fun args peer => args ++ " --udp ".toList ++ entrypointPeer port peer) args =
        args ++ peers.flatMap fun peer => " --udp ".toList ++ entrypointPeer port peer := by
    induction peers generalizing args with
    | nil => simp
    | cons peer peers ih =>
      rw [List.foldl_cons, ih, List.flatMap_cons, List.append_assoc, List.append_assoc,
        List.append_assoc]
  exact (hfrom []).trans (List.nil_append _)

private theorem expand_udpArgs (hglob : Literal glob) (hport : Plain port)
    (hpeers : ∀ p ∈ peers, Plain p) :
    expand glob (udpArgs port peers) =
      peers.flatMap fun peer => ["--udp".toList, entrypointPeer port peer] := by
  have hudp : Plain ['-', '-', 'u', 'd', 'p'] := plain_of_all (by decide) (by decide)
  rw [udpArgs_eq]
  induction peers with
  | nil => rfl
  | cons peer peers ih =>
    have hpeer := plain_entrypointPeer hport (hpeers peer List.mem_cons_self)
    have hlater := ih fun p hp => hpeers p (List.mem_cons_of_mem _ hp)
    have hrest : (peers.flatMap fun peer => " --udp ".toList ++ entrypointPeer port peer) = [] ∨
        ∃ later, (peers.flatMap fun peer => " --udp ".toList ++ entrypointPeer port peer) =
          ' ' :: later := by
      cases peers with
      | nil => exact .inl rfl
      | cons next peers => exact .inr ⟨_, rfl⟩
    rw [List.flatMap_cons, List.flatMap_cons, ← hlater, List.append_assoc]
    change expand glob (' ' :: (['-', '-', 'u', 'd', 'p'] ++ ' ' :: (entrypointPeer port peer ++ _))) = _
    rw [expand_blank (by decide), expand_word hglob hudp (by decide),
      expand_option hglob hpeer _ hrest]
    rfl

private theorem expand_keyArgs (hglob : Literal glob) {key : Text} (hkey : key = [] ∨ Plain key) :
    expand glob (keyArgs key) = if key = [] then [] else ["--key".toList, key] := by
  unfold keyArgs
  split_ifs with hempty
  · rfl
  · have hoption : Plain ['-', '-', 'k', 'e', 'y'] := plain_of_all (by decide) (by decide)
    change expand glob (['-', '-', 'k', 'e', 'y'] ++ ' ' :: key) = _
    rw [expand_word hglob hoption (by decide), expand_last hglob (hkey.resolve_left hempty)]
    rfl

end Words

section List
variable {key : Text}

private theorem readPeers_join (hne : peers ≠ []) (hpeers : ∀ p ∈ peers, Plain p)
    (hcomma : ∀ p ∈ peers, ',' ∉ p) : readPeers ([','].intercalate peers) = peers := by
  have hline : '\n' ∉ [','].intercalate peers := by
    intro hmem
    rcases mem_of_mem_intercalate hmem with hcomma | ⟨p, hp, hc⟩
    · cases List.mem_singleton.mp hcomma
    · exact absurd ((hpeers p hp).blank _ hc) (by decide)
  have hwhole : upTo '\n' ([','].intercalate peers) = [','].intercalate peers :=
    List.takeWhile_eq_self_iff.mpr fun c hc => decide_eq_true fun h => hline (h ▸ hc)
  unfold readPeers
  simp only [hwhole, List.splitOn_intercalate ',' hcomma hne]
  rw [if_neg]
  intro hlast
  have hmem := List.mem_of_getLast? hlast
  exact (hpeers [] hmem).nonempty rfl

private theorem parseArgs_udp {args : Args} (options : List Text) (rest : List Text) :
    parseArgs args ((options.flatMap fun peer => ["--udp".toList, peer]) ++ rest) =
      parseArgs { args with udpPeers := args.udpPeers ++ options } rest := by
  induction options generalizing args with
  | nil => simp
  | cons peer options ih =>
    simp only [List.flatMap_cons, List.cons_append, List.nil_append]
    rw [parseArgs, if_neg (by decide), if_pos rfl, ih]
    simp

private theorem parseArgs_entrypoint (hglob : Literal glob) (hne : peers ≠ [])
    (hpeers : ∀ p ∈ peers, Plain p) (hcomma : ∀ p ∈ peers, ',' ∉ p)
    (hlist : env.peers = [','].intercalate peers) (hport : env.port = [] ∨ Plain env.port)
    (hkey : env.key = [] ∨ Plain env.key) :
    ∃ argv, entrypoint glob env = .ok argv ∧ parseArgs {} argv.tail = .ok ⟨["tap0".toList],
      peers.map (entrypointPeer env.portOrDefault), "stun.l.google.com:19302".toList, env.key⟩ := by
  have hread : readPeers env.peers = peers := by rw [hlist, readPeers_join hne hpeers hcomma]
  have hgiven : env.peers ≠ [] := by
    intro hempty
    rw [hempty] at hread
    exact hne hread.symm
  have hport' : Plain env.portOrDefault := by
    unfold ContainerEnv.portOrDefault
    split_ifs with hunset
    · exact plain_of_all (by decide) (by decide)
    · exact hport.resolve_left hunset
  have hoptions : (peers.flatMap fun peer => ["--udp".toList, entrypointPeer env.portOrDefault peer]) =
      (peers.map (entrypointPeer env.portOrDefault)).flatMap fun peer => ["--udp".toList, peer] :=
    (List.flatMap_map (entrypointPeer env.portOrDefault) (fun peer => ["--udp".toList, peer]) peers).symm
  refine ⟨_, if_neg hgiven, ?_⟩
  rw [hread, expand_udpArgs hglob hport' hpeers, expand_keyArgs hglob hkey, hoptions]
  change parseArgs {} ("--local".toList :: "tap0".toList :: "--stun".toList ::
    "stun.l.google.com:19302".toList ::
      (((peers.map (entrypointPeer env.portOrDefault)).flatMap fun peer => ["--udp".toList, peer]) ++
        if env.key = [] then [] else ["--key".toList, env.key])) = _
  rw [parseArgs, if_pos rfl, parseArgs, if_neg (by decide), if_neg (by decide), if_pos rfl,
    parseArgs_udp]
  split_ifs with hnone
  · rw [parseArgs, hnone]
    rfl
  · rw [parseArgs, if_neg (by decide), if_neg (by decide), if_neg (by decide), if_pos rfl, parseArgs]
    rfl

end List

section Ports
variable {surroundings : Surroundings} {stunHost : Text} {key : Option Key} {i : Nat}
variable {stunDone : Bool} {options : List Text} {passed : List UInt16} {localPort : Text}
variable {cfg : UdpPeerConfig} {start : UInt16}

/-- Nothing but the sockets of the ports constructed before keeps a constructor from its port.
Port 0 stands for any port that is free. -/
def Surroundings.Free (surroundings : Surroundings) (passed : List UInt16) : Prop :=
  ∀ i (hi : i < passed.length),
    surroundings.refuses i = none ↔ passed[i] = 0 ∨ passed[i] ∉ passed.take i

/-- A port that a socket constructed before holds is refused. -/
def Surroundings.Exclusive (surroundings : Surroundings) (passed : List UInt16) : Prop :=
  ∀ i (hi : i < passed.length), passed[i] ≠ 0 → passed[i] ∈ passed.take i →
    surroundings.refuses i ≠ none

/-- The port of the switch that an option asks for. -/
def PortFor (key : Option Key) (option : Text) (u : UdpPort) : Prop :=
  ∃ cfg, parseUdpPeer option = .ok cfg ∧
    u = ⟨⟨(inetPton cfg.remoteIp).getD 0, cfg.remotePort⟩, key⟩

theorem Surroundings.Exclusive.nodup (h : surroundings.Exclusive passed) (hzero : 0 ∉ passed.tail)
    (hall : ∀ i < passed.length, surroundings.refuses i = none) : passed.Nodup := by
  refine List.pairwise_iff_getElem.mpr fun j i hj hi hlt hsame => ?_
  have hlater : passed[i] ∈ passed.tail := by
    obtain ⟨k, rfl⟩ := Nat.exists_eq_succ_of_ne_zero (Nat.ne_of_gt (Nat.zero_lt_of_lt hlt))
    exact List.mem_iff_getElem.mpr ⟨k, by rw [List.length_tail]; omega, List.getElem_tail _⟩
  refine h i hi (fun hport => hzero (hport ▸ hlater)) (hsame ▸ ?_) (hall i hi)
  exact List.mem_take_iff_getElem.mpr ⟨j, by omega, rfl⟩

private theorem Surroundings.Free.exclusive (h : surroundings.Free passed) :
    surroundings.Exclusive passed :=
  fun i hi hport hmem hnone => ((h i hi).mp hnone).elim hport fun hnew => hnew hmem

private theorem Surroundings.Free.nodup_iff (h : surroundings.Free passed)
    (hzero : 0 ∉ passed.tail) :
    passed.Nodup ↔ ∀ i < passed.length, surroundings.refuses i = none := by
  constructor
  · intro hnodup i hi
    refine (h i hi).mpr (.inr fun hmem => ?_)
    obtain ⟨j, hj, hsame⟩ := List.mem_take_iff_getElem.mp hmem
    have heq := (List.Nodup.getElem_inj_iff hnodup).mp hsame
    omega
  · exact h.exclusive.nodup hzero

private theorem zero_notMem_passedPorts (hhost : stunHost ≠ []) (hstart : start ≠ 0)
    (hparse : ∀ p ∈ peers, ∃ cfg, parseUdpPeer (entrypointPeer localPort p) = .ok cfg ∧
      cfg.localPort = start) :
    0 ∉ (passedPorts surroundings stunHost key (peers.map (entrypointPeer localPort))).tail := by
  cases hreached : reachedFrom surroundings 0 (peers.map (entrypointPeer localPort)) with
  | nil => simp [passedPorts_unreached hreached]
  | cons cfg rest =>
    rw [passedPorts_probed hhost hreached]
    cases (probeStablePort surroundings.probe cfg.localPort probeAttempts).result with
    | error e => exact List.not_mem_nil
    | ok port =>
      rw [List.tail_cons, List.mem_map]
      rintro ⟨later, hlater, hport⟩
      have hmem : later ∈ reachedFrom surroundings 0 (peers.map (entrypointPeer localPort)) :=
        hreached ▸ List.mem_cons_of_mem _ hlater
      obtain ⟨peer, hpeer⟩ := reachedFrom_entrypoint hmem
      obtain ⟨first, hfirst⟩ := List.exists_mem_of_ne_nil peers fun hnil => by simp [hnil, reachedFrom] at hmem
      obtain ⟨cfg', hcfg', rfl⟩ := hparse first hfirst
      exact hstart ((entrypointPeer_localPort hcfg' hpeer).trans hport)

private theorem localPortFor_later (cfg : UdpPeerConfig) :
    localPortFor surroundings stunHost (stunDone || stunHost ≠ []) cfg = .ok cfg.localPort := by
  apply if_neg
  rintro ⟨hpending, hhost⟩
  simp [hhost] at hpending

private theorem addUdpPeers_ok_iff (hparse : ∀ p ∈ options, ∃ cfg, parseUdpPeer p = .ok cfg)
    (hlocal : ∀ p ∈ options.head?, ∀ cfg, parseUdpPeer p = .ok cfg →
      ∃ port, localPortFor surroundings stunHost stunDone cfg = .ok port) :
    (addUdpPeers surroundings stunHost key i options stunDone).2 = .ok () ↔
      ∀ j < (addUdpPeers surroundings stunHost key i options stunDone).1.length,
        surroundings.refuses (i + j) = none := by
  induction options generalizing i stunDone with
  | nil => simp [addUdpPeers]
  | cons peer options ih =>
    obtain ⟨cfg, hcfg⟩ := hparse peer List.mem_cons_self
    obtain ⟨port, hport⟩ := hlocal peer rfl cfg hcfg
    unfold addUdpPeers addUdpPeer
    simp only [hcfg, hport]
    cases hrefuses : surroundings.refuses i with
    | some e =>
      simp only [List.length_singleton, reduceCtorEq, false_iff, not_forall]
      exact ⟨0, Nat.one_pos, by simp [hrefuses]⟩
    | none =>
      simp only [List.singleton_append, List.length_cons]
      rw [ih (fun p hp => hparse p (List.mem_cons_of_mem _ hp)) fun p _ cfg _ =>
        ⟨_, localPortFor_later cfg⟩, Nat.forall_lt_succ_left]
      simp only [Nat.add_zero, hrefuses, true_and, Nat.add_assoc, Nat.add_comm 1]

private theorem addUdpPeers_ok_cons {peer : Text}
    (h : (addUdpPeers surroundings stunHost key i (peer :: options) stunDone).2 = .ok ()) :
    ∃ cfg port, parseUdpPeer peer = .ok cfg ∧
      localPortFor surroundings stunHost stunDone cfg = .ok port ∧ surroundings.refuses i = none ∧
      (addUdpPeers surroundings stunHost key (i + 1) options (stunDone || stunHost ≠ [])).2 = .ok () ∧
      (addUdpPeers surroundings stunHost key i (peer :: options) stunDone).1 =
        ⟨{ cfg with localPort := port }, key⟩ ::
          (addUdpPeers surroundings stunHost key (i + 1) options (stunDone || stunHost ≠ [])).1 := by
  rw [addUdpPeers, addUdpPeer] at h ⊢
  cases hparse : parseUdpPeer peer with
  | error e => simp [hparse] at h
  | ok cfg =>
    cases hlocal : localPortFor surroundings stunHost stunDone cfg with
    | error e => simp [hparse, hlocal] at h
    | ok port =>
      cases hrefuses : surroundings.refuses i with
      | some e => simp [hparse, hlocal, hrefuses] at h
      | none =>
        simp only [hparse, hlocal, hrefuses] at h ⊢
        exact ⟨cfg, port, rfl, hlocal, trivial, h, rfl⟩

private theorem calls_of_ok
    (h : (addUdpPeers surroundings stunHost key i options stunDone).2 = .ok ()) :
    (addUdpPeers surroundings stunHost key i options stunDone).1.length = options.length ∧
      ∀ j < options.length, surroundings.refuses (i + j) = none := by
  induction options generalizing i stunDone with
  | nil => exact ⟨rfl, fun j hj => absurd hj (Nat.not_lt_zero j)⟩
  | cons peer options ih =>
    obtain ⟨cfg, port, -, -, hfirst, hlater, hcalls⟩ := addUdpPeers_ok_cons h
    obtain ⟨hlength, hnone⟩ := ih hlater
    refine ⟨by rw [hcalls, List.length_cons, List.length_cons, hlength], fun j hj => ?_⟩
    cases j with
    | zero => exact hfirst
    | succ j =>
      rw [Nat.add_comm j, ← Nat.add_assoc]
      exact hnone j (Nat.lt_of_succ_lt_succ hj)

private theorem ports_of_ok
    (h : (addUdpPeers surroundings stunHost key i options stunDone).2 = .ok ()) :
    List.Forall₂ (PortFor key) options
      ((addUdpPeers surroundings stunHost key i options stunDone).1.map PortArgs.port) := by
  induction options generalizing i stunDone with
  | nil => exact .nil
  | cons peer options ih =>
    obtain ⟨cfg, port, hparse, -, -, hlater, hcalls⟩ := addUdpPeers_ok_cons h
    rw [hcalls, List.map_cons]
    exact .cons ⟨cfg, hparse, rfl⟩ (ih hlater)

private theorem length_reachedFrom (hparse : ∀ p ∈ options, ∃ cfg, parseUdpPeer p = .ok cfg) :
    (reachedFrom surroundings i options).length ≤ options.length ∧
      ((∀ j < (reachedFrom surroundings i options).length, surroundings.refuses (i + j) = none) →
        (reachedFrom surroundings i options).length = options.length) := by
  induction options generalizing i with
  | nil => exact ⟨le_refl _, fun _ => rfl⟩
  | cons peer options ih =>
    obtain ⟨cfg, hcfg⟩ := hparse peer List.mem_cons_self
    obtain ⟨hle, heq⟩ := ih (i := i + 1) fun p hp => hparse p (List.mem_cons_of_mem _ hp)
    rw [reachedFrom, hcfg]
    simp only [List.length_cons]
    split_ifs with hfirst
    · refine ⟨Nat.succ_le_succ hle, fun hall => ?_⟩
      rw [heq fun j hj => ?_]
      rw [Nat.add_assoc, Nat.add_comm 1]
      exact hall (j + 1) (Nat.succ_lt_succ hj)
    · exact ⟨Nat.succ_le_succ (Nat.zero_le _), fun hall => absurd (hall 0 (Nat.succ_pos _)) hfirst⟩

private theorem parses_entrypoint
    (hparse : ∀ p ∈ peers, ∃ cfg, parseUdpPeer (entrypointPeer localPort p) = .ok cfg ∧
      cfg.localPort = start) :
    ∀ p ∈ peers.map (entrypointPeer localPort), ∃ cfg, parseUdpPeer p = .ok cfg := by
  intro p hp
  obtain ⟨peer, hpeer, rfl⟩ := List.mem_map.mp hp
  exact (hparse peer hpeer).imp fun cfg hcfg => hcfg.1

private theorem reachedFrom_cons {peer : Text} (hcfg : parseUdpPeer peer = .ok cfg) :
    ∃ rest, reachedFrom surroundings i (peer :: options) = cfg :: rest := by
  rw [reachedFrom, hcfg]
  exact ⟨_, rfl⟩

private theorem length_passedPorts {rest : List UdpPeerConfig} {port : UInt16}
    (hhost : stunHost ≠ []) (hreached : reachedFrom surroundings 0 options = cfg :: rest)
    (hport : localPortFor surroundings stunHost false cfg = .ok port) :
    (passedPorts surroundings stunHost key options).length = (cfg :: rest).length := by
  rw [localPortFor, if_pos ⟨rfl, hhost⟩] at hport
  rw [passedPorts_probed hhost hreached]
  cases hprobe : (probeStablePort surroundings.probe cfg.localPort probeAttempts).result with
  | error e => simp [hprobe] at hport
  | ok port => simp

/-- The options of the script are all for one local port: the switch starts with one peer, or with
two if the probe moves the first of them. -/
theorem starts_iff (hhost : stunHost ≠ []) (hne : peers ≠ []) (hstart : start ≠ 0)
    (hparse : ∀ p ∈ peers, ∃ cfg, parseUdpPeer (entrypointPeer localPort p) = .ok cfg ∧
      cfg.localPort = start)
    (hfree : surroundings.Free (passedPorts surroundings stunHost key
      (peers.map (entrypointPeer localPort)))) :
    (addUdpPeers surroundings stunHost key 0 (peers.map (entrypointPeer localPort)) false).2 = .ok () ↔
      ¬ Throws surroundings.probe start probeAttempts ∧ (peers.length = 1 ∨ peers.length = 2 ∧
        ∃ i, FirstStable surroundings.probe start probeAttempts i ∧ i ≠ 0) := by
  have hoptions := parses_entrypoint hparse
  have hzero := @zero_notMem_passedPorts _ surroundings stunHost key localPort start hhost hstart hparse
  obtain ⟨first, others, rfl⟩ := List.exists_cons_of_ne_nil hne
  obtain ⟨cfg, hcfg, rfl⟩ := hparse first List.mem_cons_self
  by_cases hthrows : Throws surroundings.probe cfg.localPort probeAttempts
  · have hstops : (addUdpPeers surroundings stunHost key 0
        ((first :: others).map (entrypointPeer localPort)) false).2 ≠ .ok () := by
      rw [List.map_cons, addUdpPeers, addUdpPeer, hcfg]
      simp [localPortFor_throws hhost hthrows.result]
    exact iff_of_false hstops fun h => h.1 hthrows
  have hlocal : ∃ port, localPortFor surroundings stunHost false cfg = .ok port :=
    localPortFor_ok_iff.mpr (.inr hthrows)
  obtain ⟨rest, hreached⟩ : ∃ rest, reachedFrom surroundings 0
      ((first :: others).map (entrypointPeer localPort)) = cfg :: rest := reachedFrom_cons hcfg
  obtain ⟨port, hport⟩ := hlocal
  have hlength : (passedPorts surroundings stunHost key
      ((first :: others).map (entrypointPeer localPort))).length = (cfg :: rest).length :=
    length_passedPorts hhost hreached hport
  have hnodup := @passedPorts_entrypoint_iff surroundings stunHost key localPort (first :: others) hhost
  rw [hreached, forall_cons_iff, or_iff_right hthrows] at hnodup
  obtain ⟨hle, heq⟩ := @length_reachedFrom surroundings 0 _ hoptions
  rw [hreached, List.length_map] at hle heq
  simp only [Nat.zero_add] at heq
  have hok : (addUdpPeers surroundings stunHost key 0
      ((first :: others).map (entrypointPeer localPort)) false).2 = .ok () ↔
        (passedPorts surroundings stunHost key
          ((first :: others).map (entrypointPeer localPort))).Nodup := by
    rw [hfree.nodup_iff hzero, passedPorts, List.length_map, addUdpPeers_ok_iff hoptions]
    · simp only [Nat.zero_add]
    · intro p hp cfg' hcfg'
      rw [List.map_cons, List.head?_cons, Option.mem_some_iff] at hp
      subst hp
      cases hcfg.symm.trans hcfg'
      exact ⟨port, hport⟩
  rw [hok, and_iff_right hthrows]
  constructor
  · intro hdistinct
    have hall := (hfree.nodup_iff hzero).mp hdistinct
    rw [hlength] at hall
    have hlist := heq hall
    rcases hnodup.mp hdistinct with rfl | ⟨hone, hmoved⟩
    · exact .inl hlist.symm
    · rw [List.length_cons, hone] at hlist
      exact .inr ⟨hlist.symm, hmoved⟩
  · intro hlist
    apply hnodup.mpr
    rw [List.length_cons] at hle
    rcases hlist with hone | ⟨htwo, hmoved⟩
    · exact .inl (List.length_eq_zero_iff.mp (by omega))
    · rcases Nat.eq_zero_or_pos rest.length with hnone | hpos
      · exact .inl (List.length_eq_zero_iff.mp hnone)
      · exact .inr ⟨by omega, hmoved⟩

/-- With three peers, two constructors are given the port that all options are for. -/
theorem length_le_two (hhost : stunHost ≠ []) (hstart : start ≠ 0)
    (hparse : ∀ p ∈ peers, ∃ cfg, parseUdpPeer (entrypointPeer localPort p) = .ok cfg ∧
      cfg.localPort = start)
    (hexclusive : surroundings.Exclusive (passedPorts surroundings stunHost key
      (peers.map (entrypointPeer localPort))))
    (h : (addUdpPeers surroundings stunHost key 0
      (peers.map (entrypointPeer localPort)) false).2 = .ok ()) : peers.length ≤ 2 := by
  have hoptions := parses_entrypoint hparse
  have hzero := @zero_notMem_passedPorts _ surroundings stunHost key localPort start hhost hstart hparse
  cases peers with
  | nil => exact Nat.zero_le 2
  | cons first others =>
    obtain ⟨cfg, port, hcfg, hport, -⟩ := addUdpPeers_ok_cons h
    obtain ⟨hcalls, hnone⟩ := calls_of_ok h
    simp only [Nat.zero_add] at hnone
    have hpasses : ¬ Throws surroundings.probe cfg.localPort probeAttempts :=
      (localPortFor_ok_iff.mp ⟨port, hport⟩).resolve_left hhost
    obtain ⟨rest, hreached⟩ : ∃ rest, reachedFrom surroundings 0
        ((first :: others).map (entrypointPeer localPort)) = cfg :: rest := reachedFrom_cons hcfg
    obtain ⟨hle, heq⟩ := @length_reachedFrom surroundings 0 _ hoptions
    have hlength := heq fun j hj => by
      rw [Nat.zero_add]
      exact hnone j (lt_of_lt_of_le hj hle)
    rw [hreached, List.length_map] at hlength
    have hnodup := hexclusive.nodup hzero fun j hj => hnone j (by rwa [← hcalls, ← List.length_map])
    rcases (passedPorts_entrypoint_iff hhost).mp hnodup cfg rest hreached with rfl | hthrows | ⟨hone, -⟩
    · exact hlength ▸ Nat.le_succ 1
    · exact absurd hthrows hpasses
    · rw [← hlength, List.length_cons, hone]

private theorem builtPorts_eq {calls : List PortArgs}
    (h : ∀ j < calls.length, surroundings.refuses j = none) :
    builtPorts surroundings calls = calls.map PortArgs.port := by
  have hall : calls.zipIdx.filter (fun call => surroundings.refuses call.2 = none) = calls.zipIdx := by
    rw [List.filter_eq_self]
    intro call hcall
    exact decide_eq_true (h _ (by simpa using List.snd_lt_add_of_mem_zipIdx hcall))
  have hports := congrArg (List.map PortArgs.port) (List.zipIdx_map_fst 0 calls)
  rw [List.map_map] at hports
  rw [builtPorts, hall]
  exact hports

/-- The 64 hex digits that `--key` asks for. -/
structure HexKey (t : Text) : Prop where
  length : t.length = 64
  digits : ∀ c ∈ t, isHexDigit c = true

/-- What libsodium says of `sodium_hex2bin`: it reads the digits in pairs. -/
def ReadsHex (hex2bin : Text → Option Bytes) : Prop := ∀ t, HexKey t → hex2bin t = some (hexBytes t)

/-- The key that the text stands for, if it is not empty. -/
def presharedKey (t : Text) : Option Key :=
  if t = [] then none else some (copyOut 32 (hexBytes t) 0)

theorem HexKey.plain (h : HexKey s) : Plain s := by
  have hchar (c : Char) (hc : c ∈ s) : isBlank c = false ∧ isPattern c = false := by
    have hdigit := h.digits c hc
    simp only [isHexDigit, decide_eq_true_eq] at hdigit
    rcases hdigit with hten | hletter
    · exact plain_digit hten
    · have hne {x : Char} (hx : x.toNat < 65 ∨ 70 < x.toNat ∧ x.toNat < 97) : c ≠ x := by
        rintro rfl
        omega
      simp [isBlank, isPattern, hne]
  refine ⟨fun hempty => ?_, fun c hc => (hchar c hc).1, fun c hc => (hchar c hc).2⟩
  have hlength := h.length
  simp [hempty] at hlength

private theorem length_hexBytes (t : Text) : (hexBytes t).length = t.length / 2 := by
  fun_induction hexBytes t with
  | case1 a b rest ih =>
    rw [List.length_cons, ih, List.length_cons, List.length_cons]
    omega
  | case2 t hshort =>
    match t, hshort with
    | [], _ => rfl
    | [_], _ => simp
    | a :: b :: rest, hshort => exact absurd rfl (hshort a b rest)

/-- An empty key is no key, and one of 64 digits is read. -/
theorem keyOf_presharedKey {hex2bin : Text → Option Bytes} (hhex : ReadsHex hex2bin)
    (h : s = [] ∨ HexKey s) : keyOf hex2bin s = .ok (presharedKey s) := by
  unfold keyOf presharedKey
  split_ifs with hempty
  · rfl
  · have hkey := h.resolve_left hempty
    have hlength : (hexBytes s).length = 32 := by rw [length_hexBytes, hkey.length]
    rw [parseKey, hhex s hkey]
    simp [hlength]

/-- What the script passes on gets through the checks of `main`. -/
theorem setUp_entrypoint {machine : Machine} (hglob : Literal glob) (hne : peers ≠ [])
    (hpeers : ∀ p ∈ peers, Plain p) (hcomma : ∀ p ∈ peers, ',' ∉ p)
    (hlist : env.peers = [','].intercalate peers) (hport : env.port = [] ∨ Plain env.port)
    (hkey : env.key = [] ∨ Plain env.key) (hsodium : machine.sodiumInit = true)
    (htap : machine.tap 0 = none) (hkeyOf : keyOf machine.hex2bin env.key = .ok key) :
    ∃ argv, entrypoint glob env = .ok argv ∧ setUp machine argv = .ok ⟨["tap0".toList],
      peers.map (entrypointPeer env.portOrDefault), entrypointStunHost, key⟩ := by
  obtain ⟨argv, hargv, hargs⟩ := parseArgs_entrypoint hglob hne hpeers hcomma hlist hport hkey
  have htaps : addTaps machine.tap 0 ["tap0".toList] = .ok () := by
    refine addTaps_ok_iff.mpr fun j hj => ?_
    obtain rfl : j = 0 := Nat.lt_one_iff.mp hj
    exact htap
  have hserver : stunHostOf "stun.l.google.com:19302".toList = .ok entrypointStunHost := by
    decide +kernel
  exact ⟨argv, hargv, setUp_ok_iff.mpr ⟨hsodium, _, hargs, .inl (by simp), htaps,
    entrypointStunHost, hserver, key, hkeyOf, rfl⟩⟩

/-- Behind the checks, the constructors decide whether the switch runs. -/
theorem main_running_iff {machine : Machine} {argv : List Text} {setup : Setup}
    (hsetup : setUp machine argv = .ok setup) :
    (main machine argv).ending = .running ↔
      (addUdpPeers machine.peers setup.stunHost setup.key 0 setup.udpPeers false).2 = .ok () := by
  unfold main
  simp only [hsetup]
  cases (addUdpPeers machine.peers setup.stunHost setup.key 0 setup.udpPeers false).2 <;> simp

/-- A switch that runs has one port for each option, in their order. -/
theorem ports_main {machine : Machine} {argv : List Text} {setup : Setup}
    (hsetup : setUp machine argv = .ok setup) (hrunning : (main machine argv).ending = .running) :
    List.Forall₂ (PortFor setup.key) setup.udpPeers (main machine argv).udpPorts := by
  have hok := (main_running_iff hsetup).mp hrunning
  obtain ⟨hlength, hnone⟩ := calls_of_ok hok
  rw [udpPorts_main hsetup, builtPorts_eq fun j hj => ?_]
  · exact ports_of_ok hok
  · rw [← Nat.zero_add j]
    exact hnone j (hlength ▸ hj)

end Ports
end VSwitch
