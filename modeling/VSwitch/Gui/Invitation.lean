import VSwitch.Gui.SwitchController
import VSwitch.Startup.Announcement

/-! An address on its way from the probe of one player to the switch of another: printed, read by
the window, shared, typed into the window there, and handed to the container as a list. -/
namespace VSwitch
open Lib StunClient

def Printable (s : Text) : Prop := ∀ c ∈ s, 32 ≤ c.toNat ∧ c.toNat < 128

section Lines
variable {s t : Text} {a : StunAddress} {ip : InAddr} {c : Char}

private theorem printable_of_all (h : (s.all fun c => 32 ≤ c.toNat ∧ c.toNat < 128) = true) :
    Printable s :=
  fun c hc => of_decide_eq_true (List.all_eq_true.mp h c hc)

theorem Printable.append (hs : Printable s) (ht : Printable t) : Printable (s ++ t) :=
  fun c hc => (List.mem_append.mp hc).elim (hs c) (ht c)

private theorem Printable.ascii (h : Printable s) : Ascii s := fun c hc => (h c hc).2

theorem Printable.line (h : Printable s) : '\n' ∉ s := by
  intro hmem
  have hfeed := (h _ hmem).1
  exact absurd hfeed (by decide)

private theorem isSpaceChar_isDigit (h : c.isDigit = true) : isSpaceChar c = false := by
  have hrange := toNat_isDigit h
  simp only [isSpaceChar, isSpace, List.mem_cons, List.not_mem_nil, or_false,
    decide_eq_true_eq, decide_eq_false_iff_not]
  omega

private theorem printable_decimal (n : Nat) : Printable (decimal n) := by
  intro c hc
  have hrange := toNat_isDigit (isDigit_of_mem_decimal hc)
  omega

private theorem StunAddress.Dotted.printable (h : a.Dotted ip) : Printable a.text := by
  intro c hc
  rcases h.mem_text hc with hdigit | rfl | rfl
  · have hrange := toNat_isDigit hdigit
    omega
  · decide
  · decide

private theorem StunAddress.Dotted.no_blank (h : a.Dotted ip) : ' ' ∉ a.text := by
  intro hmem
  rcases h.mem_text hmem with hdigit | hdot | hcolon
  · cases hdigit
  · cases hdot
  · cases hcolon

private theorem decimal_eq_cons (n : Nat) : ∃ c t, decimal n = c :: t ∧ c.isDigit = true := by
  cases hdigits : decimal n with
  | nil => exact absurd hdigits Nat.toDigits_ne_nil
  | cons c t => exact ⟨c, t, rfl, isDigit_of_mem_decimal (hdigits ▸ List.mem_cons_self)⟩

private theorem StunAddress.Dotted.trim (h : a.Dotted ip) : Trim a.text := by
  refine ⟨?_, ?_⟩
  · obtain ⟨c, t, hfirst, hc⟩ := decimal_eq_cons (ip 0).toNat
    rw [StunAddress.text, h, toList_dotted, hfirst]
    exact ⟨c, _, rfl, isSpaceChar_isDigit hc⟩
  · have hne : decimal a.port.toNat ≠ [] := Nat.toDigits_ne_nil
    refine ⟨a.ip.toList ++ ':' :: (decimal a.port.toNat).dropLast, (decimal a.port.toNat).getLast hne,
      ?_, isSpaceChar_isDigit (isDigit_of_mem_decimal (List.getLast_mem hne))⟩
    rw [StunAddress.text, List.append_assoc, List.cons_append, List.dropLast_append_getLast]

end Lines

section Probe
variable {fromUtf8 : Bytes → Text} {env : Nat → Attempt} {startPort : UInt16} {a : StunAddress}
variable {ip : InAddr} {i n left maxAttempts : Nat} {rest : Bytes} {line : Text}

def found (fromUtf8 : Bytes → Text) (output : Bytes) : List Text :=
  discovered (onReadyRead fromUtf8 output).1

private theorem found_line (hdecode : ∀ t, Ascii t → fromUtf8 (encode t) = t) (h : Printable line)
    (rest : Bytes) : found fromUtf8 (encode (line ++ ['\n']) ++ rest) =
      discovered (lineSignals (line ++ ['\n'])) ++ found fromUtf8 rest := by
  rw [found, onReadyRead_line hdecode h.ascii h.line, discovered, List.filterMap_append]
  rfl

def shareHint : Text := "  <-- share this with your peer".toList

private theorem announcement_eq (a : StunAddress) :
    announcement a = (addressPrefix ++ (a.text ++ shareHint) ++ ['\n']) ++ ([] ++ ['\n']) := by
  have hhint : "  <-- share this with your peer\n\n".toList = shareHint ++ ['\n'] ++ ['\n'] := by
    decide +kernel
  calc announcement a
    _ = addressPrefix ++ a.text ++ (shareHint ++ ['\n'] ++ ['\n']) :=
      congrArg (addressPrefix ++ a.text ++ ·) hhint
    _ = _ := by simp only [List.append_assoc, List.nil_append]

private theorem lineSignals_announcement (h : a.Dotted ip) :
    lineSignals (addressPrefix ++ (a.text ++ shareHint) ++ ['\n']) =
      [.publicAddressDiscovered a.text, .outputReceived (addressPrefix ++ (a.text ++ shareHint))] := by
  have hends : Trim (addressPrefix ++ (a.text ++ shareHint)) := by
    have hlast : shareHint = "  <-- share this with your pee".toList ++ ['r'] := by decide +kernel
    refine ⟨⟨'Y', _, rfl, by decide⟩,
      addressPrefix ++ (a.text ++ "  <-- share this with your pee".toList), 'r', ?_, by decide⟩
    rw [hlast, List.append_assoc, List.append_assoc]
  have htrim := hends.trimmed_eq [] ['\n'] (by simp) (List.forall_mem_singleton.mpr (by decide))
  rw [List.nil_append] at htrim
  have hfirst : firstPart ((addressPrefix ++ (a.text ++ shareHint)).drop 21) = a.text :=
    firstPart_append h.no_blank _
  have hhead : addressPrefix.isPrefixOf (addressPrefix ++ (a.text ++ shareHint)) = true :=
    List.isPrefixOf_iff_prefix.mpr (List.prefix_append _ _)
  have hne : addressPrefix ++ (a.text ++ shareHint) ≠ [] := by
    rintro hnil
    cases (List.append_eq_nil_iff.mp hnil).1
  simp only [lineSignals, htrim]
  rw [if_neg hne, if_pos hhead, hfirst]

private theorem found_announcement (hdecode : ∀ t, Ascii t → fromUtf8 (encode t) = t)
    (h : a.Dotted ip) (rest : Bytes) :
    found fromUtf8 (encode (announcement a) ++ rest) = a.text :: found fromUtf8 rest := by
  have hhead : Printable addressPrefix := printable_of_all (by decide +kernel)
  have hhint : Printable shareHint := printable_of_all (by decide +kernel)
  have hempty : lineSignals ([] ++ ['\n']) = [] := by decide
  rw [announcement_eq, encode_append, List.append_assoc,
    found_line hdecode (hhead.append (h.printable.append hhint)), found_line hdecode (by simp [Printable]),
    lineSignals_announcement h, hempty]
  rfl

private theorem found_other (hdecode : ∀ t, Ascii t → fromUtf8 (encode t) = t) {c : Char}
    (h : Printable (c :: line)) (hc : isSpaceChar c = false) (hother : c ≠ 'Y') (rest : Bytes) :
    found fromUtf8 (encode (c :: line ++ ['\n']) ++ rest) = found fromUtf8 rest := by
  rw [found_line hdecode h, List.cons_append, not_discovered hc hother, List.nil_append]

private theorem found_attempt (hdecode : ∀ t, Ascii t → fromUtf8 (encode t) = t)
    (hstable : ¬ StableAt env startPort i) (rest : Bytes) :
    found fromUtf8 (encode (attemptPrints env startPort i) ++ rest) = found fromUtf8 rest := by
  unfold attemptPrints
  cases henv : env i with
  | noSocket => rfl
  | bindFails => rfl
  | bound query =>
    simp only
    cases haddr : getPublicAddress query with
    | error e => rfl
    | ok addr =>
      simp only
      rw [if_neg fun hport => hstable ⟨query, addr, henv, haddr, hport⟩]
      have hport : Printable "Port ".toList := printable_of_all (by decide +kernel)
      have hexternal : Printable " -> external ".toList := printable_of_all (by decide +kernel)
      have hnext : Printable ", trying next...".toList := printable_of_all (by decide +kernel)
      have hline := ((hport.append (printable_decimal (testPort startPort i).toNat)).append
        hexternal).append ((printable_decimal addr.port.toNat).append hnext)
      have hsplit : tryingNext (testPort startPort i) addr = "Port ".toList ++
          decimal (testPort startPort i).toNat ++ " -> external ".toList ++
            (decimal addr.port.toNat ++ ", trying next...".toList) ++ ['\n'] := by
        have hlast : ", trying next...\n".toList = ", trying next...".toList ++ ['\n'] := by
          decide +kernel
        have htext : tryingNext (testPort startPort i) addr = "Port ".toList ++
            decimal (testPort startPort i).toNat ++ " -> external ".toList ++
              decimal addr.port.toNat ++ (", trying next...".toList ++ ['\n']) := congrArg (_ ++ ·) hlast
        rw [htext, ← List.append_assoc, List.append_assoc _ (decimal addr.port.toNat)]
      rw [hsplit]
      exact found_other hdecode hline (by decide) (by decide) rest

private theorem found_passed (hdecode : ∀ t, Ascii t → fromUtf8 (encode t) = t)
    (h : NeverStable env startPort n) (left : Nat) (rest : Bytes) :
    found fromUtf8 (encode (probePrints env startPort (n + left) 0) ++ rest) =
      found fromUtf8 (encode (probePrints env startPort left n) ++ rest) := by
  induction n generalizing left with
  | zero => rw [Nat.zero_add]
  | succ n ih =>
    obtain ⟨hunstable, hsocket⟩ := h n (Nat.lt_succ_self n)
    have hpassed := ih (fun j hj => h j (Nat.lt_succ_of_lt hj)) (left + 1)
    rw [Nat.add_assoc, Nat.add_comm 1 left, hpassed, probePrints, attempt_next hunstable hsocket,
      encode_append, List.append_assoc, found_attempt hdecode hunstable]

private theorem found_firstStable (hdecode : ∀ t, Ascii t → fromUtf8 (encode t) = t)
    {query : StunQuery} (h : FirstStable env startPort maxAttempts i) (henv : env i = .bound query)
    (haddr : getPublicAddress query = .ok a) (rest : Bytes) :
    found fromUtf8 (encode (probePrints env startPort maxAttempts 0) ++ rest) =
      a.text :: found fromUtf8 rest := by
  obtain ⟨hlt, hstable, hpassed⟩ := h
  obtain ⟨left, rfl⟩ := Nat.exists_eq_add_of_lt hlt
  obtain ⟨ip, hip⟩ := exists_inetNtop haddr
  have hport : a.port = testPort startPort i := by
    obtain ⟨query', addr, henv', haddr', hport⟩ := hstable
    cases henv.symm.trans henv'
    cases haddr.symm.trans haddr'
    exact hport
  have hprints : attemptPrints env startPort i = announcement a := by
    simp only [attemptPrints, henv, haddr, if_pos hport]
  rw [Nat.add_assoc, found_passed hdecode hpassed, probePrints, attempt_stable hstable, hprints]
  simp only [List.append_nil]
  exact found_announcement hdecode hip rest

private theorem found_none (hdecode : ∀ t, Ascii t → fromUtf8 (encode t) = t)
    (h : ∀ i, ¬ FirstStable env startPort maxAttempts i) (rest : Bytes) :
    found fromUtf8 (encode (probePrints env startPort maxAttempts 0) ++ rest) =
      found fromUtf8 rest := by
  rcases probe_cases env startPort maxAttempts with ⟨i, hi⟩ | hnever | ⟨t, hlt, hsocket, hpassed⟩
  · exact absurd hi (h i)
  · let warning : Text :=
      "arning: symmetric NAT detected, hole punching may still work if peer has cone NAT".toList
    have hprint : Printable ('W' :: warning) := printable_of_all (by decide +kernel)
    have hwarning : symmetricWarning = 'W' :: warning ++ ['\n'] := by decide +kernel
    rw [← Nat.add_zero maxAttempts, found_passed hdecode hnever, probePrints, hwarning]
    exact found_other hdecode hprint (by decide) (by decide) rest
  · obtain ⟨left, rfl⟩ := Nat.exists_eq_add_of_lt hlt
    have hprints : attemptPrints env startPort t = [] := by simp only [attemptPrints, hsocket]
    rw [Nat.add_assoc, found_passed hdecode hpassed, probePrints, attempt_noSocket hsocket, hprints]
    rfl

end Probe

section Sharing
variable {glob : Text → List Text} {env : ContainerEnv} {friends : List (InAddr × UInt16)}
variable {a : StunAddress} {ip : InAddr} {start : UInt16} {machine : Machine} {key : Option Key}

def reported (friend : InAddr × UInt16) : StunAddress := ⟨inetNtop friend.1, friend.2⟩

def invitation (friend : InAddr × UInt16) : Text := (reported friend).text

private theorem dotted_reported (friend : InAddr × UInt16) :
    (reported friend).Dotted friend.1 :=
  rfl

theorem StunAddress.Dotted.plain (h : a.Dotted ip) : Plain a.text ∧ ',' ∉ a.text :=
  plain_validFormat h.fits

theorem Numeral.plain {s : Text} {port : UInt16} (h : Numeral s port) : Plain s :=
  ⟨h.1, fun c hc => (plain_digit (h.2.1 c hc)).1, fun c hc => (plain_digit (h.2.1 c hc)).2⟩

end Sharing

/-- However the output of a container is cut into pieces, the window there shows the address of
the first stable attempt, as STUN reported it, and the switch is bound to its port; without a
stable attempt it shows none. -/
theorem announcement_discovered {fromUtf8 : Bytes → Text}
    (hdecode : ∀ t, Ascii t → fromUtf8 (encode t) = t) (env : Nat → Attempt) (startPort : UInt16)
    (maxAttempts : Nat) {before after : Bytes} {pieces : List Bytes}
    (hbefore : before = [] ∨ before.getLast? = some 10)
    (hstream : pieces.flatten =
      before ++ (encode (probePrints env startPort maxAttempts 0) ++ after)) :
    ∃ announced : Option StunAddress,
      discovered (readPieces fromUtf8 [] pieces) = found fromUtf8 before ++
        (announced.map StunAddress.text).toList ++ found fromUtf8 after ∧
      (∀ a, announced = some a ↔ ∃ i query, FirstStable env startPort maxAttempts i ∧
        env i = .bound query ∧ getPublicAddress query = .ok a) ∧
      ∀ a, announced = some a → (∃ ip, a = reported (ip, a.port)) ∧
        (probeStablePort env startPort maxAttempts).result = .ok a.port := by
  have hread : discovered (readPieces fromUtf8 [] pieces) = found fromUtf8 before ++
      found fromUtf8 (encode (probePrints env startPort maxAttempts 0) ++ after) := by
    rw [readPieces_start, hstream, onReadyRead_complete hbefore, discovered, List.filterMap_append]
    rfl
  by_cases hfirst : ∃ i, FirstStable env startPort maxAttempts i
  · obtain ⟨i, hi⟩ := hfirst
    obtain ⟨query, addr, henv, haddr, hport⟩ := hi.2.1
    refine ⟨some addr, ?_, fun a => ⟨?_, ?_⟩, ?_⟩
    · rw [hread, found_firstStable hdecode hi henv haddr]
      simp
    · rintro ⟨⟩
      exact ⟨i, query, hi, henv, haddr⟩
    · rintro ⟨i', query', hi', henv', haddr'⟩
      cases hi.unique hi'
      cases henv.symm.trans henv'
      cases haddr.symm.trans haddr'
      rfl
    · rintro a ⟨⟩
      obtain ⟨ip, hip⟩ := exists_inetNtop haddr
      refine ⟨⟨ip, ?_⟩, hport ▸ hi.result⟩
      unfold reported
      rw [← hip]
  · rw [not_exists] at hfirst
    refine ⟨none, ?_, fun a => ⟨?_, ?_⟩, ?_⟩
    · rw [hread, found_none hdecode hfirst]
      simp
    · rintro ⟨⟩
    · rintro ⟨i, -, hi, -⟩
      exact absurd hi (hfirst i)
    · rintro a ⟨⟩

def secondStable (i : Nat) : Attempt :=
  .bound (answered [xoredAddress ![203, 0, 113, 7] (if i = 0 then 6000 else 5001)])

private theorem firstStable_secondStable : FirstStable secondStable 5000 probeAttempts 1 := by
  refine ⟨by decide, ⟨_, ⟨"203.0.113.7", 5001⟩, rfl, by decide +kernel, rfl⟩, fun j hj => ?_⟩
  obtain rfl : j = 0 := Nat.lt_one_iff.mp hj
  refine ⟨?_, by simp [secondStable]⟩
  rintro ⟨query, addr, henv, haddr, hport⟩
  cases henv
  have hreported : getPublicAddress (answered [xoredAddress ![203, 0, 113, 7] 6000]) =
      .ok ⟨"203.0.113.7", 6000⟩ := by decide +kernel
  cases hreported.symm.trans haddr
  exact absurd hport (by decide)

def ofAscii (bytes : Bytes) : Text := bytes.map fun b => Char.ofNat b.toNat

private theorem ofAscii_encode {t : Text} (h : Ascii t) : ofAscii (encode t) = t := by
  rw [ofAscii, encode, List.map_map]
  refine (List.map_congr_left fun c hc => ?_).trans (List.map_id t)
  have hvalue : (UInt8.ofNat c.toNat).toNat = c.toNat := by
    rw [UInt8.toNat_ofNat', Nat.mod_eq_of_lt (lt_trans (h c hc) (by decide))]
  simp only [Function.comp, hvalue, Char.ofNat_toNat, id]

/-- The announcement arrives in two pieces. -/
theorem announcement_discovered_cut :
    let output := encode ("Probing for stable port...\n".toList ++
      probePrints secondStable 5000 probeAttempts 0 ++ "Created UDP port\n".toList)
    discovered (readPieces ofAscii [] [output.take 100, output.drop 100]) =
      ["203.0.113.7:5001".toList] := by
  intro output
  have hstream : [output.take 100, output.drop 100].flatten =
      encode "Probing for stable port...\n".toList ++
        (encode (probePrints secondStable 5000 probeAttempts 0) ++
          encode "Created UDP port\n".toList) := by
    simp only [List.flatten_cons, List.flatten_nil, List.append_nil, List.take_append_drop, output,
      encode_append, List.append_assoc]
  obtain ⟨announced, hread, hannounced, -⟩ := announcement_discovered (fun t => ofAscii_encode)
    secondStable 5000 probeAttempts (by decide +kernel) hstream
  have hfirst : announced = some ⟨"203.0.113.7", 5001⟩ :=
    (hannounced _).mpr ⟨1, _, firstStable_secondStable, rfl, by decide +kernel⟩
  have hbefore : found ofAscii (encode "Probing for stable port...\n".toList) = [] := by
    decide +kernel
  have hafter : found ofAscii (encode "Created UDP port\n".toList) = [] := by decide +kernel
  rw [hread, hfirst, hbefore, hafter]
  decide +kernel

/-- Addresses that STUN has reported, typed into the window with blanks around them, are taken as
they are; the container started with them, in any order, begins to run exactly if there is one of
them, or two and the probe moves the first port; and it then sends to each of them, with the key. -/
theorem invitation_connects_iff {glob : Text → List Text} (hglob : Literal glob)
    {friends : List (InAddr × UInt16)} (hne : friends ≠ []) {env : ContainerEnv}
    (hpeers : env.peers = [','].intercalate (friends.map invitation)) {start : UInt16}
    (hport : Numeral env.portOrDefault start) (hstart : start ≠ 0)
    (hkey : env.key = [] ∨ HexKey env.key) {machine : Machine} (hsodium : machine.sodiumInit = true)
    (hhex : ReadsHex machine.hex2bin) (htap : machine.tap 0 = none)
    (hfree : machine.peers.Free (passedPorts machine.peers entrypointStunHost (presharedKey env.key)
      ((friends.map invitation).map (entrypointPeer env.portOrDefault)))) :
    (∀ f ∈ friends, hasMatch (invitation f) = true ∧
      ∀ left right, (∀ c ∈ left, isSpaceChar c = true) → (∀ c ∈ right, isSpaceChar c = true) →
        trimmed (left ++ (invitation f ++ right)) = invitation f) ∧
    (∀ tapIp, containerEnv (dockerArgs tapIp (friends.map invitation)) =
      ⟨[','].intercalate (friends.map invitation), [], []⟩) ∧
    ∃ argv, entrypoint glob env = .ok argv ∧
      ((main machine argv).ending = .running ↔
        ¬ Throws machine.peers.probe start probeAttempts ∧
          (friends.length = 1 ∨ friends.length = 2 ∧
            ∃ i, FirstStable machine.peers.probe start probeAttempts i ∧ i ≠ 0)) ∧
      ((main machine argv).ending = .running →
        (main machine argv).udpPorts =
          friends.map fun f => ⟨⟨f.1.value, f.2⟩, presharedKey env.key⟩) := by
  have hdotted (f : InAddr × UInt16) : (reported f).Dotted f.1 := dotted_reported f
  have hplain : ∀ p ∈ friends.map invitation, Plain p := by
    intro p hp
    obtain ⟨f, -, rfl⟩ := List.mem_map.mp hp
    exact (hdotted f).plain.1
  have hcomma : ∀ p ∈ friends.map invitation, ',' ∉ p := by
    intro p hp
    obtain ⟨f, -, rfl⟩ := List.mem_map.mp hp
    exact (hdotted f).plain.2
  have hport' : env.port = [] ∨ Plain env.port := by
    by_cases hunset : env.port = []
    · exact .inl hunset
    · rw [ContainerEnv.portOrDefault, if_neg hunset] at hport
      exact .inr hport.plain
  obtain ⟨argv, hargv, hsetup⟩ := setUp_entrypoint hglob (by simpa using hne) hplain hcomma hpeers
    hport' (hkey.imp_right HexKey.plain) hsodium htap (keyOf_presharedKey hhex hkey)
  refine ⟨fun f _ => ⟨(hdotted f).hasMatch, fun left right hleft hright =>
    (hdotted f).trim.trimmed_eq left right hleft hright⟩, fun tapIp => rfl, argv, hargv, ?_, fun hrunning => ?_⟩
  · rw [main_running_iff hsetup]
    have hparse : ∀ p ∈ friends.map invitation, ∃ cfg,
        parseUdpPeer (entrypointPeer env.portOrDefault p) = .ok cfg ∧ cfg.localPort = start := by
      intro p hp
      obtain ⟨f, -, rfl⟩ := List.mem_map.mp hp
      exact ⟨_, (hdotted f).parse hport, rfl⟩
    have hstarts := starts_iff (by decide +kernel) (by simpa using hne) hstart hparse hfree
    rwa [List.length_map] at hstarts
  · have hports := ports_main hsetup hrunning
    rw [List.map_map, List.forall₂_map_left_iff] at hports
    have hsame : List.Forall₂ (fun f u => UdpPort.mk ⟨f.1.value, f.2⟩ (presharedKey env.key) = u)
        friends (main machine argv).udpPorts := by
      refine hports.imp fun f u hu => ?_
      obtain ⟨cfg, hcfg, rfl⟩ := hu
      cases ((hdotted f).parse hport).symm.trans hcfg
      simp only [reported, inetPton_inetNtop, Option.getD_some]
    rw [← List.forall₂_map_left_iff, List.forall₂_eq_eq_eq] at hsame
    exact hsame.symm

/-- `sodium_hex2bin` on keys. -/
def readHex (t : Text) : Option Bytes :=
  if t.length = 64 ∧ t.all isHexDigit = true then some (hexBytes t) else none

/-- Two friends and a key, and the first friend gets the port that the probe has moved. -/
theorem invitation_connects_iff_two :
    let friends : List (InAddr × UInt16) := [(![203, 0, 113, 9], 5000), (![198, 51, 100, 4], 6000)]
    let machine : Machine := ⟨true, readHex, fun _ => none, secondStable, fun _ => none⟩
    let env : ContainerEnv :=
      ⟨[','].intercalate (friends.map invitation), [], List.replicate 64 'f'⟩
    ∃ argv, entrypoint (fun word => [word]) env = .ok argv ∧
      (main machine argv).ending = .running ∧
      (main machine argv).udpPorts =
        [⟨⟨3405803785, 5000⟩, some fun _ => 0xff⟩, ⟨⟨3325256708, 6000⟩, some fun _ => 0xff⟩] := by
  intro friends machine env
  have hpassed : passedPorts machine.peers entrypointStunHost (presharedKey env.key)
      ((friends.map invitation).map (entrypointPeer env.portOrDefault)) = [5001, 5000] := by
    decide +kernel
  have hfree : machine.peers.Free [5001, 5000] := by
    intro i hi
    have hcases : i = 0 ∨ i = 1 := by
      simp only [List.length_cons, List.length_nil] at hi
      omega
    rcases hcases with rfl | rfl
    · exact iff_of_true rfl (.inr (by simp))
    · exact iff_of_true rfl (.inr (by simp))
  have hport : Numeral env.portOrDefault 5000 := by
    have hdefault : env.portOrDefault = decimal (5000 : UInt16).toNat := by decide +kernel
    exact hdefault ▸ numeral_decimal 5000
  have hglob : Literal fun word => [word] := fun _ _ => rfl
  have hne : friends ≠ [] := by simp [friends]
  have hlist : env.peers = [','].intercalate (friends.map invitation) := rfl
  have hkey : HexKey env.key := ⟨List.length_replicate, fun c hc => by
    rw [List.eq_of_mem_replicate hc]
    rfl⟩
  have hsodium : machine.sodiumInit = true := rfl
  have hhex : ReadsHex machine.hex2bin := fun t ht =>
    if_pos ⟨ht.length, List.all_eq_true.mpr ht.digits⟩
  obtain ⟨-, -, argv, hargv, hstarts, hports⟩ := invitation_connects_iff hglob hne hlist hport
    (by decide) (.inr hkey) hsodium hhex rfl (hpassed ▸ hfree)
  have hrunning := hstarts.mpr ⟨firstStable_secondStable.not_throws,
    .inr ⟨rfl, 1, firstStable_secondStable, by decide⟩⟩
  have hread : presharedKey env.key = some fun _ => 0xff := by decide +kernel
  refine ⟨argv, hargv, hrunning, (hports hrunning).trans ?_⟩
  rw [hread]
  rfl

end VSwitch
