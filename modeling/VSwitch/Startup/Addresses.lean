import VSwitch.Lib.Pattern
import VSwitch.Startup.PeerConfig

/-! The addresses that the options accept, against the addresses that were written. The ports
are read by `stoi`, which stops at the first character it does not know, and cut to 16 bits. -/
namespace VSwitch
open Lib

structure HostPort where
  host : Text
  port : UInt16
  deriving DecidableEq

def parseHostPort (s : Text) : Except StartupError HostPort :=
  match findLast s ':' with
  | none => .error (.runtime ("Invalid host:port format: ".toList ++ s))
  | some colon => do
    let port ← stoi (s.drop (colon + 1))
    return ⟨s.take colon, UInt16.ofInt port⟩

/-- `valid_format` of the input field: four numbers between dots, a colon, and a port. -/
def validFormat : List (Piece Char) :=
  [.run Char.isDigit 3, .one '.', .run Char.isDigit 3, .one '.', .run Char.isDigit 3, .one '.',
    .run Char.isDigit 3, .one ':', .run Char.isDigit 5]

/-- `valid_format.match(addr).hasMatch()`, where `$` lets a line feed stand at the end. -/
def hasMatch (addr : Text) : Bool :=
  fits validFormat addr ∨ (addr.getLast? = some '\n' ∧ fits validFormat addr.dropLast)

/-- What `stoi` reads as `n`: white space, a sign, the longest run of digits, and the rest. -/
def Reads (s : Text) (n : Int) : Prop :=
  ∃ blanks sign digits rest, s = blanks ++ (sign ++ (digits ++ rest)) ∧
    (∀ c ∈ blanks, isSpace c = true) ∧ sign ∈ [[], ['+'], ['-']] ∧
    digits ≠ [] ∧ (∀ c ∈ digits, c.isDigit = true) ∧ (∀ c ∈ rest.head?, c.isDigit = false) ∧
    n = (if sign = ['-'] then -1 else 1) * (decimalValue digits : Int) ∧
    -2147483648 ≤ n ∧ n ≤ 2147483647

/-- A decimal numeral of a port, and nothing else. -/
def Numeral (s : Text) (port : UInt16) : Prop :=
  s ≠ [] ∧ (∀ c ∈ s, c.isDigit = true) ∧ decimalValue s = port.toNat

section Numbers
variable {s digits rest blanks sign : Text} {n : Int} {port : UInt16}

private theorem takeSign_spec (s : Text) :
    ∃ sign ∈ [[], ['+'], ['-']], s = sign ++ (takeSign s).2 ∧
      (takeSign s).1 = if sign = ['-'] then -1 else 1 := by
  unfold takeSign
  split
  · exact ⟨['-'], by simp, rfl, rfl⟩
  · exact ⟨['+'], by simp, rfl, rfl⟩
  · exact ⟨[], by simp, rfl, rfl⟩

private theorem takeSign_digits (hsign : sign ∈ [[], ['+'], ['-']]) (hne : digits ≠ [])
    (hdigits : ∀ c ∈ digits, c.isDigit = true) :
    takeSign (sign ++ (digits ++ rest)) = (if sign = ['-'] then -1 else 1, digits ++ rest) := by
  simp only [List.mem_cons, List.not_mem_nil, or_false] at hsign
  rcases hsign with rfl | rfl | rfl
  · cases digits with
    | nil => exact absurd rfl hne
    | cons c digits =>
      have hc := hdigits c List.mem_cons_self
      unfold takeSign
      split
      · rename_i heq
        cases heq
        cases hc
      · rename_i heq
        cases heq
        cases hc
      · rfl
  · rfl
  · rfl

private theorem takeWhile_digits (hdigits : ∀ c ∈ digits, c.isDigit = true)
    (hrest : ∀ c ∈ rest.head?, c.isDigit = false) :
    (digits ++ rest).takeWhile Char.isDigit = digits := by
  rw [List.takeWhile_append_of_pos hdigits]
  cases rest with
  | nil => simp
  | cons c rest => simp [hrest c rfl]

private theorem dropWhile_blanks (hblanks : ∀ c ∈ blanks, isSpace c = true)
    (hsign : sign ∈ [[], ['+'], ['-']]) (hne : digits ≠ [])
    (hdigits : ∀ c ∈ digits, c.isDigit = true) :
    (blanks ++ (sign ++ (digits ++ rest))).dropWhile isSpace = sign ++ (digits ++ rest) := by
  rw [List.dropWhile_append_of_pos hblanks]
  simp only [List.mem_cons, List.not_mem_nil, or_false] at hsign
  rcases hsign with rfl | rfl | rfl
  · cases digits with
    | nil => exact absurd rfl hne
    | cons c digits =>
      have hspace : isSpace c = false := by
        have hc := hdigits c List.mem_cons_self
        simp only [Char.isDigit, Bool.and_eq_true, decide_eq_true_eq, ge_iff_le,
          UInt32.le_iff_toNat_le] at hc
        simp only [isSpace, Char.toNat, decide_eq_false_iff_not]
        have hzero : '0'.val.toNat = 48 := rfl
        omega
      simp [hspace]
  · rfl
  · rfl

private theorem stoi_eq_ok : stoi s = .ok n ↔ Reads s n := by
  constructor
  · intro h
    obtain ⟨sign, hsign, hsplit, hvalue⟩ := takeSign_spec (s.dropWhile isSpace)
    unfold stoi at h
    simp only at h
    split_ifs at h with hempty hrange
    cases h
    rw [not_or] at hrange
    refine ⟨s.takeWhile isSpace, sign, (takeSign (s.dropWhile isSpace)).2.takeWhile Char.isDigit,
      (takeSign (s.dropWhile isSpace)).2.dropWhile Char.isDigit, ?_, ?_, hsign, hempty, ?_, ?_, ?_,
      by omega, by omega⟩
    · rw [List.takeWhile_append_dropWhile, ← hsplit, List.takeWhile_append_dropWhile]
    · exact fun c hc => List.mem_takeWhile_imp hc
    · exact fun c hc => List.mem_takeWhile_imp hc
    · intro c hc
      have hnot := List.head?_dropWhile_not Char.isDigit (takeSign (s.dropWhile isSpace)).2
      rw [hc] at hnot
      exact hnot
    · rw [hvalue]
  · rintro ⟨blanks, sign, digits, rest, rfl, hblanks, hsign, hne, hdigits, hrest, rfl, hlow, hhigh⟩
    unfold stoi
    simp only [dropWhile_blanks hblanks hsign hne hdigits, takeSign_digits hsign hne hdigits,
      takeWhile_digits hdigits hrest]
    rw [if_neg hne, if_neg (by omega)]

private theorem colon_not_mem (hdigits : ∀ c ∈ digits, c.isDigit = true) : ':' ∉ digits := by
  intro hmem
  have hdigit := hdigits ':' hmem
  cases hdigit

private theorem Numeral.reads (h : Numeral s port) : Reads s port.toNat := by
  obtain ⟨hne, hdigits, hvalue⟩ := h
  have hbound := port.toNat_lt
  refine ⟨[], [], s, [], by simp, by simp, by simp, hne, hdigits, by simp, ?_, by omega, by omega⟩
  rw [hvalue]
  simp

private theorem Numeral.stoi_eq (h : Numeral s port) : stoi s = .ok (port.toNat : Int) :=
  stoi_eq_ok.mpr h.reads

private theorem Numeral.no_colon (h : Numeral s port) : ':' ∉ s := colon_not_mem h.2.1

private theorem toNat_ofInt (n : Nat) : (UInt16.ofInt (n : Int)).toNat = n % 65536 := by
  rw [UInt16.ofInt, UInt16.toNat_ofNat']
  omega

private theorem ofInt_port (port : UInt16) : UInt16.ofInt (port.toNat : Int) = port := by
  rw [← UInt16.toNat_inj, toNat_ofInt]
  exact Nat.mod_eq_of_lt port.toNat_lt

private theorem decimalValue_lt (hdigits : ∀ c ∈ digits, c.isDigit = true) :
    decimalValue digits < 10 ^ digits.length := by
  induction digits using List.reverseRecOn with
  | nil => exact Nat.one_pos
  | append_singleton digits c ih =>
    have hlast := hdigits c (by simp)
    have hbefore := ih fun d hd => hdigits d (List.mem_append_left _ hd)
    have hc : c.toNat - 48 < 10 := by
      simp only [Char.isDigit, Bool.and_eq_true, decide_eq_true_eq, UInt32.le_iff_toNat_le] at hlast
      have hnine : '9'.val.toNat = 57 := rfl
      rw [Char.toNat]
      omega
    unfold decimalValue at hbefore ⊢
    rw [List.foldl_append, List.length_append, List.length_singleton, pow_succ]
    simp only [List.foldl_cons, List.foldl_nil]
    omega

end Numbers

/-- `s` is `A:p:B:q`, with the addresses free of colons and numerals for the ports. -/
def WritesPeer (s : Text) (cfg : UdpPeerConfig) : Prop :=
  ∃ p q, s = cfg.localIp ++ ':' :: (p ++ ':' :: (cfg.remoteIp ++ ':' :: q)) ∧
    ':' ∉ cfg.localIp ∧ ':' ∉ cfg.remoteIp ∧ Numeral p cfg.localPort ∧ Numeral q cfg.remotePort

/-- `s` is `H:p`, with a numeral behind the last colon. -/
def WritesHost (s : Text) (addr : HostPort) : Prop :=
  ∃ p, s = addr.host ++ ':' :: p ∧ Numeral p addr.port

/-- A port field that `stoi` gets a number from. -/
def Readable (s : Text) : Prop := ∃ n, Reads s n

def IsNumeral (s : Text) : Prop := ∃ port, Numeral s port

section Parsers
variable {s : Text} {cfg : UdpPeerConfig} {addr : HostPort}

private theorem parseUdpPeer_ok_iff :
    parseUdpPeer s = .ok cfg ↔
      ∃ p q m n, s = cfg.localIp ++ ':' :: (p ++ ':' :: (cfg.remoteIp ++ ':' :: q)) ∧
        ':' ∉ cfg.localIp ∧ ':' ∉ p ∧ ':' ∉ cfg.remoteIp ∧ stoi p = .ok m ∧ stoi q = .ok n ∧
        UInt16.ofInt m = cfg.localPort ∧ UInt16.ofInt n = cfg.remotePort := by
  rw [parseUdpPeer_eq]
  constructor
  · intro h
    split_ifs at h with hcolons
    obtain ⟨h1, h2, h3⟩ := hcolons
    obtain ⟨m, hm, h⟩ := bind_eq_ok.mp h
    obtain ⟨n, hn, h⟩ := bind_eq_ok.mp h
    cases h
    refine ⟨_, _, m, n, ?_, not_mem_upTo _ _, not_mem_upTo _ _, not_mem_upTo _ _, hm, hn, rfl, rfl⟩
    rw [upTo_append_beyond h3, upTo_append_beyond h2, upTo_append_beyond h1]
  · rintro ⟨p, q, m, n, rfl, h1, h2, h3, hm, hn, hlocal, hremote⟩
    simp only [beyond_cut h1, beyond_cut h2, beyond_cut h3, upTo_cut h1, upTo_cut h2, upTo_cut h3]
    rw [if_pos (by simp), hm, hn]
    simp only [bind, Except.bind, pure, Except.pure, hlocal, hremote]

private theorem parseHostPort_ok_iff :
    parseHostPort s = .ok addr ↔
      ∃ p n, s = addr.host ++ ':' :: p ∧ ':' ∉ p ∧ stoi p = .ok n ∧ UInt16.ofInt n = addr.port := by
  constructor
  · intro h
    by_cases hcolon : ':' ∈ s
    · obtain ⟨host, p, rfl, hp⟩ := exists_last hcolon
      have hdrop : (host ++ ':' :: p).drop (host.length + 1) = p := by simp
      rw [parseHostPort, findLast_cut hp] at h
      simp only [hdrop, List.take_left] at h
      obtain ⟨n, hn, h⟩ := bind_eq_ok.mp h
      cases h
      exact ⟨p, n, rfl, hp, hn, rfl⟩
    · rw [parseHostPort, findLast_none hcolon] at h
      cases h
  · rintro ⟨p, n, rfl, hp, hn, hport⟩
    have hdrop : (addr.host ++ ':' :: p).drop (addr.host.length + 1) = p := by simp
    rw [parseHostPort, findLast_cut hp]
    simp only [hdrop, List.take_left]
    rw [hn]
    simp only [bind, Except.bind, pure, Except.pure, hport]

/-- Numerals are read as they are written. -/
theorem WritesPeer.parse (h : WritesPeer s cfg) : parseUdpPeer s = .ok cfg := by
  obtain ⟨p, q, hs, hlocal, hremote, hp, hq⟩ := h
  exact parseUdpPeer_ok_iff.mpr ⟨p, q, _, _, hs, hlocal, hp.no_colon, hremote, hp.stoi_eq, hq.stoi_eq,
    ofInt_port _, ofInt_port _⟩

theorem WritesHost.parse (h : WritesHost s addr) : parseHostPort s = .ok addr := by
  obtain ⟨p, hs, hp⟩ := h
  exact parseHostPort_ok_iff.mpr ⟨p, _, hs, hp.no_colon, hp.stoi_eq, ofInt_port _⟩

private theorem Readable.exists_stoi {t : Text} (h : Readable t) : ∃ n, stoi t = .ok n := by
  obtain ⟨n, hn⟩ := h
  exact ⟨n, stoi_eq_ok.mpr hn⟩

private theorem Numeral.of_stoi {t : Text} {n : Int} {port : UInt16} (h : Numeral t port)
    (hn : stoi t = .ok n) : Numeral t (UInt16.ofInt n) := by
  cases h.stoi_eq.symm.trans hn
  rwa [ofInt_port]

private theorem parseUdpPeer_exact_iff :
    (∀ cfg, parseUdpPeer s = .ok cfg ↔ WritesPeer s cfg) ↔
      ∀ a p b q, s = a ++ ':' :: (p ++ ':' :: (b ++ ':' :: q)) → ':' ∉ a → ':' ∉ p → ':' ∉ b →
        Readable p → Readable q → IsNumeral p ∧ IsNumeral q := by
  constructor
  · rintro h a p b q rfl ha hp hb hreadp hreadq
    obtain ⟨m, hm⟩ := hreadp.exists_stoi
    obtain ⟨n, hn⟩ := hreadq.exists_stoi
    obtain ⟨p', q', hsame, -, -, hp', hq'⟩ := (h ⟨a, UInt16.ofInt m, b, UInt16.ofInt n⟩).mp
      (parseUdpPeer_ok_iff.mpr ⟨p, q, m, n, rfl, ha, hp, hb, hm, hn, rfl, rfl⟩)
    have hrest := List.cons.inj (List.append_cancel_left hsame) |>.2
    have hpp : p = p' := by
      rw [← upTo_cut hp (b ++ ':' :: q), hrest, upTo_cut hp'.no_colon]
    subst hpp
    have htail := List.cons.inj (List.append_cancel_left hrest) |>.2
    have hqq : q = q' := List.cons.inj (List.append_cancel_left htail) |>.2
    subst hqq
    exact ⟨⟨_, hp'⟩, _, hq'⟩
  · intro h cfg
    constructor
    · intro hok
      obtain ⟨p, q, m, n, hs, hlocal, hp, hremote, hm, hn, hport, hport'⟩ :=
        parseUdpPeer_ok_iff.mp hok
      obtain ⟨⟨port, hnum⟩, port', hnum'⟩ := h cfg.localIp p cfg.remoteIp q hs hlocal hp hremote
        ⟨m, stoi_eq_ok.mp hm⟩ ⟨n, stoi_eq_ok.mp hn⟩
      exact ⟨p, q, hs, hlocal, hremote, hport ▸ hnum.of_stoi hm, hport' ▸ hnum'.of_stoi hn⟩
    · exact WritesPeer.parse

private theorem parseHostPort_exact_iff :
    (∀ addr, parseHostPort s = .ok addr ↔ WritesHost s addr) ↔
      ∀ h p, s = h ++ ':' :: p → ':' ∉ p → Readable p → IsNumeral p := by
  constructor
  · rintro hexact h p rfl hp hread
    obtain ⟨n, hn⟩ := hread.exists_stoi
    obtain ⟨p', hsame, hp'⟩ := (hexact ⟨h, UInt16.ofInt n⟩).mp
      (parseHostPort_ok_iff.mpr ⟨p, n, rfl, hp, hn, rfl⟩)
    have hpp : p = p' := List.cons.inj (List.append_cancel_left hsame) |>.2
    subst hpp
    exact ⟨_, hp'⟩
  · intro hnumeral addr
    constructor
    · intro hok
      obtain ⟨p, n, hs, hp, hn, hport⟩ := parseHostPort_ok_iff.mp hok
      obtain ⟨port, hnum⟩ := hnumeral addr.host p hs hp ⟨n, stoi_eq_ok.mp hn⟩
      exact ⟨p, hs, hport ▸ hnum.of_stoi hn⟩
    · exact WritesHost.parse

end Parsers

/-- The port in an address of the input field: the digits behind the colon. -/
def typedPort (addr : Text) : Nat := decimalValue ((beyond ':' addr).takeWhile Char.isDigit)

def typedPeer (addr : Text) : Text := entrypointPeer ['5', '0', '0', '0'] addr

section InputField
variable {addr : Text}

theorem fits_validFormat (h : fits validFormat addr = true) :
    ∃ host port, addr = host ++ ':' :: port ∧ ':' ∉ host ∧ port ≠ [] ∧ port.length ≤ 5 ∧
      ∀ c ∈ port, c.isDigit = true := by
  simp only [validFormat, fits_run_iff, fits_one_iff, fits_nil_iff] at h
  obtain ⟨a, -, rfl, -, -, ha, -, rfl, b, -, rfl, -, -, hb, -, rfl, c, -, rfl, -, -, hc, -, rfl, d, -,
    rfl, -, -, hd, -, rfl, port, -, rfl, hne, hlen, hport, rfl⟩ := h
  refine ⟨a ++ '.' :: (b ++ '.' :: (c ++ '.' :: d)), port, by simp, ?_, hne, hlen, hport⟩
  simp [colon_not_mem ha, colon_not_mem hb, colon_not_mem hc, colon_not_mem hd]

private theorem hasMatch_split (h : hasMatch addr = true) :
    ∃ host port tail, addr = host ++ ':' :: (port ++ tail) ∧ ':' ∉ host ∧ port ≠ [] ∧
      port.length ≤ 5 ∧ (∀ c ∈ port, c.isDigit = true) ∧ (∀ c ∈ tail.head?, c.isDigit = false) := by
  rcases of_decide_eq_true h with hfits | ⟨hlast, hfits⟩
  · obtain ⟨host, port, rfl, hhost, hne, hlen, hport⟩ := fits_validFormat hfits
    exact ⟨host, port, [], by simp, hhost, hne, hlen, hport, by simp⟩
  · obtain ⟨host, port, hsplit, hhost, hne, hlen, hport⟩ := fits_validFormat hfits
    refine ⟨host, port, ['\n'], ?_, hhost, hne, hlen, hport, by simp⟩
    rw [← List.dropLast_append_getLast? _ hlast, hsplit]
    simp

/-- The port typed is cut to sixteen bits, and nothing is ever rejected. -/
theorem parse_typedPeer (h : hasMatch addr = true) :
    ∃ cfg, parseUdpPeer (typedPeer addr) = .ok cfg ∧ cfg.localPort = 5000 ∧
      cfg.remotePort.toNat = typedPort addr % 65536 := by
  obtain ⟨host, port, tail, rfl, hhost, hne, hlen, hport, htail⟩ := hasMatch_split h
  have htyped : typedPort (host ++ ':' :: (port ++ tail)) = decimalValue port := by
    rw [typedPort, beyond_cut hhost, takeWhile_digits hport htail]
  have hsmall : decimalValue port < 100000 :=
    (decimalValue_lt hport).trans_le (Nat.pow_le_pow_right (by decide) hlen)
  have hread : Reads (port ++ tail) (decimalValue port : Int) :=
    ⟨[], [], port, tail, by simp, by simp, by simp, hne, hport, htail, by simp, by omega, by omega⟩
  have hlocal : ':' ∉ ['0', '.', '0', '.', '0', '.', '0'] := by decide
  refine ⟨⟨['0', '.', '0', '.', '0', '.', '0'], 5000, host, UInt16.ofInt (decimalValue port)⟩,
    parseUdpPeer_ok_iff.mpr ⟨['5', '0', '0', '0'], port ++ tail, 5000, _, ?_, hlocal, by decide,
      hhost, by decide, stoi_eq_ok.mpr hread, rfl, rfl⟩, rfl, ?_⟩
  · simp [typedPeer, entrypointPeer]
  · rw [htyped]
    exact toNat_ofInt _

private theorem typedPeer_exact_iff (h : hasMatch addr = true) :
    (∀ cfg, parseUdpPeer (typedPeer addr) = .ok cfg → cfg.remotePort.toNat = typedPort addr) ↔
      typedPort addr ≤ 65535 := by
  obtain ⟨cfg, hparse, -, hport⟩ := parse_typedPeer h
  constructor
  · intro hexact
    have hsame := hexact cfg hparse
    omega
  · intro hsmall cfg' hparse'
    cases hparse.symm.trans hparse'
    omega

end InputField

/-- Exactly when the addresses are parsed as they are written or rejected: as long as every
port field that `stoi` can get a number from is a numeral of sixteen bits. -/
theorem addresses_exact_iff (s t x : Text) :
    ((∀ cfg, parseUdpPeer s = .ok cfg ↔ WritesPeer s cfg) ↔
      ∀ a p b q, s = a ++ ':' :: (p ++ ':' :: (b ++ ':' :: q)) → ':' ∉ a → ':' ∉ p → ':' ∉ b →
        Readable p → Readable q → IsNumeral p ∧ IsNumeral q) ∧
    ((∀ addr, parseHostPort t = .ok addr ↔ WritesHost t addr) ↔
      ∀ h p, t = h ++ ':' :: p → ':' ∉ p → Readable p → IsNumeral p) ∧
    (hasMatch x = true →
      ((∀ cfg, parseUdpPeer (typedPeer x) = .ok cfg → cfg.remotePort.toNat = typedPort x) ↔
        typedPort x ≤ 65535)) :=
  ⟨parseUdpPeer_exact_iff, parseHostPort_exact_iff, typedPeer_exact_iff⟩

/-- A peer port that is too large, a server port behind which something follows, and a port
that the input field accepts: the switch goes on with another port, or with one that was not
written. -/
theorem addresses_misread :
    let peer := "0.0.0.0:5000:1.2.3.4:70000".toList
    let server := "stun.l.google.com:19302x".toList
    let typed := "1.2.3.4:70000".toList
    parseUdpPeer peer = .ok ⟨"0.0.0.0".toList, 5000, "1.2.3.4".toList, 4464⟩ ∧
      ¬ (∀ cfg, parseUdpPeer peer = .ok cfg ↔ WritesPeer peer cfg) ∧
      parseHostPort server = .ok ⟨"stun.l.google.com".toList, 19302⟩ ∧
      ¬ (∀ addr, parseHostPort server = .ok addr ↔ WritesHost server addr) ∧
      hasMatch typed = true ∧ typedPort typed = 70000 ∧ typedPeer typed = peer := by
  intro peer server typed
  refine ⟨by decide +kernel, ?_, by decide +kernel, ?_, by decide +kernel, by decide +kernel,
    by decide +kernel⟩
  · intro h
    have hread : stoi "70000".toList = .ok 70000 := by decide +kernel
    have hlocal : stoi "5000".toList = .ok 5000 := by decide +kernel
    obtain ⟨-, port, -, -, hvalue⟩ := parseUdpPeer_exact_iff.mp h "0.0.0.0".toList "5000".toList
      "1.2.3.4".toList "70000".toList (by decide +kernel) (by decide) (by decide) (by decide)
      ⟨5000, stoi_eq_ok.mp hlocal⟩ ⟨70000, stoi_eq_ok.mp hread⟩
    have hlarge : decimalValue "70000".toList = 70000 := by decide +kernel
    have hbound := port.toNat_lt
    omega
  · intro h
    have hread : stoi "19302x".toList = .ok 19302 := by decide +kernel
    obtain ⟨port, -, hdigits, -⟩ := parseHostPort_exact_iff.mp h "stun.l.google.com".toList
      "19302x".toList (by decide +kernel) (by decide) ⟨19302, stoi_eq_ok.mp hread⟩
    have hx := hdigits 'x' (by decide)
    cases hx

end VSwitch
