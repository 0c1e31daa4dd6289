import VSwitch.Core.EthernetFrame
import VSwitch.Lib.Fields

/-! The `--udp` option: four fields between colons, cut out by positions, and the local port
that each of them configures. -/
namespace VSwitch
open Lib

/-- `std::string`. -/
abbrev Text := List Char

/-- The exceptions that end the start-up, each with its text. -/
inductive StartupError where
  | runtime (what : Text)
  | invalidArgument
  | outOfRange
  deriving DecidableEq

structure UdpPeerConfig where
  localIp : Text
  localPort : UInt16
  remoteIp : Text
  remotePort : UInt16
  deriving DecidableEq

/-- `std::isspace` in the C locale. -/
def isSpace (c : Char) : Bool := c.toNat = 32 ∨ (9 ≤ c.toNat ∧ c.toNat ≤ 13)

def decimalValue (digits : Text) : Nat := digits.foldl (fun n c => 10 * n + (c.toNat - 48)) 0

def takeSign : Text → Int × Text
  | '-' :: rest => (-1, rest)
  | '+' :: rest => (1, rest)
  | rest => (1, rest)

/-- `std::stoi`: white space, a sign and the longest run of digits; the rest is ignored. -/
def stoi (s : Text) : Except StartupError Int :=
  let (sign, rest) := takeSign (s.dropWhile isSpace)
  let digits := rest.takeWhile Char.isDigit
  let value := sign * decimalValue digits
  if digits = [] then .error .invalidArgument
  else if value < -2147483648 ∨ 2147483647 < value then .error .outOfRange
  else .ok value

/-- `s.substr(pos, n)`. -/
def substr (s : Text) (pos n : Nat) : Text := (s.drop pos).take n

/-- `position + 1`, where `npos + 1` is zero. -/
def next (position : Option Nat) : Nat := position.elim 0 (· + 1)

def parseUdpPeer (s : Text) : Except StartupError UdpPeerConfig :=
  let c1 := findFrom s ':' 0
  let c2 := findFrom s ':' (next c1)
  let c3 := findFrom s ':' (next c2)
  match c1, c2, c3 with
  | some c1, some c2, some c3 => do
    let localPort ← stoi (substr s (c1 + 1) (c2 - c1 - 1))
    let remotePort ← stoi (s.drop (c3 + 1))
    return ⟨s.take c1, UInt16.ofInt localPort, substr s (c2 + 1) (c3 - c2 - 1),
      UInt16.ofInt remotePort⟩
  | _, _, _ => .error (.runtime ("Invalid UDP peer format: ".toList ++ s))

section Fields
variable {s : Text} {cfg : UdpPeerConfig}

private theorem findFrom_some (pos : Nat) (h : ':' ∈ s.drop pos) :
    findFrom s ':' pos = some (pos + (upTo ':' (s.drop pos)).length) ∧
      s.drop (pos + (upTo ':' (s.drop pos)).length + 1) = beyond ':' (s.drop pos) := by
  constructor
  · rw [findFrom_eq, if_pos h]
  · rw [Nat.add_assoc, ← List.drop_drop, drop_upTo h]

private theorem findFrom_none (pos : Nat) (h : ':' ∉ s.drop pos) : findFrom s ':' pos = none := by
  rw [findFrom_eq, if_neg h]

/-- The positions cut out the fields: three colons are needed, and the last field may hold
more of them. -/
theorem parseUdpPeer_eq (s : Text) :
    parseUdpPeer s =
      if ':' ∈ s ∧ ':' ∈ beyond ':' s ∧ ':' ∈ beyond ':' (beyond ':' s) then do
        let localPort ← stoi (upTo ':' (beyond ':' s))
        let remotePort ← stoi (beyond ':' (beyond ':' (beyond ':' s)))
        return ⟨upTo ':' s, UInt16.ofInt localPort, upTo ':' (beyond ':' (beyond ':' s)),
          UInt16.ofInt remotePort⟩
      else .error (.runtime ("Invalid UDP peer format: ".toList ++ s)) := by
  unfold parseUdpPeer
  by_cases h1 : ':' ∈ s
  · obtain ⟨hc1, hd1⟩ := findFrom_some 0 h1
    rw [List.drop_zero, Nat.zero_add] at hc1 hd1
    by_cases h2 : ':' ∈ beyond ':' s
    · rw [← hd1] at h2
      obtain ⟨hc2, hd2⟩ := findFrom_some _ h2
      rw [hd1] at h2 hc2 hd2
      by_cases h3 : ':' ∈ beyond ':' (beyond ':' s)
      · rw [← hd2] at h3
        obtain ⟨hc3, hd3⟩ := findFrom_some _ h3
        rw [hd2] at h3 hc3 hd3
        have hgap (start length : Nat) : start + 1 + length - start - 1 = length := by omega
        rw [if_pos ⟨h1, h2, h3⟩]
        simp only [hc1, next, Option.elim_some, hc2, hc3, substr, hd1, hd2, hd3, take_upTo h1, hgap,
          take_upTo h2, take_upTo h3]
      · rw [← hd2] at h3
        rw [if_neg fun h => h3 (hd2 ▸ h.2.2)]
        simp only [hc1, next, Option.elim_some, hc2, findFrom_none _ h3]
    · rw [← hd1] at h2
      rw [if_neg fun h => h2 (hd1 ▸ h.2.1)]
      simp only [hc1, next, Option.elim_some, findFrom_none _ h2]
  · rw [if_neg fun h => h1 h.1]
    simp only [findFrom_none 0 h1, next, Option.elim_none]

private theorem parseUdpPeer_ok (h : parseUdpPeer s = .ok cfg) :
    ∃ localPort, stoi (upTo ':' (beyond ':' s)) = .ok localPort ∧
      cfg.localPort = UInt16.ofInt localPort := by
  rw [parseUdpPeer_eq] at h
  split_ifs at h
  obtain ⟨localPort, hlocal, h⟩ := bind_eq_ok.mp h
  obtain ⟨remotePort, -, h⟩ := bind_eq_ok.mp h
  cases h
  exact ⟨localPort, hlocal, rfl⟩

end Fields

/-- The argument that `entrypoint.sh` makes of a peer: the same local port for all of them. -/
def entrypointPeer (port peer : Text) : Text :=
  ['0', '.', '0', '.', '0', '.', '0', ':'] ++ port ++ ':' :: peer

/-- All arguments of `entrypoint.sh` configure one local port. -/
theorem entrypointPeer_localPort {port peer peer' : Text} {cfg cfg' : UdpPeerConfig}
    (h : parseUdpPeer (entrypointPeer port peer) = .ok cfg)
    (h' : parseUdpPeer (entrypointPeer port peer') = .ok cfg') : cfg.localPort = cfg'.localPort := by
  have hfield (peer : Text) : upTo ':' (beyond ':' (entrypointPeer port peer)) = upTo ':' port := by
    have hbeyond : beyond ':' (entrypointPeer port peer) = port ++ ':' :: peer := by
      simp [entrypointPeer, beyond, List.dropWhile]
    rw [hbeyond, upTo_append_cons]
  obtain ⟨n, hn, hport⟩ := parseUdpPeer_ok h
  obtain ⟨n', hn', hport'⟩ := parseUdpPeer_ok h'
  rw [hfield] at hn hn'
  cases hn.symm.trans hn'
  rw [hport, hport']

end VSwitch
