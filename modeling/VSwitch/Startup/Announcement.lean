import VSwitch.Network.Discovery
import VSwitch.Startup.Addresses
import VSwitch.Startup.Constructor

/-! What the probe prints, and how an address comes through as text: what `inet_ntop` has
written, and a port in decimal, are read as they were. -/
namespace VSwitch
open Lib StunClient

/-- `std::ostream << n`. -/
def decimal (n : Nat) : Text := Nat.toDigits 10 n

/-- `addr.ip << ":" << addr.port`. -/
def StunAddress.text (a : StunAddress) : Text := a.ip.toList ++ ':' :: decimal a.port.toNat

namespace StunClient

def announcement (a : StunAddress) : Text :=
  "Your public address: ".toList ++ a.text ++ "  <-- share this with your peer\n\n".toList

def tryingNext (port : UInt16) (a : StunAddress) : Text :=
  "Port ".toList ++ decimal port.toNat ++ " -> external ".toList ++ decimal a.port.toNat ++
    ", trying next...\n".toList

def symmetricWarning : Text :=
  "Warning: symmetric NAT detected, hole punching may still work if peer has cone NAT\n".toList

def attemptPrints (env : Nat → Attempt) (startPort : UInt16) (i : Nat) : Text :=
  let port := testPort startPort i
  match env i with
  | .noSocket => []
  | .bindFails => []
  | .bound query =>
    match getPublicAddress query with
    | .error _ => []
    | .ok addr => if addr.port = port then announcement addr else tryingNext port addr

/-- What `probeFrom` prints; `std::cerr` ends up in the same stream. -/
def probePrints (env : Nat → Attempt) (startPort : UInt16) : Nat → Nat → Text
  | 0, _ => symmetricWarning
  | left + 1, i =>
    attemptPrints env startPort i ++
      match (attempt env startPort i).2 with
      | .stop _ => []
      | .next i => probePrints env startPort left i

end StunClient

/-- An IPv4 address in memory, as a number in network order. -/
def InAddr.value (ip : InAddr) : UInt32 := UInt32.ofNat (ntohl (ip 0) (ip 1) (ip 2) (ip 3))

section Decimal
variable {n : Nat} {c : Char} {port : UInt16}

theorem isDigit_of_mem_decimal (h : c ∈ decimal n) : c.isDigit = true :=
  Nat.isDigit_of_mem_toDigits (by decide) (by decide) h

private theorem decimalValue_decimal (n : Nat) : decimalValue (decimal n) = n := by
  have hvalue := Nat.ofDigitChars_ten_toDigits (n := n)
  rw [Nat.ofDigitChars_eq_foldl] at hvalue
  exact hvalue

theorem numeral_decimal (port : UInt16) : Numeral (decimal port.toNat) port :=
  ⟨Nat.toDigits_ne_nil, fun _ hc => isDigit_of_mem_decimal hc, decimalValue_decimal _⟩

end Decimal

section Dotted
variable (ip : InAddr)

def InAddr.numbers : List Text := (List.ofFn ip).map fun b => decimal b.toNat

private theorem toList_inetNtop : (inetNtop ip).toList = ['.'].intercalate ip.numbers := by
  have hnumber (b : UInt8) : (toString b.toNat).toList = decimal b.toNat := Nat.toList_repr
  rw [inetNtop, String.toList_intercalate, List.map_map, InAddr.numbers]
  congr 1
  apply List.map_congr_left
  intro b _
  exact hnumber b

private theorem octet_decimal (b : UInt8) : octet (decimal b.toNat) = some b.toNat := by
  have hall : ∀ n : Fin 256, octet (decimal n.val) = some n.val := by decide +kernel
  exact hall ⟨b.toNat, b.toNat_lt⟩

/-- `inet_pton` undoes `inet_ntop`. -/
theorem inetPton_inetNtop : inetPton (inetNtop ip).toList = some ip.value := by
  have hnodots : ∀ number ∈ ip.numbers, '.' ∉ number := by
    intro number hnumber hdot
    obtain ⟨b, -, rfl⟩ := List.mem_map.mp hnumber
    cases isDigit_of_mem_decimal hdot
  have hnumbers : ip.numbers = [decimal (ip 0).toNat, decimal (ip 1).toNat, decimal (ip 2).toNat,
      decimal (ip 3).toNat] := rfl
  rw [inetPton, toList_inetNtop, List.splitOn_intercalate '.' hnodots (by simp [hnumbers]), hnumbers]
  simp only [octet_decimal, Option.bind_eq_bind, Option.bind_some]
  rfl

/-- The address as it is typed and read: a host that `inet_ntop` has written, and a port. -/
theorem toList_dotted (port : Text) :
    (inetNtop ip).toList ++ ':' :: port =
      decimal (ip 0).toNat ++ '.' :: (decimal (ip 1).toNat ++ '.' :: (decimal (ip 2).toNat ++
        '.' :: (decimal (ip 3).toNat ++ ':' :: port))) := by
  rw [toList_inetNtop]
  simp [InAddr.numbers, List.intercalate]

private theorem fits_decimal {n most : Nat} {pieces : List (Piece Char)} {rest : Text}
    (hpos : 0 < most) (hn : n < 10 ^ most) (hrest : fits pieces rest = true) :
    fits (.run Char.isDigit most :: pieces) (decimal n ++ rest) = true :=
  fits_run_iff.mpr ⟨decimal n, rest, rfl, Nat.toDigits_ne_nil,
    (Nat.length_toDigits_le_iff (by decide) hpos).mpr hn, fun _ hc => isDigit_of_mem_decimal hc, hrest⟩

private theorem fits_text (port : UInt16) :
    fits validFormat ((inetNtop ip).toList ++ ':' :: decimal port.toNat) = true := by
  have hbyte (b : UInt8) : b.toNat < 10 ^ 3 := lt_trans b.toNat_lt (by decide)
  have hone (x : Char) (pieces : List (Piece Char)) (t : Text) (h : fits pieces t = true) :
      fits (.one x :: pieces) (x :: t) = true := fits_one_iff.mpr ⟨t, rfl, h⟩
  have hport : fits [.run Char.isDigit 5] (decimal port.toNat) = true := by
    have hdigits : fits [.run Char.isDigit 5] (decimal port.toNat ++ []) = true :=
      fits_decimal (by decide) (lt_trans port.toNat_lt (by decide)) rfl
    rwa [List.append_nil] at hdigits
  rw [toList_dotted, validFormat]
  apply fits_decimal (by decide) (hbyte _)
  apply hone
  apply fits_decimal (by decide) (hbyte _)
  apply hone
  apply fits_decimal (by decide) (hbyte _)
  apply hone
  apply fits_decimal (by decide) (hbyte _)
  apply hone
  exact hport

private theorem mem_inetNtop {c : Char} (h : c ∈ (inetNtop ip).toList) :
    c.isDigit = true ∨ c = '.' := by
  rw [toList_inetNtop] at h
  rcases mem_of_mem_intercalate h with hdot | ⟨number, hnumber, hc⟩
  · exact .inr (List.mem_singleton.mp hdot)
  · obtain ⟨b, -, rfl⟩ := List.mem_map.mp hnumber
    exact .inl (isDigit_of_mem_decimal hc)

end Dotted

/-- An address that `inet_ntop` has written. -/
def StunAddress.Dotted (a : StunAddress) (ip : InAddr) : Prop := a.ip = inetNtop ip

section Address
variable {a : StunAddress} {ip : InAddr} {port : Text} {localPort : UInt16}

theorem StunAddress.Dotted.mem_text (h : a.Dotted ip) {c : Char} (hc : c ∈ a.text) :
    c.isDigit = true ∨ c = '.' ∨ c = ':' := by
  rw [StunAddress.text, h, List.mem_append, List.mem_cons] at hc
  rcases hc with hip | hcolon | hport
  · exact (mem_inetNtop ip hip).imp_right .inl
  · exact .inr (.inr hcolon)
  · exact .inl (isDigit_of_mem_decimal hport)

/-- The input field accepts the address. -/
theorem StunAddress.Dotted.fits (h : a.Dotted ip) : fits validFormat a.text = true := by
  unfold StunAddress.text
  rw [h]
  exact fits_text ip a.port

theorem StunAddress.Dotted.hasMatch (h : a.Dotted ip) : hasMatch a.text = true :=
  decide_eq_true (.inl h.fits)

/-- The switch is told the address as it was reported. -/
theorem StunAddress.Dotted.parse (h : a.Dotted ip) (hport : Numeral port localPort) :
    parseUdpPeer (entrypointPeer port a.text) =
      .ok ⟨['0', '.', '0', '.', '0', '.', '0'], localPort, a.ip.toList, a.port⟩ := by
  have hlocal : ':' ∉ ['0', '.', '0', '.', '0', '.', '0'] := by decide
  apply WritesPeer.parse
  refine ⟨port, decimal a.port.toNat, by simp [entrypointPeer, StunAddress.text], hlocal, ?_, hport,
    numeral_decimal a.port⟩
  rw [h]
  intro hcolon
  rcases mem_inetNtop ip hcolon with hdigit | hdot
  · cases hdigit
  · cases hdot

end Address

/-- Every address that a query reports was written by `inet_ntop`. -/
theorem exists_inetNtop {query : StunQuery} {a : StunAddress}
    (h : getPublicAddress query = .ok a) : ∃ ip, a.Dotted ip := by
  obtain ⟨-, -, first, later, -, -, offset, -, -, rfl⟩ := getPublicAddress_eq_ok.mp h
  unfold decodeAt decode
  split_ifs
  · exact ⟨_, rfl⟩
  · exact ⟨_, rfl⟩

end VSwitch
