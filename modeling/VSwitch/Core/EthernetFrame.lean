import Mathlib.Data.Fin.VecNotation
import Mathlib.Data.Fintype.Pi
import Mathlib.Data.List.FinRange
import Mathlib.Data.List.GetD
import Mathlib.Data.UInt
import Mathlib.Tactic.FinCases

/-! Raw frames as byte strings, the Ethernet header read off their front, and the
textual MAC keys of the forwarding table. -/
namespace VSwitch

abbrev Bytes := List UInt8
/-- `std::array<uint8_t, 6>`. -/
abbrev Mac := Fin 6 → UInt8

/-- What ends the loop of the switch: a C++ exception that nothing inside `run`
catches, or a write past the end of a stack array. -/
inductive Fault where
  | invalidArgument (what : String)
  | ciphertextOverflow
  deriving DecidableEq, Repr

/-- A computation succeeds when each part does. -/
theorem bind_eq_ok {E X Y : Type} {m : Except E X} {f : X → Except E Y} {y : Y} :
    m >>= f = .ok y ↔ ∃ x, m = .ok x ∧ f x = .ok y := by
  cases m with
  | error fault => exact ⟨fun h => (by cases h), fun ⟨_, h, _⟩ => (by cases h)⟩
  | ok x => exact ⟨fun h => ⟨x, rfl, h⟩, fun ⟨_, h, hf⟩ => (by cases h; exact hf)⟩

/-- `memcpy` of `n` bytes from offset `off`. A byte past the end would read as
zero; every caller checks the length first. -/
def copyOut (n : Nat) (data : Bytes) (off : Nat) : Fin n → UInt8 :=
  fun i => data.getD (off + i) 0

/-- Two bytes in network order, as `ntohs` and the shifts of `get_ethertype` read them. -/
def ntohs (high low : UInt8) : UInt16 := (high.toUInt16 <<< 8) ||| low.toUInt16

def htons (v : UInt16) : Bytes := [(v >>> 8).toUInt8, v.toUInt8]

def be16 (data : Bytes) (off : Nat) : UInt16 := ntohs (data.getD off 0) (data.getD (off + 1) 0)

/-- Reading undoes writing in network order. -/
theorem ntohs_htons (v : UInt16) : ntohs (v >>> 8).toUInt8 v.toUInt8 = v := by
  have hv := v.toNat_lt
  have hlow : v.toNat % 256 < 2 ^ 8 := by omega
  have hhigh : v.toNat / 256 % 256 * 256 % 65536 = v.toNat / 256 * 256 := by omega
  apply UInt16.toNat_inj.mp
  simp only [ntohs, UInt16.toNat_or, UInt16.toNat_shiftLeft, UInt8.toNat_toUInt16,
    UInt16.toNat_toUInt8, UInt16.toNat_shiftRight, Nat.shiftRight_eq_div_pow, Nat.shiftLeft_eq,
    UInt16.reduceToNat, Nat.reduceMod, Nat.reducePow]
  rw [hhigh, ← Nat.shiftLeft_eq _ 8, ← Nat.shiftLeft_add_eq_or_of_lt hlow, Nat.shiftLeft_eq]
  omega

structure EthernetFrame where
  dstMac : Mac
  srcMac : Mac
  deriving DecidableEq

namespace EthernetFrame

def header (data : Bytes) : EthernetFrame := ⟨copyOut 6 data 0, copyOut 6 data 6⟩

/-- The constructor `EthernetFrame::EthernetFrame`. -/
def parse (data : Bytes) : Except Fault EthernetFrame :=
  if data.length < 14 then
    .error (.invalidArgument "Raw frame too short for an ethernet frame")
  else .ok (header data)

/-- `std::hex << std::setw(2) << std::setfill('0')`. -/
def hexByte (b : UInt8) : List Char := [Nat.digitChar (b.toNat / 16), Nat.digitChar (b.toNat % 16)]

def macToString (mac : Mac) : String :=
  String.ofList ((List.finRange 6).flatMap fun i =>
    (if i ≠ 0 then [':'] else []) ++ hexByte (mac i))

def isMulticast (mac : Mac) : Bool := mac 0 &&& 0x01 != 0

def build (dst src : Mac) (ethertype : UInt16) (payload : Bytes) : Bytes :=
  List.ofFn dst ++ List.ofFn src ++ htons ethertype ++ payload

theorem build_length (dst src : Mac) (ethertype : UInt16) (payload : Bytes) :
    (build dst src ethertype payload).length = 14 + payload.length := by
  simp [build, htons]
  omega

theorem header_build (dst src : Mac) (ethertype : UInt16) (payload : Bytes) :
    header (build dst src ethertype payload) = ⟨dst, src⟩ := by
  simp only [header, EthernetFrame.mk.injEq]
  constructor <;> funext i <;> fin_cases i <;> simp [copyOut, build, List.ofFn_succ]

theorem be16_build (dst src : Mac) (ethertype : UInt16) (payload : Bytes) :
    be16 (build dst src ethertype payload) 12 = ethertype := by
  rw [be16, build]
  exact ntohs_htons ethertype

/-- Past the header a built frame reads like its payload. -/
theorem getD_build (dst src : Mac) (ethertype : UInt16) (payload : Bytes) (i : Nat) :
    (build dst src ethertype payload).getD (14 + i) 0 = payload.getD i 0 := by
  have hlen : (List.ofFn dst ++ List.ofFn src ++ htons ethertype).length = 14 := by simp [htons]
  rw [build, List.getD_append_right _ _ _ _ (by omega), hlen, Nat.add_sub_cancel_left]

theorem parse_long {data : Bytes} (h : 14 ≤ data.length) : parse data = .ok (header data) := by
  rw [parse, if_neg (by omega)]

theorem parse_short {data : Bytes} (h : data.length < 14) :
    parse data = .error (.invalidArgument "Raw frame too short for an ethernet frame") := by
  rw [parse, if_pos h]

private theorem digitChar_injective {m n : Nat} (hm : m < 16) (hn : n < 16)
    (h : Nat.digitChar m = Nat.digitChar n) : m = n := by
  have table : ∀ i : Fin 16, ∀ j : Fin 16, Nat.digitChar i = Nat.digitChar j → i = j := by decide
  exact congrArg Fin.val (table ⟨m, hm⟩ ⟨n, hn⟩ h)

private theorem hexByte_injective {a b : UInt8} (h : hexByte a = hexByte b) : a = b := by
  simp only [hexByte, List.cons.injEq, and_true] at h
  have ha := a.toNat_lt
  have hb := b.toNat_lt
  have hq := digitChar_injective (by omega) (by omega) h.1
  have hr := digitChar_injective (by omega) (by omega) h.2
  exact UInt8.toNat_inj.mp (by omega)

/-- The textual key determines the address, so the table is keyed by addresses. -/
theorem macToString_injective : Function.Injective macToString := by
  intro a b h
  have hl := String.ofList_injective h
  simp [List.finRange_succ, hexByte] at hl
  funext i
  apply hexByte_injective
  fin_cases i <;> simp [hexByte, hl]

example : macToString ![0x02, 0, 0, 0, 0xab, 0x0f] = "02:00:00:00:ab:0f" := by decide

end EthernetFrame
end VSwitch
