import VSwitch.Lib.Scan
import VSwitch.Network.UdpPort

/-! The STUN client: one binding request, and the parser of the response. Every index into
the response is checked against the bytes received, and the offset of the attribute that
decided is kept beside the address. -/
namespace VSwitch
open Lib

/-- What a query throws. Reading behind the received bytes and looping for ever are kept
apart, to be ruled out. -/
inductive StunError where
  | runtime (what : String)
  | pastEnd (offset : Nat)
  | endless
  deriving DecidableEq

structure StunAddress where
  ip : String
  port : UInt16
  deriving DecidableEq

abbrev TransactionId := Fin 12 → UInt8
/-- An `in_addr` in memory. -/
abbrev InAddr := Fin 4 → UInt8

def stunBindingRequest : UInt16 := 0x0001
def stunBindingResponse : UInt16 := 0x0101
def stunAttrXorMappedAddress : UInt16 := 0x0020
def stunAttrMappedAddress : UInt16 := 0x0001
def stunMagicCookie : Nat := 0x2112A442
def stunHeaderSize : Nat := 20

/-- `inet_ntop` for IPv4: four decimal numbers. -/
def inetNtop (ip : InAddr) : String :=
  ".".intercalate ((List.ofFn ip).map fun b => toString b.toNat)

namespace StunClient

def bindingRequest (txid : TransactionId) : Bytes :=
  htons stunBindingRequest ++ [0, 0] ++ htonl stunMagicCookie ++ List.ofFn txid

/-- A read of `n` bytes at `offset`. -/
def load {X : Type} (n : Nat) (value : Bytes → Nat → X) (response : Bytes) (offset : Nat) :
    Except StunError X :=
  if offset + n ≤ response.length then .ok (value response offset) else .error (.pastEnd offset)

def byteAt (data : Bytes) (offset : Nat) : UInt8 := data.getD offset 0

def be32At (data : Bytes) (offset : Nat) : Nat := be32 (data.drop offset)

/-- `attr_length` rounded up to a multiple of four. -/
def padded (n : Nat) : Nat := (n + 3) / 4 * 4

/-- The XOR of an address with the cookie, which stands in memory in network order. -/
def xorCookie (ip : InAddr) : InAddr := fun i => ip i ^^^ copyOut 4 (htonl stunMagicCookie) 0 i

def decode (attrType port : UInt16) (ip : InAddr) : StunAddress :=
  if attrType = stunAttrXorMappedAddress then
    ⟨inetNtop (xorCookie ip), port ^^^ UInt16.ofNat (stunMagicCookie >>> 16)⟩
  else ⟨inetNtop ip, port⟩

/-- The body of the attribute loop, with its condition: it leaves the loop with or without
an address, or goes on behind the attribute. -/
def attributeStep (response : Bytes) (attrsEnd offset : Nat) :
    Except StunError (Move Nat (Option (Nat × StunAddress))) := do
  if attrsEnd < offset + 4 then return .stop none
  let attrType ← load 2 be16 response offset
  let attrLength ← UInt16.toNat <$> load 2 be16 response (offset + 2)
  let value := offset + 4
  if response.length < value + attrLength then return .stop none
  if attrType = stunAttrXorMappedAddress ∨ attrType = stunAttrMappedAddress then
    if attrLength < 8 then return .stop none
    let family ← load 1 byteAt response (value + 1)
    if family ≠ 1 then return .next (value + padded attrLength)
    let rawPort ← load 2 be16 response (value + 2)
    let rawIp ← load 4 (copyOut 4) response (value + 4)
    return .stop (some (offset, decode attrType rawPort rawIp))
  return .next (value + padded attrLength)

def attributeMove (response : Bytes) (attrsEnd offset : Nat) :
    Move Nat (Except StunError (Option (Nat × StunAddress))) :=
  match attributeStep response attrsEnd offset with
  | .error e => .stop (.error e)
  | .ok (.stop found) => .stop (.ok found)
  | .ok (.next offset) => .next offset

/-- `if (...) throw std::runtime_error(...)`, with the condition that lets it pass. -/
def check (pass : Prop) [Decidable pass] (what : String) : Except StunError Unit :=
  if pass then .ok () else .error (.runtime what)

/-- What follows the attribute loop. -/
def afterLoop : Option (Except StunError (Option (Nat × StunAddress))) →
    Except StunError (Nat × StunAddress)
  | none => .error .endless
  | some (.error e) => .error e
  | some (.ok none) => .error (.runtime "No mapped address in STUN response")
  | some (.ok (some found)) => .ok found

/-- The parsing part of `get_public_address`: the address and the offset of the attribute
it was decoded from. -/
def parseResponse (txid : TransactionId) (response : Bytes) :
    Except StunError (Nat × StunAddress) := do
  check (stunHeaderSize ≤ response.length) "STUN response too short or timed out"
  let msgType ← load 2 be16 response 0
  check (msgType = stunBindingResponse) "Unexpected STUN message type"
  let magicCookie ← load 4 be32At response 4
  check (magicCookie = stunMagicCookie) "Invalid STUN magic cookie"
  let id ← load 12 (copyOut 12) response 8
  check (id = txid) "STUN transaction ID mismatch"
  let msgLen ← load 2 be16 response 2
  let attrsEnd := min (stunHeaderSize + msgLen.toNat) response.length
  afterLoop (scan (attributeMove response attrsEnd) (response.length + 1) stunHeaderSize)

end StunClient

/-- What a query depends on besides the code: the name resolution, the socket's answer to
`sendto`, the random bytes, and the datagrams that arrive within the three seconds. -/
structure StunQuery where
  host : String
  resolved : Bool
  sent : Bytes → Bool
  txid : TransactionId
  arrivals : List Bytes

namespace StunClient

/-- `StunClient::get_public_address`. One `recv` takes the first datagram, cut to 512 bytes. -/
def getPublicAddress (query : StunQuery) : Except StunError StunAddress := do
  check query.resolved ("Failed to resolve STUN server: " ++ query.host)
  check (query.sent (bindingRequest query.txid)) "Failed to send STUN request"
  match query.arrivals with
  | [] => .error (.runtime "STUN response too short or timed out")
  | response :: _ => Prod.snd <$> parseResponse query.txid (response.take 512)

section Layout
variable (response : Bytes) (offset : Nat)

def msgLength : Nat := (be16 response 2).toNat

/-- The end of the attributes, as far as they are declared and received. -/
def attrsEnd : Nat := min (stunHeaderSize + msgLength response) response.length

def attrLength : Nat := (be16 response (offset + 2)).toNat

/-- The end of the value of the attribute at `offset`. -/
def valueEnd : Nat := offset + 4 + attrLength response offset

def behind : Nat := offset + 4 + padded (attrLength response offset)

def IsMapped : Prop :=
  be16 response offset = stunAttrXorMappedAddress ∨ be16 response offset = stunAttrMappedAddress

/-- A mapped address of IPv4 whose value was received. -/
def HasIpv4 : Prop :=
  IsMapped response offset ∧ valueEnd response offset ≤ response.length ∧
    8 ≤ attrLength response offset ∧ byteAt response (offset + 5) = 1

/-- An attribute that the loop steps over: its value was received, and it is of another
type or of another address family. -/
def SteppedOver : Prop :=
  valueEnd response offset ≤ response.length ∧
    (IsMapped response offset →
      8 ≤ attrLength response offset ∧ byteAt response (offset + 5) ≠ 1)

def decodeAt : StunAddress :=
  decode (be16 response offset) (be16 response (offset + 6)) (copyOut 4 response (offset + 8))

/-- The offsets of the attributes, as long as they are stepped over and their headers lie
inside the message. -/
inductive Along (passed : Nat → Prop) : Nat → Prop where
  | first : stunHeaderSize + 4 ≤ attrsEnd response → Along passed stunHeaderSize
  | next {offset : Nat} : Along passed offset → passed offset →
    behind response offset + 4 ≤ attrsEnd response → Along passed (behind response offset)

/-- The offsets at which the loop reads an attribute. -/
def Reached : Nat → Prop := Along response (SteppedOver response)

/-- A binding success response to the request with this transaction id. -/
def IsResponseTo (txid : TransactionId) : Prop :=
  stunHeaderSize ≤ response.length ∧ be16 response 0 = stunBindingResponse ∧
    be32At response 4 = stunMagicCookie ∧ copyOut 12 response 8 = txid

instance : Decidable (IsMapped response offset) := inferInstanceAs (Decidable (_ ∨ _))
instance : Decidable (HasIpv4 response offset) := inferInstanceAs (Decidable (_ ∧ _))
instance : Decidable (SteppedOver response offset) := inferInstanceAs (Decidable (_ ∧ _))
instance (txid : TransactionId) : Decidable (IsResponseTo response txid) :=
  inferInstanceAs (Decidable (_ ∧ _))

end Layout

section Parser
variable {response : Bytes} {limit offset next : Nat} {txid : TransactionId} {a : StunAddress}

private theorem load_ok {X : Type} {n : Nat} {value : Bytes → Nat → X}
    (h : offset + n ≤ response.length) : load n value response offset = .ok (value response offset) :=
  if_pos h

theorem le_padded (n : Nat) : n ≤ padded n := by
  unfold padded
  omega

private theorem attributeStep_eq (hlimit : limit ≤ response.length) :
    attributeStep response limit offset = .ok (
      if limit < offset + 4 ∨ response.length < valueEnd response offset then .stop none
      else if IsMapped response offset then
        if attrLength response offset < 8 then .stop none
        else if byteAt response (offset + 5) ≠ 1 then .next (behind response offset)
        else .stop (some (offset, decodeAt response offset))
      else .next (behind response offset)) := by
  unfold attributeStep
  by_cases hheader : limit < offset + 4
  · rw [if_pos hheader, if_pos (.inl hheader)]
    rfl
  · rw [if_neg hheader, load_ok (by omega), load_ok (by omega)]
    simp only [bind, Except.bind, pure, Except.pure, Functor.map, Except.map]
    by_cases hvalue : response.length < valueEnd response offset
    · have hout : limit < offset + 4 ∨ response.length < valueEnd response offset := .inr hvalue
      rw [if_pos hout]
      exact if_pos hvalue
    · rw [if_neg (not_or.mpr ⟨hheader, hvalue⟩)]
      refine (if_neg hvalue).trans ?_
      by_cases hmapped : IsMapped response offset
      · rw [if_pos hmapped]
        refine (if_pos hmapped).trans ?_
        by_cases hshort : attrLength response offset < 8
        · rw [if_pos hshort]
          exact if_pos hshort
        · have hin : offset + 12 ≤ response.length := by
            unfold valueEnd at hvalue
            omega
          rw [if_neg hshort, load_ok (by omega), load_ok (by omega), load_ok (by omega)]
          refine (if_neg hshort).trans ?_
          by_cases hfamily : byteAt response (offset + 5) ≠ 1
          · rw [if_pos hfamily]
            exact if_pos hfamily
          · rw [if_neg hfamily]
            exact if_neg hfamily
      · rw [if_neg hmapped]
        exact if_neg hmapped

theorem attributeMove_next_iff (hlimit : limit ≤ response.length) :
    attributeMove response limit offset = .next next ↔
      offset + 4 ≤ limit ∧ SteppedOver response offset ∧ next = behind response offset := by
  unfold attributeMove SteppedOver
  rw [attributeStep_eq hlimit]
  split_ifs with hout hmapped hshort hfamily
  · simp
    omega
  · simp [hmapped]
    omega
  · constructor
    · intro h
      exact ⟨by omega, ⟨by omega, fun _ => ⟨by omega, hfamily⟩⟩, (Move.next.inj h).symm⟩
    · rintro ⟨-, -, rfl⟩
      rfl
  · rw [not_not] at hfamily
    simp [hmapped, hfamily]
  · constructor
    · intro h
      exact ⟨by omega, ⟨by omega, fun h => absurd h hmapped⟩, (Move.next.inj h).symm⟩
    · rintro ⟨-, -, rfl⟩
      rfl

theorem attributeMove_found_iff (hlimit : limit ≤ response.length) {o : Nat} :
    attributeMove response limit offset = .stop (.ok (some (o, a))) ↔
      offset + 4 ≤ limit ∧ HasIpv4 response offset ∧ o = offset ∧ a = decodeAt response offset := by
  unfold attributeMove HasIpv4
  rw [attributeStep_eq hlimit]
  split_ifs with hout hmapped hshort hfamily
  · simp
    omega
  · simp [hmapped]
    omega
  · simp [hmapped, hfamily]
  · rw [not_not] at hfamily
    constructor
    · intro h
      cases h
      exact ⟨by omega, ⟨hmapped, by omega, by omega, hfamily⟩, rfl, rfl⟩
    · rintro ⟨-, -, rfl, rfl⟩
      rfl
  · simp [hmapped]

private theorem attributeMove_ok (hlimit : limit ≤ response.length) (e : StunError) :
    attributeMove response limit offset ≠ .stop (.error e) := by
  unfold attributeMove
  rw [attributeStep_eq hlimit]
  split_ifs <;> simp

theorem attrsEnd_le (response : Bytes) : attrsEnd response ≤ response.length := Nat.min_le_right _ _

theorem Along.inside {passed : Nat → Prop} (h : Along response passed offset) :
    stunHeaderSize ≤ offset ∧ offset + 4 ≤ attrsEnd response := by
  induction h with
  | first h => exact ⟨le_refl _, h⟩
  | next _ _ h ih =>
    refine ⟨?_, h⟩
    unfold behind
    omega

/-- The loop walks from attribute to attribute. -/
theorem reached_iff :
    Reached response offset ↔
      Passes (attributeMove response (attrsEnd response)) stunHeaderSize offset ∧
        offset + 4 ≤ attrsEnd response := by
  constructor
  · intro h
    induction h with
    | first h => exact ⟨Passes.refl _, h⟩
    | next hbefore hover hend ih =>
      have hnext := (attributeMove_next_iff (attrsEnd_le response)).mpr ⟨ih.2, hover, rfl⟩
      exact ⟨ih.1.tail hnext, hend⟩
  · rintro ⟨hpass, hend⟩
    unfold Passes at hpass
    induction hpass with
    | refl => exact .first hend
    | tail _ hnext ih =>
      obtain ⟨hbefore, hover, rfl⟩ := (attributeMove_next_iff (attrsEnd_le response)).mp hnext
      exact .next (ih hbefore) hover hend

private theorem attributeMove_advances (hlimit : limit ≤ response.length) (o o' : Nat)
    (h : attributeMove response limit o = .next o') :
    response.length + 1 - o' < response.length + 1 - o := by
  obtain ⟨hend, -, rfl⟩ := (attributeMove_next_iff hlimit).mp h
  unfold behind
  omega

private theorem scan_attributes {result : Except StunError (Option (Nat × StunAddress))} :
    scan (attributeMove response (attrsEnd response)) (response.length + 1) stunHeaderSize =
        some result ↔
      ∃ o, Passes (attributeMove response (attrsEnd response)) stunHeaderSize o ∧
        attributeMove response (attrsEnd response) o = .stop result :=
  scan_eq_some_iff (attributeMove_advances (attrsEnd_le response)) (by
    simp only [stunHeaderSize]
    omega)

private theorem scan_attributes_total (response : Bytes) :
    ∃ found, scan (attributeMove response (attrsEnd response)) (response.length + 1)
      stunHeaderSize = some (.ok found) := by
  have hfuel : response.length + 1 - stunHeaderSize < response.length + 1 := by
    simp only [stunHeaderSize]
    omega
  obtain ⟨result, hresult⟩ := scan_total (attributeMove_advances (attrsEnd_le response)) hfuel
  cases result with
  | error e =>
    obtain ⟨o, -, hstop⟩ := scan_attributes.mp hresult
    exact absurd hstop (attributeMove_ok (attrsEnd_le response) e)
  | ok found => exact ⟨found, hresult⟩

private theorem load_eq_ok {X : Type} {n : Nat} {value : Bytes → Nat → X} {x : X} :
    load n value response offset = .ok x ↔
      offset + n ≤ response.length ∧ value response offset = x := by
  unfold load
  split_ifs with h <;> simp [h]

theorem check_eq_ok {pass : Prop} [Decidable pass] {what : String} {u : Unit} :
    check pass what = .ok u ↔ pass := by
  unfold check
  split_ifs with h <;> simp [h]

private theorem afterLoop_eq_ok {result : Option (Except StunError (Option (Nat × StunAddress)))}
    {found : Nat × StunAddress} :
    afterLoop result = .ok found ↔ result = some (.ok (some found)) := by
  unfold afterLoop
  split <;> simp

/-- What the parser accepts: a response to this request with a complete IPv4 mapped address
at an offset that the loop reaches. -/
theorem parseResponse_eq_ok :
    parseResponse txid response = .ok (offset, a) ↔
      IsResponseTo response txid ∧ Reached response offset ∧ HasIpv4 response offset ∧
        a = decodeAt response offset := by
  have hloop : afterLoop (scan (attributeMove response (attrsEnd response)) (response.length + 1)
        stunHeaderSize) = .ok (offset, a) ↔
      Reached response offset ∧ HasIpv4 response offset ∧ a = decodeAt response offset := by
    rw [afterLoop_eq_ok, scan_attributes, reached_iff]
    simp only [attributeMove_found_iff (attrsEnd_le response)]
    constructor
    · rintro ⟨o, hpass, hend, hipv4, rfl, ha⟩
      exact ⟨⟨hpass, hend⟩, hipv4, ha⟩
    · rintro ⟨⟨hpass, hend⟩, hipv4, ha⟩
      exact ⟨offset, hpass, hend, hipv4, rfl, ha⟩
  rw [← hloop]
  simp only [parseResponse, bind_eq_ok, check_eq_ok, load_eq_ok]
  constructor
  · rintro ⟨-, hlong, msgType, ⟨-, rfl⟩, -, htype, cookie, ⟨-, rfl⟩, -, hcookie, id, ⟨-, rfl⟩, -,
      htxid, msgLen, ⟨-, rfl⟩, hscan⟩
    exact ⟨⟨hlong, htype, hcookie, htxid⟩, hscan⟩
  · rintro ⟨⟨hlong, htype, hcookie, htxid⟩, hscan⟩
    have hheader : 20 ≤ response.length := hlong
    exact ⟨(), hlong, _, ⟨by omega, rfl⟩, (), htype, _, ⟨by omega, rfl⟩, (), hcookie, _,
      ⟨by omega, rfl⟩, (), htxid, _, ⟨by omega, rfl⟩, hscan⟩

/-- A computation that fails, if it does, by an exception of the program. -/
def Orderly {X : Type} (m : Except StunError X) : Prop :=
  ∀ e, m = .error e → ∃ what, e = .runtime what

theorem Orderly.bind {X Y : Type} {m : Except StunError X} {f : X → Except StunError Y}
    (hm : Orderly m) (hf : ∀ x, m = .ok x → Orderly (f x)) : Orderly (m >>= f) := by
  intro e h
  cases m with
  | error e' =>
    cases h
    exact hm e rfl
  | ok x => exact hf x rfl e h

theorem Orderly.load {X : Type} {n : Nat} {value : Bytes → Nat → X}
    (h : offset + n ≤ response.length) : Orderly (load n value response offset) := by
  intro e he
  rw [load_ok h] at he
  cases he

theorem Orderly.check (pass : Prop) [Decidable pass] (what : String) :
    Orderly (check pass what) := by
  intro e he
  unfold StunClient.check at he
  split_ifs at he
  cases he
  exact ⟨what, rfl⟩

private theorem Orderly.afterLoop :
    Orderly (afterLoop (scan (attributeMove response (attrsEnd response)) (response.length + 1)
      stunHeaderSize)) := by
  obtain ⟨found, hscan⟩ := scan_attributes_total response
  intro e he
  rw [hscan] at he
  cases found with
  | none =>
    cases he
    exact ⟨_, rfl⟩
  | some found => cases he

/-- Whatever arrives, parsing ends with an address or an exception of the program: it
neither reads behind the bytes received nor loops for ever. -/
theorem parseResponse_orderly (txid : TransactionId) (response : Bytes) :
    Orderly (parseResponse txid response) := by
  apply Orderly.bind (.check _ _)
  intro _ hlong
  have hheader : 20 ≤ response.length := check_eq_ok.mp hlong
  apply Orderly.bind (.load (by omega))
  intro _ _
  apply Orderly.bind (.check _ _)
  intro _ _
  apply Orderly.bind (.load (by omega))
  intro _ _
  apply Orderly.bind (.check _ _)
  intro _ _
  apply Orderly.bind (.load (by omega))
  intro _ _
  apply Orderly.bind (.check _ _)
  intro _ _
  apply Orderly.bind (.load (by omega))
  intro msgLen hmsgLen
  obtain ⟨-, rfl⟩ := load_eq_ok.mp hmsgLen
  exact Orderly.afterLoop

theorem getPublicAddress_first {query : StunQuery} {later : List Bytes}
    (hresolved : query.resolved = true) (hsent : query.sent (bindingRequest query.txid) = true)
    (harrivals : query.arrivals = response :: later) :
    getPublicAddress query = Prod.snd <$> parseResponse query.txid (response.take 512) := by
  rw [getPublicAddress, harrivals, hresolved, hsent]
  rfl

end Parser
end StunClient
end VSwitch
