import VSwitch.Network.StunClient

/-! Binding responses as servers build them, and the address the client reads from them. -/
namespace VSwitch
open StunClient

/-- An attribute in a message. Its value is padded to a multiple of four bytes, with
whatever bytes the sender likes. -/
structure Attribute where
  type : UInt16
  value : Bytes
  padding : Bytes
  short : value.length < 65536
  aligned : value.length + padding.length = padded value.length

namespace Attribute

def bytes (a : Attribute) : Bytes :=
  htons a.type ++ htons (UInt16.ofNat a.value.length) ++ a.value ++ a.padding

def Mapped (a : Attribute) : Prop :=
  a.type = stunAttrXorMappedAddress ∨ a.type = stunAttrMappedAddress

/-- A mapped address of IPv4: a reserved byte, the family, the port and four bytes. -/
def Ipv4 (a : Attribute) : Prop := a.Mapped ∧ a.value.length = 8 ∧ a.value.getD 1 0 = 1

def Ipv6 (a : Attribute) : Prop := a.Mapped ∧ a.value.length = 20 ∧ a.value.getD 1 0 = 2

instance (a : Attribute) : Decidable a.Mapped := inferInstanceAs (Decidable (_ ∨ _))
instance (a : Attribute) : Decidable a.Ipv4 := inferInstanceAs (Decidable (_ ∧ _))
instance (a : Attribute) : Decidable a.Ipv6 := inferInstanceAs (Decidable (_ ∧ _))

def address (a : Attribute) : StunAddress :=
  decode a.type (be16 a.value 2) (copyOut 4 a.value 4)

/-- An attribute by which a server tells the client its address, in the clear or XORed. -/
def Encodes (ip : InAddr) (port : UInt16) (a : Attribute) : Prop :=
  ∃ reserved : UInt8,
    (a.type = stunAttrMappedAddress ∧ a.value = [reserved, 1] ++ htons port ++ List.ofFn ip) ∨
    (a.type = stunAttrXorMappedAddress ∧
      a.value = [reserved, 1] ++ htons (port ^^^ 0x2112) ++ List.ofFn (xorCookie ip))

end Attribute

def attributeBytes (attrs : List Attribute) : Bytes := attrs.flatMap Attribute.bytes

def responseHeader (txid : TransactionId) (length : Nat) : Bytes :=
  htons stunBindingResponse ++ htons (UInt16.ofNat length) ++ htonl stunMagicCookie ++
    List.ofFn txid

def bindingResponse (txid : TransactionId) (attrs : List Attribute) : Bytes :=
  responseHeader txid (attributeBytes attrs).length ++ attributeBytes attrs

section Reading
variable {front rest : Bytes} {n : Nat}

private theorem getD_behind (front rest : Bytes) (i : Nat) :
    (front ++ rest).getD (front.length + i) 0 = rest.getD i 0 := by
  rw [List.getD_append_right _ _ _ _ (Nat.le_add_right _ _), Nat.add_sub_cancel_left]

private theorem be16_behind (front rest : Bytes) (i : Nat) :
    be16 (front ++ rest) (front.length + i) = be16 rest i := by
  rw [be16, be16, Nat.add_assoc, getD_behind, getD_behind]

private theorem copyOut_behind (front rest : Bytes) (i : Nat) :
    copyOut n (front ++ rest) (front.length + i) = copyOut n rest i := by
  funext k
  rw [copyOut, copyOut, Nat.add_assoc, getD_behind]

private theorem copyOut_ofFn (f : Fin n → UInt8) (rest : Bytes) :
    copyOut n (List.ofFn f ++ rest) 0 = f := by
  funext i
  have hi : (i : Nat) < (List.ofFn f).length := by simp
  rw [copyOut, Nat.zero_add, List.getD_append _ _ _ _ hi, List.getD_eq_getElem _ _ hi,
    List.getElem_ofFn]

end Reading

namespace Attribute
variable {a : Attribute} {front rest : Bytes}

theorem length_bytes (a : Attribute) : a.bytes.length = 4 + padded a.value.length := by
  have haligned := a.aligned
  simp only [bytes, htons, List.length_append, List.length_cons, List.length_nil]
  omega

private theorem be16_bytes (a : Attribute) (front rest : Bytes) :
    be16 (front ++ (a.bytes ++ rest)) front.length = a.type := by
  have hread := be16_behind front (a.bytes ++ rest) 0
  rw [Nat.add_zero] at hread
  rw [hread]
  exact ntohs_htons a.type

private theorem attrLength_bytes (a : Attribute) (front rest : Bytes) :
    attrLength (front ++ (a.bytes ++ rest)) front.length = a.value.length := by
  have hshort := a.short
  have hlen : be16 (a.bytes ++ rest) 2 = UInt16.ofNat a.value.length := ntohs_htons _
  rw [attrLength, be16_behind, hlen, UInt16.toNat_ofNat']
  exact Nat.mod_eq_of_lt hshort

private theorem getD_value {i : Nat} (hi : i < a.value.length) (front rest : Bytes) :
    (front ++ (a.bytes ++ rest)).getD (front.length + (4 + i)) 0 = a.value.getD i 0 := by
  have hsplit : a.bytes ++ rest = (htons a.type ++ htons (UInt16.ofNat a.value.length)) ++
      (a.value ++ (a.padding ++ rest)) := by
    simp only [bytes, List.append_assoc]
  rw [getD_behind, hsplit]
  exact (getD_behind _ _ _).trans (List.getD_append _ _ _ _ hi)

private theorem decodeAt_bytes (h : a.value.length = 8) (front rest : Bytes) :
    decodeAt (front ++ (a.bytes ++ rest)) front.length = a.address := by
  have hvalue {i : Nat} (hi : i < 8) :
      (front ++ (a.bytes ++ rest)).getD (front.length + (4 + i)) 0 = a.value.getD i 0 :=
    getD_value (by omega) front rest
  have hport : be16 (front ++ (a.bytes ++ rest)) (front.length + 6) = be16 a.value 2 :=
    congrArg₂ ntohs (hvalue (by decide : 2 < 8)) (hvalue (by decide : 3 < 8))
  have hip : copyOut 4 (front ++ (a.bytes ++ rest)) (front.length + 8) = copyOut 4 a.value 4 := by
    funext i
    have hi := hvalue (i := 4 + i) (by omega)
    rw [copyOut, copyOut, ← hi]
    congr 1
    omega
  rw [decodeAt, address, be16_bytes, hport, hip]

private theorem hasIpv4_bytes (h : a.Ipv4) (front rest : Bytes) :
    HasIpv4 (front ++ (a.bytes ++ rest)) front.length := by
  obtain ⟨hmapped, hlen, hfamily⟩ := h
  have hbytes := a.length_bytes
  have hpadded := le_padded a.value.length
  refine ⟨?_, ?_, ?_, ?_⟩
  · rwa [IsMapped, be16_bytes]
  · rw [valueEnd, attrLength_bytes, List.length_append, List.length_append]
    omega
  · rw [attrLength_bytes]
    omega
  · exact (getD_value (by omega) front rest).trans hfamily

private theorem steppedOver_bytes (h : ¬ a.Mapped ∨ a.Ipv6) (front rest : Bytes) :
    SteppedOver (front ++ (a.bytes ++ rest)) front.length := by
  have hbytes := a.length_bytes
  have hpadded := le_padded a.value.length
  constructor
  · rw [valueEnd, attrLength_bytes, List.length_append, List.length_append]
    omega
  · intro hmapped
    rw [IsMapped, be16_bytes] at hmapped
    rcases h with hforeign | ⟨-, hlen, hfamily⟩
    · exact absurd hmapped hforeign
    · rw [attrLength_bytes]
      have hread := getD_value (a := a) (i := 1) (by omega) front rest
      refine ⟨by omega, ?_⟩
      rw [byteAt, hread, hfamily]
      decide

private theorem behind_bytes (a : Attribute) (front rest : Bytes) :
    behind (front ++ (a.bytes ++ rest)) front.length = (front ++ a.bytes).length := by
  rw [behind, attrLength_bytes, List.length_append, length_bytes]
  omega

private theorem xorCookie_xorCookie (ip : InAddr) : xorCookie (xorCookie ip) = ip := by
  funext i
  simp only [xorCookie, UInt8.xor_assoc, UInt8.xor_self, UInt8.xor_zero]

private theorem read_value (reserved : UInt8) (port : UInt16) (ip : InAddr) :
    be16 ([reserved, 1] ++ htons port ++ List.ofFn ip) 2 = port ∧
      copyOut 4 ([reserved, 1] ++ htons port ++ List.ofFn ip) 4 = ip := by
  constructor
  · exact ntohs_htons port
  · have hread := copyOut_behind (n := 4) ([reserved, 1] ++ htons port) (List.ofFn ip ++ []) 0
    rw [copyOut_ofFn, List.append_nil] at hread
    exact hread

/-- Decoding undoes encoding, in both forms. -/
theorem Encodes.address {ip : InAddr} {port : UInt16} (h : a.Encodes ip port) :
    a.address = ⟨inetNtop ip, port⟩ := by
  obtain ⟨reserved, ⟨htype, hvalue⟩ | ⟨htype, hvalue⟩⟩ := h
  · obtain ⟨hport, hip⟩ := read_value reserved port ip
    have hplain : stunAttrMappedAddress ≠ stunAttrXorMappedAddress := by decide
    rw [Attribute.address, htype, hvalue, hport, hip, decode, if_neg hplain]
  · obtain ⟨hport, hip⟩ := read_value reserved (port ^^^ 0x2112) (xorCookie ip)
    have hcookie : UInt16.ofNat (stunMagicCookie >>> 16) = 0x2112 := by decide
    rw [Attribute.address, htype, hvalue, hport, hip, decode, if_pos rfl, hcookie,
      xorCookie_xorCookie, UInt16.xor_assoc, UInt16.xor_self, UInt16.xor_zero]

theorem Encodes.ipv4 {ip : InAddr} {port : UInt16} (h : a.Encodes ip port) : a.Ipv4 := by
  obtain ⟨reserved, ⟨htype, hvalue⟩ | ⟨htype, hvalue⟩⟩ := h
  · refine ⟨.inr htype, ?_, ?_⟩ <;> rw [hvalue]
    · rfl
    · rfl
  · refine ⟨.inl htype, ?_, ?_⟩ <;> rw [hvalue]
    · rfl
    · rfl

end Attribute

section Response
variable {txid : TransactionId} {attrs before after : List Attribute} {a : Attribute}

private theorem length_responseHeader (txid : TransactionId) (n : Nat) :
    (responseHeader txid n).length = 20 := by
  simp [responseHeader, htons, htonl]

private theorem length_bindingResponse (txid : TransactionId) (attrs : List Attribute) :
    (bindingResponse txid attrs).length = 20 + (attributeBytes attrs).length := by
  rw [bindingResponse, List.length_append, length_responseHeader]

private theorem isResponseTo_bindingResponse (txid : TransactionId) (attrs : List Attribute) :
    IsResponseTo (bindingResponse txid attrs) txid := by
  have hlen := length_bindingResponse txid attrs
  refine ⟨?_, ?_, ?_, ?_⟩
  · rw [hlen]
    exact Nat.le_add_right _ _
  · exact ntohs_htons stunBindingResponse
  · rw [be32At, bindingResponse, responseHeader, List.append_assoc, List.append_assoc]
    exact be32_htonl (by decide) _
  · have hread := copyOut_behind (n := 12) (htons stunBindingResponse ++
      htons (UInt16.ofNat (attributeBytes attrs).length) ++ htonl stunMagicCookie)
      (List.ofFn txid ++ attributeBytes attrs) 0
    rw [copyOut_ofFn, ← List.append_assoc] at hread
    exact hread

private theorem attrsEnd_bindingResponse (h : (attributeBytes attrs).length < 65536) :
    attrsEnd (bindingResponse txid attrs) = (bindingResponse txid attrs).length := by
  have hdeclared : be16 (bindingResponse txid attrs) 2 =
      UInt16.ofNat (attributeBytes attrs).length := ntohs_htons _
  rw [attrsEnd, msgLength, hdeclared, UInt16.toNat_ofNat', length_bindingResponse,
    Nat.mod_eq_of_lt h]
  exact Nat.min_self _

private theorem bindingResponse_split (txid : TransactionId) (before : List Attribute)
    (a : Attribute) (after : List Attribute) :
    bindingResponse txid (before ++ a :: after) =
      (responseHeader txid (attributeBytes (before ++ a :: after)).length ++ attributeBytes before)
        ++ (a.bytes ++ attributeBytes after) := by
  rw [bindingResponse, List.append_assoc]
  simp only [attributeBytes, List.flatMap_append, List.flatMap_cons]

private theorem reached_bindingResponse (h : (attributeBytes (before ++ a :: after)).length < 65536)
    (hbefore : ∀ b ∈ before, ¬ b.Mapped ∨ b.Ipv6) :
    Reached (bindingResponse txid (before ++ a :: after))
      (20 + (attributeBytes before).length) := by
  induction before using List.reverseRecOn generalizing a after with
  | nil =>
    apply Along.first
    have hbytes := a.length_bytes
    rw [attrsEnd_bindingResponse h, length_bindingResponse]
    simp only [attributeBytes, stunHeaderSize, List.nil_append, List.flatMap_cons,
      List.length_append]
    omega
  | append_singleton before b ih =>
    rw [List.append_assoc, List.singleton_append] at h ⊢
    have hover : ¬ b.Mapped ∨ b.Ipv6 := hbefore b (by simp)
    have hreached := ih h fun b' hb' => hbefore b' (List.mem_append_left _ hb')
    have hbytes := a.length_bytes
    have hend : attrsEnd (bindingResponse txid (before ++ b :: a :: after)) =
        (bindingResponse txid (before ++ b :: a :: after)).length := attrsEnd_bindingResponse h
    rw [bindingResponse_split] at hreached hend ⊢
    generalize hfront : responseHeader txid (attributeBytes (before ++ b :: a :: after)).length ++
      attributeBytes before = front at hreached hend ⊢
    have hlen : front.length = 20 + (attributeBytes before).length := by
      rw [← hfront, List.length_append, length_responseHeader]
    have hnext : behind (front ++ (b.bytes ++ attributeBytes (a :: after))) front.length =
        20 + (attributeBytes (before ++ [b])).length := by
      rw [Attribute.behind_bytes, List.length_append, hlen]
      simp [attributeBytes, Nat.add_assoc]
    rw [← hlen] at hreached
    rw [← hnext]
    apply Along.next hreached (Attribute.steppedOver_bytes hover _ _)
    rw [hend, Attribute.behind_bytes]
    simp only [attributeBytes, List.flatMap_cons, List.length_append]
    omega

private theorem parseResponse_first (h : (bindingResponse txid (before ++ a :: after)).length ≤ 512)
    (hbefore : ∀ b ∈ before, ¬ b.Mapped ∨ b.Ipv6) (ha : a.Ipv4) :
    parseResponse txid (bindingResponse txid (before ++ a :: after)) =
      .ok (20 + (attributeBytes before).length, a.address) := by
  have hlen := length_bindingResponse txid (before ++ a :: after)
  have hreached : Reached (bindingResponse txid (before ++ a :: after))
      (20 + (attributeBytes before).length) := reached_bindingResponse (by omega) hbefore
  rw [parseResponse_eq_ok]
  refine ⟨isResponseTo_bindingResponse txid _, hreached, ?_⟩
  have hfront : (responseHeader txid (attributeBytes (before ++ a :: after)).length ++
      attributeBytes before).length = 20 + (attributeBytes before).length := by
    rw [List.length_append, length_responseHeader]
  rw [bindingResponse_split, ← hfront]
  exact ⟨Attribute.hasIpv4_bytes ha _ _, (Attribute.decodeAt_bytes ha.2.1 _ _).symm⟩

private theorem exists_first {P Q : Attribute → Prop} (h : ∀ a ∈ attrs, Q a ∨ P a)
    (hsome : ∃ a ∈ attrs, P a) :
    ∃ before a after, attrs = before ++ a :: after ∧ (∀ b ∈ before, Q b) ∧ P a := by
  induction attrs with
  | nil =>
    obtain ⟨a, hmem, -⟩ := hsome
    cases hmem
  | cons a attrs ih =>
    by_cases ha : P a
    · exact ⟨[], a, attrs, rfl, fun _ hb => absurd hb List.not_mem_nil, ha⟩
    · have hrest : ∃ a ∈ attrs, P a := by
        obtain ⟨b, hmem, hb⟩ := hsome
        rcases List.mem_cons.mp hmem with rfl | hmem
        · exact absurd hb ha
        · exact ⟨b, hmem, hb⟩
      obtain ⟨before, first, after, rfl, hbefore, hfirst⟩ :=
        ih (fun b hb => h b (List.mem_cons_of_mem _ hb)) hrest
      refine ⟨a :: before, first, after, rfl, ?_, hfirst⟩
      intro b hb
      rcases List.mem_cons.mp hb with rfl | hb
      · exact (h b List.mem_cons_self).resolve_right ha
      · exact hbefore b hb

end Response

/-- `ip` in the clear. -/
def plainAddress (ip : InAddr) (port : UInt16) : Attribute where
  type := stunAttrMappedAddress
  value := [0, 1] ++ htons port ++ List.ofFn ip
  padding := []
  short := by simp [htons]
  aligned := by simp [htons, padded]

/-- `ip` and `port` under the cookie. -/
def xoredAddress (ip : InAddr) (port : UInt16) : Attribute where
  type := stunAttrXorMappedAddress
  value := [0, 1] ++ htons (port ^^^ 0x2112) ++ List.ofFn (xorCookie ip)
  padding := []
  short := by simp [htons]
  aligned := by simp [htons, padded]

/-- The parser is total: it stops, and it reads no byte that was not received. From a
response whose mapped addresses of IPv4 all encode one address and port it reads these,
whatever other attributes stand before and after. -/
theorem response_decoded :
    (∀ txid response, parseResponse txid response ≠ .error .endless ∧
      ∀ offset, parseResponse txid response ≠ .error (.pastEnd offset)) ∧
    ∀ (txid : TransactionId) (ip : InAddr) (port : UInt16) (attrs : List Attribute),
      (bindingResponse txid attrs).length ≤ 512 →
      (∀ a ∈ attrs, (¬ a.Mapped ∨ a.Ipv6) ∨ a.Encodes ip port) →
      (∃ a ∈ attrs, a.Encodes ip port) →
      Prod.snd <$> parseResponse txid (bindingResponse txid attrs) = .ok ⟨inetNtop ip, port⟩ := by
  constructor
  · intro txid response
    have horderly := parseResponse_orderly txid response
    constructor
    · intro h
      obtain ⟨what, hwhat⟩ := horderly _ h
      cases hwhat
    · intro offset h
      obtain ⟨what, hwhat⟩ := horderly _ h
      cases hwhat
  · intro txid ip port attrs hlen hattrs hsome
    obtain ⟨before, a, after, rfl, hbefore, ha⟩ := exists_first hattrs hsome
    rw [parseResponse_first hlen hbefore ha.ipv4, ← ha.address]
    rfl

/-- A software attribute of five bytes and an address of IPv6 before the one of IPv4. -/
theorem response_decoded_third :
    let software : Attribute := ⟨0x8022, [1, 2, 3, 4, 5], [0, 0, 0], by decide, by decide⟩
    let ipv6 : Attribute :=
      ⟨stunAttrXorMappedAddress, [0, 2] ++ List.replicate 18 9, [], by decide, by decide⟩
    let response := bindingResponse (fun _ => 7)
      [software, ipv6, xoredAddress ![203, 0, 113, 7] 5000]
    Prod.snd <$> parseResponse (fun _ => 7) response = .ok ⟨"203.0.113.7", 5000⟩ := by
  intro software ipv6 response
  have hip : inetNtop ![203, 0, 113, 7] = "203.0.113.7" := by decide
  rw [← hip]
  have hxored : (xoredAddress ![203, 0, 113, 7] 5000).Encodes ![203, 0, 113, 7] 5000 :=
    ⟨0, .inr ⟨rfl, rfl⟩⟩
  apply response_decoded.2
  · decide
  · intro a ha
    simp only [List.mem_cons, List.not_mem_nil, or_false] at ha
    rcases ha with rfl | rfl | rfl
    · exact .inl (.inl (by decide))
    · exact .inl (.inr (by decide))
    · exact .inr hxored
  · exact ⟨_, by simp, hxored⟩

/-- The client takes the first mapped address of IPv4, of either type: an XORed address
wins exactly over those in the clear that stand behind it. -/
theorem first_mapped_wins (query : StunQuery) (hresolved : query.resolved = true)
    (hsent : query.sent (bindingRequest query.txid) = true) (before after : List Attribute)
    (a : Attribute) (later : List Bytes)
    (harrivals : query.arrivals = bindingResponse query.txid (before ++ a :: after) :: later)
    (hlen : (bindingResponse query.txid (before ++ a :: after)).length ≤ 512)
    (hbefore : ∀ b ∈ before, ¬ b.Mapped ∨ b.Ipv6) (ha : a.Ipv4) :
    getPublicAddress query = .ok a.address := by
  rw [getPublicAddress_first hresolved hsent harrivals, List.take_of_length_le hlen,
    parseResponse_first hlen hbefore ha]
  rfl

def answered (attrs : List Attribute) : StunQuery :=
  ⟨"stun.l.google.com", true, fun _ => true, fun _ => 7, [bindingResponse (fun _ => 7) attrs]⟩

theorem first_mapped_wins_xored :
    getPublicAddress (answered
      [xoredAddress ![203, 0, 113, 7] 5000, plainAddress ![10, 0, 0, 1] 4000]) =
        .ok ⟨"203.0.113.7", 5000⟩ := by
  have haddress : (xoredAddress ![203, 0, 113, 7] 5000).address = ⟨"203.0.113.7", 5000⟩ := by
    decide
  rw [← haddress]
  exact first_mapped_wins (answered _) rfl rfl [] [plainAddress ![10, 0, 0, 1] 4000]
    (xoredAddress ![203, 0, 113, 7] 5000) [] rfl (by decide) (by simp) (by decide)

/-- An address in the clear before the XORed one is taken instead of it. -/
theorem plain_before_xored :
    let plain := plainAddress ![10, 0, 0, 1] 4000
    let xored := xoredAddress ![203, 0, 113, 7] 5000
    plain.Ipv4 ∧ xored.Ipv4 ∧ plain.type ≠ stunAttrXorMappedAddress ∧
      xored.type = stunAttrXorMappedAddress ∧ xored.address = ⟨"203.0.113.7", 5000⟩ ∧
      (answered [plain, xored]).arrivals = [bindingResponse (fun _ => 7) [plain, xored]] ∧
      getPublicAddress (answered [plain, xored]) = .ok ⟨"10.0.0.1", 4000⟩ ∧
      getPublicAddress (answered [plain, xored]) ≠ .ok xored.address := by
  intro plain xored
  have hplain : getPublicAddress (answered [plain, xored]) = .ok ⟨"10.0.0.1", 4000⟩ := by
    decide +kernel
  have hxored : xored.address = ⟨"203.0.113.7", 5000⟩ := by decide
  refine ⟨by decide, by decide, by decide, rfl, hxored, rfl, hplain, ?_⟩
  rw [hplain, hxored]
  decide

end VSwitch
