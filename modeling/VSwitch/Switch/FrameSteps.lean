import VSwitch.Switch.VirtualSwitch

/-! What one pass through the loop body can do: the tables it leaves, when it
answers by proxy ARP, and which ports receive the frame. Later modules cite these
lemmas and never unfold the body. -/
namespace VSwitch
open Lib EthernetFrame

private theorem le_secondsSince_iff {k : Int} (hk : 0 < k) (now t : Int) :
    k ≤ secondsSince now t ↔ k * 1000000000 ≤ now - t := by
  unfold secondsSince
  rcases le_total 0 (now - t) with h | h
  · rw [Int.tdiv_eq_ediv_of_nonneg h, Int.le_ediv_iff_mul_le (by decide)]
  · have hneg : (now - t).tdiv 1000000000 = -((t - now).tdiv 1000000000) := by
      rw [← Int.neg_tdiv, Int.neg_sub]
    have hpos : 0 ≤ (t - now).tdiv 1000000000 := Int.tdiv_nonneg (by omega) (by decide)
    rw [hneg]
    omega

theorem expired_eq (now t : Int) :
    VirtualSwitch.expired now t = decide (301000000000 ≤ now - t) := by
  rw [VirtualSwitch.expired, fdbAgingTime, decide_eq_decide, gt_iff_lt, Int.lt_iff_add_one_le]
  exact le_secondsSince_iff (by decide) now t

theorem age_check_due_iff (now t : Int) :
    secondsSince now t ≥ ageCheckInterval ↔ 5000000000 ≤ now - t :=
  le_secondsSince_iff (by decide) now t

/-- The packet sanity checks of `handle_arp`. -/
def ArpPacket.WellFormed (arp : ArpPacket) : Prop :=
  arp.htype = 1 ∧ arp.ptype = 0x0800 ∧ arp.hlen = 6 ∧ arp.plen = 4

instance (arp : ArpPacket) : Decidable arp.WellFormed :=
  inferInstanceAs (Decidable (_ ∧ _))

/-- A frame that carries a complete Ethernet/IPv4 ARP packet. -/
def ValidArp (data : Bytes) : Prop :=
  getEthertype data = ethertypeArp ∧ 14 + 28 ≤ data.length ∧ (ArpPacket.overlay data).WellFormed

instance (data : Bytes) : Decidable (ValidArp data) := inferInstanceAs (Decidable (_ ∧ _))

/-- A valid request for another address than the sender's. -/
def IsQuery (data : Bytes) : Prop :=
  ValidArp data ∧ (ArpPacket.overlay data).oper = arpRequest ∧
    (ArpPacket.overlay data).tpa ≠ (ArpPacket.overlay data).spa

instance (data : Bytes) : Decidable (IsQuery data) := inferInstanceAs (Decidable (_ ∧ _))

theorem ArpPacket.length_bytes (arp : ArpPacket) : arp.bytes.length = 28 := by
  simp [ArpPacket.bytes, htons]

theorem length_arpReplyFrame (arp : ArpPacket) (targetMac : Mac) :
    (arpReplyFrame arp targetMac).length = 42 := by
  rw [arpReplyFrame, build_length, ArpPacket.length_bytes]

/-- Reading back the ARP packet that a frame was built from. -/
theorem ArpPacket.overlay_build (dst src : Mac) (ethertype : UInt16) (arp : ArpPacket) :
    ArpPacket.overlay (EthernetFrame.build dst src ethertype arp.bytes) = arp := by
  have hbyte := getD_build dst src ethertype arp.bytes
  have h16 (i : Nat) : be16 (EthernetFrame.build dst src ethertype arp.bytes) (14 + i) =
      be16 arp.bytes i := congrArg₂ ntohs (hbyte i) (hbyte (i + 1))
  have hcopy (n i : Nat) : copyOut n (EthernetFrame.build dst src ethertype arp.bytes) (14 + i) =
      copyOut n arp.bytes i := by
    funext k
    rw [copyOut, Nat.add_assoc, hbyte]
    rfl
  have hfield {n : Nat} {field : Fin n → UInt8} {i : Nat}
      (h : ∀ k : Fin n, arp.bytes.getD (i + k) 0 = field k) :
      copyOut n (EthernetFrame.build dst src ethertype arp.bytes) (14 + i) = field :=
    (hcopy n i).trans (funext h)
  refine ArpPacket.ext ((h16 0).trans (ntohs_htons _)) ((h16 2).trans (ntohs_htons _)) (hbyte 4)
    (hbyte 5) ((h16 6).trans (ntohs_htons _)) (hfield (i := 8) ?_) (hfield (i := 14) ?_)
    (hfield (i := 18) ?_) (hfield (i := 24) ?_) <;> intro k <;> fin_cases k <;> rfl

def copiesTo {P : Type} [DecidableEq P] (writes : List (P × Bytes)) (q : P) : List Bytes :=
  (writes.filter fun w => w.1 = q).map Prod.snd

namespace VirtualSwitch
variable {P : Type}

section Tables
variable (sw : VirtualSwitch P) (mac : Mac) (port : P) (now : Int)

@[simp] theorem learnMacAddress_ports : (sw.learnMacAddress mac port now).ports = sw.ports := rfl

@[simp] theorem ageOutMacEntries_ports : (sw.ageOutMacEntries now).ports = sw.ports := rfl

theorem ageOutMacEntries_eq_some {key : String} {e : MacEntry P}
    (h : (sw.ageOutMacEntries now).macAddressTable key = some e) :
    sw.macAddressTable key = some e := (Table.eraseIf_eq_some.mp h).1

@[simp] theorem ageCheck_ports : (sw.ageCheck now).ports = sw.ports := by
  unfold ageCheck
  split <;> rfl

private theorem ageCheck_eq_some {key : String} {e : MacEntry P}
    (h : (sw.ageCheck now).macAddressTable key = some e) : sw.macAddressTable key = some e := by
  unfold ageCheck at h
  split at h
  · exact sw.ageOutMacEntries_eq_some now h
  · exact h

variable (arp : ArpPacket)

@[simp] theorem cacheSender_ports : (sw.cacheSender arp now).ports = sw.ports := by
  unfold cacheSender
  split <;> rfl

@[simp] theorem cacheSender_macAddressTable :
    (sw.cacheSender arp now).macAddressTable = sw.macAddressTable := by
  unfold cacheSender
  split <;> rfl

@[simp] theorem cacheSender_lastAgeCheck :
    (sw.cacheSender arp now).lastAgeCheck = sw.lastAgeCheck := by
  unfold cacheSender
  split <;> rfl

private theorem cacheSender_other {ip : Ip} (h : ip ≠ arp.spa) :
    (sw.cacheSender arp now).ipToMac ip = sw.ipToMac ip := by
  unfold cacheSender
  split
  · exact Table.put_other h ..
  · rfl

end Tables

section Body
variable (sw : VirtualSwitch P) (frame : EthernetFrame) (data : Bytes) (source : P)
variable (now : Int)

@[simp] theorem refresh_ports (mac : Mac) : (sw.refresh mac source now).ports = sw.ports := by
  simp [refresh]

theorem refresh_eq_some {mac : Mac} {key : String} {e : MacEntry P}
    (h : (sw.refresh mac source now).macAddressTable key = some e) :
    (key = macToString mac ∧ e = ⟨source, now⟩) ∨
      (key ≠ macToString mac ∧ sw.macAddressTable key = some e) :=
  Table.put_eq_some (ageCheck_eq_some _ now h)

def cacheFrom (sw : VirtualSwitch P) (data : Bytes) (now : Int) : VirtualSwitch P :=
  if ValidArp data then sw.cacheSender (ArpPacket.overlay data) now else sw

/-- The cached entry with which a frame is answered, if it is. -/
def cachedAnswer (sw : VirtualSwitch P) (data : Bytes) : Option IpMacEntry :=
  if IsQuery data then sw.ipToMac (ArpPacket.overlay data).tpa else none

theorem cachedAnswer_eq_some {e : IpMacEntry} :
    sw.cachedAnswer data = some e ↔
      IsQuery data ∧
        sw.ipToMac (ArpPacket.overlay data).tpa = some e := by
  simp [cachedAnswer, Option.ite_none_right_eq_some]

theorem cacheFrom_ports : (sw.cacheFrom data now).ports = sw.ports := by
  unfold cacheFrom
  split <;> simp

theorem cacheFrom_macAddressTable :
    (sw.cacheFrom data now).macAddressTable = sw.macAddressTable := by
  unfold cacheFrom
  split <;> simp

theorem cacheFrom_lastAgeCheck : (sw.cacheFrom data now).lastAgeCheck = sw.lastAgeCheck := by
  unfold cacheFrom
  split <;> simp

private theorem handleArp_invalid
    (h : ¬ (14 + 28 ≤ data.length ∧ (ArpPacket.overlay data).WellFormed)) :
    sw.handleArp data source now = ⟨sw, false, []⟩ := by
  unfold handleArp
  simp only
  split_ifs with h1 h2 h3 h4
  · rfl
  · rfl
  · rfl
  all_goals
    exfalso
    simp only [not_or, not_not] at h2 h3
    exact h ⟨by omega, h2.1, h2.2, h3.1, h3.2⟩

private theorem handleArp_valid (hl : 14 + 28 ≤ data.length)
    (hw : (ArpPacket.overlay data).WellFormed) :
    sw.handleArp data source now =
      let arp := ArpPacket.overlay data
      let entry := if arp.oper = arpRequest ∧ arp.tpa ≠ arp.spa then sw.ipToMac arp.tpa else none
      ⟨sw.cacheSender arp now, entry.isSome,
        entry.toList.map fun e => (source, arpReplyFrame arp e.mac)⟩ := by
  obtain ⟨h1, h2, h3, h4⟩ := hw
  unfold handleArp
  simp only [if_neg (Nat.not_lt.mpr hl), h1, h2, h3, h4, ne_eq, not_true_eq_false, or_self,
    if_false]
  by_cases hq : (ArpPacket.overlay data).oper = arpRequest ∧
      (ArpPacket.overlay data).tpa ≠ (ArpPacket.overlay data).spa
  · rw [if_neg (by tauto), if_pos hq, cacheSender_other _ _ _ hq.2]
    cases sw.ipToMac (ArpPacket.overlay data).tpa <;> rfl
  · rw [if_pos (by tauto), if_neg hq]
    rfl

private theorem arpStage_eq :
    sw.arpStage data source now =
      ⟨sw.cacheFrom data now, (sw.cachedAnswer data).isSome,
        (sw.cachedAnswer data).toList.map fun e =>
          (source, arpReplyFrame (ArpPacket.overlay data) e.mac)⟩ := by
  unfold arpStage cachedAnswer cacheFrom
  by_cases hv : ValidArp data
  · rw [if_pos hv.1, if_pos hv, handleArp_valid _ _ _ _ hv.2.1 hv.2.2]
    simp [IsQuery, hv]
  · rw [if_neg hv, if_neg fun h : IsQuery data => hv h.1]
    split_ifs with ht
    · exact handleArp_invalid _ _ _ _ fun h => hv ⟨ht, h⟩
    · rfl

variable [DecidableEq P]

theorem processFrame_long (h : 14 ≤ data.length) :
    sw.processFrame data source now = .ok (sw.switchFrame (header data) data source now) := by
  rw [processFrame, parse_long h]
  rfl

theorem processFrame_short (h : data.length < 14) :
    sw.processFrame data source now =
      .error (.invalidArgument "Raw frame too short for an ethernet frame") := by
  rw [processFrame, parse_short h]
  rfl

theorem processFrame_ok {o : Outcome P} (h : sw.processFrame data source now = .ok o) :
    14 ≤ data.length ∧ o = sw.switchFrame (header data) data source now := by
  rcases Nat.lt_or_ge data.length 14 with hs | hl
  · rw [processFrame_short _ _ _ _ hs] at h
    cases h
  · rw [processFrame_long _ _ _ _ hl] at h
    exact ⟨hl, (Except.ok.inj h).symm⟩

/-- The ports that `forward_frame` writes to: never the arrival port; the port of the
entry for the destination if there is one, otherwise every owned port. -/
def SendsTo (sw : VirtualSwitch P) (dst : Mac) (source q : P) : Prop :=
  q ≠ source ∧ if isMulticast dst = true ∨ sw.macAddressTable (macToString dst) = none
    then q ∈ sw.ports else (sw.macAddressTable (macToString dst)).map MacEntry.port = some q

instance (dst : Mac) (q : P) : Decidable (sw.SendsTo dst source q) :=
  inferInstanceAs (Decidable (_ ∧ _))

variable {sw source} in
omit [DecidableEq P] in
theorem sendsTo_flood {d : Mac} {q : P}
    (h : isMulticast d = true ∨ sw.macAddressTable (macToString d) = none) :
    sw.SendsTo d source q ↔ q ≠ source ∧ q ∈ sw.ports := by
  rw [SendsTo, if_pos h]

variable {sw source} in
omit [DecidableEq P] in
theorem sendsTo_known {d : Mac} {q : P} {entry : MacEntry P} (hm : isMulticast d = false)
    (ht : sw.macAddressTable (macToString d) = some entry) :
    sw.SendsTo d source q ↔ q ≠ source ∧ entry.port = q := by
  simp [SendsTo, hm, ht]

private theorem copiesTo_flood (q : P) :
    copiesTo (sw.flood data source) q = if q ≠ source ∧ q ∈ sw.ports then [data] else [] := by
  have hcopies : copiesTo (sw.flood data source) q =
      ((sw.ports.filter (· ≠ source)).filter (· = q)).map fun _ => data := by
    simp [copiesTo, flood, List.filter_map, Function.comp_def]
  have hnd : (sw.ports.filter (· ≠ source)).Nodup := sw.ports_nodup.filter _
  rw [hcopies, List.filter_eq]
  by_cases h : q ≠ source ∧ q ∈ sw.ports
  · rw [if_pos h, List.count_eq_one_of_mem hnd (List.mem_filter.mpr ⟨h.2, decide_eq_true h.1⟩)]
    rfl
  · rw [if_neg h, List.count_eq_zero_of_not_mem]
    · rfl
    · intro hm
      rw [List.mem_filter, decide_eq_true_eq] at hm
      exact h hm.symm

/-- Every port gets the frame itself, once, or nothing. -/
theorem copiesTo_forwardFrame (q : P) :
    copiesTo (sw.forwardFrame frame data source) q =
      if sw.SendsTo frame.dstMac source q then [data] else [] := by
  rcases Option.eq_none_or_eq_some (sw.macAddressTable (macToString frame.dstMac)) with
    ht | ⟨entry, ht⟩
  · simp only [sendsTo_flood (.inr ht), forwardFrame, ht, ite_self, copiesTo_flood]
  by_cases hm : isMulticast frame.dstMac = true
  · simp only [sendsTo_flood (.inl hm), forwardFrame, if_pos hm, copiesTo_flood]
  · simp only [sendsTo_known (Bool.eq_false_iff.mpr hm) ht, forwardFrame, if_neg hm, ht]
    by_cases hs : entry.port = source
    · rw [if_neg (not_not.mpr hs), if_neg fun h => h.1 (h.2.symm.trans hs)]
      rfl
    · by_cases hq : entry.port = q
      · rw [if_pos hs, if_pos ⟨hq ▸ hs, hq⟩]
        simp [copiesTo, hq]
      · rw [if_pos hs, if_neg fun h => hq h.2]
        simp [copiesTo, hq]

theorem mem_forwardFrame {q : P} {d : Bytes} :
    (q, d) ∈ sw.forwardFrame frame data source ↔ d = data ∧ sw.SendsTo frame.dstMac source q := by
  have hmem : (q, d) ∈ sw.forwardFrame frame data source ↔
      d ∈ copiesTo (sw.forwardFrame frame data source) q := by
    simp [copiesTo]
  rw [hmem, copiesTo_forwardFrame]
  split_ifs with h <;> simp [h]

/-- No port is written to twice. -/
theorem nodup_forwardFrame : ((sw.forwardFrame frame data source).map Prod.fst).Nodup := by
  have hflood : ((sw.flood data source).map Prod.fst).Nodup := by
    have hports : (sw.flood data source).map Prod.fst = sw.ports.filter (· ≠ source) := by
      simp [flood, Function.comp_def]
    rw [hports]
    exact sw.ports_nodup.filter _
  unfold forwardFrame
  split_ifs
  · exact hflood
  · cases sw.macAddressTable (macToString frame.dstMac) with
    | none => exact hflood
    | some entry =>
      simp only
      split_ifs
      · exact List.nodup_singleton _
      · exact List.nodup_nil

private theorem forwardFrame_cacheFrom :
    (sw.cacheFrom data now).forwardFrame frame data source = sw.forwardFrame frame data source := by
  simp only [forwardFrame, flood, cacheFrom_macAddressTable, cacheFrom_ports]

/-- The loop body, in one equation. -/
theorem switchFrame_eq :
    sw.switchFrame frame data source now =
      let mid := sw.refresh frame.srcMac source now
      ⟨mid.cacheFrom data now, (mid.cachedAnswer data).isSome,
        match mid.cachedAnswer data with
        | some e => [(source, arpReplyFrame (ArpPacket.overlay data) e.mac)]
        | none => mid.forwardFrame frame data source⟩ := by
  simp only [switchFrame, arpStage_eq, forwardFrame_cacheFrom]
  cases (sw.refresh frame.srcMac source now).cachedAnswer data <;> rfl

theorem switchFrame_ports : (sw.switchFrame frame data source now).switch.ports = sw.ports := by
  rw [switchFrame_eq]
  exact (cacheFrom_ports _ _ _).trans (refresh_ports _ _ _ _)

theorem switchFrame_answered :
    (sw.switchFrame frame data source now).answered =
      ((sw.refresh frame.srcMac source now).cachedAnswer data).isSome := by
  rw [switchFrame_eq]

theorem switchFrame_replies {e : IpMacEntry}
    (h : (sw.refresh frame.srcMac source now).cachedAnswer data = some e) :
    (sw.switchFrame frame data source now).writes =
      [(source, arpReplyFrame (ArpPacket.overlay data) e.mac)] := by
  rw [switchFrame_eq]
  simp only [h]

/-- A frame that is not answered is handed to `forward_frame`. -/
theorem switchFrame_forwards (h : (sw.switchFrame frame data source now).answered = false) :
    (sw.switchFrame frame data source now).writes =
      (sw.refresh frame.srcMac source now).forwardFrame frame data source := by
  rw [switchFrame_answered, Option.isSome_eq_false_iff, Option.isNone_iff_eq_none] at h
  rw [switchFrame_eq]
  simp only [h]

/-- A write carries the frame itself to a port that it is sent to, or the reply to the port
that asked. -/
theorem mem_switchFrame_writes {q : P} {d : Bytes}
    (h : (q, d) ∈ (sw.switchFrame frame data source now).writes) :
    (d = data ∧ (sw.refresh frame.srcMac source now).SendsTo frame.dstMac source q) ∨
      (q = source ∧ ∃ e, (sw.refresh frame.srcMac source now).cachedAnswer data = some e ∧
        d = arpReplyFrame (ArpPacket.overlay data) e.mac) := by
  rcases ha : (sw.refresh frame.srcMac source now).cachedAnswer data with _ | e
  · rw [switchFrame_forwards _ _ _ _ _ (by rw [switchFrame_answered, ha, Option.isSome_none])] at h
    exact .inl ((mem_forwardFrame _ _ _ _).mp h)
  · rw [switchFrame_replies _ _ _ _ _ ha] at h
    obtain ⟨hq, hd⟩ := Prod.mk.inj (List.mem_singleton.mp h)
    exact .inr ⟨hq, e, rfl, hd⟩

end Body
end VirtualSwitch
end VSwitch
