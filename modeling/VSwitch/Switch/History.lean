import Mathlib.Data.List.Induction
import VSwitch.Switch.FrameSteps

/-! The tables of the switch as functions of the frames received so far. The MAC
table shows the last frame from each source, the ARP cache the last announcement
of each address, both cut off at the time of the last pruning. -/
namespace VSwitch
open Lib EthernetFrame

namespace Arrival
variable {P : Type}

abbrev src (a : Arrival P) : Mac := (header a.data).srcMac
abbrev dst (a : Arrival P) : Mac := (header a.data).dstMac
abbrev arp (a : Arrival P) : ArpPacket := ArpPacket.overlay a.data

def macEntry (a : Arrival P) : MacEntry P := ⟨a.port, a.now⟩
def ipEntry (a : Arrival P) : IpMacEntry := ⟨a.arp.sha, a.now⟩

/-- The frame announces that `ip` belongs to its ARP sender. -/
def Announces (a : Arrival P) (ip : Ip) : Prop := ValidArp a.data ∧ a.arp.spa = ip ∧ ip ≠ 0

instance (a : Arrival P) (ip : Ip) : Decidable (a.Announces ip) :=
  inferInstanceAs (Decidable (_ ∧ _))

end Arrival

section Records
variable {P : Type}

/-- The most recent frame whose source address is `mac`. -/
def lastSeen (mac : Mac) (hist : List (Arrival P)) : Option (Arrival P) :=
  lastOf (fun a => if a.src = mac then some a else none) hist

/-- The most recent valid ARP packet that announces `ip`. -/
def lastAnnounced (ip : Ip) (hist : List (Arrival P)) : Option (Arrival P) :=
  lastOf (fun a => if a.Announces ip then some a else none) hist

/-- The time of the last pruning once a frame has been received at `now`. -/
def nextPrune (horizon now : Int) : Int := if 5000000000 ≤ now - horizon then now else horizon

/-- The time of the last pruning after a whole history. It depends on the clock alone. -/
def pruneTime (start : Int) (hist : List (Arrival P)) : Int :=
  hist.foldl (fun horizon a => nextPrune horizon a.now) start

theorem nextPrune_le {horizon now : Int} (h : horizon ≤ now) : nextPrune horizon now ≤ now := by
  unfold nextPrune
  split <;> omega

/-- Pruning is never more than five seconds behind. -/
theorem nextPrune_recent {horizon now : Int} : now - nextPrune horizon now < 5000000000 := by
  unfold nextPrune
  split <;> omega

theorem pruneTime_concat (start : Int) (hist : List (Arrival P)) (a : Arrival P) :
    pruneTime start (hist ++ [a]) = nextPrune (pruneTime start hist) a.now := by
  simp [pruneTime]

private theorem lastSeen_concat (mac : Mac) (hist : List (Arrival P)) (a : Arrival P) :
    lastSeen mac (hist ++ [a]) = if a.src = mac then some a else lastSeen mac hist := by
  rw [lastSeen, lastOf_concat]
  split_ifs <;> rfl

private theorem lastAnnounced_concat (ip : Ip) (hist : List (Arrival P)) (a : Arrival P) :
    lastAnnounced ip (hist ++ [a]) = if a.Announces ip then some a else lastAnnounced ip hist := by
  rw [lastAnnounced, lastOf_concat]
  split_ifs <;> rfl

theorem lastSeen_mem {mac : Mac} {hist : List (Arrival P)} {x : Arrival P}
    (h : lastSeen mac hist = some x) : x ∈ hist ∧ x.src = mac := by
  obtain ⟨a, ha, hx⟩ := lastOf_mem h
  obtain ⟨hs, he⟩ := Option.ite_none_right_eq_some.mp hx
  cases he
  exact ⟨ha, hs⟩

theorem lastAnnounced_mem {ip : Ip} {hist : List (Arrival P)} {x : Arrival P}
    (h : lastAnnounced ip hist = some x) : x ∈ hist ∧ x.Announces ip := by
  obtain ⟨a, ha, hx⟩ := lastOf_mem h
  obtain ⟨hs, he⟩ := Option.ite_none_right_eq_some.mp hx
  cases he
  exact ⟨ha, hs⟩

end Records

/-- Frames of Ethernet size received on owned ports, in the order of a clock that
never runs backwards and reads `start` when the switch is constructed. -/
structure Timeline {P : Type} (ports : List P) (start : Int) (hist : List (Arrival P)) : Prop where
  owned : ∀ a ∈ hist, a.port ∈ ports
  long : ∀ a ∈ hist, 14 ≤ a.data.length
  ordered : (start :: hist.map Arrival.now).Pairwise (· ≤ ·)

namespace Timeline
variable {P : Type} {ports : List P} {start : Int} {hist rest : List (Arrival P)} {a : Arrival P}

theorem take (h : Timeline ports start (hist ++ rest)) : Timeline ports start hist where
  owned b hb := h.owned b (List.mem_append_left rest hb)
  long b hb := h.long b (List.mem_append_left rest hb)
  ordered := by
    have hp := h.ordered
    rw [List.map_append, ← List.cons_append] at hp
    exact (List.pairwise_append.mp hp).1

theorem pruneTime_le (h : Timeline ports start (hist ++ a :: rest)) :
    pruneTime start hist ≤ a.now := by
  have hp := h.ordered
  rw [List.map_append, ← List.cons_append] at hp
  have hle : ∀ t ∈ start :: hist.map Arrival.now, t ≤ a.now := fun t ht =>
    (List.pairwise_append.mp hp).2.2 t ht a.now (by simp)
  clear hp h
  induction hist using List.reverseRecOn with
  | nil => exact hle start (by simp)
  | append_singleton hist b ih =>
    have hb : b.now ≤ a.now := hle b.now (by simp)
    have hh : pruneTime start hist ≤ a.now := ih fun t ht => hle t (by
      rw [List.map_append, ← List.cons_append]
      exact List.mem_append_left _ ht)
    rw [pruneTime_concat, nextPrune]
    split <;> assumption

end Timeline

/-- What the members of a switch say about the frames it has received: `seen` are
those it has learned sources from, `heard` those whose ARP content it has cached. -/
structure View {P : Type} (sw : VirtualSwitch P) (ports : List P) (horizon : Int)
    (seen heard : List (Arrival P)) : Prop where
  ports_eq : sw.ports = ports
  checked : sw.lastAgeCheck = horizon
  macs : Table.Reflects MacEntry.learnedAt 301000000000 horizon
    (fun mac => (lastSeen mac seen).map Arrival.macEntry) (sw.macAddressTable ∘ macToString)
  ips : Table.Reflects IpMacEntry.learnedAt 301000000000 horizon
    (fun ip => (lastAnnounced ip heard).map Arrival.ipEntry) sw.ipToMac

namespace View
variable {P : Type} {sw : VirtualSwitch P} {ports : List P} {horizon start : Int}
variable {seen heard hist : List (Arrival P)}

theorem create (ports : List P) (hn : ports.Nodup) (start : Int) :
    View (VirtualSwitch.create ports hn start) ports start [] [] where
  ports_eq := rfl
  checked := rfl
  macs := .empty
  ips := .empty

private theorem learn (h : View sw ports horizon seen heard) (a : Arrival P)
    (ha : horizon ≤ a.now) :
    View (sw.learnMacAddress a.src a.port a.now) ports horizon (seen ++ [a]) heard where
  ports_eq := h.ports_eq
  checked := h.checked
  macs := by
    have hlast : (fun mac => (lastSeen mac (seen ++ [a])).map Arrival.macEntry) =
        Table.put (fun mac => (lastSeen mac seen).map Arrival.macEntry) a.src a.macEntry := by
      funext mac
      by_cases hm : a.src = mac
      · rw [lastSeen_concat, if_pos hm, ← hm, Table.put_same]
        rfl
      · rw [lastSeen_concat, if_neg hm, Table.put_other (Ne.symm hm)]
    rw [hlast, VirtualSwitch.learnMacAddress, Table.put_comp macToString_injective]
    exact h.macs.put (by decide) ha
  ips := h.ips

private theorem ageCheck (h : View sw ports horizon seen heard) {now : Int} (hn : horizon ≤ now) :
    View (sw.ageCheck now) ports (nextPrune horizon now) seen heard := by
  unfold VirtualSwitch.ageCheck nextPrune
  simp only [age_check_due_iff, h.checked]
  split_ifs
  · exact ⟨h.ports_eq, rfl, h.macs.eraseIf hn fun e => expired_eq now e.learnedAt,
      h.ips.eraseIf hn fun e => expired_eq now e.learnedAt⟩
  · exact h

/-- What `handle_arp` and `forward_frame` find: the frame at hand is already learned,
its ARP content is not yet cached. -/
theorem refresh (h : View sw ports horizon seen heard) (a : Arrival P) (ha : horizon ≤ a.now) :
    View (sw.refresh a.src a.port a.now) ports (nextPrune horizon a.now) (seen ++ [a]) heard :=
  (h.learn a ha).ageCheck ha

theorem cacheFrom (h : View sw ports horizon seen heard) (a : Arrival P) (ha : horizon ≤ a.now) :
    View (sw.cacheFrom a.data a.now) ports horizon seen (heard ++ [a]) where
  ports_eq := by rw [VirtualSwitch.cacheFrom_ports, h.ports_eq]
  checked := by rw [VirtualSwitch.cacheFrom_lastAgeCheck, h.checked]
  macs := by rw [VirtualSwitch.cacheFrom_macAddressTable]; exact h.macs
  ips := by
    by_cases hv : ValidArp a.data ∧ a.arp.spa ≠ 0
    · have hlast : (fun ip => (lastAnnounced ip (heard ++ [a])).map Arrival.ipEntry) =
          Table.put (fun ip => (lastAnnounced ip heard).map Arrival.ipEntry) a.arp.spa a.ipEntry := by
        funext ip
        by_cases hip : a.arp.spa = ip
        · rw [lastAnnounced_concat, if_pos ⟨hv.1, hip, hip ▸ hv.2⟩, ← hip, Table.put_same]
          rfl
        · rw [lastAnnounced_concat, if_neg fun hc => hip hc.2.1, Table.put_other (Ne.symm hip)]
      have hput : (sw.cacheFrom a.data a.now).ipToMac = sw.ipToMac.put a.arp.spa a.ipEntry := by
        rw [VirtualSwitch.cacheFrom, if_pos hv.1, VirtualSwitch.cacheSender,
          if_pos (show (ArpPacket.overlay a.data).spa ≠ 0 from hv.2)]
        rfl
      rw [hlast, hput]
      exact h.ips.put (by decide) ha
    · have hlast (ip : Ip) : lastAnnounced ip (heard ++ [a]) = lastAnnounced ip heard := by
        rw [lastAnnounced_concat, if_neg]
        rintro ⟨hvalid, hip, hne⟩
        exact hv ⟨hvalid, hip ▸ hne⟩
      have hsame : (sw.cacheFrom a.data a.now).ipToMac = sw.ipToMac := by
        unfold VirtualSwitch.cacheFrom VirtualSwitch.cacheSender
        split_ifs with h1 h2
        · exact absurd ⟨h1, h2⟩ hv
        · rfl
        · rfl
      simp only [hlast, hsame]
      exact h.ips

/-- One pass through the loop body extends the history by one frame. -/
theorem step [DecidableEq P] (h : View sw ports (pruneTime start hist) hist hist) (a : Arrival P)
    (ha : pruneTime start hist ≤ a.now) :
    View (sw.switchFrame (header a.data) a.data a.port a.now).switch ports
      (pruneTime start (hist ++ [a])) (hist ++ [a]) (hist ++ [a]) := by
  rw [VirtualSwitch.switchFrame_eq, pruneTime_concat]
  exact (h.refresh a ha).cacheFrom a (nextPrune_le ha)

end View

variable {P : Type} [DecidableEq P] {ports : List P} {start : Int} {hist : List (Arrival P)}

private theorem replay_concat (sw : VirtualSwitch P) (hist : List (Arrival P)) (a : Arrival P) :
    sw.replay (hist ++ [a]) = sw.replay hist >>= fun sw =>
      Outcome.switch <$> sw.processFrame a.data a.port a.now := by
  simp [VirtualSwitch.replay, List.foldlM_append]

/-- The loop body gets through every history of Ethernet frames, and the tables it
leaves are those of the whole history. -/
theorem replay_view (hn : ports.Nodup) (h : Timeline ports start hist) :
    ∃ sw, (VirtualSwitch.create ports hn start).replay hist = .ok sw ∧
      View sw ports (pruneTime start hist) hist hist := by
  induction hist using List.reverseRecOn with
  | nil => exact ⟨_, rfl, .create ports hn start⟩
  | append_singleton hist a ih =>
    obtain ⟨sw, hrun, hview⟩ := ih h.take
    refine ⟨_, ?_, hview.step a h.pruneTime_le⟩
    rw [replay_concat, hrun]
    change Outcome.switch <$> sw.processFrame a.data a.port a.now = _
    rw [VirtualSwitch.processFrame_long _ _ _ _ (h.long a (by simp))]
    rfl

end VSwitch
