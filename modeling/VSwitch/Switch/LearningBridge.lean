import VSwitch.Switch.ProxyArp

/-! The switch as a learning bridge over whole runs: where a frame goes is decided by
the history of the frames received, through tables that are pruned lazily. -/
namespace VSwitch
open Lib EthernetFrame

section Deliveries
variable {P : Type} [DecidableEq P]

/-- Every port but the arrival port gets exactly one copy. -/
def FloodsTo (ports : List P) (source : P) (data : Bytes) (writes : List (P × Bytes)) : Prop :=
  ∀ q, copiesTo writes q = if q ≠ source ∧ q ∈ ports then [data] else []

/-- Port `target` gets exactly one copy unless it is the arrival port, no other port any. -/
def GoesTo (target source : P) (data : Bytes) (writes : List (P × Bytes)) : Prop :=
  ∀ q, copiesTo writes q = if q ≠ source ∧ target = q then [data] else []

end Deliveries

namespace View
variable {P : Type} [DecidableEq P] {mid : VirtualSwitch P} {ports : List P} {horizon : Int}
variable {seen heard : List (Arrival P)} {a x : Arrival P}

private theorem floods (h : View mid ports horizon seen heard)
    (hd : isMulticast a.dst = true ∨
      ∀ x, lastSeen a.dst seen = some x → 301000000000 ≤ horizon - x.now) :
    FloodsTo ports a.port a.data (mid.forwardFrame (header a.data) a.data a.port) := by
  have hsend : isMulticast a.dst = true ∨ mid.macAddressTable (macToString a.dst) = none := by
    refine hd.imp_right fun hold => h.macs.absent.mpr ?_
    rintro e he
    obtain ⟨x, hx, rfl⟩ := Option.map_eq_some_iff.mp he
    exact hold x hx
  intro q
  rw [VirtualSwitch.copiesTo_forwardFrame, ← h.ports_eq]
  simp only [VirtualSwitch.sendsTo_flood (d := (header a.data).dstMac) hsend]

private theorem goes (h : View mid ports horizon seen heard) (hu : isMulticast a.dst = false)
    (hx : lastSeen a.dst seen = some x) (hage : horizon - x.now < 301000000000) :
    GoesTo x.port a.port a.data (mid.forwardFrame (header a.data) a.data a.port) := by
  have hentry : mid.macAddressTable (macToString a.dst) = some x.macEntry :=
    h.macs.shown.mpr ⟨Option.map_eq_some_iff.mpr ⟨x, hx, rfl⟩, hage⟩
  intro q
  rw [VirtualSwitch.copiesTo_forwardFrame]
  simp only [VirtualSwitch.sendsTo_known (d := (header a.data).dstMac) hu hentry]
  rfl

end View

/-- Proxy ARP takes the frame: it asks for an address whose last announcement is still shown. -/
def Answerable {P : Type} (start : Int) (past : List (Arrival P)) (a : Arrival P) : Prop :=
  IsQuery a.data ∧ ∃ x, lastAnnounced a.arp.tpa past = some x ∧
    Shown (pruneTime start (past ++ [a])) x

/-- Learning, aging and forwarding over any run. `handle_arp` answers the questions that the
announcements so far settle, and no other frame. Such another frame is flooded when its
destination is a group address; otherwise it follows the most recent frame from that
destination while this is younger than 301 s, is flooded when there is none or it is at least
306 s old, and does one of the two in between. -/
theorem learning_bridge {P : Type} [DecidableEq P] {ports : List P} (hn : ports.Nodup)
    {start : Int} {past rest : List (Arrival P)} {a : Arrival P}
    (h : Timeline ports start (past ++ a :: rest)) :
    ∃ sw o, (VirtualSwitch.create ports hn start).replay past = .ok sw ∧
      sw.processFrame a.data a.port a.now = .ok o ∧
      (o.answered = true ↔ Answerable start past a) ∧
      (¬ Answerable start past a →
        (isMulticast a.dst = true → FloodsTo ports a.port a.data o.writes) ∧
        (isMulticast a.dst = false →
          (∀ x, lastSeen a.dst (past ++ [a]) = some x → a.now - x.now < 301000000000 →
            GoesTo x.port a.port a.data o.writes) ∧
          ((∀ x, lastSeen a.dst (past ++ [a]) = some x → 306000000000 ≤ a.now - x.now) →
            FloodsTo ports a.port a.data o.writes) ∧
          (∀ x, lastSeen a.dst (past ++ [a]) = some x →
            301000000000 ≤ a.now - x.now → a.now - x.now < 306000000000 →
              GoesTo x.port a.port a.data o.writes ∨ FloodsTo ports a.port a.data o.writes))) := by
  obtain ⟨sw, hrun, hview⟩ := replay_view hn h.take
  have hlong : 14 ≤ a.data.length := h.long a (by simp)
  have hle : pruneTime start past ≤ a.now := h.pruneTime_le
  have hmid := hview.refresh a hle
  have hprune := nextPrune_le hle
  have hrecent : a.now - nextPrune (pruneTime start past) a.now < 5000000000 := nextPrune_recent
  have hans := answered_iff hview hle
  refine ⟨sw, _, hrun, VirtualSwitch.processFrame_long _ _ _ _ hlong, hans, ?_⟩
  intro hquiet
  rw [VirtualSwitch.switchFrame_forwards _ _ _ _ _ (Bool.eq_false_iff.mpr (mt hans.mp hquiet))]
  refine ⟨fun hm => hmid.floods (.inl hm), fun hu => ⟨?_, ?_, ?_⟩⟩
  · intro x hx hyoung
    exact hmid.goes hu hx (by omega)
  · intro hold
    apply hmid.floods
    right
    intro x hx
    have := hold x hx
    omega
  · intro x hx _ _
    rcases lt_or_ge (nextPrune (pruneTime start past) a.now - x.now) 301000000000 with hc | hc
    · exact .inl (hmid.goes hu hx hc)
    · refine .inr (hmid.floods (.inr fun y hy => ?_))
      cases hx.symm.trans hy
      exact hc

/-- Host 7 sends from port 1; a second later host 9 sends to it from port 0. -/
theorem learning_bridge_second_frame :
    let hello := EthernetFrame.build (fun _ => 0xff) ![2, 0, 0, 0, 0, 7] 0x0800 []
    let answer := EthernetFrame.build ![2, 0, 0, 0, 0, 7] ![2, 0, 0, 0, 0, 9] 0x0800 [1, 2, 3]
    ∃ sw o, (VirtualSwitch.create [0, 1, 2] (by decide) 0).replay [⟨0, 1, hello⟩] = .ok sw ∧
      sw.processFrame answer 0 1000000000 = .ok o ∧ o.answered = false ∧
      GoesTo 1 0 answer o.writes := by
  intro hello answer
  have h : Timeline [0, 1, 2] 0 ([⟨0, 1, hello⟩] ++ ⟨1000000000, 0, answer⟩ :: []) :=
    ⟨by decide, by decide, by decide⟩
  have hquiet : ¬ Answerable 0 [⟨0, 1, hello⟩] ⟨1000000000, 0, answer⟩ := fun hq =>
    absurd hq.1.1.1 (by decide)
  obtain ⟨sw, o, hrun, hframe, hans, hout⟩ := learning_bridge (by decide) h
  exact ⟨sw, o, hrun, hframe, Bool.eq_false_iff.mpr (mt hans.mp hquiet),
    ((hout hquiet).2 (by decide)).1 ⟨0, 1, hello⟩ (by decide) (by decide)⟩

end VSwitch
