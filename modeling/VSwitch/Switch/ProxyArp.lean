import VSwitch.Switch.History

/-! Proxy ARP over whole runs: when a request is answered, with which bytes, and on
behalf of whom. Everything is stated on the history of the frames received. -/
namespace VSwitch
open Lib EthernetFrame

/-- The synthesized reply parses as a complete ARP reply with the intended fields. -/
theorem arpReplyFrame_fields (arp : ArpPacket) (targetMac : Mac) :
    (arpReplyFrame arp targetMac).length = 42 ∧ ValidArp (arpReplyFrame arp targetMac) ∧
      header (arpReplyFrame arp targetMac) = ⟨arp.sha, targetMac⟩ ∧
      ArpPacket.overlay (arpReplyFrame arp targetMac) =
        { htype := 1, ptype := 0x0800, hlen := 6, plen := 4, oper := arpReply
          sha := targetMac, spa := arp.tpa, tha := arp.sha, tpa := arp.spa } := by
  have hlen : (arpReplyFrame arp targetMac).length = 42 := by
    rw [arpReplyFrame, build_length, ArpPacket.length_bytes]
  have hover := ArpPacket.overlay_build arp.sha targetMac 0x0806
    { htype := 1, ptype := 0x0800, hlen := 6, plen := 4, oper := arpReply
      sha := targetMac, spa := arp.tpa, tha := arp.sha, tpa := arp.spa }
  refine ⟨hlen, ⟨be16_build _ _ _ _, hlen.ge, ?_⟩, header_build _ _ _ _, hover⟩
  rw [arpReplyFrame, hover]
  exact ⟨rfl, rfl, rfl, rfl⟩

section Outcomes
variable {P : Type}

/-- The switch answered on the port `source` on behalf of an address that its own table
places on `source`. -/
def AnswersForAskingSide (o : Outcome P) (source : P) : Prop :=
  o.answered = true ∧ ∃ reply entry, (source, reply) ∈ o.writes ∧
    o.switch.macAddressTable (macToString (ArpPacket.overlay reply).sha) = some entry ∧
    entry.port = source

/-- A record of the history that the tables still show when they were last pruned at `horizon`. -/
def Shown (horizon : Int) (x : Arrival P) : Prop := horizon - x.now < 301000000000

end Outcomes

namespace View
variable {P : Type} {mid : VirtualSwitch P} {ports : List P} {horizon : Int}
variable {seen heard : List (Arrival P)} {a : Arrival P}

private theorem cachedAnswer_iff (h : View mid ports horizon seen heard) {e : IpMacEntry} :
    mid.cachedAnswer a.data = some e ↔ IsQuery a.data ∧
      ∃ x, lastAnnounced a.arp.tpa heard = some x ∧ Shown horizon x ∧ x.ipEntry = e := by
  rw [VirtualSwitch.cachedAnswer_eq_some]
  refine and_congr_right fun _ => h.ips.shown.trans ?_
  rw [Option.map_eq_some_iff]
  constructor
  · rintro ⟨⟨x, hx, rfl⟩, hs⟩
    exact ⟨x, hx, hs, rfl⟩
  · rintro ⟨x, hx, hs, rfl⟩
    exact ⟨⟨x, hx, rfl⟩, hs⟩

end View

section Step
variable {P : Type} [DecidableEq P] {sw : VirtualSwitch P} {ports : List P} {start : Int}
variable {past : List (Arrival P)} {a : Arrival P}

/-- A frame is answered exactly when it asks for an address whose last announcement the
cache still shows. -/
theorem answered_iff (h : View sw ports (pruneTime start past) past past)
    (ha : pruneTime start past ≤ a.now) :
    (sw.switchFrame (header a.data) a.data a.port a.now).answered = true ↔ IsQuery a.data ∧
      ∃ x, lastAnnounced a.arp.tpa past = some x ∧ Shown (pruneTime start (past ++ [a])) x := by
  rw [VirtualSwitch.switchFrame_answered, pruneTime_concat, Option.isSome_iff_exists]
  constructor
  · rintro ⟨e, he⟩
    obtain ⟨hq, x, hx, hs, -⟩ := (h.refresh a ha).cachedAnswer_iff.mp he
    exact ⟨hq, x, hx, hs⟩
  · rintro ⟨hq, x, hx, hs⟩
    exact ⟨_, (h.refresh a ha).cachedAnswer_iff.mpr ⟨hq, x, hx, hs, rfl⟩⟩

private theorem answered_writes (h : View sw ports (pruneTime start past) past past)
    (ha : pruneTime start past ≤ a.now)
    (hans : (sw.switchFrame (header a.data) a.data a.port a.now).answered = true) :
    ∃ x, lastAnnounced a.arp.tpa past = some x ∧ Shown (pruneTime start (past ++ [a])) x ∧
      (sw.switchFrame (header a.data) a.data a.port a.now).writes =
        [(a.port, arpReplyFrame a.arp x.arp.sha)] := by
  rw [VirtualSwitch.switchFrame_answered] at hans
  obtain ⟨e, he⟩ := Option.isSome_iff_exists.mp hans
  obtain ⟨-, x, hx, hs, rfl⟩ := (h.refresh a ha).cachedAnswer_iff.mp he
  refine ⟨x, hx, by rwa [pruneTime_concat], ?_⟩
  exact VirtualSwitch.switchFrame_replies _ _ _ _ _ he

private theorem answered_table (h : View sw ports (pruneTime start past) past past)
    (ha : pruneTime start past ≤ a.now) (mac : Mac) (e : MacEntry P) :
    (sw.switchFrame (header a.data) a.data a.port a.now).switch.macAddressTable
        (macToString mac) = some e ↔
      ∃ y, lastSeen mac (past ++ [a]) = some y ∧ Shown (pruneTime start (past ++ [a])) y ∧
        y.macEntry = e := by
  refine (h.step a ha).macs.shown.trans ?_
  rw [Option.map_eq_some_iff]
  constructor
  · rintro ⟨⟨y, hy, rfl⟩, hs⟩
    exact ⟨y, hy, hs, rfl⟩
  · rintro ⟨y, hy, hs, rfl⟩
    exact ⟨⟨y, hy, rfl⟩, hs⟩

end Step

/-- Proxy ARP against the history of announcements: sound within 306 s, complete within
301 s, one well-formed reply to the asking port, and nothing else is ever synthesized. -/
theorem proxy_arp_history {P : Type} [DecidableEq P] {ports : List P} (hn : ports.Nodup)
    {start : Int} {past rest : List (Arrival P)} {a : Arrival P}
    (h : Timeline ports start (past ++ a :: rest)) :
    ∃ sw o, (VirtualSwitch.create ports hn start).replay past = .ok sw ∧
      sw.processFrame a.data a.port a.now = .ok o ∧
      (o.answered = true →
        (ValidArp a.data ∧ a.arp.oper = arpRequest ∧ a.arp.tpa ≠ a.arp.spa) ∧
        ∃ x ∈ past, x.Announces a.arp.tpa ∧ a.now - x.now < 306000000000) ∧
      (ValidArp a.data → a.arp.oper = arpRequest → a.arp.tpa ≠ a.arp.spa →
        ∀ x, lastAnnounced a.arp.tpa past = some x → a.now - x.now < 301000000000 →
          o.answered = true) ∧
      (o.answered = true → ∃ x reply, lastAnnounced a.arp.tpa past = some x ∧
        o.writes = [(a.port, reply)] ∧ reply.length = 42 ∧ ValidArp reply ∧
        header reply = ⟨a.arp.sha, x.arp.sha⟩ ∧
        (ArpPacket.overlay reply).oper = arpReply ∧ (ArpPacket.overlay reply).sha = x.arp.sha ∧
        (ArpPacket.overlay reply).spa = a.arp.tpa ∧ (ArpPacket.overlay reply).tha = a.arp.sha ∧
        (ArpPacket.overlay reply).tpa = a.arp.spa) ∧
      (o.answered = false → ∀ w ∈ o.writes, w.2 = a.data) := by
  obtain ⟨sw, hrun, hview⟩ := replay_view hn h.take
  have hle : pruneTime start past ≤ a.now := h.pruneTime_le
  have hprune := nextPrune_le hle
  have hrecent : a.now - nextPrune (pruneTime start past) a.now < 5000000000 := nextPrune_recent
  have hans := answered_iff hview hle
  refine ⟨sw, _, hrun, VirtualSwitch.processFrame_long _ _ _ _ (h.long a (by simp)), ?_, ?_, ?_, ?_⟩
  · intro ho
    obtain ⟨hq, x, hx, hs⟩ := hans.mp ho
    obtain ⟨hmem, hann⟩ := lastAnnounced_mem hx
    rw [Shown, pruneTime_concat] at hs
    exact ⟨hq, x, hmem, hann, by omega⟩
  · intro hv hr hne x hx hage
    apply hans.mpr
    refine ⟨⟨hv, hr, hne⟩, x, hx, ?_⟩
    rw [Shown, pruneTime_concat]
    omega
  · intro ho
    obtain ⟨x, hx, -, hw⟩ := answered_writes hview hle ho
    obtain ⟨hlen, hvalid, hhead, hover⟩ := arpReplyFrame_fields a.arp x.arp.sha
    exact ⟨x, _, hx, hw, hlen, hvalid, hhead, by rw [hover], by rw [hover], by rw [hover],
      by rw [hover], by rw [hover]⟩
  · intro hno
    rw [VirtualSwitch.switchFrame_forwards _ _ _ _ _ hno]
    rintro ⟨q, d⟩ hw
    exact ((VirtualSwitch.mem_forwardFrame _ _ _ _).mp hw).1

def arpFrame (oper : UInt16) (sha : Mac) (spa tpa : Ip) : Bytes :=
  EthernetFrame.build (fun _ => 0xff) sha 0x0806 (ArpPacket.bytes
    { htype := 1, ptype := 0x0800, hlen := 6, plen := 4, oper, sha, spa, tha := 0, tpa })

/-- Host 7 announces 10.0.0.7 on port 1; host 9 asks for it on port 0 and is answered. -/
theorem proxy_arp_history_answers :
    let hello := arpFrame arpReply ![2, 0, 0, 0, 0, 7] ![10, 0, 0, 7] ![10, 0, 0, 7]
    let query := arpFrame arpRequest ![2, 0, 0, 0, 0, 9] ![10, 0, 0, 9] ![10, 0, 0, 7]
    ∃ sw o, (VirtualSwitch.create [0, 1, 2] (by decide) 0).replay [⟨0, 1, hello⟩] = .ok sw ∧
      sw.processFrame query 0 1000000000 = .ok o ∧ o.answered = true := by
  intro hello query
  have h : Timeline [0, 1, 2] 0 ([⟨0, 1, hello⟩] ++ ⟨1000000000, 0, query⟩ :: []) :=
    ⟨by decide, by decide, by decide⟩
  obtain ⟨sw, o, hrun, hframe, -, hcomplete, -⟩ := proxy_arp_history (by decide) h
  exact ⟨sw, o, hrun, hframe, hcomplete (by decide) (by decide) (by decide)
    ⟨0, 1, hello⟩ (by decide) (by decide)⟩

/-- The frame asks for an address whose last announcement is still shown and names a host
last seen, the asking frame included, on the very port the question came from. -/
def AsksOwnSide {P : Type} (start : Int) (past : List (Arrival P)) (a : Arrival P) : Prop :=
  IsQuery a.data ∧ ∃ x y, lastAnnounced a.arp.tpa past = some x ∧
    Shown (pruneTime start (past ++ [a])) x ∧ lastSeen x.arp.sha (past ++ [a]) = some y ∧
    Shown (pruneTime start (past ++ [a])) y ∧ y.port = a.port

/-- `handle_arp` consults the cache alone: along every run it answers on behalf of a host
on the asking side exactly when a frame asks for such a host. -/
theorem asking_side_iff {P : Type} [DecidableEq P] {ports : List P} (hn : ports.Nodup)
    {start : Int} {past rest : List (Arrival P)} {a : Arrival P}
    (h : Timeline ports start (past ++ a :: rest)) :
    ∃ sw o, (VirtualSwitch.create ports hn start).replay past = .ok sw ∧
      sw.processFrame a.data a.port a.now = .ok o ∧
      (¬ AnswersForAskingSide o a.port ↔ ¬ AsksOwnSide start past a) := by
  obtain ⟨sw, hrun, hview⟩ := replay_view hn h.take
  have hle : pruneTime start past ≤ a.now := h.pruneTime_le
  have htable := answered_table hview hle
  refine ⟨sw, _, hrun, VirtualSwitch.processFrame_long _ _ _ _ (h.long a (by simp)),
    not_congr ⟨?_, ?_⟩⟩
  · rintro ⟨ho, reply, e, hmem, he, hport⟩
    obtain ⟨x, hx, hs, hw⟩ := answered_writes hview hle ho
    rw [hw, List.mem_singleton] at hmem
    obtain ⟨-, rfl⟩ := Prod.mk.inj hmem
    rw [(arpReplyFrame_fields a.arp x.arp.sha).2.2.2] at he
    obtain ⟨y, hy, hsy, rfl⟩ := (htable _ _).mp he
    exact ⟨((answered_iff hview hle).mp ho).1, x, y, hx, hs, hy, hsy, hport⟩
  · rintro ⟨hq, x, y, hx, hs, hy, hsy, hport⟩
    have ho := (answered_iff hview hle).mpr ⟨hq, x, hx, hs⟩
    obtain ⟨x', hx', -, hw⟩ := answered_writes hview hle ho
    cases hx.symm.trans hx'
    refine ⟨ho, _, y.macEntry, by rw [hw]; exact List.mem_singleton_self _, ?_, hport⟩
    rw [(arpReplyFrame_fields a.arp x.arp.sha).2.2.2]
    exact (htable _ _).mpr ⟨y, hy, hsy, rfl⟩

/-- With the two hosts on different ports the answer is harmless. -/
theorem asking_side_iff_apart :
    let hello := arpFrame arpReply ![2, 0, 0, 0, 0, 7] ![10, 0, 0, 7] ![10, 0, 0, 7]
    let query := arpFrame arpRequest ![2, 0, 0, 0, 0, 9] ![10, 0, 0, 9] ![10, 0, 0, 7]
    ∃ sw o, (VirtualSwitch.create [0, 1, 2] (by decide) 0).replay [⟨0, 1, hello⟩] = .ok sw ∧
      sw.processFrame query 0 1000000000 = .ok o ∧ ¬ AnswersForAskingSide o 0 := by
  intro hello query
  have h : Timeline [0, 1, 2] 0 ([⟨0, 1, hello⟩] ++ ⟨1000000000, 0, query⟩ :: []) :=
    ⟨by decide, by decide, by decide⟩
  obtain ⟨sw, o, hrun, hframe, hiff⟩ := asking_side_iff (by decide) h
  refine ⟨sw, o, hrun, hframe, hiff.mpr ?_⟩
  rintro ⟨-, x, y, hx, -, hy, -, hport⟩
  obtain rfl := List.mem_singleton.mp (lastAnnounced_mem hx).1
  obtain ⟨hmem, hsrc⟩ := lastSeen_mem hy
  rcases List.mem_cons.mp hmem with rfl | hmem
  · exact absurd hport (by decide)
  · obtain rfl := List.mem_singleton.mp hmem
    exact absurd hsrc (by decide)

/-- Hosts 7 and 9 sit behind the same port 0. The answer goes back to that port with the
address of host 7, which the table itself places there. -/
theorem answers_for_asking_side :
    let hello := arpFrame arpReply ![2, 0, 0, 0, 0, 7] ![10, 0, 0, 7] ![10, 0, 0, 7]
    let query := arpFrame arpRequest ![2, 0, 0, 0, 0, 9] ![10, 0, 0, 9] ![10, 0, 0, 7]
    ∃ sw o, (VirtualSwitch.create [0, 1, 2] (by decide) 0).replay [⟨0, 0, hello⟩] = .ok sw ∧
      sw.processFrame query 0 1000000000 = .ok o ∧ AnswersForAskingSide o 0 := by
  intro hello query
  refine ⟨_, _, rfl, rfl, by decide +kernel,
    arpReplyFrame (ArpPacket.overlay query) ![2, 0, 0, 0, 0, 7], ⟨0, 0⟩, ?_, ?_, rfl⟩
  · decide +kernel
  · decide +kernel

end VSwitch
