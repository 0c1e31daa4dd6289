import VSwitch.Gui.MainWindow

/-! A session at the window, told from the list of what happened: which rows there are, what their
logs show, which address is shown, and with which peers the container runs. -/
namespace VSwitch
open Lib

def Signal.output? : Signal → Option Text
  | .publicAddressDiscovered _ => none
  | .outputReceived line => some line

def outputs (signals : List Signal) : List Text := signals.filterMap Signal.output?

/-- A log shows the lines since its address was added. -/
def logOf (addr : Text) : List Move → Option (List Text)
  | [] => none
  | m :: moves =>
    if m.added = some addr then some (outputs (m.signals ++ moves.flatMap Move.signals))
    else logOf addr moves

/-- The last address discovered counts, until another peer is added. -/
def Move.shown (shown : Option Text) (m : Move) : Option Text :=
  (lastOf Signal.discovered? m.signals).or (if m.added = none then shown else none)

def shownAddress (moves : List Move) : Option Text := moves.foldl Move.shown none

/-- What the container has written so far, which starts anew with every peer. -/
def Move.heard (heard : List Bytes) (m : Move) : List Bytes :=
  if m.added = none then
    match m.event with
    | .readyRead piece => heard ++ [piece]
    | _ => heard
  else []

def heardPieces (moves : List Move) : List Bytes := moves.foldl Move.heard []

/-- A process that has to make room for another ends within the three seconds. -/
def WindowEvent.inTime : WindowEvent → Bool
  | .returnPressed _ _ ended => ended
  | _ => true

/-- No address is discovered while a peer is added: the old container tells none any more. -/
def Move.Quiet (m : Move) : Prop := m.added ≠ none → discovered m.signals = []

instance (m : Move) : Decidable m.Quiet :=
  inferInstanceAs (Decidable (m.added ≠ none → discovered m.signals = []))

section Traces
variable {moves : List Move} {m : Move} {addr : Text} {signals later : List Signal}

private theorem outputs_append (signals later : List Signal) :
    outputs (signals ++ later) = outputs signals ++ outputs later :=
  List.filterMap_append

private theorem logOf_concat (addr : Text) (moves : List Move) (m : Move) :
    logOf addr (moves ++ [m]) = ((logOf addr moves).or
      (if m.added = some addr then some [] else none)).map (· ++ outputs m.signals) := by
  induction moves with
  | nil =>
    by_cases hlast : m.added = some addr
    · simp [logOf, hlast]
    · simp [logOf, hlast]
  | cons first moves ih =>
    by_cases hfirst : first.added = some addr
    · simp [logOf, hfirst, outputs_append]
    · rw [List.cons_append, logOf, logOf, if_neg hfirst, if_neg hfirst, ih]

private theorem logOf_eq_none_iff :
    logOf addr moves = none ↔ addr ∉ moves.filterMap Move.added := by
  induction moves with
  | nil => simp [logOf]
  | cons m moves ih =>
    by_cases hadded : m.added = some addr
    · simp [logOf, hadded]
    · rw [logOf, if_neg hadded, ih, List.mem_filterMap, List.mem_filterMap]
      simp [hadded]

private theorem shownAddress_concat (moves : List Move) (m : Move) :
    shownAddress (moves ++ [m]) = m.shown (shownAddress moves) :=
  List.foldl_concat ..

private theorem heardPieces_concat (moves : List Move) (m : Move) :
    heardPieces (moves ++ [m]) = m.heard (heardPieces moves) :=
  List.foldl_concat ..

private theorem fits_trimmed {s : Text} (h : hasMatch (trimmed s) = true) :
    fits validFormat (trimmed s) = true := by
  rcases of_decide_eq_true h with hfits | ⟨hlast, -⟩
  · exact hfits
  · have hne : trimmed s ≠ [] := by
      rintro hnil
      rw [hnil] at hlast
      cases hlast
    have hspace : ¬ isSpaceChar ((trimmed s).getLast hne) = true :=
      List.rdropWhile_last_not isSpaceChar _ hne
    rw [List.getLast?_eq_some_getLast hne, Option.some_inj] at hlast
    rw [hlast] at hspace
    exact absurd (by decide) hspace

private theorem discovered_eq_nil_iff :
    discovered signals = [] ↔ lastOf Signal.discovered? signals = none := by
  rw [discovered, lastOf, List.filterMap_eq_nil_iff, List.findSome?_eq_none_iff]
  simp only [List.mem_reverse]

end Traces

namespace SwitchController
variable {desktop : Desktop} {c : SwitchController} {pieces late : List Bytes} {ended : Bool}
variable {peers : List Text}

@[simp] theorem tapIp_readAll (c : SwitchController) (pieces : List Bytes) :
    (c.readAll desktop pieces).1.tapIp = c.tapIp := by
  induction pieces generalizing c with
  | nil => rfl
  | cons piece pieces ih => exact ih (c.readyRead desktop piece).1

@[simp] theorem process_readAll (c : SwitchController) (pieces : List Bytes) :
    (c.readAll desktop pieces).1.process = c.process := by
  induction pieces generalizing c with
  | nil => rfl
  | cons piece pieces ih => exact ih (c.readyRead desktop piece).1

@[simp] theorem tapIp_stopContainer : (c.stopContainer desktop late ended).1.tapIp = c.tapIp := by
  unfold stopContainer
  by_cases hprocess : c.process = none
  · rw [if_pos hprocess]
  · rw [if_neg hprocess]
    exact tapIp_readAll _ late

private theorem process_stopContainer : (c.stopContainer desktop late ended).1.process =
    if ended = true then none else c.process := by
  unfold stopContainer
  by_cases hprocess : c.process = none
  · simp [hprocess]
  · rw [if_neg hprocess]
    exact congrArg (fun process => if ended = true then none else process) (process_readAll _ late)

@[simp] theorem tapIp_launchTunnel : (c.launchTunnel desktop).1.tapIp = c.tapIp := by
  unfold launchTunnel
  split <;> rfl

@[simp] theorem process_launchTunnel : (c.launchTunnel desktop).1.process = c.process := by
  unfold launchTunnel
  split <;> rfl

@[simp] theorem unread_launchTunnel : (c.launchTunnel desktop).1.unread = c.unread := by
  unfold launchTunnel
  split <;> rfl

@[simp] theorem tapIp_start : (c.start desktop peers late ended).1.tapIp = c.tapIp := by
  unfold start startProcess
  dsimp only
  split_ifs <;> simp

private theorem process_start : (c.start desktop peers late ended).1.process =
    if ended = true ∨ c.process = none then some (dockerArgs c.tapIp peers) else c.process := by
  unfold start startProcess
  simp only [process_stopContainer, process_launchTunnel]
  cases ended with
  | true => simp
  | false =>
    by_cases hprocess : c.process = none
    · simp [hprocess]
    · simp [hprocess, process_stopContainer]

private theorem unread_start (h : ended = true) :
    (c.start desktop peers late ended).1.unread = [] := by
  unfold start startProcess
  simp only [process_stopContainer, unread_launchTunnel, if_pos h, if_true]

private theorem tapIp_stop : (c.stop desktop late ended).1.tapIp = c.tapIp := by
  unfold stop killTunnel osascript
  dsimp only
  split_ifs <;> exact tapIp_stopContainer

private theorem process_stop : (c.stop desktop late ended).1.process =
    if ended = true then none else c.process := by
  unfold stop killTunnel osascript
  dsimp only
  split_ifs <;> simp_all [process_stopContainer]

end SwitchController

namespace MainWindow
variable {desktop : Desktop} {w u w' : MainWindow} {m : Move} {signals : List Signal} {addr : Text}

/-- What `w'` shows is what `u` shows, with these signals taken in. -/
structure Follows (u w' : MainWindow) (signals : List Signal) : Prop where
  addresses : w'.peerAddresses = u.peerAddresses
  rows : w'.rows = u.rows
  hasRows : w'.hasRows = u.hasRows
  statusLabel : w'.statusLabel = u.statusLabel
  logs : ∀ addr, w'.peerLogs addr = (u.peerLogs addr).map (· ++ outputs signals)
  ownAddress : w'.ownAddress = (lastOf Signal.discovered? signals).getD u.ownAddress
  spinner : w'.spinner = (u.spinner && (lastOf Signal.discovered? signals).isNone)
  green : w'.green = (u.green || (lastOf Signal.discovered? signals).isSome)
  currentLog : ∀ addr, w'.currentLog = some addr → u.currentLog = some addr ∨ addr ∈ u.rows

private theorem foldl_receive (w : MainWindow) (signals : List Signal) : signals.foldl receive w =
    { w with
      peerLogs := fun addr => (w.peerLogs addr).map (· ++ outputs signals)
      ownAddress := (lastOf Signal.discovered? signals).getD w.ownAddress
      spinner := w.spinner && (lastOf Signal.discovered? signals).isNone
      green := w.green || (lastOf Signal.discovered? signals).isSome } := by
  induction signals using List.reverseRecOn with
  | nil => simp [outputs, lastOf]
  | append_singleton signals signal ih =>
    rw [List.foldl_concat, ih, outputs_append, lastOf_concat]
    cases signal with
    | publicAddressDiscovered addr =>
      have hnone : outputs [.publicAddressDiscovered addr] = [] := rfl
      simp [receive, hnone, Signal.discovered?]
    | outputReceived line =>
      have hone : outputs [.outputReceived line] = [line] := rfl
      simp [receive, hone, Signal.discovered?, Function.comp_def]

private theorem follows_follow (w : MainWindow) (acted : SwitchController × List Signal) :
    Follows w (w.follow acted) acted.2 := by
  unfold follow
  rw [foldl_receive]
  exact ⟨rfl, rfl, rfl, rfl, fun _ => rfl, rfl, rfl, rfl, fun _ h => .inl h⟩

private theorem controller_follow (w : MainWindow) (acted : SwitchController × List Signal) :
    (w.follow acted).controller = acted.1 := by
  unfold follow
  rw [foldl_receive]

private theorem Follows.of_nil (addresses : w'.peerAddresses = w.peerAddresses)
    (rows : w'.rows = w.rows)
    (hasRows : w'.hasRows = w.hasRows) (statusLabel : w'.statusLabel = w.statusLabel)
    (logs : w'.peerLogs = w.peerLogs) (ownAddress : w'.ownAddress = w.ownAddress)
    (spinner : w'.spinner = w.spinner) (green : w'.green = w.green)
    (currentLog : ∀ addr, w'.currentLog = some addr → w.currentLog = some addr ∨ addr ∈ w.rows) :
    Follows w w' [] :=
  ⟨addresses, rows, hasRows, statusLabel, by simp [logs, outputs], by simp [ownAddress, lastOf],
    by simp [spinner, lastOf], by simp [green, lastOf], currentLog⟩

/-- What one event does. -/
inductive Effect (desktop : Desktop) (w w' : MainWindow) : Move → Prop where
  | idle {event : WindowEvent} (hfollows : Follows w w' []) (hsame : w'.controller = w.controller)
    (hevent : ∀ piece, event ≠ .readyRead piece) : Effect desktop w w' ⟨event, none, []⟩
  | read {piece : Bytes} (hrunning : w.controller.process ≠ none)
    (hfollows : Follows w w' (w.controller.readyRead desktop piece).2)
    (hread : w'.controller = (w.controller.readyRead desktop piece).1) :
    Effect desktop w w' ⟨.readyRead piece, none, (w.controller.readyRead desktop piece).2⟩
  | finished (hfollows : Follows w w' [])
    (hended : w'.controller = { w.controller with process := none }) :
    Effect desktop w w' ⟨.finished, none, []⟩
  | closed {late : List Bytes} {ended : Bool}
    (hfollows : Follows w w' (w.controller.stop desktop late ended).2)
    (hstopped : w'.controller = (w.controller.stop desktop late ended).1)
    (hgone : w'.visible = false) :
    Effect desktop w w' ⟨.closed late ended, none, (w.controller.stop desktop late ended).2⟩
  | added {addr : Text} {order : List Text} {late : List Bytes} {ended : Bool}
    (hfits : fits validFormat addr = true) (hnew : addr ∉ w.peerAddresses)
    (horder : order.Perm (w.peerAddresses ++ [addr]))
    (hfollows : Follows (w.addPeer addr) w' (w.controller.start desktop order late ended).2)
    (hstarted : w'.controller = (w.controller.start desktop order late ended).1) :
    Effect desktop w w' ⟨.returnPressed order late ended, some addr,
      (w.controller.start desktop order late ended).2⟩

theorem Steps.visible (h : w.Steps desktop m w') : w.visible = true := by
  by_contra hgone
  unfold Steps step at h
  rw [if_pos (Bool.eq_false_iff.mpr hgone)] at h
  cases h

theorem Steps.effect (h : w.Steps desktop m w') : Effect desktop w w' m := by
  have hvisible := Steps.visible h
  obtain ⟨event, madded, msignals⟩ := m
  unfold Steps step at h
  rw [if_neg (by simp [hvisible])] at h
  cases event with
  | typed text =>
    cases h
    exact .idle (.of_nil rfl rfl rfl rfl rfl rfl rfl rfl fun _ => .inl) rfl (by simp)
  | addClicked =>
    cases h
    exact .idle (.of_nil rfl rfl rfl rfl rfl rfl rfl rfl fun _ => .inl) rfl (by simp)
  | returnPressed order late ended =>
    simp only [returnPressed] at h
    split_ifs at h with hbad hold horder
    · cases h
      exact .idle (.of_nil rfl rfl rfl rfl rfl rfl rfl rfl fun _ => .inl) rfl (by simp)
    · cases h
      exact .idle (.of_nil rfl rfl rfl rfl rfl rfl rfl rfl fun _ => .inl) rfl (by simp)
    · cases h
      have hfits := fits_trimmed (Bool.not_eq_false _ |>.mp hbad)
      exact .added hfits hold horder (follows_follow _ _) (controller_follow _ _)
  | tabChosen index =>
    cases h
    exact .idle (.of_nil rfl rfl rfl rfl rfl rfl rfl rfl fun _ => .inl) rfl (by simp)
  | rowClicked addr =>
    simp only at h
    split_ifs at h with hrow
    cases h
    refine .idle (.of_nil rfl rfl rfl rfl rfl rfl rfl rfl fun other hother => ?_) rfl (by simp)
    cases hother
    exact .inr hrow
  | copyClicked =>
    cases h
    exact .idle (.of_nil rfl rfl rfl rfl rfl rfl rfl rfl fun _ => .inl) rfl (by simp)
  | readyRead piece =>
    simp only at h
    split_ifs at h with hprocess
    cases h
    exact .read hprocess (follows_follow _ _) (controller_follow _ _)
  | finished =>
    simp only at h
    split_ifs at h
    cases h
    exact .finished (.of_nil rfl rfl rfl rfl rfl rfl rfl rfl fun _ => .inl) rfl
  | closed late ended =>
    cases h
    obtain ⟨haddresses, hrows, hhas, hlabel, hlogs, hown, hspinner, hgreen, hcurrent⟩ :=
      follows_follow w (w.controller.stop desktop late ended)
    exact .closed ⟨haddresses, hrows, hhas, hlabel, hlogs, hown, hspinner, hgreen, hcurrent⟩
      (controller_follow w _) rfl

/-- The window shows what has happened. -/
structure Accounts (moves : List Move) (w : MainWindow) : Prop where
  rows : w.rows = moves.filterMap Move.added
  addresses : w.peerAddresses = w.rows
  nodup : w.rows.Nodup
  valid : ∀ addr ∈ w.rows, fits validFormat addr = true
  hasRows : w.hasRows = decide (w.rows ≠ [])
  statusLabel : w.statusLabel = statusText w.rows.length
  logs : ∀ addr, w.peerLogs addr = logOf addr moves
  ownAddress : w.ownAddress = (shownAddress moves).getD noAddress
  spinner : w.spinner = (w.hasRows && (shownAddress moves).isNone)
  green : w.green = (shownAddress moves).isSome
  currentLog : ∀ addr, w.currentLog = some addr → addr ∈ w.rows

variable {moves : List Move} {tapIp : Text}

theorem Accounts.create (tapIp : Text) : Accounts [] (create tapIp) where
  rows := rfl
  addresses := rfl
  nodup := List.nodup_nil
  valid := by simp [MainWindow.create]
  hasRows := rfl
  statusLabel := rfl
  logs _ := rfl
  ownAddress := rfl
  spinner := rfl
  green := rfl
  currentLog := by simp [MainWindow.create]

private theorem Accounts.follows (h : Accounts moves w) (hadded : m.added = none)
    (hfollows : Follows w w' m.signals) : Accounts (moves ++ [m]) w' where
  rows := by
    rw [hfollows.rows, h.rows, List.filterMap_append, List.filterMap_cons_none hadded,
      List.filterMap_nil, List.append_nil]
  addresses := by rw [hfollows.addresses, hfollows.rows, h.addresses]
  nodup := hfollows.rows ▸ h.nodup
  valid := hfollows.rows ▸ h.valid
  hasRows := by rw [hfollows.hasRows, hfollows.rows, h.hasRows]
  statusLabel := by rw [hfollows.statusLabel, hfollows.rows, h.statusLabel]
  logs addr := by
    rw [hfollows.logs, h.logs, logOf_concat, hadded]
    simp
  ownAddress := by
    rw [hfollows.ownAddress, h.ownAddress, shownAddress_concat, Move.shown, if_pos hadded]
    cases lastOf Signal.discovered? m.signals <;> rfl
  spinner := by
    rw [hfollows.spinner, hfollows.hasRows, h.spinner, shownAddress_concat, Move.shown, if_pos hadded]
    cases lastOf Signal.discovered? m.signals <;> simp
  green := by
    rw [hfollows.green, h.green, shownAddress_concat, Move.shown, if_pos hadded]
    cases lastOf Signal.discovered? m.signals <;> simp
  currentLog addr haddr := by
    rw [hfollows.rows]
    exact (hfollows.currentLog addr haddr).elim (h.currentLog addr) id

/-- A peer that is added has no log before. -/
theorem Accounts.added {addr : Text} (h : Accounts moves w) (hfits : fits validFormat addr = true)
    (hnew : addr ∉ w.peerAddresses) (hadded : m.added = some addr)
    (hfollows : Follows (w.addPeer addr) w' m.signals) : Accounts (moves ++ [m]) w' where
  rows := by
    rw [hfollows.rows, List.filterMap_append, ← h.rows, List.filterMap_cons_some hadded]
    rfl
  addresses := by rw [hfollows.addresses, hfollows.rows, addPeer, h.addresses]
  nodup := by
    rw [hfollows.rows]
    rw [h.addresses] at hnew
    exact List.nodup_append.mpr ⟨h.nodup, List.nodup_singleton addr, by
      intro x hx y hy hxy
      cases List.mem_singleton.mp hy
      exact hnew (hxy ▸ hx)⟩
  valid := by
    rw [hfollows.rows]
    intro x hx
    rcases List.mem_append.mp hx with hold | hlast
    · exact h.valid x hold
    · cases List.mem_singleton.mp hlast
      exact hfits
  hasRows := by
    rw [hfollows.hasRows, hfollows.rows]
    simp [addPeer]
  statusLabel := by
    rw [hfollows.statusLabel, hfollows.rows]
    simp [addPeer, h.addresses]
  logs other := by
    have hnone : logOf addr moves = none := by
      rw [logOf_eq_none_iff, ← h.rows, ← h.addresses]
      exact hnew
    rw [hfollows.logs, logOf_concat, hadded]
    by_cases hother : other = addr
    · subst hother
      simp [addPeer, hnone]
    · have hlog := Table.put_other hother w.peerLogs []
      simp [addPeer, hlog, h.logs, Ne.symm hother]
  ownAddress := by
    rw [hfollows.ownAddress, shownAddress_concat, Move.shown, hadded]
    simp [addPeer]
  spinner := by
    rw [hfollows.spinner, hfollows.hasRows, shownAddress_concat, Move.shown, hadded]
    simp [addPeer]
  green := by
    rw [hfollows.green, shownAddress_concat, Move.shown, hadded]
    simp [addPeer]
  currentLog other hother := by
    rw [hfollows.rows]
    rcases hfollows.currentLog other hother with hold | hrow
    · exact List.mem_append_left [addr] (h.currentLog other hold)
    · exact hrow

theorem Accounts.step (h : Accounts moves w) (hstep : w.Steps desktop m w') :
    Accounts (moves ++ [m]) w' := by
  cases Steps.effect hstep with
  | idle hfollows => exact h.follows rfl hfollows
  | read hrunning hfollows => exact h.follows rfl hfollows
  | finished hfollows => exact h.follows rfl hfollows
  | closed hfollows => exact h.follows rfl hfollows
  | added hfits hnew horder hfollows => exact h.added hfits hnew rfl hfollows

/-- If a process runs, it was started with these peers, in some order. -/
def Carries (tapIp : Text) (w : MainWindow) (peers : List Text) : Prop :=
  ∀ args, w.controller.process = some args →
    ∃ order, order ≠ [] ∧ order.Perm peers ∧ args = dockerArgs tapIp order

private theorem Carries.of_process {peers : List Text} (h : w.Carries tapIp peers)
    (hprocess : w'.controller.process = none ∨ w'.controller.process = w.controller.process) :
    w'.Carries tapIp peers := by
  intro args hargs
  rcases hprocess with hnone | hsame
  · cases hnone.symm.trans hargs
  · exact h args (hsame.symm.trans hargs)

private theorem Effect.tapIp_eq (h : Effect desktop w w' m) :
    w'.controller.tapIp = w.controller.tapIp := by
  cases h with
  | idle _ hsame => rw [hsame]
  | read _ _ hread => rw [hread]; rfl
  | finished _ hended => rw [hended]
  | closed _ hstopped => rw [hstopped, SwitchController.tapIp_stop]
  | added _ _ _ _ hstarted => rw [hstarted, SwitchController.tapIp_start]

/-- Only a peer that is added brings another process. -/
theorem Effect.process (h : Effect desktop w w' m) (hadded : m.added = none) :
    w'.controller.process = none ∨ w'.controller.process = w.controller.process := by
  cases h with
  | idle _ hsame => exact .inr (by rw [hsame])
  | read _ _ hread => exact .inr (by rw [hread]; rfl)
  | finished _ hended => exact .inl (by rw [hended])
  | @closed late ended _ hstopped =>
    rw [hstopped, SwitchController.process_stop]
    cases ended with
    | true => exact .inl rfl
    | false => exact .inr rfl
  | added => cases hadded

private theorem Effect.process_added (h : Effect desktop w w' m) (hadded : m.added ≠ none)
    (htapIp : w.controller.tapIp = tapIp) :
    w'.Carries tapIp w'.peerAddresses ∨
      m.event.inTime = false ∧ w'.controller.process = w.controller.process := by
  cases h with
  | @added addr order late ended _ _ horder hfollows hstarted =>
    have hprocess := @SwitchController.process_start desktop w.controller late ended order
    rw [← hstarted, htapIp] at hprocess
    split_ifs at hprocess with hroom
    · refine .inl fun args hargs => ⟨order, ?_, ?_, ?_⟩
      · rintro rfl
        exact List.append_ne_nil_of_right_ne_nil _ (List.cons_ne_nil _ _) (List.nil_perm.mp horder)
      · rw [hfollows.addresses]
        exact horder
      · exact (Option.some.inj (hprocess.symm.trans hargs)).symm
    · exact .inr ⟨Bool.eq_false_iff.mpr fun hended => hroom (.inl hended), hprocess⟩
  | _ => exact absurd rfl hadded

/-- What the window shows, and which peers its container carries. -/
structure Session (tapIp : Text) (moves : List Move) (w : MainWindow) : Prop where
  accounts : Accounts moves w
  tapIp_eq : w.controller.tapIp = tapIp
  carries : ∃ peers, peers <+: w.rows ∧ w.Carries tapIp peers
  carriesAll : (∀ m ∈ moves, m.event.inTime = true) → w.Carries tapIp w.rows

theorem Session.step (h : Session tapIp moves w) (hstep : w.Steps desktop m w') :
    Session tapIp (moves ++ [m]) w' := by
  have heffect := Steps.effect hstep
  have haccounts := h.accounts.step hstep
  have hrows : w'.rows = w.rows ++ m.added.toList := by
    rw [haccounts.rows, List.filterMap_append, ← h.accounts.rows]
    cases hadded : m.added <;> simp [hadded]
  have hbefore (hintime : ∀ m' ∈ moves ++ [m], m'.event.inTime = true) :
      ∀ m' ∈ moves, m'.event.inTime = true :=
    fun m' hm' => hintime m' (List.mem_append_left [m] hm')
  refine ⟨haccounts, heffect.tapIp_eq.trans h.tapIp_eq, ?_, fun hintime => ?_⟩
  · obtain ⟨peers, hpeers, hcarries⟩ := h.carries
    have hold : peers <+: w'.rows := hrows ▸ hpeers.trans (List.prefix_append _ _)
    by_cases hadded : m.added = none
    · exact ⟨peers, hold, hcarries.of_process (heffect.process hadded)⟩
    · rcases heffect.process_added hadded h.tapIp_eq with hnew | ⟨-, hsame⟩
      · exact ⟨w'.rows, List.prefix_refl _, haccounts.addresses ▸ hnew⟩
      · exact ⟨peers, hold, hcarries.of_process (.inr hsame)⟩
  · by_cases hadded : m.added = none
    · rw [hrows, hadded, Option.toList_none, List.append_nil]
      exact (h.carriesAll (hbefore hintime)).of_process (heffect.process hadded)
    · rcases heffect.process_added hadded h.tapIp_eq with hnew | ⟨hlate, -⟩
      · exact haccounts.addresses ▸ hnew
      · exact absurd (hintime m (by simp)) (Bool.eq_false_iff.mp hlate)

theorem Session.create (tapIp : Text) : Session tapIp [] (create tapIp) where
  accounts := .create tapIp
  tapIp_eq := rfl
  carries := ⟨[], List.prefix_refl _, by rintro args ⟨⟩⟩
  carriesAll := by rintro - args ⟨⟩

theorem session_run (h : Run (Steps desktop) (create tapIp) moves w) : Session tapIp moves w :=
  h.history (.create tapIp) fun hpast hstep => hpast.step hstep

/-- The signals that the container has caused, and what is left of its output. -/
def Hears (desktop : Desktop) (moves : List Move) (w : MainWindow) : Prop :=
  w.visible = true →
    w.controller.unread = (onReadyRead desktop.fromUtf8 (heardPieces moves).flatten).2 ∧
    shownAddress moves = lastOf Signal.discovered?
      (onReadyRead desktop.fromUtf8 (heardPieces moves).flatten).1

theorem Hears.step (h : Hears desktop moves w) (hintime : m.event.inTime = true) (hquiet : m.Quiet)
    (hstep : w.Steps desktop m w') : Hears desktop (moves ++ [m]) w' := by
  intro hvisible
  obtain ⟨hunread, hshown⟩ := h (Steps.visible hstep)
  rw [heardPieces_concat, shownAddress_concat]
  cases Steps.effect hstep with
  | @idle event _ hsame hevent =>
    have hheard : Move.heard (heardPieces moves) ⟨event, none, []⟩ = heardPieces moves := by
      cases event with
      | readyRead piece => exact absurd rfl (hevent piece)
      | _ => rfl
    rw [hheard, hsame]
    exact ⟨hunread, hshown⟩
  | @read piece _ _ hread =>
    have hpieces : Move.heard (heardPieces moves)
        ⟨.readyRead piece, none, (w.controller.readyRead desktop piece).2⟩ =
          heardPieces moves ++ [piece] := rfl
    rw [hpieces, List.flatten_concat, onReadyRead_append, ← hunread, lastOf_append, ← hshown, hread]
    exact ⟨rfl, rfl⟩
  | finished _ hended =>
    rw [hended]
    exact ⟨hunread, hshown⟩
  | closed _ _ hgone => cases hgone.symm.trans hvisible
  | @added addr order late ended _ _ _ _ hstarted =>
    have hended : ended = true := hintime
    have hnone := discovered_eq_nil_iff.mp (hquiet (by simp))
    rw [hstarted, SwitchController.unread_start hended, Move.shown, hnone]
    exact ⟨rfl, rfl⟩

/-- The moves that events lead to. -/
def play (desktop : Desktop) (w : MainWindow) : List WindowEvent → Option (List Move × MainWindow)
  | [] => some ([], w)
  | event :: events => do
    let reaction ← w.step desktop event
    let (moves, last) ← play desktop reaction.window events
    return (⟨event, reaction.added, reaction.signals⟩ :: moves, last)

theorem run_play {events : List WindowEvent} (h : play desktop w events = some (moves, w')) :
    Run (Steps desktop) w moves w' := by
  induction events generalizing w moves with
  | nil =>
    cases h
    rfl
  | cons event events ih =>
    simp only [play, Option.bind_eq_bind, Option.bind_eq_some_iff] at h
    obtain ⟨reaction, hstep, ⟨later, last⟩, hplay, hlast⟩ := h
    cases hlast
    exact ⟨reaction.window, hstep, ih hplay⟩

end MainWindow

def aDesktop : Desktop where
  fromUtf8 bytes := bytes.map fun b => Char.ofNat b.toNat
  applicationDirPath := "/Applications".toList
  homePath := "/Users/ann".toList

end VSwitch
