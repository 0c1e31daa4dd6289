import VSwitch.Lib.AgedTable
import VSwitch.Lib.Runs
import VSwitch.Gui.SwitchController

/-! The window: its rows of peers with their logs, the labels above them, and the controller that
starts a new container for every peer that is added. -/
namespace VSwitch
open Lib

/-- `Status` of the input field. -/
inductive InputStatus where
  | default
  | warning
  | error
  deriving DecidableEq

/-- The state behind the widgets. `own_address_`, `spinner_` and the green dot tell of the public
address, `hasRows` is the page of `peer_stack_`, and no `currentLog` is the hint. -/
structure MainWindow where
  controller : SwitchController
  peerAddresses : List Text
  peerLogs : Table Text (List Text)
  rows : List Text
  hasRows : Bool
  statusLabel : Text
  ownAddress : Text
  spinner : Bool
  green : Bool
  peerInput : Text
  inputStatus : InputStatus
  addRow : Bool
  tab : Nat
  currentLog : Option Text
  clipboard : Text
  visible : Bool

/-- What happens to the window, with what the system decides: the order in which the set of
addresses is enumerated, what the old process still says, and whether it ends in time. -/
inductive WindowEvent where
  | typed (text : Text)
  | addClicked
  | returnPressed (order : List Text) (late : List Bytes) (ended : Bool)
  | tabChosen (index : Nat)
  | rowClicked (addr : Text)
  | copyClicked
  | readyRead (piece : Bytes)
  | finished
  | closed (late : List Bytes) (ended : Bool)
  deriving DecidableEq

/-- The window after an event, the address that was added, and the signals of the controller. -/
structure Reaction where
  window : MainWindow
  added : Option Text
  signals : List Signal

namespace MainWindow

/-- What `own_address_` shows until an address is discovered. -/
def noAddress : Text := "—".toList

/-- The text of `updateStatus`. -/
def statusText (total : Nat) : Text :=
  if total = 0 then "No peers".toList
  else decimal total ++ " peer".toList ++ (if 1 < total then "s".toList else []) ++ " added".toList

def create (tapIp : Text) : MainWindow where
  controller := ⟨tapIp, none, [], []⟩
  peerAddresses := []
  peerLogs := fun _ => none
  rows := []
  hasRows := false
  statusLabel := "No peers".toList
  ownAddress := noAddress
  spinner := false
  green := false
  peerInput := []
  inputStatus := .default
  addRow := false
  tab := 0
  currentLog := none
  clipboard := []
  visible := true

/-- The two slots that the constructor connects to the controller. -/
def receive (w : MainWindow) : Signal → MainWindow
  | .publicAddressDiscovered addr => { w with ownAddress := addr, spinner := false, green := true }
  | .outputReceived line => { w with peerLogs := fun addr => (w.peerLogs addr).map (· ++ [line]) }

def follow (w : MainWindow) (acted : SwitchController × List Signal) : MainWindow :=
  acted.2.foldl receive { w with controller := acted.1 }

def addPeer (w : MainWindow) (addr : Text) : MainWindow where
  controller := w.controller
  peerAddresses := w.peerAddresses ++ [addr]
  peerLogs := w.peerLogs.put addr []
  rows := w.rows ++ [addr]
  hasRows := true
  statusLabel := statusText (w.peerAddresses ++ [addr]).length
  ownAddress := noAddress
  spinner := true
  green := false
  peerInput := []
  inputStatus := .default
  addRow := false
  tab := w.tab
  currentLog := w.currentLog
  clipboard := w.clipboard
  visible := w.visible

/-- The handler of `returnPressed`. -/
def returnPressed (desktop : Desktop) (w : MainWindow) (order : List Text) (late : List Bytes)
    (ended : Bool) : Option Reaction :=
  let addr := trimmed w.peerInput
  if hasMatch addr = false then some ⟨{ w with inputStatus := .error }, none, []⟩
  else if addr ∈ w.peerAddresses then some ⟨{ w with inputStatus := .warning }, none, []⟩
  else if order.Perm (w.addPeer addr).peerAddresses then
    let acted := w.controller.start desktop order late ended
    some ⟨(w.addPeer addr).follow acted, some addr, acted.2⟩
  else none

/-- One event, if it can happen: output comes only while the process runs, only rows that are
there are clicked, and a window that was closed is gone. -/
def step (desktop : Desktop) (w : MainWindow) (event : WindowEvent) : Option Reaction :=
  if w.visible = false then none
  else match event with
    | .typed text => some ⟨{ w with peerInput := text }, none, []⟩
    | .addClicked => some ⟨{ w with addRow := !w.addRow }, none, []⟩
    | .returnPressed order late ended => w.returnPressed desktop order late ended
    | .tabChosen index => some ⟨{ w with tab := index }, none, []⟩
    | .rowClicked addr =>
      if addr ∈ w.rows then some ⟨{ w with tab := 1, currentLog := some addr }, none, []⟩ else none
    | .copyClicked => some ⟨{ w with clipboard := w.ownAddress }, none, []⟩
    | .readyRead piece =>
      if w.controller.process = none then none
      else
        let acted := w.controller.readyRead desktop piece
        some ⟨w.follow acted, none, acted.2⟩
    | .finished =>
      if w.controller.process = none then none
      else some ⟨{ w with controller := { w.controller with process := none } }, none, []⟩
    | .closed late ended =>
      let acted := w.controller.stop desktop late ended
      some ⟨{ w.follow acted with visible := false }, none, acted.2⟩

end MainWindow

/-- An event of a session, with what came of it. -/
structure Move where
  event : WindowEvent
  added : Option Text
  signals : List Signal
  deriving DecidableEq

def MainWindow.Steps (desktop : Desktop) (w : MainWindow) (m : Move) (w' : MainWindow) : Prop :=
  w.step desktop m.event = some ⟨w', m.added, m.signals⟩

end VSwitch
