import Mathlib.Data.List.DropRight
import VSwitch.Lib.Lines
import VSwitch.Startup.Announcement
import VSwitch.Startup.Entrypoint

/-! The side of the window that runs the container: the lines it reads of the output, which
arrives in pieces, and the variables that it sets. -/
namespace VSwitch
open Lib

inductive Signal where
  | publicAddressDiscovered (addr : Text)
  | outputReceived (line : Text)
  deriving DecidableEq

def Signal.discovered? : Signal → Option Text
  | .publicAddressDiscovered addr => some addr
  | .outputReceived _ => none

/-- `QChar::isSpace`: `trimmed` takes off more than `stoi` skips. -/
def isSpaceChar (c : Char) : Bool :=
  isSpace c ∨ c.toNat ∈ [0x85, 0xa0, 0x1680, 0x2028, 0x2029, 0x202f, 0x205f, 0x3000] ∨
    (0x2000 ≤ c.toNat ∧ c.toNat ≤ 0x200a)

def trimmed (s : Text) : Text := (s.dropWhile isSpaceChar).rdropWhile isSpaceChar

/-- `s.split("  ").first()`. -/
def firstPart : Text → Text
  | [] => []
  | ' ' :: ' ' :: _ => []
  | c :: s => c :: firstPart s

def addressPrefix : Text := "Your public address: ".toList

/-- The body of the loop in `onReadyRead`, on the line as it was decoded. -/
def lineSignals (line : Text) : List Signal :=
  let line := trimmed line
  if line = [] then []
  else if addressPrefix.isPrefixOf line then
    [.publicAddressDiscovered (firstPart (line.drop 21)), .outputReceived line]
  else [.outputReceived line]

def encode (s : Text) : Bytes := s.map fun c => UInt8.ofNat c.toNat

def Ascii (s : Text) : Prop := ∀ c ∈ s, c.toNat < 128

/-- `onReadyRead`: the signals emitted, and what stays in the buffer. `fromUtf8` decodes a line
with the line feed that ends it. -/
def onReadyRead (fromUtf8 : Bytes → Text) (buffer : Bytes) : List Signal × Bytes :=
  let (lines, unread) := records 10 buffer
  (lines.flatMap fun line => lineSignals (fromUtf8 (line ++ [10])), unread)

/-- The output of a container arrives in pieces. -/
def readPieces (fromUtf8 : Bytes → Text) : Bytes → List Bytes → List Signal
  | _, [] => []
  | unread, piece :: pieces =>
    let (signals, unread) := onReadyRead fromUtf8 (unread ++ piece)
    signals ++ readPieces fromUtf8 unread pieces

def discovered (signals : List Signal) : List Text := signals.filterMap Signal.discovered?

/-- The arguments that `start` gives to `docker`. -/
def dockerArgs (tapIp : Text) (peers : List Text) : List Text :=
  ["run".toList, "--rm".toList, "--name".toList, "allblue-node".toList, "--privileged".toList,
    "--device".toList, "/dev/net/tun".toList, "-e".toList, "TAP_IP=".toList ++ tapIp, "-e".toList,
    "PEERS=".toList ++ [','].intercalate peers, "-p".toList, "5000:5000/udp".toList, "-p".toList,
    "127.0.0.1:1194:1194/udp".toList, "allblue-vswitch".toList]

/-- What `docker run` sets a variable to, by the last `-e NAME=value`. -/
def variableOf (name : Text) (args : List Text) : Text :=
  ((args.zip args.tail).filterMap fun (option, value) =>
    if option = "-e".toList ∧ (name ++ ['=']).isPrefixOf value then
      some (value.drop (name.length + 1)) else none).getLastD []

def containerEnv (args : List Text) : ContainerEnv :=
  ⟨variableOf "PEERS".toList args, variableOf "PORT".toList args, variableOf "KEY".toList args⟩

/-- What the system gives to the window: how output is decoded, where the program is installed,
and the home directory. -/
structure Desktop where
  fromUtf8 : Bytes → Text
  applicationDirPath : Text
  homePath : Text

def Desktop.utunHelperPath (desktop : Desktop) : Text :=
  desktop.applicationDirPath ++ "/allblue-utun".toList

def initTapIp (saved : Option Text) (octet : Nat) : Text :=
  saved.getD ("10.0.0.".toList ++ decimal octet)

/-- `ipv4` of `launchTunnel`. -/
def ipv4 : List (Piece Char) :=
  [.run Char.isDigit 3, .one '.', .run Char.isDigit 3, .one '.', .run Char.isDigit 3, .one '.',
    .run Char.isDigit 3]

/-- `ipv4.match(tap_ip_).hasMatch()`. -/
def matchesIpv4 (s : Text) : Bool :=
  fits ipv4 s ∨ (s.getLast? = some '\n' ∧ fits ipv4 s.dropLast)

/-- The command line that starts the helper, in the background and behind one that ends the
helper before it. -/
def launchShell (helper tapIp log : Text) : Text :=
  "pkill -x allblue-utun; sleep 0.3; ".toList ++
    ("'".toList ++ helper ++ "' ".toList ++ tapIp ++ " >> '".toList ++ log ++ "' 2>&1 &".toList)

def doShellScript (shell : Text) : Text :=
  "do shell script \"".toList ++ shell ++ "\" with administrator privileges".toList

/-- The script of `launchTunnel`, or what it complains about. -/
def tunnelScript (desktop : Desktop) (tapIp : Text) : Except Text Text :=
  let helper := desktop.utunHelperPath
  if matchesIpv4 tapIp = false then
    .error "error: invalid virtual IP; tunnel not started".toList
  else if '\'' ∈ helper ∨ '"' ∈ helper ∨ '\\' ∈ helper then
    .error "error: invalid helper path; tunnel not started".toList
  else
    .ok (doShellScript (launchShell helper tapIp
      (desktop.homePath ++ "/Library/Logs/allblue-utun.log".toList)))

/-- `process` holds the arguments that `docker` was started with until it has ended, and
`detached` the commands started on the side. -/
structure SwitchController where
  tapIp : Text
  process : Option (List Text)
  unread : Bytes
  detached : List (List Text)

namespace SwitchController

def osascript (c : SwitchController) (script : Text) : SwitchController :=
  { c with detached := c.detached ++ [["osascript".toList, "-e".toList, script]] }

def readyRead (desktop : Desktop) (c : SwitchController) (piece : Bytes) :
    SwitchController × List Signal :=
  let (signals, unread) := onReadyRead desktop.fromUtf8 (c.unread ++ piece)
  ({ c with unread }, signals)

def readAll (desktop : Desktop) (c : SwitchController) : List Bytes → SwitchController × List Signal
  | [] => (c, [])
  | piece :: pieces =>
    let first := c.readyRead desktop piece
    let later := first.1.readAll desktop pieces
    (later.1, first.2 ++ later.2)

def dockerStop : List Text := ["docker".toList, "stop".toList, "allblue-node".toList]

/-- `stopContainer` waits up to three seconds: `late` comes meanwhile, and the process has `ended`
or not. -/
def stopContainer (desktop : Desktop) (c : SwitchController) (late : List Bytes) (ended : Bool) :
    SwitchController × List Signal :=
  if c.process = none then (c, [])
  else
    let waited := { c with detached := c.detached ++ [dockerStop] }.readAll desktop late
    ({ waited.1 with process := if ended then none else waited.1.process }, waited.2)

/-- `process_->start`, which does nothing while a process is running. -/
def startProcess (c : SwitchController) (args : List Text) : SwitchController :=
  if c.process = none then { c with process := some args, unread := [] } else c

def launchTunnel (desktop : Desktop) (c : SwitchController) : SwitchController × List Signal :=
  match tunnelScript desktop c.tapIp with
  | .ok script => (c.osascript script, [])
  | .error message => (c, [.outputReceived message])

def start (desktop : Desktop) (c : SwitchController) (peers : List Text) (late : List Bytes)
    (ended : Bool) : SwitchController × List Signal :=
  let stopped := c.stopContainer desktop late ended
  let started := (stopped.1.startProcess (dockerArgs c.tapIp peers)).launchTunnel desktop
  (started.1, stopped.2 ++ started.2)

def killTunnel (c : SwitchController) : SwitchController :=
  c.osascript (doShellScript "pkill -x allblue-utun".toList)

def stop (desktop : Desktop) (c : SwitchController) (late : List Bytes) (ended : Bool) :
    SwitchController × List Signal :=
  let wasRunning := c.process ≠ none
  let stopped := c.stopContainer desktop late ended
  (if wasRunning then stopped.1.killTunnel else stopped.1, stopped.2)

end SwitchController

/-- The octets that can be drawn make a virtual IP that passes the check of `launchTunnel`. -/
theorem matchesIpv4_initTapIp :
    ∀ octet, 2 ≤ octet → octet < 255 → matchesIpv4 (initTapIp none octet) = true := by
  have hall : ∀ octet < 255, 2 ≤ octet → matchesIpv4 (initTapIp none octet) = true := by
    decide +kernel
  exact fun octet hle hlt => hall octet hlt hle

section Reading
variable {fromUtf8 : Bytes → Text} {unread more : Bytes} {pieces : List Bytes} {s t : Text} {c : Char}

theorem onReadyRead_append (unread more : Bytes) :
    onReadyRead fromUtf8 (unread ++ more) =
      ((onReadyRead fromUtf8 unread).1 ++
        (onReadyRead fromUtf8 ((onReadyRead fromUtf8 unread).2 ++ more)).1,
      (onReadyRead fromUtf8 ((onReadyRead fromUtf8 unread).2 ++ more)).2) := by
  simp only [onReadyRead]
  rw [records_append, List.flatMap_append]

private theorem readPieces_eq (unread : Bytes) (pieces : List Bytes) :
    (onReadyRead fromUtf8 unread).1 ++
        readPieces fromUtf8 (onReadyRead fromUtf8 unread).2 pieces =
      (onReadyRead fromUtf8 (unread ++ pieces.flatten)).1 := by
  induction pieces generalizing unread with
  | nil => rw [readPieces, List.append_nil, List.flatten_nil, List.append_nil]
  | cons piece pieces ih =>
    have hlater := ih (unread ++ piece)
    rw [List.flatten_cons, ← List.append_assoc, ← hlater, onReadyRead_append unread piece, readPieces,
      List.append_assoc]

theorem readPieces_start (pieces : List Bytes) :
    readPieces fromUtf8 [] pieces = (onReadyRead fromUtf8 pieces.flatten).1 :=
  readPieces_eq [] pieces

/-- Behind complete lines the reading starts anew. -/
theorem onReadyRead_complete (h : unread = [] ∨ unread.getLast? = some 10) (more : Bytes) :
    (onReadyRead fromUtf8 (unread ++ more)).1 =
      (onReadyRead fromUtf8 unread).1 ++ (onReadyRead fromUtf8 more).1 := by
  have hleft : (onReadyRead fromUtf8 unread).2 = [] := records_left h
  rw [onReadyRead_append, hleft, List.nil_append]

theorem encode_append (s t : Text) : encode (s ++ t) = encode s ++ encode t := List.map_append

private theorem not_mem_encode (h : Ascii s) (hline : '\n' ∉ s) : (10 : UInt8) ∉ encode s := by
  intro hmem
  obtain ⟨c, hc, hten⟩ := List.mem_map.mp hmem
  have hvalue := congrArg UInt8.toNat hten
  rw [UInt8.toNat_ofNat', Nat.mod_eq_of_lt (lt_trans (h c hc) (by decide))] at hvalue
  have hfeed : c = '\n' := Char.toNat_inj.mp hvalue
  exact hline (hfeed ▸ hc)

/-- A line of ASCII is read as it was written. -/
theorem onReadyRead_line (hdecode : ∀ t, Ascii t → fromUtf8 (encode t) = t) (h : Ascii s)
    (hline : '\n' ∉ s) (rest : Bytes) :
    (onReadyRead fromUtf8 (encode (s ++ ['\n']) ++ rest)).1 =
      lineSignals (s ++ ['\n']) ++ (onReadyRead fromUtf8 rest).1 := by
  have hascii : Ascii (s ++ ['\n']) := by
    intro c hc
    rcases List.mem_append.mp hc with hs | hfeed
    · exact h c hs
    · cases List.mem_singleton.mp hfeed
      decide
  have hwhole : encode s ++ [10] = encode (s ++ ['\n']) := (encode_append s ['\n']).symm
  have hsplit : encode (s ++ ['\n']) ++ rest = encode s ++ 10 :: rest := by
    rw [← hwhole, List.append_assoc]
    rfl
  rw [hsplit]
  simp only [onReadyRead, records_cut (not_mem_encode h hline) rest, List.flatMap_cons, hwhole,
    hdecode _ hascii]

end Reading

section Trimming
variable {s t left right : Text} {c : Char}

/-- The text begins and ends with something that is not white space. -/
def Trim (s : Text) : Prop :=
  (∃ c t, s = c :: t ∧ isSpaceChar c = false) ∧ ∃ t c, s = t ++ [c] ∧ isSpaceChar c = false

/-- Blanks around such a text are taken off. -/
theorem Trim.trimmed_eq (h : Trim s) (left right : Text) (hleft : ∀ c ∈ left, isSpaceChar c = true)
    (hright : ∀ c ∈ right, isSpaceChar c = true) : trimmed (left ++ (s ++ right)) = s := by
  obtain ⟨⟨c, t, hfirst, hc⟩, t', c', hlast, hc'⟩ := h
  have hdrop : (left ++ (s ++ right)).dropWhile isSpaceChar = s ++ right := by
    rw [List.dropWhile_append_of_pos hleft, hfirst, List.cons_append,
      List.dropWhile_cons_of_neg (by simp [hc])]
  have hblanks : right.reverse.dropWhile isSpaceChar = [] :=
    List.dropWhile_eq_nil_iff.mpr fun x hx => hright x (List.mem_reverse.mp hx)
  have hback : (s ++ right).rdropWhile isSpaceChar = s := by
    rw [List.rdropWhile, List.reverse_append, List.dropWhile_append, hblanks]
    simp only [List.isEmpty_nil, if_true]
    rw [hlast, List.reverse_append, List.reverse_singleton, List.singleton_append,
      List.dropWhile_cons_of_neg (by simp [hc']), ← List.singleton_append, List.reverse_append,
      List.reverse_reverse, List.reverse_singleton]
  rw [trimmed, hdrop, hback]

/-- What follows two blanks is cut off. -/
theorem firstPart_append (h : ' ' ∉ s) (t : Text) : firstPart (s ++ ' ' :: ' ' :: t) = s := by
  induction s with
  | nil => rfl
  | cons c s ih =>
    rw [List.mem_cons, not_or] at h
    rw [List.cons_append, firstPart, ih h.2]
    rintro rest rfl
    exact absurd rfl h.1

/-- A line that begins with another character tells no address. -/
theorem not_discovered (hc : isSpaceChar c = false) (hother : c ≠ 'Y') (s : Text) :
    discovered (lineSignals (c :: s)) = [] := by
  have hdrop : (c :: s).dropWhile isSpaceChar = c :: s := List.dropWhile_cons_of_neg (by simp [hc])
  have hhead : ∀ line, trimmed (c :: s) = line → line ≠ [] → ∃ t, line = c :: t := by
    rintro line rfl hne
    rw [trimmed, hdrop] at hne ⊢
    obtain ⟨t, ht⟩ := List.rdropWhile_prefix isSpaceChar (l := c :: s)
    cases hline : (c :: s).rdropWhile isSpaceChar with
    | nil => exact absurd hline hne
    | cons x line =>
      rw [hline, List.cons_append] at ht
      exact ⟨line, congrArg (· :: line) (List.cons.inj ht).1⟩
  by_cases hempty : trimmed (c :: s) = []
  · rw [lineSignals, if_pos hempty]
    rfl
  · obtain ⟨t, ht⟩ := hhead _ rfl hempty
    have hhead : addressPrefix.isPrefixOf (c :: t) = false := by
      have hchars : addressPrefix = 'Y' :: "our public address: ".toList := rfl
      rw [hchars, List.isPrefixOf_cons_cons, beq_eq_false_iff_ne.mpr hother.symm, Bool.false_and]
    rw [lineSignals, if_neg hempty, ht, if_neg (Bool.eq_false_iff.mp hhead)]
    rfl

end Trimming
end VSwitch
