import Mathlib.Data.List.Nodup
import VSwitch.Core.EthernetFrame
import VSwitch.Lib.AgedTable

/-! The switch proper: MAC learning, aging, proxy ARP and forwarding, as the body of
`run` computes them for one received frame. Ports are the identities of the owned
objects. Clock values are nanoseconds; one iteration reads the one value `now`. -/
namespace VSwitch
open Lib EthernetFrame

/-- A `uint32_t` filled by `memcpy`; only its four bytes are ever compared. -/
abbrev Ip := Fin 4 → UInt8

def ethertypeArp : UInt16 := 0x0806
def arpRequest : UInt16 := 1
def arpReply : UInt16 := 2
def fdbAgingTime : Int := 300
def ageCheckInterval : Int := 5

/-- `duration_cast<seconds>(now - t).count()`, truncating towards zero. -/
def secondsSince (now t : Int) : Int := (now - t).tdiv 1000000000

structure MacEntry (P : Type) where
  port : P
  learnedAt : Int
  deriving DecidableEq

structure IpMacEntry where
  mac : Mac
  learnedAt : Int
  deriving DecidableEq

/-- The packed ARP body, its 16-bit fields already in host order. -/
@[ext] structure ArpPacket where
  htype : UInt16
  ptype : UInt16
  hlen : UInt8
  plen : UInt8
  oper : UInt16
  sha : Mac
  spa : Ip
  tha : Mac
  tpa : Ip
  deriving DecidableEq

/-- `reinterpret_cast<const ArpPacket*>(data + 14)`. -/
def ArpPacket.overlay (data : Bytes) : ArpPacket where
  htype := be16 data 14
  ptype := be16 data 16
  hlen := data.getD 18 0
  plen := data.getD 19 0
  oper := be16 data 20
  sha := copyOut 6 data 22
  spa := copyOut 4 data 28
  tha := copyOut 6 data 32
  tpa := copyOut 4 data 38

def getEthertype (data : Bytes) : UInt16 := be16 data 12

/-- The packed structure in memory, its 16-bit fields in network order. -/
def ArpPacket.bytes (arp : ArpPacket) : Bytes :=
  htons arp.htype ++ htons arp.ptype ++ [arp.hlen, arp.plen] ++ htons arp.oper ++
    List.ofFn arp.sha ++ List.ofFn arp.spa ++ List.ofFn arp.tha ++ List.ofFn arp.tpa

/-- The 42 bytes of `reply`. -/
def arpReplyFrame (arp : ArpPacket) (targetMac : Mac) : Bytes :=
  EthernetFrame.build arp.sha targetMac 0x0806 (ArpPacket.bytes
    { htype := 1, ptype := 0x0800, hlen := 6, plen := 4, oper := arpReply
      sha := targetMac, spa := arp.tpa, tha := arp.sha, tpa := arp.spa })

/-- The members of the class. The owned ports are distinct objects. -/
structure VirtualSwitch (P : Type) where
  macAddressTable : Table String (MacEntry P)
  ipToMac : Table Ip IpMacEntry
  ports : List P
  lastAgeCheck : Int
  ports_nodup : ports.Nodup

/-- What one pass through the loop body leaves: the members, whether `handle_arp`
returned true, and the calls of `Port::write` in order. -/
structure Outcome (P : Type) where
  switch : VirtualSwitch P
  answered : Bool
  writes : List (P × Bytes)

namespace VirtualSwitch
variable {P : Type}

/-- A switch constructed at `now` that owns `ports`. -/
def create (ports : List P) (h : ports.Nodup) (now : Int) : VirtualSwitch P :=
  ⟨fun _ => none, fun _ => none, ports, now, h⟩

def learnMacAddress (sw : VirtualSwitch P) (mac : Mac) (port : P) (now : Int) :
    VirtualSwitch P :=
  { sw with macAddressTable := sw.macAddressTable.put (macToString mac) ⟨port, now⟩ }

def expired (now learnedAt : Int) : Bool := secondsSince now learnedAt > fdbAgingTime

def ageOutMacEntries (sw : VirtualSwitch P) (now : Int) : VirtualSwitch P :=
  { sw with
    macAddressTable := sw.macAddressTable.eraseIf fun e => expired now e.learnedAt
    ipToMac := sw.ipToMac.eraseIf fun e => expired now e.learnedAt }

/-- The age check of the loop body. -/
def ageCheck (sw : VirtualSwitch P) (now : Int) : VirtualSwitch P :=
  if secondsSince now sw.lastAgeCheck ≥ ageCheckInterval then
    { sw.ageOutMacEntries now with lastAgeCheck := now }
  else sw

/-- Learning and the age check, which come before `handle_arp` and `forward_frame`. -/
def refresh (sw : VirtualSwitch P) (mac : Mac) (source : P) (now : Int) : VirtualSwitch P :=
  (sw.learnMacAddress mac source now).ageCheck now

/-- The cache update of `handle_arp`; sender address zero is not cached. -/
def cacheSender (sw : VirtualSwitch P) (arp : ArpPacket) (now : Int) : VirtualSwitch P :=
  if arp.spa ≠ 0 then { sw with ipToMac := sw.ipToMac.put arp.spa ⟨arp.sha, now⟩ } else sw

def handleArp (sw : VirtualSwitch P) (data : Bytes) (source : P) (now : Int) : Outcome P :=
  if data.length < 14 + 28 then ⟨sw, false, []⟩
  else
    let arp := ArpPacket.overlay data
    if arp.htype ≠ 1 ∨ arp.ptype ≠ 0x0800 then ⟨sw, false, []⟩
    else if arp.hlen ≠ 6 ∨ arp.plen ≠ 4 then ⟨sw, false, []⟩
    else
      let sw := sw.cacheSender arp now
      if arp.oper ≠ arpRequest ∨ arp.tpa = arp.spa then ⟨sw, false, []⟩
      else match sw.ipToMac arp.tpa with
        | none => ⟨sw, false, []⟩
        | some entry => ⟨sw, true, [(source, arpReplyFrame arp entry.mac)]⟩

/-- The short-circuit condition that guards `forward_frame` in the loop body. -/
def arpStage (sw : VirtualSwitch P) (data : Bytes) (source : P) (now : Int) : Outcome P :=
  if getEthertype data = ethertypeArp then sw.handleArp data source now else ⟨sw, false, []⟩

variable [DecidableEq P]

/-- The two flooding loops of `forward_frame`. -/
def flood (sw : VirtualSwitch P) (data : Bytes) (source : P) : List (P × Bytes) :=
  (sw.ports.filter (· ≠ source)).map fun port => (port, data)

def forwardFrame (sw : VirtualSwitch P) (frame : EthernetFrame) (data : Bytes) (source : P) :
    List (P × Bytes) :=
  if isMulticast frame.dstMac then sw.flood data source
  else match sw.macAddressTable (macToString frame.dstMac) with
    | some entry => if entry.port ≠ source then [(entry.port, data)] else []
    | none => sw.flood data source

/-- The loop body of `run` after the frame has been parsed. -/
def switchFrame (sw : VirtualSwitch P) (frame : EthernetFrame) (data : Bytes) (source : P)
    (now : Int) : Outcome P :=
  let sw := sw.refresh frame.srcMac source now
  let arp := sw.arpStage data source now
  if arp.answered then arp
  else { arp with writes := arp.switch.forwardFrame frame data source }

/-- The loop body of `run` on a frame that `read` returned. -/
def processFrame (sw : VirtualSwitch P) (data : Bytes) (source : P) (now : Int) :
    Except Fault (Outcome P) := do
  let frame ← EthernetFrame.parse data
  return sw.switchFrame frame data source now

end VirtualSwitch

/-- A frame received on `port` in an iteration whose clock reads `now`. -/
structure Arrival (P : Type) where
  now : Int
  port : P
  data : Bytes
  deriving DecidableEq

def VirtualSwitch.replay {P : Type} [DecidableEq P] (sw : VirtualSwitch P)
    (arrivals : List (Arrival P)) : Except Fault (VirtualSwitch P) :=
  arrivals.foldlM (fun sw a => Outcome.switch <$> sw.processFrame a.data a.port a.now) sw

end VSwitch
