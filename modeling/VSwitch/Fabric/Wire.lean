import VSwitch.Fabric.Network
import VSwitch.Lib.Simulation
import VSwitch.Switch.Datagrams

/-! The same network one level down: every switch runs its loop over sockets, and what travels
are datagrams, sealed or not, among punches and whatever else arrives. -/
namespace VSwitch
open Lib EthernetFrame

/-- How the programs of a network are started: their ports, the `--key` of each, and the
address that switch `v` is told for its peer `w`. -/
structure Wiring (V T : Type) where
  topo : Topology V T
  key : V → Option Key
  remote : V → V → SockAddr

/-- A datagram from the socket of `src` towards `dst`; `tag` numbers the injected frame behind
it, and a punch has none. -/
structure Parcel (V : Type) where
  tag : Option Nat
  src : V
  dst : V
  payload : Bytes
  deriving DecidableEq

/-- The loops and the datagrams in flight. The rest is history, as in `Net`. -/
structure Wire (V T : Type) where
  loops : V → EventLoop (NetPort V T)
  flight : List (Parcel V)
  writes : List (PortWrite V T)
  injected : List (Injection V T)
  answered : Nat

/-- Randomness is drawn when a port encrypts. The source port of a datagram is what the
networks in between have made of it. -/
inductive WireAction (V T : Type) where
  | inject (i : Injection V T) (now : Int) (nonces : NetPort V T → Nonce)
  | deliver (p : Parcel V) (srcPort : UInt16) (now : Int) (nonces : NetPort V T → Nonce)
  | stray (v : V) (port : NetPort V T) (recv : Recv)
  | timeout (v : V)
  | lose (p : Parcel V)
  | duplicate (p : Parcel V)

/-- No datagram is lost or duplicated, and no frame is too long for a datagram. -/
def WireAction.reliable {V T : Type} : WireAction V T → Bool
  | .lose _ => false
  | .duplicate _ => false
  | .inject i _ _ => i.data.length ≤ maxPacket - 4
  | _ => true

def WireAction.single {V T : Type} : WireAction V T → Bool
  | .duplicate _ => false
  | _ => true

namespace Wiring
variable {V T : Type} (wiring : Wiring V T)

def device (v : V) : NetPort V T → Device
  | .tap _ => .tap
  | .link w => .udp ⟨wiring.remote v w, wiring.key v⟩

/-- The two ends of every link have the same key, or none. -/
def Matched : Prop := ∀ v w, wiring.topo.graph.Adj v w → wiring.key v = wiring.key w

/-- The copy that a datagram in flight stands for: what the port it is meant for would take
out of it. -/
def carried (A : Aead) (p : Parcel V) : Option (Copy V) :=
  ((wiring.device p.dst (.link p.src : NetPort V T)).frame A
    (.datagram (wiring.remote p.dst p.src) p.payload)).map
      fun frame => ⟨p.tag.getD 0, p.src, p.dst, frame⟩

end Wiring

namespace Wire
variable {V T : Type} [DecidableEq V] [DecidableEq T]

def start (wiring : Wiring V T) (now : V → Int) : Wire V T :=
  ⟨fun v => ⟨.create (wiring.topo.ports v) (wiring.topo.ports_nodup v) (now v), wiring.device v⟩,
    [], [], [], 0⟩

def parcel (v : V) (tag : Option Nat) : NetPort V T × Sent → Option (Parcel V)
  | (.link w, sent) => some ⟨tag, v, w, sent.payload⟩
  | (.tap _, _) => none

/-- The loop of switch `v` is done with an event. -/
def absorb (wire : Wire V T) (v : V) (tag : Option Nat) (answered : Bool)
    (served : Served (NetPort V T)) : Wire V T where
  loops := fun u => if u = v then served.loop else wire.loops u
  flight := wire.flight ++ served.sent.filterMap (parcel v tag)
  writes := wire.writes ++ served.writes.map fun (port, data) => ⟨tag.getD 0, v, port, data⟩
  injected := wire.injected
  answered := wire.answered + if answered then 1 else 0

variable (A : Aead) (w : SizeT) (wiring : Wiring V T)

/-- The loop of switch `v` reads a port; a fault ends the run. -/
def read (wire : Wire V T) (v : V) (tag : Option Nat) (r : Reading (NetPort V T)) :
    Option (Wire V T) :=
  match (wire.loops v).step A w (.reading r) with
  | .error _ => none
  | .ok served => some (wire.absorb v tag ((wire.loops v).answers A w r) served)

def inject (wire : Wire V T) (i : Injection V T) : Wire V T :=
  { wire with injected := wire.injected ++ [i] }

def take (wire : Wire V T) (p : Parcel V) : Wire V T := { wire with flight := wire.flight.erase p }

/-- A TAP hands over at most a buffer. A stray read is one that yields no frame: an error, a
punch, a datagram from a stranger or one that does not decrypt. -/
def step (wire : Wire V T) : WireAction V T → Option (Wire V T)
  | .inject i now nonces =>
    if (wiring.topo.ports i.switch).contains (.tap i.tap) ∧ i.data ≠ [] ∧
        i.data.length ≤ maxFrameSize then
      (wire.inject i).read A w i.switch (some wire.injected.length)
        ⟨.tap i.tap, .datagram ⟨0, 0⟩ i.data, now, nonces⟩
    else none
  | .deliver p srcPort now nonces =>
    if p ∈ wire.flight then
      (wire.take p).read A w p.dst p.tag
        ⟨.link p.src, .datagram ⟨(wiring.remote p.dst p.src).addr, srcPort⟩ p.payload, now, nonces⟩
    else none
  | .stray v port recv =>
    if ((wire.loops v).device port).frame A recv = none then
      wire.read A w v none ⟨port, recv, 0, fun _ => 0⟩
    else none
  | .timeout v =>
    some (wire.absorb v none false ⟨wire.loops v, [], (wire.loops v).keepalives⟩)
  | .lose p => if p ∈ wire.flight then some (wire.take p) else none
  | .duplicate p => if p ∈ wire.flight then some { wire with flight := p :: wire.flight } else none

/-- How often copies of frame `tag` were written to a port. -/
def writesTo (wire : Wire V T) (tag : Nat) (v : V) (port : NetPort V T) : Nat :=
  wire.writes.countP fun x => x.tag = tag ∧ x.switch = v ∧ x.port = port

def Steps (wire : Wire V T) (a : WireAction V T) (wire' : Wire V T) : Prop :=
  wire.step A w wiring a = some wire'

end Wire
end VSwitch
