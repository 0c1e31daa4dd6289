import VSwitch.Network.UdpPort

/-! The two ends of the tunnel between a host and the container with its switch. In the
container, `relay` copies IP packets between `tun0` and a UDP socket; on the host, the helper
copies them between that socket and a utun device, which puts an address family in front. -/
namespace VSwitch

/-- A UDP payload with the address it comes from, or goes to. -/
structure Datagram where
  peer : SockAddr
  payload : Bytes
  deriving DecidableEq

/-- The size of `buff`, and of `out`, at both ends. -/
def tunnelBuffer : Nat := 2048
def ipHeaderSize : Nat := 20
def afInet : Nat := 2

/-- `relay` between two polls: `mac`, where the last datagram came from, and whether one came. -/
structure Relay where
  mac : SockAddr
  haveMac : Bool
  deriving DecidableEq

/-- What a turn of the loop of `relay` leaves: its variables, the calls of `sendto` and what is
written to `tun0`. -/
structure RelayTurn where
  relay : Relay
  sent : List Datagram
  written : List Bytes

namespace Relay

def start : Relay := ⟨⟨0, 0⟩, false⟩

/-- `tun0` gave a packet. -/
def fromTun (r : Relay) (packet : Bytes) : List Datagram :=
  let buff := packet.take tunnelBuffer
  if buff ≠ [] ∧ r.haveMac = true then [⟨r.mac, buff⟩] else []

/-- `recvfrom` stores the sender of whatever it receives. -/
def receive (r : Relay) (d : Datagram) : Relay := ⟨d.peer, r.haveMac || d.payload ≠ []⟩

/-- What the socket gave is written to `tun0` if it can be an IP packet. -/
def toTun (payload : Bytes) : List Bytes :=
  let buff := payload.take tunnelBuffer
  if ipHeaderSize ≤ buff.length then [buff] else []

/-- One turn of the loop, with what `read` and `recvfrom` gave, `tun0` first. -/
def turn (r : Relay) (packet : Option Bytes) (datagram : Option Datagram) : RelayTurn where
  relay := datagram.elim r r.receive
  sent := packet.elim [] r.fromTun
  written := datagram.elim [] fun d => toTun d.payload

end Relay

/-- A return of `poll` in the helper: nothing came for five seconds, or this is what `read` and
`recvfrom` then gave, where they were called and did not fail. -/
inductive HelperPoll where
  | timeout
  | ready (frame payload : Option Bytes)
  deriving DecidableEq

namespace HelperPoll

def frame : HelperPoll → Option Bytes
  | .timeout => none
  | .ready frame _ => frame

def payload : HelperPoll → Option Bytes
  | .timeout => none
  | .ready _ payload => payload

end HelperPoll

/-- What a turn of the loop of the helper does: the payloads it sends to the relay, and what it
writes to the utun device. -/
structure HelperTurn where
  sent : List Bytes
  written : List Bytes

namespace Helper

def hello : Bytes := [0, 0, 0, 0]

def fromUtun (frame : Bytes) : List Bytes :=
  let buff := frame.take tunnelBuffer
  if 4 < buff.length then [buff.drop 4] else []

/-- What the socket gave is written behind `AF_INET`. -/
def toUtun (payload : Bytes) : List Bytes :=
  let data := payload.take (tunnelBuffer - 4)
  if data ≠ [] then [htonl afInet ++ data] else []

def turn : HelperPoll → HelperTurn
  | .timeout => ⟨[hello], []⟩
  | .ready frame payload => ⟨frame.elim [] fromUtun, payload.elim [] toUtun⟩

end Helper

/-- What becomes of a packet of the host on its way to `tun0`. -/
def inbound (frame : Bytes) : List Bytes := (Helper.fromUtun frame).flatMap Relay.toTun

/-- What becomes of a packet of the container on its way to the utun device. -/
def outbound (packet : Bytes) : List Bytes := Helper.toUtun (packet.take tunnelBuffer)

/-- The packet in a frame of the utun device, which comes behind its address family: at least an
IP header of it. -/
def packetOf (frame : Bytes) : List Bytes :=
  if 24 ≤ frame.length then [(frame.take 2048).drop 4] else []

/-- A packet as a frame for the utun device, the address family always that of IPv4. -/
def frameOf (packet : Bytes) : List Bytes :=
  if packet ≠ [] then [[0, 0, 0, 2] ++ packet.take 2044] else []

theorem inbound_eq : inbound = packetOf := by
  funext frame
  have hlength : ((frame.take 2048).drop 4).length = min 2048 frame.length - 4 := by
    rw [List.length_drop, List.length_take]
  have hcut : ((frame.take 2048).drop 4).take 2048 = (frame.take 2048).drop 4 :=
    List.take_of_length_le (by rw [hlength]; omega)
  unfold inbound packetOf Helper.fromUtun Relay.toTun tunnelBuffer ipHeaderSize
  by_cases hlong : 24 ≤ frame.length
  · have hframe : 4 < (frame.take 2048).length := by
      rw [List.length_take]
      omega
    have hpacket : 20 ≤ ((frame.take 2048).drop 4).length := by omega
    simp only [if_pos hframe, List.flatMap_singleton, hcut, if_pos hpacket, if_pos hlong]
  · have hpacket : ¬ 20 ≤ ((frame.take 2048).drop 4).length := by omega
    rw [if_neg hlong]
    by_cases hframe : 4 < (frame.take 2048).length
    · simp only [if_pos hframe, List.flatMap_singleton, hcut, if_neg hpacket]
    · simp only [if_neg hframe, List.flatMap_nil]

theorem outbound_eq : outbound = frameOf := by
  funext packet
  have hfamily : htonl afInet = [0, 0, 0, 2] := by decide
  have htake : (packet.take 2048).take 2044 = packet.take 2044 := by
    rw [List.take_take]
    rfl
  unfold outbound frameOf Helper.toUtun tunnelBuffer
  simp only [htake, hfamily]
  cases packet <;> rfl

theorem Helper.written_turn (poll : HelperPoll) :
    (Helper.turn poll).written = poll.payload.elim [] Helper.toUtun := by
  cases poll <;> rfl

/-- A hello is no packet. -/
theorem Helper.sent_turn (poll : HelperPoll) :
    (Helper.turn poll).sent.flatMap Relay.toTun = poll.frame.toList.flatMap inbound := by
  cases poll with
  | timeout => rfl
  | ready frame payload =>
    cases frame with
    | none => rfl
    | some frame => simp [HelperPoll.frame, Helper.turn, inbound]

/-- The relay sends nothing before it has heard from the helper. -/
theorem Relay.fromTun_outbound (r : Relay) (packet : Bytes) :
    ((r.fromTun packet).flatMap fun d => Helper.toUtun d.payload) =
      if r.haveMac = true then outbound packet else [] := by
  unfold Relay.fromTun
  by_cases hmac : r.haveMac = true
  · by_cases hpacket : packet.take tunnelBuffer = []
    · simp [hmac, hpacket, outbound, Helper.toUtun]
    · simp [hmac, hpacket, outbound]
  · simp [hmac]

end VSwitch
