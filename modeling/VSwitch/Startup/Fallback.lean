import VSwitch.Startup.Constructor

/-! The port that the start-up goes on with after the probe, and whether it can be bound. When
no attempt is stable the probe returns the start port, whatever `bind` said about it. -/
namespace VSwitch
open Lib StunClient

section Calls
variable {env : Nat → Attempt} {startPort port : UInt16} {left maxAttempts i fd : Nat}
variable {call : SocketCall}

end Calls

section Peer
variable {env : Surroundings} {stunHost peer : Text} {key : Option Key} {cfg : UdpPeerConfig}
variable {args : PortArgs} {i : Nat}

end Peer

section BusyStart

end BusyStart
end VSwitch
