import VSwitch.Startup.AddPeers

/-! The constructor of a UDP port: what it checks, in which order, and the port it leaves. -/
namespace VSwitch
open Lib

/-- A number of `inet_pton`: up to 255, without leading zeros. -/
def octet (digits : Text) : Option Nat :=
  if digits ≠ [] ∧ digits.all Char.isDigit ∧ (1 < digits.length → digits.head? ≠ some '0') ∧
      decimalValue digits ≤ 255 then some (decimalValue digits)
  else none

/-- `inet_pton` for IPv4: four numbers between dots. -/
def inetPton (s : Text) : Option UInt32 :=
  match s.splitOn '.' with
  | [a, b, c, d] => do
    let a ← octet a
    let b ← octet b
    let c ← octet c
    let d ← octet d
    return UInt32.ofNat (a * 2 ^ 24 + b * 2 ^ 16 + c * 2 ^ 8 + d)
  | _ => none

/-- What a constructor meets: whether `socket` succeeds, and the addresses and ports to which
`bind` fails. -/
structure Host where
  socketOpens : Bool
  refuses : UInt32 → UInt16 → Bool

def bindFailed : StartupError := .runtime "Failed to bind UDP socket".toList

def PortArgs.port (args : PortArgs) : UdpPort :=
  ⟨⟨(inetPton args.config.remoteIp).getD 0, args.config.remotePort⟩, args.key⟩

/-- `UdpPort::UdpPort`, up to the punches. -/
def UdpPort.create (host : Host) (args : PortArgs) : Except StartupError UdpPort :=
  if host.socketOpens = false then .error (.runtime "Failed to create UDP socket".toList)
  else match inetPton args.config.localIp with
    | none => .error (.runtime ("Invalid local IP: ".toList ++ args.config.localIp))
    | some localAddr =>
      if host.refuses localAddr args.config.localPort then .error bindFailed
      else match inetPton args.config.remoteIp with
        | none => .error (.runtime ("Invalid remote IP: ".toList ++ args.config.remoteIp))
        | some addr => .ok ⟨⟨addr, args.config.remotePort⟩, args.key⟩

namespace UdpPort
variable {host : Host} {args : PortArgs}

end UdpPort
end VSwitch
