import VSwitch.Fabric.Announcer
import VSwitch.Fabric.ExactlyOnce
import VSwitch.Fabric.FullMesh
import VSwitch.Fabric.Mtu
import VSwitch.Fabric.Questions
import VSwitch.Fabric.Quiescence
import VSwitch.Fabric.SharedKey
import VSwitch.Gui.Containers
import VSwitch.Gui.Invitation
import VSwitch.Network.Discovery
import VSwitch.Network.Framing
import VSwitch.Network.PortLearning
import VSwitch.Network.StunBounds
import VSwitch.Startup.Fallback
import VSwitch.Startup.Main
import VSwitch.Switch.Keepalive
import VSwitch.Switch.LearningBridge
import VSwitch.Switch.ProxyArp
import VSwitch.Traversal.Punching
import VSwitch.Tunnel.Carriage
