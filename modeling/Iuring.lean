import Iuring.Matching
import Iuring.BufferOwnership
import Iuring.DispatchOnce
import Iuring.Reporting
import Iuring.Stranding
import Iuring.Arming
import Iuring.HostnameRouting
import Iuring.Descriptors
import Iuring.AcceptedPeer
import Iuring.StreamSend
import Iuring.StreamOrder
import Iuring.RingPool
import Iuring.AddressOrder
import Iuring.StackContents
import Iuring.ConnectTarget
import Iuring.StaleBytes
import Iuring.DispatchFaults
import Iuring.SendReuse
import Iuring.PacketContents
import Iuring.DatagramHeader
import Iuring.MacAddress
import Iuring.RingSetup
import Iuring.RequestOrder
import Iuring.AddressEquality
import Iuring.AcceptedSocket
import Iuring.AddressLiterals
import Iuring.ResolverReentry
import Iuring.ResolverLoops
import Iuring.BufferCycle
import Iuring.WorkPoolTable
import Iuring.DatagramDelivery
import Iuring.SentDatagram
import Iuring.Probe
import Iuring.Lifecycle
import Iuring.KernelOrder
import Iuring.SeveralRings
import Iuring.SocketImpl
import Iuring.EchoServer
import Iuring.Ping
