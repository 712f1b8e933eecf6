import Iuring.IPAddress
import Iuring.SendPacket

namespace Iuring

open Lib.Memory

inductive ReceivePostAction
  | none
  | reSubmit
deriving DecidableEq

structure AcceptResult where
  newFd : Int
  address : IPAddress
deriving DecidableEq

/-- The enumerator UNKNOWN of SocketPortID. -/
def unknownPort : SocketPortID := 0xffff

def AcceptResult.getType (res : AcceptResult) : SocketType :=
  match res.address.getIpv4, res.address.getIpv6 with
  | some _, _ => .ipv4Tcp
  | none, some _ => .ipv6Tcp
  | none, none => .unknown

def AcceptResult.getPort (res : AcceptResult) : SocketPortID :=
  match res.address.getIpv4, res.address.getIpv6 with
  | some addr, _ => addr.sinPort
  | none, some addr => addr.sin6Port
  | none, none => unknownPort

structure SendResult where
  status : Int
deriving DecidableEq

structure ConnectResult where
  status : Int
  address : IPAddress
deriving DecidableEq

structure CloseResult where
  status : Int
deriving DecidableEq

/-- The bytes between begin() and end() at the time of the call. -/
structure ReceivedMessage where
  data : List Byte
  sourceAddress : IPAddress
deriving DecidableEq

/-- The name of a function object that the user passed in. -/
abbrev CallbackFn := Nat

inductive Callback
  | connect (fn : CallbackFn)
  | accept (fn : CallbackFn)
  | recv (fn : CallbackFn)
  | send (fn : CallbackFn)
  | close (fn : CallbackFn)
deriving DecidableEq

inductive CallbackResult
  | connect (result : ConnectResult)
  | accept (newConn : AcceptResult)
  | recv (payload : ReceivedMessage)
  | send (result : SendResult)
  | close (result : CloseResult)
deriving DecidableEq

/-- One call of user code by the library. -/
structure Call where
  fn : CallbackFn
  result : CallbackResult
deriving DecidableEq

/-- The dscp_t and timetolive_t enumerations are bytes. -/
structure DatagramSendParameters where
  destinationAddress : IPAddress
  dscp : BitVec 8
  ttl : BitVec 8
deriving DecidableEq, Inhabited

inductive WorkType
  | unknown
  | accept
  | sendStreamData
  | sendWorkpacket
  | recv
  | connect
  | close
deriving DecidableEq, Inhabited

/-- Where a pointer in a work item's own message header points. -/
inductive Pointer
  | null
  | bufferForUring
  | socketAddress
  | sendPacket
  | control
  | msgIov
deriving DecidableEq, Inhabited

structure Iovec where
  iovBase : Pointer
  iovLen : Nat
deriving DecidableEq, Inhabited

structure Msghdr where
  msgName : Pointer
  msgNamelen : Nat
  msgIov : Pointer
  msgIovlen : Nat
  msgControl : Pointer
  msgControllen : Nat
  msgFlags : Nat
deriving DecidableEq, Inhabited

inductive State
  | inUse
  | free
deriving DecidableEq, Inhabited

/-- The members that the constructor leaves with whatever the memory held. -/
structure Uninitialized where
  dscp : BitVec 8
  ttl : BitVec 8
  sendPacketBuf : Nat → Byte
  control : Nat → Byte
  msg : Msghdr
  bufferForUring : Nat → Byte
deriving Inhabited

structure WorkItem where
  params : DatagramSendParameters
  state : State
  sendPacket : SendPacket
  id : Nat
  callback : Option Callback
  control : Nat → Byte
  socket : Socket
  msg : Msghdr
  msgIov : Iovec
  sa : IPAddress
  bufferForUring : Nat → Byte
  acceptSockLen : Nat
  connectSockLen : Nat
  descr : String
  linkToNextRequest : Bool
  workType : WorkType
deriving Inhabited

namespace WorkItem

def create (id : Nat) (descr : String) (socket : Socket) (mem : Uninitialized) : WorkItem where
  params := ⟨{}, mem.dscp, mem.ttl⟩
  state := .inUse
  sendPacket := ⟨0, mem.sendPacketBuf⟩
  id := id
  callback := none
  control := mem.control
  socket := socket
  msg := mem.msg
  msgIov := ⟨.null, 0⟩
  sa := {}
  bufferForUring := mem.bufferForUring
  acceptSockLen := 0
  connectSockLen := 0
  descr := descr
  linkToNextRequest := false
  workType := .unknown

def isFree (item : WorkItem) : Bool := item.state = .free

def markIsFree (item : WorkItem) : Result WorkItem := do
  assert (item.state = .inUse)
  return { item with state := .free }

def isStream (item : WorkItem) : Bool := item.socket.isStream

def nextRequestShouldWaitForThisRequest (item : WorkItem) : Bool := item.linkToNextRequest

def cleanSendPacket (item : WorkItem) : WorkItem :=
  { item with sendPacket := item.sendPacket.reset }

/-- The packet handed to the caller has been emptied first. -/
def getSendPacket (item : WorkItem) : WorkItem := item.cleanSendPacket

def append (data : List Byte) (item : WorkItem) : Result WorkItem := do
  let packet ← item.sendPacket.append data
  return { item with sendPacket := packet }

/-- The fields that a submit overload sets before it calls IOUring::submit. -/
def submitAs (type : WorkType) (cb : Callback) (item : WorkItem) : WorkItem :=
  { item with callback := some cb, workType := type }

def submitRecv (cb : CallbackFn) (item : WorkItem) : WorkItem := item.submitAs .recv (.recv cb)

def submitAccept (cb : CallbackFn) (item : WorkItem) : WorkItem := item.submitAs .accept (.accept cb)

def submitClose (cb : CallbackFn) (item : WorkItem) : WorkItem := item.submitAs .close (.close cb)

def submitStreamData (cb : CallbackFn) (item : WorkItem) : WorkItem :=
  item.submitAs .sendStreamData (.send cb)

def submitPacket (params : DatagramSendParameters) (cb : CallbackFn) (item : WorkItem) : WorkItem :=
  { item with params := params }.submitAs .sendWorkpacket (.send cb)

def submitConnect (target : IPAddress) (cb : CallbackFn) (item : WorkItem) : Result WorkItem := do
  let len ← target.sizeSockaddr
  assert (len ≤ sizeofSockaddrStorage)
  let sockaddr ← target.dataSockaddr
  return { item with connectSockLen := len, bufferForUring := write item.bufferForUring 0 sockaddr
    }.submitAs .connect (.connect cb)

def callSendCallback (status : Int) (item : WorkItem) : Result Call :=
  match item.callback with
  | some (.send fn) => .ok ⟨fn, .send ⟨status⟩⟩
  | _ => .error .assertFailed

def callCloseCallback (status : Int) (item : WorkItem) : Result Call :=
  match item.callback with
  | some (.close fn) => .ok ⟨fn, .close ⟨status⟩⟩
  | _ => .error .assertFailed

def callRecvCallback (payload : ReceivedMessage) (item : WorkItem) : Result Call :=
  match item.callback with
  | some (.recv fn) => .ok ⟨fn, .recv payload⟩
  | _ => .error .assertFailed

def callAcceptCallback (newConn : AcceptResult) (item : WorkItem) : Result Call :=
  match item.callback with
  | some (.accept fn) => .ok ⟨fn, .accept newConn⟩
  | _ => .error .assertFailed

def callConnectCallback (newConn : ConnectResult) (item : WorkItem) : Result Call :=
  match item.callback with
  | some (.connect fn) => .ok ⟨fn, .connect newConn⟩
  | _ => .error .assertFailed

end WorkItem

end Iuring
