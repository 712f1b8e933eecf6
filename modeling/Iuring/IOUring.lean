import Iuring.Kernel

namespace Iuring

open Lib Lib.Memory

/-- What one io_uring_submit does: fail, hand over a number of the queued
entries, or hand over all of them. -/
inductive Flush
  | failed
  | took (count : Nat)
  | all
deriving DecidableEq

namespace IOUring

def enobufs : Int := 105

/-- The getaddrinfo constant EAI_INTR of glibc. -/
def eaiIntr : Int := -104

def create (queueSize : Nat) (memory : Nat → Byte) : IOUring where
  initialized := false
  queueSize := queueSize
  buffers := .create
  pool := .empty
  sq := []
  consumed := []
  armed := []
  posted := []
  cqHead := 0
  memory := memory
  frames := []
  handles := []
  trace := []

def init (outcome : BufferPool.SetupOutcome) (s : IOUring) : BufferPool.Error × IOUring :=
  let ret := s.buffers.setupBufferPool outcome
  (ret.1, { s with buffers := ret.2, initialized := true })

def recycleBuffer (idx : Nat) (s : IOUring) : IOUring :=
  { s with buffers := s.buffers.recycleBuffer idx }

def submitAllRequests (flush : Flush) (s : IOUring) : IOUring :=
  let take (n : Nat) : IOUring :=
    { s with sq := s.sq.drop n, consumed := s.consumed ++ s.sq.take n, armed := s.armed ++ s.sq.take n }
  match flush with
  | .failed => s
  | .took n => take n
  | .all => take s.sq.length

def getSqe (flush : Flush) (s : IOUring) : Result IOUring :=
  if s.sq.length < s.queueSize then return s
  else
    let s := s.submitAllRequests flush
    if s.sq.length < s.queueSize then return s else abort

/-- The switch of IOUring::submit over the type of the item. -/
def prepare (bufferSize : Nat) (item : WorkItem) : Result (WorkItem × Sqe) :=
  let fd := item.socket.fd
  let link := item.nextRequestShouldWaitForThisRequest
  match item.workType with
  | .unknown => abort
  | .close => return (item, ⟨item.id, .close fd, false, false⟩)
  | .accept => return ({ item with acceptSockLen := 0 }, ⟨item.id, .accept fd, false, false⟩)
  | .connect => do
    assert (0 < item.connectSockLen)
    assert (item.connectSockLen = sizeofSockaddrIn)
    let sockaddr := read item.bufferForUring 0 item.connectSockLen
    return (item, ⟨item.id, .connect fd sockaddr, link, false⟩)
  | .recv =>
    if item.isStream then return (item, ⟨item.id, .recv fd bufferSize, false, true⟩)
    else
      return ({ item with
        msg := ⟨.bufferForUring, sizeofSockaddrStorage, .msgIov, 1, .null, 0, 0⟩
        msgIov := { item.msgIov with iovBase := .null } },
        ⟨item.id, .recvmsgMultishot fd, false, true⟩)
  | .sendStreamData => do
    assert (item.isStream = true)
    return (item, ⟨item.id, .send fd item.sendPacket.size, link, false⟩)
  | .sendWorkpacket => do
    assert (item.isStream = false)
    let item ← item.initSendMsg
    return (item, ⟨item.id, .sendmsg fd, link, false⟩)

def submit (retry final : Flush) (o : Nat) (s : IOUring) : Result IOUring := do
  let s ← s.getSqe retry
  let (item, sqe) ← prepare s.buffers.bufferSize (s.item o)
  let req : Request := ⟨s.consumed.length + s.sq.length, o, sqe⟩
  let s := (s.setItem o item).emit (.submitted req)
  return { s with sq := s.sq ++ [req] }.submitAllRequests final

/-- How a handler ends: it is inside the user's callback, or it returned
without calling it, in the case of a recv with or without recycling the buffer. -/
inductive Handled
  | called (call : Call)
  | returned (ret : ReceivePostAction) (recycle : Bool)
deriving DecidableEq

def callCloseCallback (item : WorkItem) (cqe : Completion) : Result Handled := do
  return .called (← item.callCloseCallback cqe.res)

def callSendCallback (item : WorkItem) (cqe : Completion) : Result Handled :=
  if cqe.res < 0 then return .returned .none false
  else do return .called (← item.callSendCallback cqe.res)

/-- The address is read back from the item's buffer by its family field. -/
def connectAddress (item : WorkItem) : IPAddress :=
  let family := load16 item.bufferForUring 0
  if family = afInet then .ofSockaddrIn (.load item.bufferForUring 0)
  else if family = afInet6 then .ofSockaddrIn6 (.load item.bufferForUring 0)
  else {}

def callConnectCallback (item : WorkItem) (cqe : Completion) : Result Handled :=
  if cqe.res < 0 then return .returned .none false
  else do return .called (← item.callConnectCallback ⟨cqe.res, connectAddress item⟩)

def callAcceptCallback (item : WorkItem) (cqe : Completion) : Result Handled :=
  if cqe.res < 0 then return .returned .none false
  else do
    let addr ← IPAddress.ofSockaddrStorage item.bufferForUring item.acceptSockLen
    return .called (← item.callAcceptCallback ⟨cqe.res, addr⟩)

def callRecvHandlerStream (buffer : Nat → Byte) (item : WorkItem) (cqe : Completion) :
    Result Handled := do
  return .called (← item.callRecvCallback ⟨read buffer 0 cqe.res.toNat, {}⟩)

/-- The source address of a datagram, by the length of its name. -/
def sourceAddress (buffer : Nat → Byte) (namelen : Nat) : Result IPAddress :=
  if namelen = 0 ∨ namelen = sizeofSockaddrIn then
    return .ofSockaddrIn (.load buffer RecvMsg.nameOffset)
  else if namelen = sizeofSockaddrIn6 then
    return .ofSockaddrIn6 (.load buffer RecvMsg.nameOffset)
  else abort

def callRecvHandlerDatagram (buffer : Nat → Byte) (item : WorkItem) (cqe : Completion) :
    Result Handled :=
  let namelen := item.msg.msgNamelen
  let controllen := item.msg.msgControllen
  if cqe.hasBuffer = false then abort
  else
    match RecvMsg.validate buffer cqe.res.toNat namelen controllen with
    | none => return .returned .reSubmit true
    | some out =>
      if sizeofSockaddrStorage < out.namelen then return .returned .reSubmit true
      else if out.flags &&& RecvMsg.msgTrunc ≠ 0 then return .returned .reSubmit true
      else do
        let addr ← sourceAddress buffer out.namelen
        let payload := read buffer (RecvMsg.payloadOffset namelen controllen)
          (RecvMsg.payloadLength cqe.res.toNat namelen controllen)
        return .called (← item.callRecvCallback ⟨payload, addr⟩)

def callRecvCallback (buffer : Nat → Byte) (item : WorkItem) (cqe : Completion) : Result Handled :=
  if cqe.res < 0 then
    if cqe.res = eaiIntr then return .returned .reSubmit false else abort
  else if item.isStream then callRecvHandlerStream buffer item cqe
  else callRecvHandlerDatagram buffer item cqe

/-- The switch of call_callback_and_free_work_item_id, up to the user's callback. -/
def callHandler (s : IOUring) (item : WorkItem) (cqe : Completion) : Result Handled :=
  match item.workType with
  | .accept => callAcceptCallback item cqe
  | .close => callCloseCallback item cqe
  | .recv => callRecvCallback (fun i => s.memory (s.buffers.getBuffer cqe.idx + i)) item cqe
  | .connect => callConnectCallback item cqe
  | .sendStreamData | .sendWorkpacket => callSendCallback item cqe
  | .unknown => .error .assertFailed

def freeWorkItem (id : Nat) (s : IOUring) : Result IOUring := do
  let pool ← s.pool.freeWorkItem id
  let s := match s.pool.at? id with
    | some o => s.emit (.released o)
    | none => s
  return { s with pool := pool }

def cqAdvance (s : IOUring) : IOUring := { s with cqHead := s.cqHead + 1 }

/-- The rest of the switch of call_callback_and_free_work_item_id once the
handler has returned. What the io_uring_submit calls of a submission do is given
last, here and below; where it is not given, the kernel takes every entry. -/
def settle (frame : Frame) (ret : ReceivePostAction) (s : IOUring)
    (retry final : Flush := .all) : Result IOUring :=
  match frame.type with
  | .accept => s.submit retry final frame.workItem
  | .recv =>
    match ret with
    | .none => s.freeWorkItem frame.id
    | .reSubmit => s.submit retry final frame.workItem
  | .close | .connect | .sendStreamData | .sendWorkpacket => s.freeWorkItem frame.id
  | .unknown => .error .assertFailed

/-- With the advance of the completion queue by poll_completion_queues. -/
def afterHandler (frame : Frame) (ret : ReceivePostAction) (s : IOUring)
    (retry final : Flush := .all) : Result IOUring := do
  let s ← s.settle frame ret retry final
  return s.cqAdvance

def enterCallback (frame : Frame) (call : Call) (s : IOUring) : IOUring :=
  { s.emit (.called frame.workItem call) with frames := frame :: s.frames }

def callCallbackAndFreeWorkItemId (cqe : Completion) (s : IOUring)
    (retry final : Flush := .all) : Result IOUring := do
  let found ← s.pool.getWorkItem cqe.userData
  let s := s.emit (.dispatched cqe found)
  match found with
  | none => return s.cqAdvance
  | some o =>
    if cqe.res = -enobufs then return s.cqAdvance
    else
      let frame : Frame := ⟨o, cqe.userData, (s.item o).workType, cqe.idx⟩
      match ← s.callHandler (s.item o) cqe with
      | .called call => return s.enterCallback frame call
      | .returned ret recycle =>
        afterHandler frame ret (if recycle then s.recycleBuffer frame.idx else s) retry final

/-- One poll handles the entry at the head, if there is one; an entry past the
last posted one was never written by the kernel. -/
def pollCompletionQueues (s : IOUring) (retry final : Flush := .all) : Result IOUring :=
  if s.posted.length < s.cqHead then .error .outOfBounds
  else
    match s.pending with
    | [] => return s
    | cqe :: _ => s.callCallbackAndFreeWorkItemId cqe retry final

/-- The innermost callback returns to the dispatch that called it. -/
def callbackReturns (ret : ReceivePostAction) (s : IOUring) (retry final : Flush := .all) :
    Result IOUring :=
  match s.frames with
  | [] => .error .notEnabled
  | frame :: frames =>
    let s := { s with frames := frames }
    match frame.type with
    | .sendStreamData | .sendWorkpacket =>
      afterHandler frame ret (s.setItem frame.workItem (s.item frame.workItem).cleanSendPacket)
        retry final
    | .recv => afterHandler frame ret (s.recycleBuffer frame.idx) retry final
    | .unknown | .accept | .connect | .close => afterHandler frame ret s retry final

/-- A submit overload of WorkItem: set the fields, then IOUring::submit. -/
def submitItem (o : Nat) (set : WorkItem → Result WorkItem) (s : IOUring)
    (retry final : Flush := .all) : Result IOUring := do
  let item ← set (s.item o)
  (s.setItem o item).submit retry final o

/-- The alloc_*_work_item functions that submit the item they allocate. -/
def allocWorkItem (socket : Socket) (descr : String) (mem : Uninitialized)
    (set : WorkItem → Result WorkItem) (s : IOUring) (retry final : Flush := .all) :
    Result IOUring := do
  assert (s.initialized = true)
  let (o, pool) := s.pool.internalAllocWorkItem socket descr mem
  submitItem o set { s with pool := pool } retry final

def submitAccept (socket : Socket) (handler : CallbackFn) (mem : Uninitialized) (s : IOUring)
    (retry final : Flush := .all) : Result IOUring := do
  assert (socket.kind = .serverStreamSocket)
  s.allocWorkItem socket "accept-job" mem (fun item => .ok (item.submitAccept handler)) retry final

def submitConnect (socket : Socket) (target : IPAddress) (handler : CallbackFn)
    (mem : Uninitialized) (s : IOUring) (retry final : Flush := .all) : Result IOUring :=
  s.allocWorkItem socket "connect-job" mem (WorkItem.submitConnect target handler) retry final

def submitRecv (socket : Socket) (handler : CallbackFn) (mem : Uninitialized) (s : IOUring)
    (retry final : Flush := .all) : Result IOUring :=
  s.allocWorkItem socket "read-from-socket" mem (fun item => .ok (item.submitRecv handler)) retry
    final

def submitClose (socket : Socket) (handler : CallbackFn) (mem : Uninitialized) (s : IOUring)
    (retry final : Flush := .all) : Result IOUring :=
  s.allocWorkItem socket "close-of-socket" mem (fun item => .ok (item.submitClose handler)) retry
    final

def ackuireSendWorkitem (socket : Socket) (mem : Uninitialized) (s : IOUring) :
    Result (Nat × IOUring) := do
  assert (s.initialized = true)
  let (o, pool) := s.pool.internalAllocWorkItem socket "write-from-socket" mem
  return (o, { s with pool := pool })

/-- SocketImpl::send. -/
def send (socket : Socket) (msg : StdString) (cb : CallbackFn) (mem : Uninitialized)
    (s : IOUring) (retry final : Flush := .all) : Result IOUring := do
  let (o, s) ← s.ackuireSendWorkitem socket mem
  s.submitItem o (fun item => do
    let item ← item.getSendPacket.append msg.bytes
    return item.submitStreamData cb) retry final

end IOUring

end Iuring
