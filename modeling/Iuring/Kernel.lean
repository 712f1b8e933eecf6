import Iuring.WorkPool
import Iuring.BufferPool
import Iuring.ControlMessages
import Iuring.RecvMsg

namespace Iuring

open Lib Lib.Memory

/-- What the io_uring_prep_* call writes into a submission entry. Addresses of
the item's own members stay with the item, which the request names. -/
inductive Op
  | close (fd : Int)
  | accept (fd : Int)
  | connect (fd : Int) (sockaddr : List Byte)
  | recv (fd : Int) (len : Nat)
  | recvmsgMultishot (fd : Int)
  | send (fd : Int) (len : Nat)
  | sendmsg (fd : Int)
deriving DecidableEq

namespace Op

def fd : Op → Int
  | .close fd | .accept fd | .connect fd _ | .recv fd _ | .recvmsgMultishot fd | .send fd _
  | .sendmsg fd => fd

def isMultishot : Op → Bool
  | .recvmsgMultishot _ => true
  | _ => false

def isRecv : Op → Bool
  | .recv _ _ | .recvmsgMultishot _ => true
  | _ => false

end Op

structure Sqe where
  userData : Nat
  op : Op
  ioLink : Bool
  bufferSelect : Bool
deriving DecidableEq

/-- A submission entry with its place in the order of submission and the item
object whose submission made it. -/
structure Request where
  seq : Nat
  owner : Nat
  sqe : Sqe
deriving DecidableEq

/-- The address that accept(2) reports, with the port in host order. -/
inductive Peer
  | ipv4 (addr : BitVec 32) (port : SocketPortID)
  | ipv6 (addr : BitVec 128) (port : SocketPortID) (flowinfo scopeId : BitVec 32)
deriving DecidableEq, Inhabited

def Peer.sockaddr : Peer → List Byte
  | .ipv4 addr port => (SockaddrIn.mk afInet (htons port) addr 0).bytes
  | .ipv6 addr port flowinfo scopeId =>
    (SockaddrIn6.mk afInet6 (htons port) flowinfo addr scopeId).bytes

/-- A completion entry. The request, the bytes taken and the peer are not part
of the entry that the library reads. -/
structure Completion where
  req : Request
  res : Int
  flags : BitVec 32
  accepted : List Byte
  peer : Option Peer
deriving DecidableEq

namespace Completion

def userData (cqe : Completion) : Nat := cqe.req.sqe.userData

def cqeFBuffer : BitVec 32 := 1

def cqeFMore : BitVec 32 := 2

def hasBuffer (cqe : Completion) : Bool := cqe.flags &&& cqeFBuffer ≠ 0

def hasMore (cqe : Completion) : Bool := cqe.flags &&& cqeFMore ≠ 0

def idx (cqe : Completion) : Nat := (cqe.flags >>> 16).toNat

end Completion

/-- The locals of a dispatch that waits for the user's callback to return. -/
structure Frame where
  workItem : Nat
  id : Nat
  type : WorkType
  idx : Nat
deriving DecidableEq

inductive Event
  | submitted (req : Request)
  | dispatched (cqe : Completion) (found : Option Nat)
  | called (workItem : Nat) (call : Call)
  | released (workItem : Nat)
deriving DecidableEq

/-- The library and its kernel ring: `sq` holds the entries not yet handed
over, `consumed` all that were, `armed` those not finished, and `posted` every
completion, of which the library has passed the first `cqHead`; `memory` is what data is
received into, the entries of the buffer ring and the work items being values of their own. -/
structure IOUring where
  initialized : Bool
  queueSize : Nat
  buffers : BufferPool
  pool : WorkPool
  sq : List Request
  consumed : List Request
  armed : List Request
  posted : List Completion
  cqHead : Nat
  memory : Nat → Byte
  frames : List Frame
  handles : List Nat
  trace : List Event

namespace IOUring

def pending (s : IOUring) : List Completion := s.posted.drop s.cqHead

def item (s : IOUring) (o : Nat) : WorkItem := s.pool.objs o

def setItem (o : Nat) (item : WorkItem) (s : IOUring) : IOUring :=
  { s with pool := s.pool.setItem o item }

def emit (e : Event) (s : IOUring) : IOUring := { s with trace := s.trace ++ [e] }

/-- What the kernel decides when it finishes a request. -/
structure Outcome where
  res : Int
  flags : BitVec 32
  peer : Peer
  data : Nat → Option Byte

/-- A request joined to its predecessor waits until that one has finished. -/
def blocked (s : IOUring) (req : Request) : Bool :=
  s.armed.any (fun p => p.sqe.ioLink && p.seq + 1 == req.seq)

/-- accept(2) writes at most the length passed in and reports the actual one. -/
def acceptPeer (peer : Peer) (item : WorkItem) : WorkItem :=
  { item with
    bufferForUring := write item.bufferForUring 0 (peer.sockaddr.take item.acceptSockLen)
    acceptSockLen := peer.sockaddr.length }

/-- The buffer at the head of the ring receives the data; its id is in the flags. -/
def receive (k : Outcome) (s : IOUring) : Result IOUring :=
  match s.buffers.bufRing.pick with
  | none => .error .notEnabled
  | some (buf, ring) => do
    Checked.ensure .notEnabled ((k.flags >>> 16).toNat = buf.bid)
    return { s with
      buffers := { s.buffers with bufRing := ring }
      memory := overlay s.memory buf.addr buf.len k.data }

/-- What finishing the request does to memory before its completion is posted. -/
def deliver (req : Request) (k : Outcome) (s : IOUring) : Result IOUring :=
  match req.sqe.op with
  | .accept _ =>
    if 0 ≤ k.res then return s.setItem req.owner (acceptPeer k.peer (s.item req.owner)) else return s
  | .recv _ _ | .recvmsgMultishot _ =>
    if k.flags &&& Completion.cqeFBuffer ≠ 0 then s.receive k else return s
  | .close _ | .connect _ _ | .send _ _ | .sendmsg _ => return s

/-- The bytes that a stream send takes from the item's packet. -/
def accepted (req : Request) (k : Outcome) (s : IOUring) : List Byte :=
  match req.sqe.op with
  | .send _ len => ((s.item req.owner).sendPacket.data len).take k.res.toNat
  | _ => []

def completion (req : Request) (k : Outcome) (s : IOUring) : Completion where
  req := req
  res := k.res
  flags := k.flags
  accepted := s.accepted req k
  peer := if 0 ≤ k.res ∧ req.sqe.op = .accept req.sqe.op.fd then some k.peer else none

/-- The kernel finishes the i-th armed request; a multishot one stays armed
when its completion carries IORING_CQE_F_MORE. -/
def complete (i : Nat) (k : Outcome) (s : IOUring) : Result IOUring :=
  match s.armed[i]? with
  | none => .error .notEnabled
  | some req => do
    Checked.ensure .notEnabled (s.blocked req = false)
    let cqe := s.completion req k
    let s ← s.deliver req k
    return { s with
      armed := if req.sqe.op.isMultishot ∧ cqe.hasMore then s.armed else s.armed.eraseIdx i
      posted := s.posted ++ [cqe] }

end IOUring

end Iuring
