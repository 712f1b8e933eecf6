import Iuring.Lib.Desk
import Iuring.Sound

namespace Iuring

open Lib

def Request.id (req : Request) : Nat := req.sqe.userData

/-- What becomes of requests and items, with the contents of memory left out. -/
@[ext]
structure Ledger where
  desk : Desk Nat Nat Request
  kind : Nat → WorkType
  next : Nat
  handles : List Nat
  consumed : List Request
  posted : List Completion
  cqHead : Nat
  frames : List Frame
  trace : List Event

namespace IOUring

/-- Items hold slots, and requests are their tickets until a poll is done with them. -/
def desk (s : IOUring) : Desk Nat Nat Request := ⟨s.pool.at?, s.armed, s.pending.map (·.req)⟩

def kind (s : IOUring) (o : Nat) : WorkType := (s.item o).workType

def ledger (s : IOUring) : Ledger where
  desk := s.desk
  kind := s.kind
  next := s.pool.nextObj
  handles := s.handles
  consumed := s.consumed
  posted := s.posted
  cqHead := s.cqHead
  frames := s.frames
  trace := s.trace

/-- No callback polls. -/
def Unnested (s : IOUring) (a : Action) : Prop := a.polls = true → s.frames = []

instance (s : IOUring) (a : Action) : Decidable (s.Unnested a) :=
  inferInstanceAs (Decidable (_ → _))

/-- The frame of a dispatch of the completion at the head, waiting for a callback. -/
structure Running (s : IOUring) (frame : Frame) (cqe : Completion) : Prop where
  res : cqe.res ≠ -enobufs
  id : frame.id = cqe.userData
  idx : frame.idx = cqe.idx
  holds : s.pool.at? frame.id = some frame.workItem

/-- What holds in every state of a run without nested polls. -/
structure Dispatching (s : IOUring) : Prop where
  sound : Sound s
  head : s.cqHead ≤ s.posted.length
  frames : s.frames = [] ∨
    ∃ frame cqe rest, s.frames = [frame] ∧ s.pending = cqe :: rest ∧ s.Running frame cqe
  reserved : ∀ o ∈ s.handles, s.kind o = .unknown → s.pool.at? (s.item o).id = some o

/-- A dispatch that the step brings to its end, at once or after the user's callback. -/
structure Ending (s : IOUring) (cqe : Completion) (rest : List Completion) (o : Nat)
    (type : WorkType) (ret : ReceivePostAction) (events : List Event) (a : Action) : Prop where
  pending : s.pending = cqe :: rest
  holds : s.pool.at? cqe.userData = some o
  res : cqe.res ≠ -enobufs
  known : type ≠ .unknown
  becomes : type.Becomes (s.kind o)
  source :
    (a = .pollCompletionQueues ∧ s.frames = [] ∧ type = s.kind o ∧
      events = [.dispatched cqe (some o)] ∧
      ∃ recycle, s.callHandler (s.item o) cqe = .ok (.returned ret recycle)) ∨
    (a = .callbackReturns ret ∧ events = [] ∧
      ∃ frame, s.frames = [frame] ∧ frame.workItem = o ∧ frame.type = type)

/-- Everything that one step can do to the ledger in a run without nested polls. -/
inductive Tracked (s s' : IOUring) : Action → Prop
  | opened {a : Action} (socket : Socket) (req : Request) (hopens : a.opens = some socket)
      (hfresh : req.owner = s.pool.nextObj) (hvacant : s.pool.at? req.id = none)
      (heq : s'.ledger = { s.ledger with
        desk := (s.desk.assign req.id req.owner).issue req
        kind := Function.update s.kind req.owner req.sqe.op.workType
        next := req.owner + 1
        consumed := s.consumed ++ [req]
        trace := s.trace ++ [.submitted req] }) : Tracked s s' a
  | acquired (socket : Socket) (mem : Uninitialized) (o id : Nat) (hfresh : o = s.pool.nextObj)
      (hvacant : s.pool.at? id = none)
      (heq : s'.ledger = { s.ledger with
        desk := s.desk.assign id o
        kind := Function.update s.kind o .unknown
        next := o + 1
        handles := o :: s.handles }) : Tracked s s' (.ackuireSendWorkitem socket mem)
  | edited {a : Action} (hopens : a.opens = none) (hsubmits : a.submits = none)
      (heq : s'.ledger = s.ledger) : Tracked s s' a
  | submitted {a : Action} (req : Request) (hsubmits : a.submits = some req.owner)
      (hheld : req.owner ∈ s.handles) (hid : req.id = (s.item req.owner).id)
      (hsend : req.sqe.op.workType.isSend = true)
      (heq : s'.ledger = { s.ledger with
        desk := s.desk.issue req
        kind := Function.update s.kind req.owner req.sqe.op.workType
        consumed := s.consumed ++ [req]
        trace := s.trace ++ [.submitted req] }) : Tracked s s' a
  | idle (heq : s'.ledger = s.ledger) : Tracked s s' .pollCompletionQueues
  | missed (cqe : Completion) (rest : List Completion) (hframes : s.frames = [])
      (hpending : s.pending = cqe :: rest) (hat : s.pool.at? cqe.userData = none)
      (heq : s'.ledger = { s.ledger with
        desk := s.desk.settle
        cqHead := s.cqHead + 1
        frames := []
        trace := s.trace ++ [.dispatched cqe none] }) : Tracked s s' .pollCompletionQueues
  | exhausted (cqe : Completion) (rest : List Completion) (o : Nat) (hframes : s.frames = [])
      (hpending : s.pending = cqe :: rest) (hat : s.pool.at? cqe.userData = some o)
      (hres : cqe.res = -enobufs)
      (heq : s'.ledger = { s.ledger with
        desk := s.desk.settle
        cqHead := s.cqHead + 1
        frames := []
        trace := s.trace ++ [.dispatched cqe (some o)] }) : Tracked s s' .pollCompletionQueues
  | entered (cqe : Completion) (rest : List Completion) (o : Nat) (call : Call)
      (hframes : s.frames = []) (hpending : s.pending = cqe :: rest)
      (hat : s.pool.at? cqe.userData = some o) (hres : cqe.res ≠ -enobufs)
      (hcall : s.callHandler (s.item o) cqe = .ok (.called call))
      (heq : s'.ledger = { s.ledger with
        frames := [s.frameOf cqe o]
        trace := s.trace ++ [.dispatched cqe (some o), .called o call] }) :
      Tracked s s' .pollCompletionQueues
  | rearmed {a : Action} (cqe : Completion) (rest : List Completion) (o : Nat) (type : WorkType)
      (ret : ReceivePostAction) (events : List Event) (req : Request)
      (hend : s.Ending cqe rest o type ret events a)
      (htype : type = .accept ∨ type = .recv ∧ ret = .reSubmit) (howner : req.owner = o)
      (hid : req.id = cqe.userData) (hop : req.sqe.op.workType = type)
      (heq : s'.ledger = { s.ledger with
        desk := s.desk.settle.issue req
        consumed := s.consumed ++ [req]
        cqHead := s.cqHead + 1
        frames := []
        trace := s.trace ++ events ++ [.submitted req] }) : Tracked s s' a
  | freed {a : Action} (cqe : Completion) (rest : List Completion) (o : Nat) (type : WorkType)
      (ret : ReceivePostAction) (events : List Event)
      (hend : s.Ending cqe rest o type ret events a)
      (htype : type ≠ .accept ∧ (type = .recv → ret = .none))
      (heq : s'.ledger = { s.ledger with
        desk := s.desk.settle.vacate cqe.userData
        cqHead := s.cqHead + 1
        frames := []
        trace := s.trace ++ events ++ [.released o] }) : Tracked s s' a
  | completed (i : Nat) (k : Outcome) (req : Request) (harmed : s.armed[i]? = some req)
      (heq : s'.ledger = { s.ledger with
        desk := s.desk.answer i req (req.sqe.op.isMultishot && (s.completion req k).hasMore)
        posted := s.posted ++ [s.completion req k] }) : Tracked s s' (.complete i k)

end IOUring

end Iuring
