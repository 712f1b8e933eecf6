import Iuring.Lib.Transition
import Iuring.IOUring

namespace Iuring

open Lib

/-- What the user, the library's own callbacks included, and the kernel can do next. -/
inductive Action
  | submitAccept (socket : Socket) (handler : CallbackFn) (mem : Uninitialized)
  | submitConnect (socket : Socket) (target : IPAddress) (handler : CallbackFn)
      (mem : Uninitialized)
  | submitRecv (socket : Socket) (handler : CallbackFn) (mem : Uninitialized)
  | submitClose (socket : Socket) (handler : CallbackFn) (mem : Uninitialized)
  | ackuireSendWorkitem (socket : Socket) (mem : Uninitialized)
  | getSendPacket (workItem : Nat)
  | append (workItem : Nat) (data : List Memory.Byte)
  | submitStreamData (workItem : Nat) (cb : CallbackFn)
  | submitPacket (workItem : Nat) (params : DatagramSendParameters) (cb : CallbackFn)
  | send (socket : Socket) (msg : StdString) (cb : CallbackFn) (mem : Uninitialized)
  | pollCompletionQueues
  | callbackReturns (ret : ReceivePostAction)
  | complete (i : Nat) (outcome : IOUring.Outcome)

namespace IOUring

/-- A user that holds the work item changes it through its interface. -/
def onHandle (o : Nat) (f : IOUring → Result IOUring) (s : IOUring) : Result IOUring := do
  Checked.ensure .notEnabled (o ∈ s.handles)
  f s

/-- What io_uring_submit does in get_sqe, on a full queue, and at the end of a submission. -/
structure Flushes where
  retry : Flush
  final : Flush

/-- A user call between two polls and a user call inside a callback are the
same step: the frames tell which dispatches are in progress. -/
def flushedStep (f : Flushes) : Action → IOUring → Result IOUring
  | .submitAccept socket handler mem, s => s.submitAccept socket handler mem f.retry f.final
  | .submitConnect socket target handler mem, s =>
    s.submitConnect socket target handler mem f.retry f.final
  | .submitRecv socket handler mem, s => s.submitRecv socket handler mem f.retry f.final
  | .submitClose socket handler mem, s => s.submitClose socket handler mem f.retry f.final
  | .ackuireSendWorkitem socket mem, s => do
    let (o, s) ← s.ackuireSendWorkitem socket mem
    return { s with handles := o :: s.handles }
  | .getSendPacket o, s => s.onHandle o (fun s => .ok (s.setItem o (s.item o).getSendPacket))
  | .append o data, s => s.onHandle o (fun s => do
      let item ← (s.item o).append data
      return s.setItem o item)
  | .submitStreamData o cb, s =>
    s.onHandle o fun s => s.submitItem o (fun item => .ok (item.submitStreamData cb)) f.retry f.final
  | .submitPacket o params cb, s =>
    s.onHandle o fun s => s.submitItem o (fun item => .ok (item.submitPacket params cb)) f.retry
      f.final
  | .send socket msg cb mem, s => s.send socket msg cb mem f.retry f.final
  | .pollCompletionQueues, s => s.pollCompletionQueues f.retry f.final
  | .callbackReturns ret, s => s.callbackReturns ret f.retry f.final
  | .complete i outcome, s => s.complete i outcome

/-- A step in which every io_uring_submit hands over all that is queued. Flushing shows
what the runs with other answers have in common with the runs of these steps. -/
def step : Action → IOUring → Result IOUring := flushedStep ⟨.all, .all⟩

/-- The ring after an init() for which mmap and the registration succeeded. -/
def initial (queueSize mapped : Nat) (memory : Nat → Memory.Byte) : IOUring :=
  ((create queueSize memory).init ⟨some mapped, 0⟩).2

end IOUring

end Iuring
