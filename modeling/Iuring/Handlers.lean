import Iuring.Steps

namespace Iuring

open Lib

namespace IOUring

/-- Everything that a handler can do with a completion of its item. -/
inductive Answered (item : WorkItem) (cqe : Completion) : Handled → Prop
  | closed (fn : CallbackFn) (htype : item.workType = .close) :
      Answered item cqe (.called ⟨fn, .close ⟨cqe.res⟩⟩)
  | failed (htype : item.workType = .accept ∨ item.workType = .connect ∨
      item.workType.isSend = true) (hres : cqe.res < 0) : Answered item cqe (.returned .none false)
  | sent (fn : CallbackFn) (htype : item.workType.isSend = true) (hres : 0 ≤ cqe.res) :
      Answered item cqe (.called ⟨fn, .send ⟨cqe.res⟩⟩)
  | connected (fn : CallbackFn) (htype : item.workType = .connect) (hres : 0 ≤ cqe.res) :
      Answered item cqe (.called ⟨fn, .connect ⟨cqe.res, connectAddress item⟩⟩)
  | accepted (fn : CallbackFn) (addr : IPAddress) (htype : item.workType = .accept)
      (hres : 0 ≤ cqe.res)
      (haddr : IPAddress.ofSockaddrStorage item.bufferForUring item.acceptSockLen = .ok addr) :
      Answered item cqe (.called ⟨fn, .accept ⟨cqe.res, addr⟩⟩)
  | received (fn : CallbackFn) (payload : ReceivedMessage) (htype : item.workType = .recv)
      (hres : 0 ≤ cqe.res) : Answered item cqe (.called ⟨fn, .recv payload⟩)
  | interrupted (htype : item.workType = .recv) (hres : cqe.res = eaiIntr) :
      Answered item cqe (.returned .reSubmit false)
  | rejected (htype : item.workType = .recv) (hres : 0 ≤ cqe.res) :
      Answered item cqe (.returned .reSubmit true)

theorem callSendCallback_ok {item : WorkItem} {cqe : Completion} {handled : Handled}
    (ht : item.workType.isSend = true) (h : callSendCallback item cqe = .ok handled) :
    Answered item cqe handled := by
  rw [callSendCallback] at h
  split at h
  · rename_i hneg
    cases h
    exact .failed (.inr (.inr ht)) hneg
  · rename_i hres
    obtain ⟨call, hc, he⟩ := Checked.bind_eq_ok.mp h
    cases he
    rw [WorkItem.callSendCallback] at hc
    split at hc <;> cases hc
    exact .sent _ ht (Int.not_lt.mp hres)

theorem callCloseCallback_ok {item : WorkItem} {cqe : Completion} {handled : Handled}
    (ht : item.workType = .close) (h : callCloseCallback item cqe = .ok handled) :
    Answered item cqe handled := by
  obtain ⟨call, hc, he⟩ := Checked.bind_eq_ok.mp h
  cases he
  rw [WorkItem.callCloseCallback] at hc
  split at hc <;> cases hc
  exact .closed _ ht

theorem callConnectCallback_ok {item : WorkItem} {cqe : Completion} {handled : Handled}
    (ht : item.workType = .connect) (h : callConnectCallback item cqe = .ok handled) :
    Answered item cqe handled := by
  rw [callConnectCallback] at h
  split at h
  · rename_i hneg
    cases h
    exact .failed (.inr (.inl ht)) hneg
  · rename_i hres
    obtain ⟨call, hc, he⟩ := Checked.bind_eq_ok.mp h
    cases he
    rw [WorkItem.callConnectCallback] at hc
    split at hc <;> cases hc
    exact .connected _ ht (Int.not_lt.mp hres)

theorem callAcceptCallback_ok {item : WorkItem} {cqe : Completion} {handled : Handled}
    (ht : item.workType = .accept) (h : callAcceptCallback item cqe = .ok handled) :
    Answered item cqe handled := by
  rw [callAcceptCallback] at h
  split at h
  · rename_i hneg
    cases h
    exact .failed (.inl ht) hneg
  · rename_i hres
    obtain ⟨addr, haddr, h⟩ := Checked.bind_eq_ok.mp h
    obtain ⟨call, hc, he⟩ := Checked.bind_eq_ok.mp h
    cases he
    rw [WorkItem.callAcceptCallback] at hc
    split at hc <;> cases hc
    exact .accepted _ addr ht (Int.not_lt.mp hres) haddr

theorem received_of_call {item : WorkItem} {cqe : Completion} {payload : ReceivedMessage}
    {handled : Handled} (ht : item.workType = .recv) (hres : 0 ≤ cqe.res)
    (h : (do return .called (← item.callRecvCallback payload)) = (.ok handled : Result Handled)) :
    Answered item cqe handled := by
  obtain ⟨call, hc, he⟩ := Checked.bind_eq_ok.mp h
  cases he
  rw [WorkItem.callRecvCallback] at hc
  split at hc <;> cases hc
  exact .received _ payload ht hres

theorem callRecvHandlerDatagram_ok {buffer : Nat → Memory.Byte} {item : WorkItem}
    {cqe : Completion} {handled : Handled} (ht : item.workType = .recv) (hres : 0 ≤ cqe.res)
    (h : callRecvHandlerDatagram buffer item cqe = .ok handled) : Answered item cqe handled := by
  rw [callRecvHandlerDatagram] at h
  dsimp only at h
  split at h
  · cases h
  · split at h
    · cases h
      exact .rejected ht hres
    · split at h
      · cases h
        exact .rejected ht hres
      · split at h
        · cases h
          exact .rejected ht hres
        · obtain ⟨_, _, h⟩ := Checked.bind_eq_ok.mp h
          exact received_of_call ht hres h

theorem callRecvCallback_ok {buffer : Nat → Memory.Byte} {item : WorkItem} {cqe : Completion}
    {handled : Handled} (ht : item.workType = .recv)
    (h : callRecvCallback buffer item cqe = .ok handled) : Answered item cqe handled := by
  rw [callRecvCallback] at h
  split at h
  · split at h
    · rename_i hintr
      cases h
      exact .interrupted ht hintr
    · cases h
  · rename_i hres
    split at h
    · exact received_of_call ht (Int.not_lt.mp hres) h
    · exact callRecvHandlerDatagram_ok ht (Int.not_lt.mp hres) h

theorem callHandler_ok {s : IOUring} {item : WorkItem} {cqe : Completion} {handled : Handled}
    (h : s.callHandler item cqe = .ok handled) : Answered item cqe handled := by
  rw [callHandler] at h
  cases ht : item.workType with
  | unknown =>
    rw [ht] at h
    cases h
  | accept =>
    rw [ht] at h
    exact callAcceptCallback_ok ht h
  | close =>
    rw [ht] at h
    exact callCloseCallback_ok ht h
  | recv =>
    rw [ht] at h
    exact callRecvCallback_ok ht h
  | connect =>
    rw [ht] at h
    exact callConnectCallback_ok ht h
  | sendStreamData | sendWorkpacket =>
    rw [ht] at h
    exact callSendCallback_ok (by rw [ht]; rfl) h

end IOUring

end Iuring
