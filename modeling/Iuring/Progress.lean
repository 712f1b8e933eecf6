import Iuring.Dispatch
import Iuring.Items

namespace Iuring

open Lib

namespace IOUring

variable {s s' t : IOUring} {a : Action}

theorem config_of_settled {frame : Frame} {ret : ReceivePostAction} (hs : Settled frame ret t s') :
    s'.initialized = t.initialized ∧ s'.queueSize = t.queueSize := by
  cases hs with
  | rearmed _ _ _ _ heq | freed _ _ _ _ _ heq => exact heq ▸ ⟨rfl, rfl⟩

theorem leaveCallback_config (frame : Frame) (frames : List Frame) :
    (s.leaveCallback frame frames).initialized = s.initialized ∧
      (s.leaveCallback frame frames).queueSize = s.queueSize := by
  rw [leaveCallback]
  cases frame.type <;> exact ⟨rfl, rfl⟩

theorem Sound.config (h : Sound s) (hs : Stepped s s' a) :
    s'.initialized = s.initialized ∧ s'.queueSize = s.queueSize := by
  cases hs with
  | opened _ _ _ _ _ _ _ _ _ _ _ _ heq | acquired _ _ _ _ _ heq | edited _ _ _ _ _ heq
  | submitted _ _ _ _ _ _ _ _ _ heq => exact heq ▸ ⟨rfl, rfl⟩
  | polled _ hpoll =>
    cases hpoll with
    | idle _ heq | missed _ _ _ _ heq | exhausted _ _ _ _ _ _ heq | entered _ _ _ _ _ _ _ _ heq =>
      exact heq ▸ ⟨rfl, rfl⟩
    | returned _ _ _ _ _ _ _ _ _ hafter =>
      obtain ⟨_, hst, _⟩ := settled_of_returned h.sq hafter
      have hc := config_of_settled hst
      exact hc
  | returned ret frame frames hframes hafter =>
    have hst := afterHandler_ok (h.leaveCallback hframes).sq hafter
    obtain ⟨hi, hq⟩ := leaveCallback_config (s := s) frame frames
    exact ⟨(config_of_settled hst).1.trans hi, (config_of_settled hst).2.trans hq⟩
  | completed _ _ _ _ _ _ hdeliver heq =>
    subst heq
    cases hdeliver with
    | nothing _ _ heq | peer _ _ heq | buffer _ _ _ _ _ _ heq => exact heq ▸ ⟨rfl, rfl⟩

/-- The ring is initialized and has room for an entry. -/
structure Ready (s : IOUring) : Prop where
  sound : Sound s
  initialized : s.initialized = true
  room : 0 < s.queueSize

theorem initial_ready {queueSize : Nat} (hroom : 0 < queueSize) (mapped : Nat)
    (memory : Nat → Memory.Byte) : Ready (initial queueSize mapped memory) :=
  ⟨initial_sound queueSize mapped memory, rfl, hroom⟩

theorem Ready.reaches (h : Ready s) {guard : IOUring → Action → Prop}
    (hr : Transition.Reaches IOUring.step guard s s') : Ready s' := by
  refine hr.invariant (fun u a v hu _ hs => ?_) h
  obtain ⟨hi, hq⟩ := hu.sound.config (step_ok hu.sound.sq hs)
  exact ⟨hu.sound.step hs, hi.trans hu.initialized, hq ▸ hu.room⟩

/-- With room in the ring a submission does what preparing the entry does. -/
theorem submit_eq (hq : s.sq = []) (hroom : 0 < s.queueSize) (o : Nat) :
    s.submit .all .all o =
      (prepare s.buffers.bufferSize (s.item o)).map (fun p => s.arm o p.1 p.2) := by
  have hget : s.getSqe .all = .ok s := by
    rw [getSqe]
    rw [hq]
    exact if_pos hroom
  rw [submit]
  rw [hget, Checked.bind_ok]
  cases prepare s.buffers.bufferSize (s.item o) with
  | error e => rfl
  | ok p => simp [Except.map, Checked.bind_ok, pure, Except.pure, submitAllRequests, arm, setItem,
      emit, hq]

theorem Ready.submitItem_eq (h : Ready s) (o : Nat) (set : WorkItem → Result WorkItem) :
    s.submitItem o set = (set (s.item o) >>= fun item₀ =>
      (prepare s.buffers.bufferSize item₀).map (fun p => s.arm o p.1 p.2)) := by
  rw [submitItem]
  cases set (s.item o) with
  | error e => rfl
  | ok item₀ =>
    have hs := submit_eq (s := s.setItem o item₀) h.sound.sq h.room o
    rw [item_setItem, if_pos rfl] at hs
    rw [Checked.bind_ok, Checked.bind_ok, hs]
    simp only [arm, setItem, WorkPool.setItem, Function.update_idem]

theorem Ready.allocWorkItem_eq (h : Ready s) (socket : Socket) (descr : String)
    (mem : Uninitialized) (set : WorkItem → Result WorkItem) {o : Nat} {pool : WorkPool}
    (halloc : s.pool.internalAllocWorkItem socket descr mem = (o, pool)) :
    s.allocWorkItem socket descr mem set = (set (pool.objs o) >>= fun item₀ =>
      (prepare s.buffers.bufferSize item₀).map
        (fun p => ({ s with pool := pool } : IOUring).arm o p.1 p.2)) := by
  have hready : Ready { s with pool := pool } :=
    ⟨h.sound.allocated halloc, h.initialized, h.room⟩
  have hassert : assert (s.initialized = true) = .ok () := (assert_eq_ok _ _).mpr h.initialized
  refine Eq.trans ?_ (hready.submitItem_eq o set)
  rw [allocWorkItem]
  rw [hassert, Checked.bind_ok, halloc]

/-- A poll that finds an item for the completion at the head does what the handler does. -/
theorem Sound.poll_eq (h : Sound s) {cqe : Completion} {rest : List Completion} {o : Nat}
    (hpending : s.pending = cqe :: rest) (hat : s.pool.at? cqe.userData = some o)
    (hres : cqe.res ≠ -enobufs) : s.pollCompletionQueues =
      (s.callHandler (s.item o) cqe >>= fun handled =>
        match handled with
        | .called call =>
          .ok ((s.emit (.dispatched cqe (some o))).enterCallback (s.frameOf cqe o) call)
        | .returned ret recycle => afterHandler (s.frameOf cqe o) ret
          (if recycle then (s.emit (.dispatched cqe (some o))).recycleBuffer cqe.idx
            else s.emit (.dispatched cqe (some o)))) := by
  have hget := WorkPool.getWorkItem_eq h.pool (WorkPool.lt_length_of_at? hat)
  have hhead : ¬s.posted.length < s.cqHead := Nat.not_lt.mpr (head_lt hpending).le
  unfold pollCompletionQueues callCallbackAndFreeWorkItemId
  simp only [if_neg hhead, hpending, hget, hat, Checked.bind_ok, if_neg hres]
  rfl

theorem callbackReturns_eq {frame : Frame} {frames : List Frame}
    (hframes : s.frames = frame :: frames) (ret : ReceivePostAction) (retry final : Flush) :
    s.callbackReturns ret retry final =
      afterHandler frame ret (s.leaveCallback frame frames) retry final := by
  rw [callbackReturns, leaveCallback]
  rw [hframes]
  cases ht : frame.type <;> simp only [ht]

theorem length_of_settled {frame : Frame} {ret : ReceivePostAction} (hs : Settled frame ret t s') :
    s'.pool.workItems.length = t.pool.workItems.length := by
  cases hs with
  | rearmed _ _ _ _ heq => exact heq ▸ rfl
  | freed _ _ _ _ hfree heq => exact heq ▸ WorkPool.freeWorkItem_length hfree

theorem leaveCallback_workItems (frame : Frame) (frames : List Frame) :
    (s.leaveCallback frame frames).pool.workItems = s.pool.workItems := by
  rw [leaveCallback]
  cases frame.type <;> rfl

theorem leaveCallback_at? (frame : Frame) (frames : List Frame) :
    (s.leaveCallback frame frames).pool.at? = s.pool.at? := by
  unfold WorkPool.at?
  rw [leaveCallback_workItems]

/-- The table of slots never gets shorter. -/
theorem Sound.length_le (h : Sound s) (hs : Stepped s s' a) :
    s.pool.workItems.length ≤ s'.pool.workItems.length := by
  cases hs with
  | opened _ _ _ _ _ _ _ _ _ halloc _ _ heq | acquired _ _ _ _ halloc heq =>
    subst heq
    have hlen := WorkPool.internalAlloc_length halloc
    exact hlen
  | edited _ _ _ _ _ heq | submitted _ _ _ _ _ _ _ _ _ heq => exact heq ▸ Nat.le_refl _
  | polled _ hpoll =>
    cases hpoll with
    | idle _ heq | missed _ _ _ _ heq | exhausted _ _ _ _ _ _ heq | entered _ _ _ _ _ _ _ _ heq =>
      exact heq ▸ Nat.le_refl _
    | returned _ _ _ _ _ _ _ _ _ hafter =>
      obtain ⟨_, hst, _⟩ := settled_of_returned h.sq hafter
      have hlen := length_of_settled hst
      exact hlen.ge
  | returned ret frame frames hframes hafter =>
    have hst := afterHandler_ok (h.leaveCallback hframes).sq hafter
    rw [length_of_settled hst, leaveCallback_workItems]
  | completed _ _ _ _ _ _ hdeliver heq =>
    subst heq
    cases hdeliver with
    | nothing _ _ heq | peer _ _ heq | buffer _ _ _ _ _ _ heq => exact heq ▸ Nat.le_refl _

/-- The number of every item made so far is the index of a slot. -/
def InTable (s : IOUring) : Prop :=
  ∀ o < s.pool.nextObj, (s.item o).id < s.pool.workItems.length

theorem InTable.stepped (hn : InTable s) (h : Sound s) (hs : Stepped s s' a) : InTable s' := by
  intro o ho
  obtain hlt | hge := Nat.lt_or_ge o s.pool.nextObj
  · have hid : (s'.item o).id = (s.item o).id := ((hs.extends h).evolves o hlt).id
    rw [hid]
    exact (hn o hlt).trans_le (h.length_le hs)
  · obtain ⟨id, hat⟩ := h.seated_of_stepped hs hge ho
    have hid : (s'.item o).id = id := ((h.stepped hs).pool.live id o hat).2.1
    rw [hid]
    exact WorkPool.lt_length_of_at? hat

theorem inTable_reaches {queueSize mapped : Nat} {memory : Nat → Memory.Byte}
    {guard : IOUring → Action → Prop}
    (hr : Transition.Reaches IOUring.step guard (initial queueSize mapped memory) s) :
    InTable s := by
  have hinv := hr.invariant (I := fun u => Sound u ∧ InTable u)
    (fun u a v hu _ hs => ⟨hu.1.step hs, hu.2.stepped hu.1 (step_ok hu.1.sq hs)⟩)
    ⟨initial_sound queueSize mapped memory, fun o ho => absurd ho (Nat.not_lt_zero o)⟩
  exact hinv.2

/-- The look-up of the item for a posted completion passes every assertion. -/
theorem InTable.getWorkItem_eq (hn : InTable s) (h : Sound s) {cqe : Completion}
    (hm : cqe ∈ s.posted) :
    s.pool.getWorkItem cqe.userData = .ok (s.pool.at? cqe.userData) := by
  have hown := h.owned cqe.req (h.posted cqe hm)
  apply WorkPool.getWorkItem_eq h.pool
  rw [Completion.userData, hown.userData]
  exact hn _ hown.lt

end IOUring

end Iuring
