import Iuring.Progress
import Iuring.RequestOrder

namespace Iuring

open Lib

/-- The entries that an io_uring_submit takes of those that are queued. -/
def Flush.count (queued : Nat) : Flush → Nat
  | .failed => 0
  | .took n => min n queued
  | .all => queued

theorem Flush.count_le (queued : Nat) (flush : Flush) : flush.count queued ≤ queued := by
  cases flush with
  | failed => exact Nat.zero_le _
  | took n => exact Nat.min_le_right _ _
  | all => exact Nat.le_refl _

/-- The dispatch ends by submitting its item again. -/
def Frame.rearms (frame : Frame) (ret : ReceivePostAction) : Prop :=
  frame.type = .accept ∨ frame.type = .recv ∧ ret = .reSubmit

namespace IOUring

variable {s t : IOUring} {retry final flush : Flush} {o i : Nat} {f : Flushes} {a : Action}
  {frame : Frame} {ret : ReceivePostAction} {full : Prop} {x y : Result IOUring}

/-- The ring if the kernel had taken all that is queued. -/
def handedOver (s : IOUring) : IOUring :=
  { s with sq := [], consumed := s.consumed ++ s.sq, armed := s.armed ++ s.sq }

/-- The queue is full, and the io_uring_submit of get_sqe takes nothing out of it. -/
def Stuck (s : IOUring) (retry : Flush) : Prop :=
  s.sq.length = s.queueSize ∧ retry.count s.sq.length = 0

/-- Between the two states the item was submitted, and the kernel has taken that request. -/
def ArmedAgain (s t : IOUring) (o : Nat) : Prop :=
  ∃ req ∈ t.armed, req.owner = o ∧ .submitted req ∈ t.trace.drop s.trace.length

/-- A computation on the ring, and the same one if the kernel had taken all that is queued:
they agree unless the first one stops for want of an entry. -/
structure Agrees (full : Prop) (x y : Result IOUring) : Prop where
  stops : full → ∃ e, x = .error e
  same : ¬full → x.map handedOver = y
  room : ∀ t, x = .ok t → t.sq.length ≤ t.queueSize

theorem Agrees.pure (h : t.sq.length ≤ t.queueSize) : Agrees False (.ok t) (.ok t.handedOver) where
  stops h := h.elim
  same _ := rfl
  room t' ht := by
    cases ht
    exact h

theorem Agrees.error (full : Prop) (e : Fault) : Agrees full (.error e) (.error e) where
  stops _ := ⟨e, rfl⟩
  same _ := rfl
  room _ ht := by cases ht

theorem Agrees.congr {full' : Prop} (h : Agrees full x y) (hfull : full' ↔ full) :
    Agrees full' x y := by
  rw [propext hfull]
  exact h

/-- A change that touches neither the queue nor what the kernel has taken can come after. -/
theorem Agrees.then (h : Agrees full x y) {g : IOUring → IOUring}
    (hg : ∀ t, (g t).handedOver = g t.handedOver)
    (hsq : ∀ t, (g t).sq = t.sq ∧ (g t).queueSize = t.queueSize) :
    Agrees full (x >>= fun t => .ok (g t)) (y >>= fun t => .ok (g t)) where
  stops hfull := by
    obtain ⟨e, rfl⟩ := h.stops hfull
    exact ⟨e, rfl⟩
  same hfull := by
    have hsame := h.same hfull
    cases x with
    | error e =>
      cases hsame
      rfl
    | ok t =>
      cases hsame
      exact congrArg Except.ok (hg t)
  room u hu := by
    obtain ⟨t, ht, hu⟩ := Checked.bind_eq_ok.mp hu
    cases hu
    obtain ⟨hlist, hsize⟩ := hsq t
    rw [hlist, hsize]
    exact h.room t ht

/-- A computation that does not look at the ring can come before. -/
theorem Agrees.after {α : Type} (c : Result α) {f g : α → Result IOUring}
    (h : ∀ v, c = .ok v → Agrees full (f v) (g v)) : Agrees full (c >>= f) (c >>= g) := by
  cases c with
  | error e => exact .error full e
  | ok v => exact h v rfl

theorem Agrees.ok (h : Agrees full x y) (hx : x = .ok t) : y = .ok t.handedOver := by
  have hsame := h.same fun hfull => by
    obtain ⟨e, he⟩ := h.stops hfull
    cases hx.symm.trans he
  rw [hx] at hsame
  exact hsame.symm

theorem Agrees.succeeds_iff (h : Agrees full x y) :
    (∃ t, x = .ok t) ↔ ¬full ∧ ∃ t, y = .ok t := by
  constructor
  · rintro ⟨t, hx⟩
    refine ⟨fun hfull => ?_, _, h.ok hx⟩
    obtain ⟨e, he⟩ := h.stops hfull
    cases hx.symm.trans he
  · rintro ⟨hroom, t, hy⟩
    have hsame := h.same hroom
    cases x with
    | error e => cases hsame.trans hy
    | ok u => exact ⟨u, rfl⟩

theorem handedOver_submitAllRequests (flush : Flush) (s : IOUring) :
    (s.submitAllRequests flush).handedOver = s.handedOver := by
  have htake : ∀ n, ({ s with
      sq := s.sq.drop n
      consumed := s.consumed ++ s.sq.take n
      armed := s.armed ++ s.sq.take n } : IOUring).handedOver = s.handedOver := by
    intro n
    simp only [handedOver, List.append_assoc, List.take_append_drop]
  cases flush with
  | failed => rfl
  | took n => exact htake n
  | all => exact htake _

theorem length_submitAllRequests (flush : Flush) (s : IOUring) :
    (s.submitAllRequests flush).sq.length = s.sq.length - flush.count s.sq.length := by
  cases flush with
  | failed => exact (Nat.sub_zero _).symm
  | took n =>
    rw [submitAllRequests, List.length_drop, Flush.count]
    omega
  | all => rw [submitAllRequests, List.length_drop, Flush.count]

/-- get_sqe gives up exactly on a queue that is full and stays so. -/
theorem getSqe_stuck (retry : Flush) (hle : s.sq.length ≤ s.queueSize) :
    (s.Stuck retry → s.getSqe retry = abort) ∧
      (¬s.Stuck retry → ∃ u, s.getSqe retry = .ok u) := by
  have hlen := length_submitAllRequests retry s
  have hsize := (submitAllRequests_spec retry s).2.1
  rw [Stuck, getSqe]
  dsimp only
  constructor
  · rintro ⟨hfull, hnone⟩
    rw [if_neg (by omega), if_neg (by rw [hlen, hsize]; omega)]
  · intro hroom
    by_cases hlt : s.sq.length < s.queueSize
    · rw [if_pos hlt]
      exact ⟨s, rfl⟩
    · have hcount : retry.count s.sq.length ≠ 0 := fun hnone => hroom ⟨by omega, hnone⟩
      have hle' := retry.count_le s.sq.length
      rw [if_neg hlt, if_pos (by rw [hlen, hsize]; omega)]
      exact ⟨_, rfl⟩

theorem submit_agrees (hle : s.sq.length ≤ s.queueSize) :
    Agrees (s.Stuck retry) (s.submit retry final o) (s.handedOver.submit .all .all o) := by
  obtain ⟨habort, hgets⟩ := getSqe_stuck retry hle
  refine ⟨fun hstuck => ?_, fun hroom => ?_, fun t ht => (submit_entries ht).2.2⟩
  · rw [submit, habort hstuck]
    exact ⟨.aborted, rfl⟩
  · have hpos : 0 < s.queueSize := by
      by_contra hnone
      have hcount := retry.count_le s.sq.length
      exact hroom ⟨by omega, by omega⟩
    obtain ⟨u, hget⟩ := hgets hroom
    have hview : u.handedOver = s.handedOver ∧ u.pool = s.pool ∧ u.buffers = s.buffers := by
      obtain ⟨rfl | rfl, _⟩ := getSqe_ok hget
      · exact ⟨rfl, rfl, rfl⟩
      · refine ⟨handedOver_submitAllRequests retry s, ?_⟩
        cases retry <;> exact ⟨rfl, rfl⟩
    obtain ⟨hsame, hpool, hbuffers⟩ := hview
    have hitem : u.item o = s.item o := by rw [item, item, hpool]
    have hthere := submit_eq (s := s.handedOver) rfl hpos o
    rw [hthere, submit, hget, Checked.bind_ok, hitem, hbuffers]
    have hprepare : prepare s.handedOver.buffers.bufferSize (s.handedOver.item o) =
        prepare s.buffers.bufferSize (s.item o) := rfl
    rw [hprepare]
    cases prepare s.buffers.bufferSize (s.item o) with
    | error e => rfl
    | ok p =>
      rw [← hsame]
      refine congrArg Except.ok ?_
      rw [handedOver_submitAllRequests]
      simp only [handedOver, arm, setItem, emit, List.length_append, List.append_assoc]

theorem freeWorkItem_agrees (id : Nat) (hle : s.sq.length ≤ s.queueSize) :
    Agrees False (s.freeWorkItem id) (s.handedOver.freeWorkItem id) := by
  refine .after (s.pool.freeWorkItem id) fun pool _ => ?_
  have hat : s.handedOver.pool.at? id = s.pool.at? id := rfl
  dsimp only
  rw [hat]
  cases s.pool.at? id with
  | none => exact .pure hle
  | some o => exact .pure hle

theorem settle_agrees (hle : s.sq.length ≤ s.queueSize) :
    Agrees (s.Stuck retry ∧ frame.rearms ret) (s.settle frame ret retry final)
      (s.handedOver.settle frame ret) := by
  have hsubmit : Agrees (s.Stuck retry) (s.submit retry final frame.workItem)
      (s.handedOver.submit .all .all frame.workItem) := submit_agrees hle
  have hfree := freeWorkItem_agrees frame.id hle
  unfold settle Frame.rearms
  cases frame.type with
  | accept => exact hsubmit.congr (and_iff_left (.inl rfl))
  | recv =>
    cases ret with
    | none => exact hfree.congr (iff_false_intro fun h => by simp at h)
    | reSubmit => exact hsubmit.congr (and_iff_left (.inr ⟨rfl, rfl⟩))
  | close | connect | sendStreamData | sendWorkpacket =>
    exact hfree.congr (iff_false_intro fun h => by simp at h)
  | unknown => exact .error _ _

theorem afterHandler_agrees (hle : s.sq.length ≤ s.queueSize) :
    Agrees (s.Stuck retry ∧ frame.rearms ret) (afterHandler frame ret s retry final)
      (afterHandler frame ret s.handedOver) :=
  (settle_agrees hle).then (fun _ => rfl) fun _ => ⟨rfl, rfl⟩

theorem submitItem_agrees (hle : s.sq.length ≤ s.queueSize)
    (set : WorkItem → Result WorkItem) :
    Agrees (s.Stuck retry) (s.submitItem o set retry final) (s.handedOver.submitItem o set) :=
  .after (set (s.item o)) fun item _ => submit_agrees (s := s.setItem o item) hle

theorem allocWorkItem_agrees (hle : s.sq.length ≤ s.queueSize)
    (socket : Socket) (descr : String) (mem : Uninitialized) (set : WorkItem → Result WorkItem) :
    Agrees (s.Stuck retry) (s.allocWorkItem socket descr mem set retry final)
      (s.handedOver.allocWorkItem socket descr mem set) :=
  .after (assert (s.initialized = true)) fun _ _ => submitItem_agrees
    (s := { s with pool := (s.pool.internalAllocWorkItem socket descr mem).2 }) hle set

/-- The poll runs a handler that returns by itself and ends the dispatch by submitting again. -/
def RearmsAtOnce (s : IOUring) : Prop :=
  ∃ cqe rest o ret recycle, s.pending = cqe :: rest ∧ s.pool.at? cqe.userData = some o ∧
    cqe.res ≠ -enobufs ∧ s.callHandler (s.item o) cqe = .ok (.returned ret recycle) ∧
    (s.frameOf cqe o).rearms ret

theorem rearmsAtOnce_iff {cqe : Completion} {rest : List Completion}
    (hpending : s.pending = cqe :: rest) (hat : s.pool.at? cqe.userData = some o)
    (hres : cqe.res ≠ -enobufs) :
    s.RearmsAtOnce ↔ ∃ ret recycle, s.callHandler (s.item o) cqe = .ok (.returned ret recycle) ∧
      (s.frameOf cqe o).rearms ret := by
  constructor
  · rintro ⟨_, _, _, ret, recycle, hcons, hsome, _, hreturned, hagain⟩
    cases hpending.symm.trans hcons
    cases hat.symm.trans hsome
    exact ⟨ret, recycle, hreturned, hagain⟩
  · rintro ⟨ret, recycle, hreturned, hagain⟩
    exact ⟨cqe, rest, o, ret, recycle, hpending, hat, hres, hreturned, hagain⟩

theorem pollCompletionQueues_agrees (hle : s.sq.length ≤ s.queueSize) :
    Agrees (s.Stuck retry ∧ s.RearmsAtOnce) (s.pollCompletionQueues retry final)
      s.handedOver.pollCompletionQueues := by
  have hquiet : ¬s.RearmsAtOnce → (s.Stuck retry ∧ s.RearmsAtOnce ↔ False) := fun hnot =>
    iff_false_intro fun h => hnot h.2
  unfold pollCompletionQueues
  by_cases hhead : s.posted.length < s.cqHead
  · have hthere : s.handedOver.posted.length < s.handedOver.cqHead := hhead
    rw [if_pos hhead, if_pos hthere]
    exact .error _ _
  have hthere : ¬s.handedOver.posted.length < s.handedOver.cqHead := hhead
  have hsame : s.handedOver.pending = s.pending := rfl
  rw [if_neg hhead, if_neg hthere, hsame]
  cases hp : s.pending with
  | nil =>
    refine (Agrees.pure hle).congr (hquiet ?_)
    rintro ⟨_, _, _, _, _, hcons, _⟩
    cases hp.symm.trans hcons
  | cons cqe rest =>
    refine .after (s.pool.getWorkItem cqe.userData) fun found hfound => ?_
    have hat := WorkPool.getWorkItem_ok hfound
    cases found with
    | none =>
      refine (Agrees.pure (t := (s.emit (.dispatched cqe none)).cqAdvance) hle).congr (hquiet ?_)
      rintro ⟨_, _, o, _, _, hcons, hsome, _⟩
      cases hp.symm.trans hcons
      cases hat.symm.trans hsome
    | some o =>
      dsimp only
      by_cases hres : cqe.res = -enobufs
      · rw [if_pos hres, if_pos hres]
        refine (Agrees.pure (t := (s.emit (.dispatched cqe (some o))).cqAdvance) hle).congr
          (hquiet ?_)
        rintro ⟨_, _, _, _, _, hcons, _, hne, _⟩
        cases hp.symm.trans hcons
        exact hne hres
      · rw [if_neg hres, if_neg hres]
        refine .after (s.callHandler (s.item o) cqe) fun handled hcall => ?_
        have hagain := rearmsAtOnce_iff hp hat hres
        rw [hcall] at hagain
        cases handled with
        | called call =>
          refine (Agrees.pure (t := (s.emit (.dispatched cqe (some o))).enterCallback
            (s.frameOf cqe o) call) hle).congr (hquiet fun hnow => ?_)
          obtain ⟨_, _, hreturned, _⟩ := hagain.mp hnow
          cases hreturned
        | returned ret recycle =>
          have hrearms : s.RearmsAtOnce ↔ (s.frameOf cqe o).rearms ret := by
            simpa using hagain
          refine Agrees.congr ?_ (and_congr_right' hrearms)
          cases recycle with
          | false => exact afterHandler_agrees (s := s.emit (.dispatched cqe (some o))) hle
          | true =>
            exact afterHandler_agrees
              (s := (s.emit (.dispatched cqe (some o))).recycleBuffer cqe.idx) hle

theorem handedOver_leaveCallback (frame : Frame) (frames : List Frame) (s : IOUring) :
    (s.leaveCallback frame frames).handedOver = s.handedOver.leaveCallback frame frames := by
  rw [leaveCallback, leaveCallback]
  cases frame.type <;> rfl

theorem callbackReturns_agrees (hle : s.sq.length ≤ s.queueSize) :
    Agrees (s.Stuck retry ∧ ∃ frame ∈ s.frames.head?, frame.rearms ret)
      (s.callbackReturns ret retry final) (s.handedOver.callbackReturns ret) := by
  cases hf : s.frames with
  | nil =>
    have hf' : s.handedOver.frames = [] := hf
    unfold callbackReturns
    rw [hf, hf']
    exact .error _ _
  | cons frame frames =>
    have hf' : s.handedOver.frames = frame :: frames := hf
    rw [callbackReturns_eq hf, callbackReturns_eq hf', ← handedOver_leaveCallback]
    have hqueue : (s.leaveCallback frame frames).sq = s.sq ∧
        (s.leaveCallback frame frames).queueSize = s.queueSize := by
      rw [leaveCallback]
      cases frame.type <;> exact ⟨rfl, rfl⟩
    refine (afterHandler_agrees ?_).congr ?_
    · rwa [hqueue.1, hqueue.2]
    · rw [Stuck, Stuck, hqueue.1, hqueue.2]
      simp

theorem onHandle_agrees (hle : s.sq.length ≤ s.queueSize)
    (set : WorkItem → Result WorkItem) : Agrees (s.Stuck retry)
      (s.onHandle o fun s => s.submitItem o set retry final)
      (s.handedOver.onHandle o fun s => s.submitItem o set) :=
  .after (Checked.ensure .notEnabled (o ∈ s.handles)) fun _ _ => submitItem_agrees hle set

theorem receive_handedOver {k : Outcome} (hs : s.receive k = .ok t) :
    s.handedOver.receive k = .ok t.handedOver ∧ t.sq = s.sq ∧ t.armed = s.armed ∧
      t.queueSize = s.queueSize := by
  have hpick : s.handedOver.buffers.bufRing.pick = s.buffers.bufRing.pick := rfl
  unfold receive at hs ⊢
  rw [hpick]
  cases hp : s.buffers.bufRing.pick with
  | none =>
    rw [hp] at hs
    cases hs
  | some picked =>
    simp only [hp] at hs
    obtain ⟨_, hid, hs⟩ := Checked.bind_eq_ok.mp hs
    cases hs
    exact ⟨Checked.bind_eq_ok.mpr ⟨(), hid, rfl⟩, rfl, rfl, rfl⟩

theorem deliver_handedOver {req : Request} {k : Outcome} (hs : s.deliver req k = .ok t) :
    s.handedOver.deliver req k = .ok t.handedOver ∧ t.sq = s.sq ∧ t.armed = s.armed ∧
      t.queueSize = s.queueSize := by
  unfold deliver at hs ⊢
  cases hop : req.sqe.op with
  | accept =>
    simp only [hop] at hs ⊢
    by_cases hres : 0 ≤ k.res
    · rw [if_pos hres] at hs ⊢
      cases hs
      exact ⟨rfl, rfl, rfl, rfl⟩
    · rw [if_neg hres] at hs ⊢
      cases hs
      exact ⟨rfl, rfl, rfl, rfl⟩
  | recv | recvmsgMultishot =>
    simp only [hop] at hs ⊢
    by_cases hflag : k.flags &&& Completion.cqeFBuffer ≠ 0
    · rw [if_pos hflag] at hs ⊢
      exact receive_handedOver hs
    · rw [if_neg hflag] at hs ⊢
      cases hs
      exact ⟨rfl, rfl, rfl, rfl⟩
  | close | connect | send | sendmsg =>
    simp only [hop] at hs ⊢
    cases hs
    exact ⟨rfl, rfl, rfl, rfl⟩

/-- The kernel finishes what it has taken, whatever is queued behind it. -/
theorem complete_handedOver (h : Sound s.handedOver) {k : Outcome} (hs : s.complete i k = .ok t) :
    s.handedOver.complete i k = .ok t.handedOver ∧ t.sq = s.sq ∧ t.queueSize = s.queueSize := by
  unfold complete at hs ⊢
  cases hreq : s.armed[i]? with
  | none =>
    rw [hreq] at hs
    cases hs
  | some req =>
    have hlt : i < s.armed.length := (List.getElem?_eq_some_iff.mp hreq).1
    have hthere : s.handedOver.armed[i]? = some req := (List.getElem?_append_left hlt).trans hreq
    simp only [hreq, Checked.bind_eq_ok] at hs
    obtain ⟨_, _, u, hdeliver, hs⟩ := hs
    cases hs
    obtain ⟨hdelivers, hsq, hsame, hsize⟩ := deliver_handedOver hdeliver
    have harmed : (if req.sqe.op.isMultishot ∧ (s.completion req k).hasMore then u.handedOver.armed
        else u.handedOver.armed.eraseIdx i) =
        (if req.sqe.op.isMultishot ∧ (s.completion req k).hasMore then u.armed
          else u.armed.eraseIdx i) ++ u.sq := by
      split
      · rfl
      · exact List.eraseIdx_append_of_lt_length (hsame ▸ hlt) u.sq
    have hcompletion : s.handedOver.completion req k = s.completion req k := rfl
    refine ⟨?_, hsq, hsize⟩
    simp only [hthere, h.not_blocked, hdelivers, hcompletion, harmed, Checked.bind_ok]
    rfl

/-- The step submits, and needs an entry of the queue for it. -/
def NeedsEntry (s : IOUring) : Action → Prop
  | .submitAccept _ _ _ | .submitConnect _ _ _ _ | .submitRecv _ _ _ | .submitClose _ _ _
  | .submitStreamData _ _ | .submitPacket _ _ _ | .send _ _ _ _ => True
  | .pollCompletionQueues => s.RearmsAtOnce
  | .callbackReturns ret => ∃ frame ∈ s.frames.head?, frame.rearms ret
  | .ackuireSendWorkitem _ _ | .getSendPacket _ | .append _ _ | .complete _ _ => False

theorem ackuire_bind (socket : Socket) (mem : Uninitialized) (s : IOUring) :
    flushedStep f (.ackuireSendWorkitem socket mem) s = assert (s.initialized = true) >>= fun _ =>
      .ok { s with
        pool := (s.pool.internalAllocWorkItem socket "write-from-socket" mem).2
        handles :=
          (s.pool.internalAllocWorkItem socket "write-from-socket" mem).1 :: s.handles } := by
  rw [flushedStep, ackuireSendWorkitem]
  cases assert (s.initialized = true) <;> rfl

/-- A call of the library does what it would do if the kernel had taken all that is queued,
unless it needs an entry of a queue that is full and stays so. -/
theorem flushedStep_agrees (hle : s.sq.length ≤ s.queueSize)
    (ha : ∀ i k, a ≠ .complete i k) :
    Agrees (s.Stuck f.retry ∧ s.NeedsEntry a) (flushedStep f a s) (step a s.handedOver) := by
  cases a with
  | submitAccept socket handler mem =>
    refine Agrees.congr ?_ (and_iff_left trivial)
    exact .after (assert (socket.kind = .serverStreamSocket)) fun _ _ =>
      allocWorkItem_agrees hle ..
  | submitConnect socket target handler mem =>
    exact (allocWorkItem_agrees hle ..).congr (and_iff_left trivial)
  | submitRecv socket handler mem | submitClose socket handler mem =>
    exact (allocWorkItem_agrees hle ..).congr (and_iff_left trivial)
  | ackuireSendWorkitem socket mem =>
    rw [step, ackuire_bind, ackuire_bind]
    refine Agrees.congr ?_ (iff_of_eq (and_false _))
    exact .after (assert (s.initialized = true)) fun _ _ => .pure hle
  | getSendPacket o =>
    refine Agrees.congr ?_ (iff_of_eq (and_false _))
    exact .after (Checked.ensure .notEnabled (o ∈ s.handles)) fun _ _ => .pure hle
  | append o data =>
    refine Agrees.congr ?_ (iff_of_eq (and_false _))
    refine .after (Checked.ensure .notEnabled (o ∈ s.handles)) fun _ _ => ?_
    exact .after ((s.item o).append data) fun item _ => .pure hle
  | submitStreamData o cb =>
    exact (onHandle_agrees hle _).congr (and_iff_left trivial)
  | submitPacket o params cb =>
    exact (onHandle_agrees hle _).congr (and_iff_left trivial)
  | send socket msg cb mem =>
    have hhere := send_eq socket msg cb mem s f.retry f.final
    have hthere := send_eq socket msg cb mem s.handedOver
    rw [step, flushedStep, flushedStep, hhere, hthere]
    exact (allocWorkItem_agrees hle ..).congr (and_iff_left trivial)
  | pollCompletionQueues => exact pollCompletionQueues_agrees hle
  | callbackReturns ret => exact callbackReturns_agrees hle
  | complete i k => exact absurd rfl (ha i k)

/-- On an empty queue the io_uring_submit of get_sqe has nothing to take. -/
theorem getSqe_of_empty (hq : s.sq = []) : s.getSqe retry = s.getSqe .all := by
  have hstill : ∀ flush, (s.submitAllRequests flush).sq.length = 0 := by
    intro flush
    rw [length_submitAllRequests, hq, List.length_nil, Nat.zero_sub]
  have hsize : ∀ flush, (s.submitAllRequests flush).queueSize = s.queueSize := by
    intro flush
    exact (submitAllRequests_spec flush s).2.1
  rw [getSqe, getSqe]
  dsimp only
  rw [hstill, hstill, hsize, hsize, hq, List.length_nil]
  by_cases hroom : 0 < s.queueSize
  · rw [if_pos hroom, if_pos hroom]
  · rw [if_neg hroom, if_neg hroom, if_neg hroom, if_neg hroom]

/-- An io_uring_submit that takes one entry takes all of one. -/
theorem submitAllRequests_of_one (hone : s.sq.length = 1) (hfinal : final.count 1 = 1) :
    s.submitAllRequests final = s.submitAllRequests .all := by
  cases final with
  | failed => cases hfinal
  | all => rfl
  | took n =>
    have hn : 1 ≤ n := by
      rw [Flush.count] at hfinal
      omega
    simp only [submitAllRequests, hone, List.drop_of_length_le (hone.trans_le hn),
      List.take_of_length_le (hone.trans_le hn), List.drop_of_length_le hone.le,
      List.take_of_length_le hone.le]

theorem submit_taken (hq : s.sq = []) (hfinal : final.count 1 = 1) :
    s.submit retry final o = s.submit .all .all o := by
  rw [submit, submit, getSqe_of_empty hq]
  cases hu : s.getSqe .all with
  | error e => rfl
  | ok u =>
    have hqu : u.sq = [] := by
      obtain ⟨rfl | rfl, _⟩ := getSqe_ok hu
      · exact hq
      · exact List.drop_length
    simp only [Checked.bind_ok]
    apply bind_congr
    intro p
    apply congrArg Except.ok
    apply submitAllRequests_of_one _ hfinal
    exact congrArg (fun l => (l ++ [_]).length) hqu

theorem afterHandler_taken (hq : s.sq = []) (hfinal : final.count 1 = 1) :
    afterHandler frame ret s retry final = afterHandler frame ret s := by
  have hsettle : s.settle frame ret retry final = s.settle frame ret := by
    unfold settle
    rw [submit_taken hq hfinal]
  rw [afterHandler, afterHandler, hsettle]

theorem submitItem_taken (hq : s.sq = []) (hfinal : final.count 1 = 1)
    (set : WorkItem → Result WorkItem) :
    s.submitItem o set retry final = s.submitItem o set := by
  apply bind_congr
  intro item
  apply submit_taken (s := s.setItem o item) hq hfinal

theorem allocWorkItem_taken (hq : s.sq = []) (hfinal : final.count 1 = 1)
    (socket : Socket) (descr : String) (mem : Uninitialized) (set : WorkItem → Result WorkItem) :
    s.allocWorkItem socket descr mem set retry final = s.allocWorkItem socket descr mem set := by
  apply bind_congr
  intro _
  apply submitItem_taken (s := { s with
    pool := (s.pool.internalAllocWorkItem socket descr mem).2 }) hq hfinal

theorem pollCompletionQueues_taken (hq : s.sq = []) (hfinal : final.count 1 = 1) :
    s.pollCompletionQueues retry final = s.pollCompletionQueues := by
  unfold pollCompletionQueues
  split
  · rfl
  · split
    · rfl
    · apply bind_congr
      intro found
      cases found with
      | none => rfl
      | some o =>
        dsimp only
        split
        · rfl
        · apply bind_congr
          intro handled
          cases handled with
          | called call => rfl
          | returned ret recycle => cases recycle <;> exact afterHandler_taken hq hfinal

/-- With nothing queued, a step whose last io_uring_submit takes the new entry is the step of
a kernel that takes every entry. -/
theorem flushedStep_taken (hq : s.sq = []) (hfinal : f.final.count 1 = 1) :
    flushedStep f a s = step a s := by
  rw [step]
  cases a with
  | submitAccept socket handler mem =>
    apply bind_congr
    intro _
    apply allocWorkItem_taken hq hfinal
  | submitConnect socket target handler mem => exact allocWorkItem_taken hq hfinal ..
  | submitRecv socket handler mem | submitClose socket handler mem =>
    exact allocWorkItem_taken hq hfinal ..
  | ackuireSendWorkitem socket mem | getSendPacket o | append o data | complete i k => rfl
  | submitStreamData o cb | submitPacket o params cb =>
    apply bind_congr
    intro _
    apply submitItem_taken hq hfinal
  | send socket msg cb mem =>
    rw [flushedStep, flushedStep, send_eq socket msg cb mem s f.retry f.final,
      send_eq socket msg cb mem s]
    exact allocWorkItem_taken hq hfinal ..
  | pollCompletionQueues => exact pollCompletionQueues_taken hq hfinal
  | callbackReturns ret =>
    cases hf : s.frames with
    | nil =>
      rw [flushedStep, flushedStep, callbackReturns, callbackReturns, hf]
    | cons frame frames =>
      rw [flushedStep, flushedStep, callbackReturns_eq hf, callbackReturns_eq hf]
      refine afterHandler_taken ?_ hfinal
      rw [leaveCallback]
      cases frame.type <;> exact hq

/-- A step with the answers of its io_uring_submit calls. -/
def flushed (a : Flushes × Action) : IOUring → Result IOUring := flushedStep a.1 a.2

theorem flushed_handedOver {a : Flushes × Action} (hle : s.sq.length ≤ s.queueSize)
    (h : Sound s.handedOver) (hs : flushed a s = .ok t) :
    step a.2 s.handedOver = .ok t.handedOver ∧ t.sq.length ≤ t.queueSize := by
  obtain ⟨f, a⟩ := a
  by_cases ha : ∃ i k, a = .complete i k
  · obtain ⟨i, k, rfl⟩ := ha
    obtain ⟨hthere, hsq, hsize⟩ := complete_handedOver h hs
    refine ⟨hthere, ?_⟩
    rwa [hsq, hsize]
  · have hagrees := flushedStep_agrees (f := f) (a := a) hle fun i k he => ha ⟨i, k, he⟩
    exact ⟨hagrees.ok hs, hagrees.room t hs⟩

/-- What a run with any answers keeps. -/
structure Backed (queueSize : Nat) (s : IOUring) : Prop where
  sound : Sound s.handedOver
  size : s.queueSize = queueSize
  room : s.sq.length ≤ s.queueSize

theorem initial_backed (queueSize mapped : Nat) (memory : Nat → Memory.Byte) :
    Backed queueSize (initial queueSize mapped memory) :=
  ⟨initial_sound queueSize mapped memory, rfl, Nat.zero_le _⟩

theorem Backed.step {queueSize : Nat} (h : Backed queueSize s) {a : Flushes × Action}
    (hs : flushed a s = .ok t) :
    Backed queueSize t ∧ IOUring.step a.2 s.handedOver = .ok t.handedOver := by
  obtain ⟨hthere, hroom⟩ := flushed_handedOver h.room h.sound hs
  have hsize : t.queueSize = s.queueSize := (h.sound.config (step_ok h.sound.sq hthere)).2
  exact ⟨⟨h.sound.step hthere, hsize.trans h.size, hroom⟩, hthere⟩

theorem backed_reaches {queueSize mapped : Nat} {memory : Nat → Memory.Byte}
    {guard : IOUring → Flushes × Action → Prop}
    (hr : Transition.Reaches flushed guard (initial queueSize mapped memory) s) :
    Backed queueSize s ∧
      Transition.Reaches IOUring.step Transition.Free (initial queueSize mapped memory)
        s.handedOver := by
  refine hr.invariant (I := fun u => Backed queueSize u ∧ Transition.Reaches IOUring.step
    Transition.Free (initial queueSize mapped memory) u.handedOver) (fun u a v hu _ hs => ?_)
    ⟨initial_backed queueSize mapped memory, .refl⟩
  obtain ⟨hbacked, hthere⟩ := hu.1.step hs
  exact ⟨hbacked, hu.2.tail trivial hthere⟩

/-- Whatever the io_uring_submit calls do, with the queued entries counted as taken every run is a
run of the ring whose kernel takes every entry at once, the queue never holds more than it may, and
a call of the library does in its states what it does there, unless it needs an entry of a queue
that is full and stays so. -/
theorem flushed_refines {queueSize mapped : Nat} {memory : Nat → Memory.Byte}
    {guard : IOUring → Action → Prop} {as : List (Flushes × Action)}
    (hr : Transition.Runs flushed (fun s a => guard s.handedOver a.2) as
      (initial queueSize mapped memory) s) :
    Transition.Runs step guard (as.map Prod.snd) (initial queueSize mapped memory) s.handedOver ∧
      s.sq.length ≤ queueSize ∧
      ∀ f a, (∀ i k, a ≠ .complete i k) →
        Agrees (s.Stuck f.retry ∧ s.NeedsEntry a) (flushedStep f a s) (step a s.handedOver) := by
  have hinv : Backed queueSize s ∧ Transition.Runs IOUring.step guard (as.map Prod.snd)
      (initial queueSize mapped memory) s.handedOver := by
    refine hr.invariant (I := fun as u => Backed queueSize u ∧ Transition.Runs IOUring.step guard
      (as.map Prod.snd) (initial queueSize mapped memory) u.handedOver) []
      (fun as u a v hu hg hs => ?_) ⟨initial_backed queueSize mapped memory, .nil⟩
    obtain ⟨hbacked, hthere⟩ := hu.1.step hs
    rw [List.map_append]
    exact ⟨hbacked, hu.2.append (.single hg hthere)⟩
  obtain ⟨hbacked, hruns⟩ := hinv
  have hroom := hbacked.room
  rw [hbacked.size] at hroom
  exact ⟨hruns, hroom, fun f a ha => flushedStep_agrees hbacked.room ha⟩

private def queuing : Socket := ⟨.ipv4Tcp, 0, .unicastClientSocket, 3⟩

/-- The only entry of the queue is handed over by the next submission, whose own entry then
stays in the queue, and a third submission finds no room. -/
theorem flushed_refines_backlog : ∃ s : IOUring, s.sq.length = 1 ∧ s.armed.length = 1 ∧
    Transition.Runs step Transition.Free
      [.submitRecv queuing 7 default, .submitRecv queuing 8 default] (initial 1 0 fun _ => 0)
      s.handedOver ∧
    ∃ e, flushedStep ⟨.failed, .all⟩ (.submitRecv queuing 9 default) s = .error e := by
  obtain ⟨s, hr, hqueued, harmed, hsize⟩ := Transition.runs_of_leads flushed Transition.Free
    (fun s => s.sq.length = 1 ∧ s.armed.length = 1 ∧ s.queueSize = 1)
    [(⟨.all, .failed⟩, .submitRecv queuing 7 default),
      (⟨.took 1, .failed⟩, .submitRecv queuing 8 default)]
    (initial 1 0 fun _ => 0) (by decide +kernel)
  have hfree : Transition.Runs flushed (fun s a => Transition.Free s.handedOver a.2) _ _ s := hr
  obtain ⟨hruns, _, hagrees⟩ := flushed_refines hfree
  refine ⟨s, hqueued, harmed, hruns, ?_⟩
  apply (hagrees ⟨.failed, .all⟩ (.submitRecv queuing 9 default) (fun _ _ he => by cases he)).stops
  exact ⟨⟨hqueued.trans hsize.symm, rfl⟩, trivial⟩

end IOUring

end Iuring
