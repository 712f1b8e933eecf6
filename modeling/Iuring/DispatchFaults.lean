import Iuring.Edits
import Iuring.Flushing

namespace Iuring

open Lib Lib.Memory

/-- The alternative of the handler that an item of each type calls. -/
def WorkType.callback (fn : CallbackFn) : WorkType → Option Callback
  | .unknown => none
  | .accept => some (.accept fn)
  | .sendStreamData | .sendWorkpacket => some (.send fn)
  | .recv => some (.recv fn)
  | .connect => some (.connect fn)
  | .close => some (.close fn)

namespace WorkItem

open IOUring

/-- An item that was submitted holds a handler of its own type. -/
def HoldsHandler (item : WorkItem) : Prop :=
  item.workType ≠ .unknown → ∃ fn, item.callback = item.workType.callback fn

theorem holdsHandler_of_prepare {item item' : WorkItem} {n : Nat} {sqe : Sqe}
    (h : item.HoldsHandler) (hprep : prepare n item = .ok (item', sqe)) : item'.HoldsHandler := by
  obtain ⟨hp, _⟩ := prepare_ok hprep
  intro hk
  rw [hp.callback, hp.type]
  exact h (hp.type ▸ hk)

theorem FirstSet.holdsHandler {item item₀ : WorkItem} (h : FirstSet item item₀) :
    item₀.HoldsHandler := by
  cases h with
  | accept handler | recv handler | close handler => exact fun _ => ⟨handler, rfl⟩
  | send _ cb => exact fun _ => ⟨cb, rfl⟩
  | connect target handler _ hset =>
    obtain ⟨_, _, hset⟩ := Checked.bind_eq_ok.mp hset
    obtain ⟨_, _, hset⟩ := Checked.bind_eq_ok.mp hset
    obtain ⟨_, _, hset⟩ := Checked.bind_eq_ok.mp hset
    cases hset
    exact fun _ => ⟨handler, rfl⟩

theorem holdsHandler_lasting : Lasting HoldsHandler where
  born item hb := by
    cases hb with
    | acquired => exact fun hk => absurd rfl hk
    | opened _ _ _ _ _ _ _ _ hset hprep => exact holdsHandler_of_prepare hset.holdsHandler hprep
  edit item item' hi he := by
    cases he with
    | packet | freed | answered => exact hi
    | streamData cb _ _ _ _ hprep | workpacket _ cb _ _ _ _ hprep =>
      exact holdsHandler_of_prepare (fun _ => ⟨cb, rfl⟩) hprep
    | rearmed _ _ _ _ hprep => exact holdsHandler_of_prepare hi hprep

/-- The datagram is dropped, or its header tells a length of a source address. -/
def HasSource (buffer : Nat → Byte) (item : WorkItem) (cqe : Completion) : Prop :=
  ∀ out, RecvMsg.validate buffer cqe.res.toNat item.msg.msgNamelen item.msg.msgControllen = some out →
    out.namelen ≤ sizeofSockaddrStorage → out.flags &&& RecvMsg.msgTrunc = 0 →
      out.namelen = 0 ∨ out.namelen = sizeofSockaddrIn ∨ out.namelen = sizeofSockaddrIn6

/-- The completions that the handler for the item's type survives. -/
def Takes (buffer : Nat → Byte) (item : WorkItem) (cqe : Completion) : Prop :=
  match item.workType with
  | .unknown => False
  | .accept => 0 ≤ cqe.res →
    item.acceptSockLen = sizeofSockaddrIn ∨ item.acceptSockLen = sizeofSockaddrIn6
  | .recv => cqe.res = eaiIntr ∨ 0 ≤ cqe.res ∧
    (item.isStream = true ∨ cqe.hasBuffer = true ∧ item.HasSource buffer cqe)
  | .close | .connect | .sendStreamData | .sendWorkpacket => True

/-- What the kernel wrote is no datagram that a handler gets to see. -/
def Drops (buffer : Nat → Byte) (item : WorkItem) (cqe : Completion) : Prop :=
  ∀ out, RecvMsg.validate buffer cqe.res.toNat item.msg.msgNamelen item.msg.msgControllen = some out →
    sizeofSockaddrStorage < out.namelen ∨ out.flags &&& RecvMsg.msgTrunc ≠ 0

/-- The completions after which the item is submitted again without its callback being called. -/
def Retried (buffer : Nat → Byte) (item : WorkItem) (cqe : Completion) : Prop :=
  match item.workType with
  | .accept => cqe.res < 0
  | .recv => item.isStream = false ∧ item.Drops buffer cqe
  | .unknown | .close | .connect | .sendStreamData | .sendWorkpacket => False

end WorkItem

namespace IOUring

open WorkItem

variable {s s' : IOUring} {cqe : Completion} {rest : List Completion} {o : Nat}

theorem sourceAddress_succeeds_iff (buffer : Nat → Byte) (namelen : Nat) :
    (∃ addr, sourceAddress buffer namelen = .ok addr) ↔
      namelen = 0 ∨ namelen = sizeofSockaddrIn ∨ namelen = sizeofSockaddrIn6 := by
  rw [sourceAddress]
  by_cases h4 : namelen = 0 ∨ namelen = sizeofSockaddrIn
  · rw [if_pos h4, ← or_assoc]
    exact iff_of_true ⟨_, rfl⟩ (.inl h4)
  · rw [if_neg h4, ← or_assoc]
    by_cases h6 : namelen = sizeofSockaddrIn6
    · rw [if_pos h6]
      exact iff_of_true ⟨_, rfl⟩ (.inr h6)
    · rw [if_neg h6]
      exact iff_of_false (by simp [abort]) (not_or.mpr ⟨h4, h6⟩)

theorem datagram_succeeds_iff {buffer : Nat → Byte} {item : WorkItem} {fn : CallbackFn}
    (hcb : item.callback = some (.recv fn)) :
    (∃ handled, callRecvHandlerDatagram buffer item cqe = .ok handled) ↔
      cqe.hasBuffer = true ∧ item.HasSource buffer cqe := by
  have hcall : ∀ payload, item.callRecvCallback payload = .ok ⟨fn, .recv payload⟩ := by
    simp [WorkItem.callRecvCallback, hcb]
  rw [callRecvHandlerDatagram, HasSource]
  cases hb : cqe.hasBuffer with
  | false => simp [abort]
  | true =>
    simp only [Bool.true_eq_false, if_false, true_and]
    cases hv : RecvMsg.validate buffer cqe.res.toNat item.msg.msgNamelen item.msg.msgControllen with
    | none => simp [pure, Except.pure]
    | some out =>
      simp only [Option.some.injEq, forall_eq']
      by_cases hlong : sizeofSockaddrStorage < out.namelen
      · simp [hlong, pure, Except.pure, Nat.not_le.mpr hlong]
      · by_cases htrunc : out.flags &&& RecvMsg.msgTrunc = 0
        · have hle : out.namelen ≤ sizeofSockaddrStorage := Nat.not_lt.mp hlong
          simp only [if_neg hlong, htrunc, ne_eq, not_true_eq_false, if_false, hle, true_imp_iff]
          have hsource := sourceAddress_succeeds_iff buffer out.namelen
          rw [← hsource]
          simp only [Checked.bind_eq_ok, hcall, pure, Except.pure]
          constructor
          · rintro ⟨_, addr, haddr, _⟩
            exact ⟨addr, haddr⟩
          · rintro ⟨addr, haddr⟩
            exact ⟨_, addr, haddr, _, rfl, rfl⟩
        · simp [hlong, htrunc, pure, Except.pure]

theorem stream_succeeds {buffer : Nat → Byte} {item : WorkItem} {fn : CallbackFn}
    (hcb : item.callback = some (.recv fn)) :
    ∃ handled, callRecvHandlerStream buffer item cqe = .ok handled := by
  refine ⟨.called ⟨fn, .recv ⟨read buffer 0 cqe.res.toNat, {}⟩⟩, ?_⟩
  simp [callRecvHandlerStream, WorkItem.callRecvCallback, hcb, Checked.bind_ok, pure, Except.pure]

theorem recv_succeeds_iff {buffer : Nat → Byte} {item : WorkItem} {fn : CallbackFn}
    (hcb : item.callback = some (.recv fn)) :
    (∃ handled, IOUring.callRecvCallback buffer item cqe = .ok handled) ↔
      cqe.res = eaiIntr ∨ 0 ≤ cqe.res ∧
        (item.isStream = true ∨ cqe.hasBuffer = true ∧ item.HasSource buffer cqe) := by
  rw [IOUring.callRecvCallback]
  by_cases hneg : cqe.res < 0
  · rw [if_pos hneg]
    have hpos : ¬0 ≤ cqe.res := Int.not_le.mpr hneg
    by_cases hintr : cqe.res = eaiIntr
    · rw [if_pos hintr]
      exact iff_of_true ⟨_, rfl⟩ (.inl hintr)
    · rw [if_neg hintr]
      exact iff_of_false (by simp [abort]) (by simp [hintr, hpos])
  · rw [if_neg hneg]
    have hpos : 0 ≤ cqe.res := Int.not_lt.mp hneg
    have hintr : cqe.res ≠ eaiIntr := by
      rw [eaiIntr]
      omega
    cases hs : item.isStream with
    | true =>
      rw [if_pos rfl]
      exact iff_of_true (stream_succeeds hcb) (.inr ⟨hpos, .inl rfl⟩)
    | false =>
      rw [if_neg Bool.false_ne_true]
      simpa [hpos, hintr] using datagram_succeeds_iff hcb

theorem accept_succeeds_iff {item : WorkItem} {fn : CallbackFn}
    (hcb : item.callback = some (.accept fn)) :
    (∃ handled, IOUring.callAcceptCallback item cqe = .ok handled) ↔ (0 ≤ cqe.res →
      item.acceptSockLen = sizeofSockaddrIn ∨ item.acceptSockLen = sizeofSockaddrIn6) := by
  rw [IOUring.callAcceptCallback]
  by_cases hneg : cqe.res < 0
  · rw [if_pos hneg]
    exact iff_of_true ⟨_, rfl⟩ fun hpos => absurd hneg (Int.not_lt.mpr hpos)
  · rw [if_neg hneg]
    have hpos : 0 ≤ cqe.res := Int.not_lt.mp hneg
    have hcall : ∀ conn, item.callAcceptCallback conn = .ok ⟨fn, .accept conn⟩ := by
      simp [WorkItem.callAcceptCallback, hcb]
    simp only [hpos, true_imp_iff, IPAddress.ofSockaddrStorage, Checked.bind_eq_ok, hcall,
      assert_eq_ok, pure, Except.pure]
    constructor
    · rintro ⟨_, _, ⟨_, hlen, _⟩, _⟩
      exact hlen
    · intro hlen
      exact ⟨_, _, ⟨(), hlen, rfl⟩, _, rfl, rfl⟩

theorem callHandler_succeeds_iff {item : WorkItem} (hk : item.HoldsHandler) :
    (∃ handled, s.callHandler item cqe = .ok handled) ↔
      item.Takes (fun i => s.memory (s.buffers.getBuffer cqe.idx + i)) cqe := by
  rw [callHandler, Takes]
  rw [HoldsHandler] at hk
  cases ht : item.workType with
  | unknown => simp
  | close =>
    obtain ⟨fn, hcb⟩ := hk (by simp [ht])
    rw [ht] at hcb
    exact iff_of_true ⟨.called ⟨fn, .close ⟨cqe.res⟩⟩, by
      simp [IOUring.callCloseCallback, WorkItem.callCloseCallback, hcb, WorkType.callback,
        Checked.bind_ok, pure, Except.pure]⟩ trivial
  | connect =>
    obtain ⟨fn, hcb⟩ := hk (by simp [ht])
    rw [ht] at hcb
    refine iff_of_true ?_ trivial
    simp only [IOUring.callConnectCallback]
    split
    · exact ⟨_, rfl⟩
    · exact ⟨.called ⟨fn, .connect ⟨cqe.res, connectAddress item⟩⟩, by
        simp [WorkItem.callConnectCallback, hcb, WorkType.callback, Checked.bind_ok, pure,
          Except.pure]⟩
  | accept =>
    obtain ⟨fn, hcb⟩ := hk (by simp [ht])
    have haccept : item.callback = some (.accept fn) := by rw [hcb, ht]; rfl
    exact accept_succeeds_iff haccept
  | recv =>
    obtain ⟨fn, hcb⟩ := hk (by simp [ht])
    have hrecv : item.callback = some (.recv fn) := by rw [hcb, ht]; rfl
    exact recv_succeeds_iff hrecv
  | sendStreamData | sendWorkpacket =>
    obtain ⟨fn, hcb⟩ := hk (by simp [ht])
    rw [ht] at hcb
    refine iff_of_true ?_ trivial
    simp only [IOUring.callSendCallback]
    split
    · exact ⟨_, rfl⟩
    · exact ⟨.called ⟨fn, .send ⟨cqe.res⟩⟩, by
        simp [WorkItem.callSendCallback, hcb, WorkType.callback, Checked.bind_ok, pure,
          Except.pure]⟩

theorem Sound.poll_exhausted (h : Sound s) (hpending : s.pending = cqe :: rest)
    (hat : s.pool.at? cqe.userData = some o) (hres : cqe.res = -enobufs) :
    s.pollCompletionQueues = .ok (s.emit (.dispatched cqe (some o))).cqAdvance := by
  have hget := WorkPool.getWorkItem_eq h.pool (WorkPool.lt_length_of_at? hat)
  have hhead : ¬s.posted.length < s.cqHead := Nat.not_lt.mpr (head_lt hpending).le
  unfold pollCompletionQueues callCallbackAndFreeWorkItemId
  simp only [if_neg hhead, hpending, hget, hat, Checked.bind_ok, if_pos hres]
  rfl

theorem InTable.poll_missed (hn : InTable s) (h : Sound s) (hpending : s.pending = cqe :: rest)
    (hat : s.pool.at? cqe.userData = none) :
    s.pollCompletionQueues = .ok (s.emit (.dispatched cqe none)).cqAdvance := by
  have hm : cqe ∈ s.posted := List.mem_of_mem_drop (hpending ▸ List.mem_cons_self)
  have hget := hn.getWorkItem_eq h hm
  have hhead : ¬s.posted.length < s.cqHead := Nat.not_lt.mpr (head_lt hpending).le
  unfold pollCompletionQueues callCallbackAndFreeWorkItemId
  simp only [if_neg hhead, hpending, hget, hat, Checked.bind_ok]
  rfl

theorem submit_succeeds {t : IOUring} (hq : t.sq = []) (hroom : 0 < t.queueSize)
    (hkind : (t.item o).workType = .accept ∨ (t.item o).workType = .recv) :
    ∃ s', t.submit .all .all o = .ok s' := by
  obtain ⟨p, hp⟩ : ∃ p, prepare t.buffers.bufferSize (t.item o) = .ok p := by
    rw [prepare]
    obtain hk | hk := hkind <;> rw [hk]
    · exact ⟨_, rfl⟩
    · dsimp only
      split
      · exact ⟨_, rfl⟩
      · exact ⟨_, rfl⟩
  exact ⟨_, by rw [submit_eq hq hroom, hp]; rfl⟩

theorem freeWorkItem_succeeds_iff {t : IOUring} (hw : t.pool.WellFormed) {id : Nat} :
    (∃ s', t.freeWorkItem id = .ok s') ↔ (t.pool.at? id).isSome = true := by
  constructor
  · rintro ⟨s', hs⟩
    obtain ⟨o, _, hat, _⟩ := freeWorkItem_ok hs
    simp [hat]
  · intro hsome
    obtain ⟨o, hat⟩ := Option.isSome_iff_exists.mp hsome
    obtain ⟨pool, hfree⟩ := WorkPool.freeWorkItem_of_at? hw hat
    rw [freeWorkItem]
    rw [hfree]
    exact ⟨_, rfl⟩

/-- The end of a dispatch stops the process exactly where it frees an empty slot. -/
theorem afterHandler_succeeds_iff {t : IOUring} (hq : t.sq = []) (hroom : 0 < t.queueSize)
    (hw : t.pool.WellFormed) {frame : Frame} {ret : ReceivePostAction}
    (hknown : frame.type ≠ .unknown)
    (hkind : frame.type.Becomes (t.item frame.workItem).workType) :
    (∃ s', afterHandler frame ret t = .ok s') ↔
      frame.rearms ret ∨ (t.pool.at? frame.id).isSome = true := by
  have hsettle : (∃ s', afterHandler frame ret t = .ok s') ↔ ∃ s', t.settle frame ret = .ok s' := by
    simp only [afterHandler, Checked.bind_eq_ok, Checked.pure_eq_ok]
    constructor
    · rintro ⟨_, s', hs, _⟩
      exact ⟨s', hs⟩
    · rintro ⟨s', hs⟩
      exact ⟨_, s', hs, rfl⟩
  rw [hsettle]
  unfold settle Frame.rearms
  cases ht : frame.type with
  | unknown => exact absurd ht hknown
  | accept =>
    rw [ht] at hkind
    exact iff_of_true (submit_succeeds hq hroom (.inl (hkind.eq_of (by simp) rfl)))
      (.inl (.inl rfl))
  | recv =>
    rw [ht] at hkind
    cases ret with
    | none => simpa using freeWorkItem_succeeds_iff hw
    | reSubmit =>
      exact iff_of_true (submit_succeeds hq hroom (.inr (hkind.eq_of (by simp) rfl)))
        (.inl (.inr ⟨rfl, rfl⟩))
  | close | connect | sendStreamData | sendWorkpacket =>
    simpa using freeWorkItem_succeeds_iff hw

/-- A handler that returns by itself leaves a dispatch that ends well. -/
theorem Ready.returned_succeeds (h : Ready s) (hat : s.pool.at? cqe.userData = some o)
    {ret : ReceivePostAction} {recycle : Bool}
    (hcall : s.callHandler (s.item o) cqe = .ok (.returned ret recycle)) :
    ∃ s', afterHandler (s.frameOf cqe o) ret
      (if recycle then (s.emit (.dispatched cqe (some o))).recycleBuffer cqe.idx
        else s.emit (.dispatched cqe (some o))) = .ok s' := by
  have hknown : (s.item o).workType ≠ .unknown := by
    intro hu
    rw [callHandler, hu] at hcall
    cases hcall
  have hsome : (s.pool.at? cqe.userData).isSome = true := by simp [hat]
  have hend : ∀ buffers, ∃ s', afterHandler (s.frameOf cqe o) ret
      { s.emit (.dispatched cqe (some o)) with buffers := buffers } = .ok s' := by
    intro buffers
    have hkind : (s.frameOf cqe o).type.Becomes (s.item (s.frameOf cqe o).workItem).workType :=
      .refl _
    exact (afterHandler_succeeds_iff
      (t := { s.emit (.dispatched cqe (some o)) with buffers := buffers })
      h.sound.sq h.room h.sound.pool hknown hkind).mpr (.inr hsome)
  cases recycle with
  | false => exact hend s.buffers
  | true => exact hend (s.buffers.recycleBuffer cqe.idx)

/-- A poll gets past the completion at the head exactly if the handler of its item takes it. -/
theorem Ready.poll_succeeds_iff (h : Ready s) (hn : InTable s)
    (hitems : ∀ o < s.pool.nextObj, (s.item o).HoldsHandler) (hpending : s.pending = cqe :: rest) :
    (∃ s', s.pollCompletionQueues = .ok s') ↔ ∀ o ∈ s.pool.at? cqe.userData, cqe.res ≠ -enobufs →
      (s.item o).Takes (fun i => s.memory (s.buffers.getBuffer cqe.idx + i)) cqe := by
  cases hat : s.pool.at? cqe.userData with
  | none => exact iff_of_true ⟨_, hn.poll_missed h.sound hpending hat⟩ (by simp)
  | some o =>
    simp only [Option.mem_def, Option.some.injEq, forall_eq']
    by_cases hres : cqe.res = -enobufs
    · exact iff_of_true ⟨_, h.sound.poll_exhausted hpending hat hres⟩ fun hne => absurd hres hne
    · rw [← callHandler_succeeds_iff (hitems o (h.sound.pool.live _ _ hat).1),
        h.sound.poll_eq hpending hat hres]
      simp only [Checked.bind_eq_ok]
      constructor
      · rintro ⟨_, handled, hcall, _⟩ _
        exact ⟨handled, hcall⟩
      · intro hcall
        obtain ⟨handled, hcall⟩ := hcall hres
        cases handled with
        | called call => exact ⟨_, _, hcall, rfl⟩
        | returned ret recycle =>
          obtain ⟨s', hs⟩ := h.returned_succeeds hat hcall
          exact ⟨s', _, hcall, hs⟩

/-- The return of a callback gets to the end of the dispatch exactly if it does not
free an empty slot. -/
theorem Ready.callbackReturns_succeeds_iff (h : Ready s) {frame : Frame} {frames : List Frame}
    (hframes : s.frames = frame :: frames) (ret : ReceivePostAction) :
    (∃ s', s.callbackReturns ret = .ok s') ↔
      frame.rearms ret ∨ (s.pool.at? frame.id).isSome = true := by
  have hl := h.sound.leaveCallback hframes
  have hroom : 0 < (s.leaveCallback frame frames).queueSize := by
    rw [(leaveCallback_config frame frames).2]
    exact h.room
  obtain ⟨_, hknown, hkind⟩ := h.sound.frames frame (hframes ▸ List.mem_cons_self)
  have hkind' : frame.type.Becomes ((s.leaveCallback frame frames).item frame.workItem).workType := by
    obtain hi | ⟨_, _, hi⟩ := item_leaveCallback (s := s) frame frames frame.workItem <;> rw [hi]
    · exact hkind
    · exact hkind
  rw [callbackReturns_eq hframes, afterHandler_succeeds_iff hl.sq hroom hl.pool hknown hkind',
    leaveCallback_at?]

theorem datagram_returned_iff {buffer : Nat → Byte} {item : WorkItem} {ret : ReceivePostAction}
    {recycle : Bool} (hb : cqe.hasBuffer = true) :
    callRecvHandlerDatagram buffer item cqe = .ok (.returned ret recycle) ↔
      item.Drops buffer cqe ∧ ret = .reSubmit ∧ recycle = true := by
  have hdrop : (pure (.returned .reSubmit true) : Result Handled) = .ok (.returned ret recycle) ↔
      ret = .reSubmit ∧ recycle = true := by
    constructor
    · rintro ⟨⟩
      exact ⟨rfl, rfl⟩
    · rintro ⟨rfl, rfl⟩
      rfl
  rw [callRecvHandlerDatagram, Drops, if_neg (by rw [hb]; exact Bool.noConfusion)]
  cases RecvMsg.validate buffer cqe.res.toNat item.msg.msgNamelen item.msg.msgControllen with
  | none => exact hdrop.trans (by simp)
  | some out =>
    simp only [Option.some.injEq, forall_eq']
    by_cases hlong : sizeofSockaddrStorage < out.namelen
    · rw [if_pos hlong, hdrop]
      exact (and_iff_right (.inl hlong)).symm
    · rw [if_neg hlong]
      by_cases htrunc : out.flags &&& RecvMsg.msgTrunc ≠ 0
      · rw [if_pos htrunc, hdrop]
        exact (and_iff_right (.inr htrunc)).symm
      · rw [if_neg htrunc]
        refine iff_of_false (fun hcall => ?_) fun h => h.1.elim hlong htrunc
        obtain ⟨_, _, hcall⟩ := Checked.bind_eq_ok.mp hcall
        obtain ⟨_, _, hcall⟩ := Checked.bind_eq_ok.mp hcall
        cases hcall

theorem stream_not_returned {buffer : Nat → Byte} {item : WorkItem} {ret : ReceivePostAction}
    {recycle : Bool} : callRecvHandlerStream buffer item cqe ≠ .ok (.returned ret recycle) := by
  intro hcall
  obtain ⟨_, _, hcall⟩ := Checked.bind_eq_ok.mp hcall
  cases hcall

theorem accept_returned_iff {item : WorkItem} :
    (∃ ret recycle, IOUring.callAcceptCallback item cqe = .ok (.returned ret recycle)) ↔
      cqe.res < 0 := by
  rw [IOUring.callAcceptCallback]
  by_cases hneg : cqe.res < 0
  · rw [if_pos hneg]
    exact iff_of_true ⟨_, _, rfl⟩ hneg
  · rw [if_neg hneg]
    refine iff_of_false ?_ hneg
    rintro ⟨_, _, hcall⟩
    obtain ⟨_, _, hcall⟩ := Checked.bind_eq_ok.mp hcall
    obtain ⟨_, _, hcall⟩ := Checked.bind_eq_ok.mp hcall
    cases hcall

/-- A handler that takes the completion leads to a submission at once exactly in these cases. -/
theorem retried_iff (hpending : s.pending = cqe :: rest)
    (hat : s.pool.at? cqe.userData = some o) (hres : cqe.res ≠ -enobufs)
    (hwhole : (s.item o).workType = .recv → 0 ≤ cqe.res)
    (htakes : (s.item o).Takes (fun i => s.memory (s.buffers.getBuffer cqe.idx + i)) cqe) :
    s.RearmsAtOnce ↔
      (s.item o).Retried (fun i => s.memory (s.buffers.getBuffer cqe.idx + i)) cqe := by
  rw [rearmsAtOnce_iff hpending hat hres, callHandler, Retried]
  rw [Takes] at htakes
  simp only [Frame.rearms, show (s.frameOf cqe o).type = (s.item o).workType from rfl]
  cases ht : (s.item o).workType with
  | unknown | close | connect | sendStreamData | sendWorkpacket => simp
  | accept => simpa using accept_returned_iff
  | recv =>
    rw [ht] at htakes
    have hpos := hwhole ht
    simp only [IOUring.callRecvCallback, if_neg (Int.not_lt.mpr hpos)]
    cases hstream : (s.item o).isStream with
    | true =>
      refine iff_of_false ?_ (by simp)
      rintro ⟨ret, recycle, hcall, _⟩
      exact stream_not_returned hcall
    | false =>
      have hbuffer : cqe.hasBuffer = true := by
        obtain hintr | ⟨_, hstreams | ⟨hb, _⟩⟩ := htakes
        · rw [hintr, eaiIntr] at hpos
          omega
        · cases hstream.symm.trans hstreams
        · exact hb
      simp [datagram_returned_iff hbuffer]

/-- -EINTR. -/
def eintr : Int := 4

/-- The poll dispatches the completion at the head without stopping the process, and
the item of a failed recv is armed again if the call was interrupted and is released
otherwise. -/
def Survives (s : IOUring) (f : Flushes) (cqe : Completion) : Prop :=
  ∃ s', flushed (f, .pollCompletionQueues) s = .ok s' ∧ ∀ o ∈ s.pool.at? cqe.userData,
    (s.item o).workType = .recv → cqe.res < 0 → (s.ArmedAgain s' o ↔ cqe.res = -eintr) ∧
      (cqe.res ≠ -eintr → s'.pool.at? cqe.userData = none)

/-- The completion finds no item, one whose handler takes it, or ends at -ENOBUFS; that of
a recv has not failed; and an item that is submitted again at once finds an entry. -/
def Harmless (s : IOUring) (retry : Flush) (cqe : Completion) : Prop :=
  let buffer := fun i => s.memory (s.buffers.getBuffer cqe.idx + i)
  ∀ o ∈ s.pool.at? cqe.userData, ((s.item o).workType = .recv → 0 ≤ cqe.res) ∧
    (cqe.res ≠ -enobufs → (s.item o).Takes buffer cqe ∧
      ((s.item o).Retried buffer cqe → ¬s.Stuck retry))

/-- A failed recv is never handled as it should be: what the code takes for the
interruption of a call is another error, and a shortage of buffers leaves the item alone. -/
theorem failed_recv_mishandled (h : Sound s) (hpending : s.pending = cqe :: rest)
    (hat : s.pool.at? cqe.userData = some o) (hrecv : (s.item o).workType = .recv)
    (hneg : cqe.res < 0) (hpoll : s.pollCompletionQueues = .ok s') :
    cqe.res ≠ -eintr ∧ s'.pool.at? cqe.userData = some o := by
  by_cases hbufs : cqe.res = -enobufs
  · rw [h.poll_exhausted hpending hat hbufs] at hpoll
    cases hpoll
    exact ⟨by rw [hbufs]; decide, hat⟩
  · rw [h.poll_eq hpending hat hbufs] at hpoll
    by_cases hintr : cqe.res = eaiIntr
    · have hcall : s.callHandler (s.item o) cqe = .ok (.returned .reSubmit false) := by
        simp only [callHandler, hrecv, IOUring.callRecvCallback, if_pos hneg, if_pos hintr]
        rfl
      simp only [hcall, Checked.bind_ok, Bool.false_eq_true, if_false] at hpoll
      cases afterHandler_ok (s := s.emit (.dispatched cqe (some o))) h.sq hpoll with
      | rearmed item sqe _ _ heq =>
        refine ⟨by rw [hintr]; decide, ?_⟩
        rw [heq]
        exact hat
      | freed _ _ htype => exact absurd (htype.2.2 hrecv) (by decide)
    · have hcall : s.callHandler (s.item o) cqe = .error .aborted := by
        simp only [callHandler, hrecv, IOUring.callRecvCallback, if_pos hneg, if_neg hintr]
        rfl
      rw [hcall] at hpoll
      cases hpoll

theorem Backed.survives_iff {queueSize : Nat} (hb : Backed queueSize s) (h : Ready s.handedOver)
    (hn : InTable s.handedOver)
    (hitems : ∀ o < s.pool.nextObj, (s.item o).HoldsHandler) (hpending : s.pending = cqe :: rest)
    (f : Flushes) : s.Survives f cqe ↔ s.Harmless f.retry cqe := by
  have hagrees : Agrees (s.Stuck f.retry ∧ s.RearmsAtOnce) (flushed (f, .pollCompletionQueues) s)
      s.handedOver.pollCompletionQueues := pollCompletionQueues_agrees hb.room
  have hsucceeds := hagrees.succeeds_iff
  rw [h.poll_succeeds_iff hn hitems hpending] at hsucceeds
  constructor
  · rintro ⟨s', hpoll, hspec⟩ o hat
    obtain ⟨hfree, hall⟩ := hsucceeds.mp ⟨s', hpoll⟩
    have hwhole : (s.item o).workType = .recv → 0 ≤ cqe.res := by
      intro hrecv
      by_contra hneg
      have hlt := Int.not_le.mp hneg
      obtain ⟨hintr, hkept⟩ := failed_recv_mishandled h.sound hpending hat hrecv hlt
        (hagrees.ok hpoll)
      cases ((hspec o hat hrecv hlt).2 hintr).symm.trans hkept
    refine ⟨hwhole, fun hres => ⟨hall o hat hres, fun hagain hstuck => hfree ⟨hstuck, ?_⟩⟩⟩
    exact (retried_iff hpending hat hres hwhole (hall o hat hres)).mpr hagain
  · intro hharmless
    have hfree : ¬(s.Stuck f.retry ∧ s.RearmsAtOnce) := by
      rintro ⟨hstuck, hagain⟩
      obtain ⟨c, _, o, _, _, hcons, hat, hres, _⟩ := id hagain
      cases hpending.symm.trans hcons
      obtain ⟨hwhole, hrest⟩ := hharmless o hat
      obtain ⟨htakes, hroom⟩ := hrest hres
      exact hroom ((retried_iff hpending hat hres hwhole htakes).mp hagain) hstuck
    obtain ⟨s', hpoll⟩ := hsucceeds.mpr ⟨hfree, fun o hat hres => ((hharmless o hat).2 hres).1⟩
    refine ⟨s', hpoll, fun o hat hrecv hneg => ?_⟩
    exact absurd hneg (Int.not_lt.mpr ((hharmless o hat).1 hrecv))

theorem Backed.callbackReturns_succeeds_iff {queueSize : Nat} (hb : Backed queueSize s)
    (h : Ready s.handedOver) {frame : Frame} {frames : List Frame}
    (hframes : s.frames = frame :: frames) (f : Flushes) (ret : ReceivePostAction) :
    (∃ s', flushed (f, .callbackReturns ret) s = .ok s') ↔
      (frame.rearms ret → ¬s.Stuck f.retry) ∧
        (¬frame.rearms ret → (s.pool.at? frame.id).isSome = true) := by
  have hagrees : Agrees _ (flushed (f, .callbackReturns ret) s)
      (s.handedOver.callbackReturns ret) := callbackReturns_agrees hb.room
  rw [hagrees.succeeds_iff, h.callbackReturns_succeeds_iff hframes, hframes]
  have hslot : s.handedOver.pool.at? frame.id = s.pool.at? frame.id := rfl
  rw [hslot]
  simp only [List.head?_cons, Option.mem_def, Option.some.injEq, exists_eq_left']
  tauto

/-- In every reachable state, whatever the io_uring_submit calls did and do, when the next
dispatch and the return of the innermost callback leave the process up. -/
theorem survives_iff_harmless {queueSize mapped : Nat} {memory : Nat → Byte}
    (hroom : 0 < queueSize)
    (hr : Transition.Reaches flushed Transition.Free (initial queueSize mapped memory) s)
    (f : Flushes) :
    (∀ cqe ∈ s.pending.head?, s.Survives f cqe ↔ s.Harmless f.retry cqe) ∧
      ∀ frame ∈ s.frames.head?, ∀ ret, (∃ s', flushed (f, .callbackReturns ret) s = .ok s') ↔
        (frame.rearms ret → ¬s.Stuck f.retry) ∧
          (¬frame.rearms ret → (s.pool.at? frame.id).isSome = true) := by
  obtain ⟨hbacked, hreach⟩ := backed_reaches hr
  have hready := (initial_ready hroom mapped memory).reaches hreach
  constructor
  · intro cqe hhead
    obtain ⟨rest, hpending⟩ := List.head?_eq_some_iff.mp hhead
    exact hbacked.survives_iff hready (inTable_reaches hreach)
      (fun o ho => lasting_reaches holdsHandler_lasting hreach ho) hpending f
  · intro frame hhead ret
    obtain ⟨frames, hframes⟩ := List.head?_eq_some_iff.mp hhead
    exact hbacked.callbackReturns_succeeds_iff hready hframes f ret

private def tcpSocket : Socket := ⟨.ipv4Tcp, 0, .unicastClientSocket, 3⟩

private def recvDone (res : Int) : Outcome := ⟨res, 1, default, fun _ => none⟩

/-- Every io_uring_submit fails. -/
private def unavailable : Flushes := ⟨.failed, .failed⟩

private def oneTaken : Flushes := ⟨.took 1, .took 1⟩

theorem survives_iff_harmless_recv : ∃ (s : IOUring) (cqe : Completion),
    s.pending.head? = some cqe ∧ cqe.res = 5 ∧ (s.item 0).workType = .recv ∧
      s.sq.length = s.queueSize ∧ s.Survives unavailable cqe := by
  obtain ⟨s, hr, ⟨cqe, hhead, hres⟩, hat, hrecv, hstream, hfull⟩ :=
    Transition.reaches_of_leads flushed Transition.Free
      (fun s => (∃ cqe ∈ s.pending.head?, cqe.res = 5) ∧
        (∀ cqe ∈ s.pending.head?, s.pool.at? cqe.userData = some 0) ∧
          (s.item 0).workType = .recv ∧ (s.item 0).isStream = true ∧ s.sq.length = s.queueSize)
      [(oneTaken, .submitRecv tcpSocket 7 default), (unavailable, .submitRecv tcpSocket 7 default),
        (oneTaken, .complete 0 (recvDone 5))] (initial 1 0 fun _ => 0)
      (by decide +kernel)
  refine ⟨s, cqe, hhead, hres, hrecv, hfull, ?_⟩
  apply ((survives_iff_harmless (by decide) hr unavailable).1 cqe hhead).mpr
  intro o ho
  have hpos : 0 ≤ cqe.res := by omega
  obtain rfl : 0 = o := Option.some.inj ((hat cqe hhead).symm.trans ho)
  refine ⟨fun _ => hpos, fun _ => ⟨?_, fun hagain => ?_⟩⟩
  · rw [Takes]
    rw [hrecv]
    exact .inr ⟨hpos, .inl hstream⟩
  · rw [Retried] at hagain
    rw [hrecv] at hagain
    cases hstream.symm.trans hagain.1

/-- A failed accept is submitted again into a queue that is full and stays so. -/
example : ([(oneTaken, .submitAccept ⟨.ipv4Tcp, 0, .serverStreamSocket, 3⟩ 7 default),
    (unavailable, .submitRecv tcpSocket 7 default), (oneTaken, .complete 0 (recvDone (-24))),
    (unavailable, .pollCompletionQueues)].foldlM (fun s a => flushed a s)
      (initial 1 0 fun _ => 0)).map (fun _ => ()) = .error .aborted := by decide +kernel

/-- A recv that was interrupted before it took any byte brings the process down, although
every entry was taken. -/
theorem interrupted_recv_aborts : ∃ (s : IOUring) (cqe : Completion),
    Transition.Reaches flushed Transition.Free (initial 256 0 fun _ => 0) s ∧
      s.pending.head? = some cqe ∧ cqe.res = -eintr ∧ (s.item 0).workType = .recv ∧
        s.pool.at? cqe.userData = some 0 ∧
          (flushed (oneTaken, .pollCompletionQueues) s).map (fun _ => ()) = .error .aborted := by
  obtain ⟨s, hr, ⟨cqe, hhead, hres⟩, hrecv, hat, habort⟩ :=
    Transition.reaches_of_leads flushed Transition.Free
      (fun s => (∃ cqe ∈ s.pending.head?, cqe.res = -eintr) ∧ (s.item 0).workType = .recv ∧
        (∀ cqe ∈ s.pending.head?, s.pool.at? cqe.userData = some 0) ∧
          (flushed (oneTaken, .pollCompletionQueues) s).map (fun _ => ()) = .error .aborted)
      [(oneTaken, .submitRecv tcpSocket 7 default),
        (oneTaken, .complete 0 ⟨-eintr, 0, default, fun _ => none⟩)]
      (initial 256 0 fun _ => 0) (by decide +kernel)
  exact ⟨s, cqe, hr, hhead, hres, hrecv, hat cqe hhead, habort⟩

end IOUring

end Iuring
