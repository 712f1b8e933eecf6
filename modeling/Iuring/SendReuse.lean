import Iuring.DispatchFaults

namespace Iuring

open Lib Lib.Memory

namespace SendPacket

/-- A reset writes zeros over what was appended. -/
theorem data_reset (p : SendPacket) : p.reset.data p.size = List.replicate p.size 0 :=
  read_fill p.buf 0 p.size 0

end SendPacket

namespace IOUring

variable {s s' s₁ s₂ : IOUring} {a : Action} {o : Nat} {data : List Byte} {cb : CallbackFn}

/-- Each dispatch in progress is about the slot that its item is numbered for. -/
def FramesNamed (s : IOUring) : Prop :=
  ∀ frame ∈ s.frames, frame.id = (s.item frame.workItem).id

theorem FramesNamed.step (hn : s.FramesNamed) (h : Sound s) (hs : IOUring.step a s = .ok s') :
    s'.FramesNamed :=
  fun frame hm => h.frame_named (step_ok h.sq hs) hm (hn frame)

theorem framesNamed_reaches {queueSize mapped : Nat} {memory : Nat → Byte}
    {guard : IOUring → Action → Prop}
    (hr : Transition.Reaches IOUring.step guard (initial queueSize mapped memory) s) :
    s.FramesNamed := by
  have hinv := hr.invariant (I := fun u => Sound u ∧ u.FramesNamed)
    (fun u a v hu _ hs => ⟨hu.1.step hs, hu.2.step hu.1 hs⟩)
    ⟨initial_sound queueSize mapped memory, List.forall_mem_nil _⟩
  exact hinv.2

/-- An item that has lost its slot never gets one again. -/
theorem unseated_reaches {guard : IOUring → Action → Prop} (h : Sound s)
    (ho : o < s.pool.nextObj) (hout : ∀ i, s.pool.at? i ≠ some o)
    (hr : Transition.Reaches IOUring.step guard s s') : ∀ i, s'.pool.at? i ≠ some o := by
  have hinv := hr.invariant
    (I := fun u => Sound u ∧ o < u.pool.nextObj ∧ ∀ i, u.pool.at? i ≠ some o)
    (fun u a v hu _ hs => ?_) ⟨h, ho, hout⟩
  · exact hinv.2.2
  · obtain ⟨hsound, hlt, hout⟩ := hu
    have hst := step_ok hsound.sq hs
    exact ⟨hsound.step hs, hlt.trans_le (hst.extends hsound).next,
      fun i hi => hout i (hsound.slot_back hst hlt hi)⟩

/-- One of the two calls that submit a held item with the given callback. -/
def Submits (o : Nat) (cb : CallbackFn) (a : Action) : Prop :=
  a = .submitStreamData o cb ∨ ∃ params, a = .submitPacket o params cb

/-- What a callback does that uses the item once more. -/
def reuse (o : Nat) (data : List Byte) (again : Action) : List Action :=
  [.getSendPacket o, .append o data, again]

/-- No poll dispatches a completion of the request. -/
def Undispatched (req : Request) (s : IOUring) (a : Action) : Prop :=
  a.polls = true → ∀ cqe ∈ s.pending.head?, cqe.req ≠ req

/-- Until a completion of the request is dispatched the item is in its slot with the bytes
in its packet, and a poll that dispatches one calls the callback. -/
def SentIntact (s : IOUring) (o : Nat) (req : Request) (data : List Byte) (cb : CallbackFn) : Prop :=
  ∀ t, Transition.Reaches IOUring.step (Undispatched req) s t →
    t.pool.at? req.sqe.userData = some o ∧ (t.item o).sendPacket.data data.length = data ∧
      ∀ cqe rest t', t.pending = cqe :: rest → cqe.req = req → 0 ≤ cqe.res →
        t.pollCompletionQueues = .ok t' → t'.trace = t.trace ++
          [.dispatched cqe (some o), .called o ⟨cb, .send ⟨cqe.res⟩⟩]

/-- The state that a re-use leads to: a request more, and the bytes in the packet. -/
structure Reused (s s₁ : IOUring) (o : Nat) (data : List Byte) (req : Request) : Prop where
  consumed : s₁.consumed = s.consumed ++ [req]
  owner : req.owner = o
  userData : req.sqe.userData = (s₁.item o).id
  size : (s₁.item o).sendPacket.size = data.length
  frames : s₁.frames = s.frames

theorem reused_of_submit {set : WorkItem → Result WorkItem} (hq : s.sq = [])
    (hset : ∀ item item₀, set item = .ok item₀ → item₀.sendPacket = item.sendPacket)
    (hsize : (s.item o).sendPacket.size = data.length) (hs : s.submitItem o set = .ok s₁) :
    ∃ req, Reused s s₁ o data req := by
  obtain ⟨item₀, item, sqe, hitem, hprep, rfl⟩ := submitItem_ok hq hs
  obtain ⟨hp, hd⟩ := prepare_ok hprep
  refine ⟨⟨s.consumed.length, o, sqe⟩, rfl, rfl, ?_, ?_, rfl⟩
  · rw [item_arm, if_pos rfl, hp.same.id]
    exact hd.userData
  · rw [item_arm, if_pos rfl, hp.packet, hset _ _ hitem, hsize]

theorem getSendPacket_ok (hs : IOUring.step (.getSendPacket o) s = .ok s') :
    s' = s.setItem o (s.item o).getSendPacket := by
  simp only [step, flushedStep] at hs
  obtain ⟨_, hf⟩ := onHandle_ok hs
  exact (Except.ok.inj hf).symm

theorem append_ok (hs : IOUring.step (.append o data) s = .ok s') : ∃ packet,
    (s.item o).sendPacket.append data = .ok packet ∧
      s' = s.setItem o { s.item o with sendPacket := packet } := by
  simp only [step, flushedStep] at hs
  obtain ⟨_, hf⟩ := onHandle_ok hs
  obtain ⟨item, hitem, he⟩ := Checked.bind_eq_ok.mp hf
  obtain ⟨packet, happend, hp⟩ := Checked.bind_eq_ok.mp hitem
  cases hp
  exact ⟨packet, happend, (Except.ok.inj he).symm⟩

theorem submits_ok (hagain : Submits o cb a) (hs : IOUring.step a s = .ok s') :
    ∃ set : WorkItem → Result WorkItem, s.submitItem o set = .ok s' ∧
      ∀ item item₀, set item = .ok item₀ → item₀.sendPacket = item.sendPacket := by
  obtain rfl | ⟨params, rfl⟩ := hagain
  · simp only [step, flushedStep] at hs
    obtain ⟨_, hf⟩ := onHandle_ok hs
    refine ⟨_, hf, fun item item₀ he => ?_⟩
    cases he
    rfl
  · simp only [step, flushedStep] at hs
    obtain ⟨_, hf⟩ := onHandle_ok hs
    refine ⟨_, hf, fun item item₀ he => ?_⟩
    cases he
    rfl

/-- The packet is emptied first, so that it holds what is appended and no more. -/
theorem reused_of_runs (h : Sound s) {again : Action} (hagain : Submits o cb again)
    (hfit : data.length < SendPacket.capacity)
    (hruns : Transition.Runs IOUring.step Transition.Free (reuse o data again) s s₁) :
    ∃ req, Reused s s₁ o data req := by
  obtain ⟨_, u, hu, hruns⟩ := Transition.runs_cons.mp hruns
  obtain ⟨_, v, hv, hruns⟩ := Transition.runs_cons.mp hruns
  obtain ⟨_, w, hw, hruns⟩ := Transition.runs_cons.mp hruns
  cases Transition.runs_nil.mp hruns
  have hsound := (h.step hu).step hv
  obtain ⟨set, hsubmit, hset⟩ := submits_ok hagain hw
  obtain rfl := getSendPacket_ok hu
  obtain ⟨packet, happend, rfl⟩ := append_ok hv
  have hsize : packet.size = data.length := by
    have hmod : (0 + data.length) % sizeModulus = data.length := by
      rw [sizeModulus]
      rw [SendPacket.capacity] at hfit
      omega
    rw [item_setItem, if_pos rfl] at happend
    obtain ⟨_, _, happend⟩ := Checked.bind_eq_ok.mp happend
    cases happend
    exact hmod
  have hsize' : ((setItem o { (s.setItem o (s.item o).getSendPacket).item o with
      sendPacket := packet } (s.setItem o (s.item o).getSendPacket)).item o).sendPacket.size =
        data.length := by
    rw [item_setItem, if_pos rfl]
    exact hsize
  obtain ⟨req, hreused⟩ := reused_of_submit hsound.sq hset hsize' hsubmit
  exact ⟨req, hreused.consumed, hreused.owner, hreused.userData, hreused.size, hreused.frames⟩

/-- The return of a send's callback empties the packet of its item, and the item is in no
slot from then on. -/
theorem lost_of_returned (h : Sound s) (hn : s.FramesNamed) {frame : Frame} {frames : List Frame}
    (hframes : s.frames = frame :: frames) (hsend : frame.type.isSend = true)
    (ho : frame.workItem = o) {ret : ReceivePostAction} (hs : s.callbackReturns ret = .ok s') :
    (s'.item o).sendPacket = (s.item o).sendPacket.reset ∧
      ∀ t, Transition.Reaches IOUring.step Transition.Free s' t → ∀ i, t.pool.at? i ≠ some o := by
  have hstep : IOUring.step (.callbackReturns ret) s = .ok s' := hs
  have hsound := h.step hstep
  have hext := (step_ok h.sq hstep).extends h
  have hlt : o < s.pool.nextObj := ho ▸ (h.frames frame (hframes ▸ List.mem_cons_self)).1
  have hid : frame.id = (s'.item o).id := by
    subst ho
    exact (hn frame (hframes ▸ List.mem_cons_self)).trans (hext.evolves _ hlt).id.symm
  rw [callbackReturns_eq hframes] at hs
  have hst := afterHandler_ok (h.leaveCallback hframes).sq hs
  have hgone := gone_of_settled hst hsend
  constructor
  · have hleft : (s.leaveCallback frame frames).item o = (s.item o).cleanSendPacket := by
      subst ho
      rw [leaveCallback]
      cases ht : frame.type with
      | sendStreamData | sendWorkpacket => exact Function.update_self _ _ _
      | unknown | accept | recv | connect | close => rw [ht] at hsend; cases hsend
    obtain heq | ⟨hnot, _⟩ | heq := item_settled hst o
    · rw [heq, hleft]
      rfl
    · rw [hsend] at hnot
      cases hnot
    · rw [heq, hleft]
      rfl
  · intro t hr
    refine unseated_reaches hsound (hlt.trans_le hext.next) (fun i hi => ?_) hr
    have hi' : (s'.item o).id = i := (hsound.pool.live i o hi).2.1
    rw [hid, hi', hi] at hgone
    cases hgone

/-- A send that is submitted again from its own callback is never sent intact: as the
callback returns its bytes become zeros and the item leaves the pool for good. -/
theorem reused_send_lost {queueSize mapped : Nat} {memory : Nat → Byte} (hroom : 0 < queueSize)
    (hr : Transition.Reaches IOUring.step Transition.Free (initial queueSize mapped memory) s)
    {frame : Frame} {frames : List Frame} (hframes : s.frames = frame :: frames)
    (hsend : frame.type.isSend = true) {again : Action} (hagain : Submits frame.workItem cb again)
    (hfit : data.length < SendPacket.capacity)
    (hruns : Transition.Runs IOUring.step Transition.Free (reuse frame.workItem data again) s s₁) :
    ∃ req, s₁.consumed = s.consumed ++ [req] ∧ req.owner = frame.workItem ∧
      ¬s₁.SentIntact frame.workItem req data cb ∧
        ∀ ret s₂, s₁.callbackReturns ret = .ok s₂ →
          (s₂.item frame.workItem).sendPacket.data data.length = List.replicate data.length 0 ∧
            ∀ t, Transition.Reaches IOUring.step Transition.Free s₂ t →
              ∀ i, t.pool.at? i ≠ some frame.workItem := by
  have hready := (initial_ready hroom mapped memory).reaches hr
  obtain ⟨req, hreused⟩ := reused_of_runs hready.sound hagain hfit hruns
  have hready₁ := hready.reaches hruns.reaches
  have hnamed := framesNamed_reaches (hr.trans hruns.reaches)
  have hframes₁ : s₁.frames = frame :: frames := hreused.frames.trans hframes
  refine ⟨req, hreused.consumed, hreused.owner, fun hintact => ?_, fun ret s₂ hs => ?_⟩
  · obtain ⟨hat, _⟩ := hintact s₁ .refl
    have hid : frame.id = req.sqe.userData :=
      (hnamed frame (hframes₁ ▸ List.mem_cons_self)).trans hreused.userData.symm
    obtain ⟨s₂, hs⟩ := (hready₁.callbackReturns_succeeds_iff hframes₁ .none).mpr
      (.inr (by rw [hid, hat]; rfl))
    obtain ⟨_, hgone⟩ := lost_of_returned hready₁.sound hnamed hframes₁ hsend rfl hs
    have hnext : Transition.Reaches IOUring.step (Undispatched req) s₁ s₂ :=
      Transition.Reaches.refl.tail (a := .callbackReturns .none) (fun hp => by cases hp) hs
    exact hgone s₂ .refl _ (hintact s₂ hnext).1
  · obtain ⟨hpacket, hgone⟩ := lost_of_returned hready₁.sound hnamed hframes₁ hsend rfl hs
    refine ⟨?_, hgone⟩
    rw [hpacket, ← hreused.size]
    exact SendPacket.data_reset _

private def replier : Socket := ⟨.ipv4Tcp, 0, .unicastClientSocket, 3⟩

private def tookOne : Outcome := ⟨1, 0, default, fun _ => none⟩

private def firstSend : List Action := [.ackuireSendWorkitem replier default, .getSendPacket 0,
  .append 0 [65], .submitStreamData 0 7, .complete 0 tookOne, .pollCompletionQueues]

private def replyRequest (seq : Nat) : Request := ⟨seq, 0, ⟨0, .send 3 1, false, false⟩⟩

theorem reused_send_lost_stream : ∃ (s s₁ : IOUring) (req : Request),
    Transition.Runs IOUring.step Transition.Free (reuse 0 [66] (.submitStreamData 0 8)) s s₁ ∧
      s₁.consumed = s.consumed ++ [req] ∧ ¬s₁.SentIntact 0 req [66] 8 := by
  obtain ⟨s, hr, hframes, hleads⟩ := Transition.reaches_of_leads IOUring.step Transition.Free
    (fun s => s.frames = [⟨0, 0, .sendStreamData, 0⟩] ∧
      Transition.Leads IOUring.step Transition.Free (fun s₁ => s₁.consumed.length = 2)
        (reuse 0 [66] (.submitStreamData 0 8)) s)
    firstSend (initial 256 0 fun _ => 0) (by decide +kernel)
  obtain ⟨s₁, hruns, _⟩ := Transition.runs_of_leads _ _ _ _ s hleads
  obtain ⟨req, hconsumed, _, hlost, _⟩ :=
    reused_send_lost (by decide) hr hframes rfl (.inl rfl) (by decide) hruns
  exact ⟨s, s₁, req, hruns, hconsumed, hlost⟩

/-- The callback replaces "A" by "B" and sends it with a second callback: the kernel takes
a zero byte, and no callback learns of it. -/
theorem reused_send_takes_zero : ∃ t,
    Transition.Reaches IOUring.step Transition.Free (initial 256 0 fun _ => 0) t ∧
      t.trace = [.submitted (replyRequest 0), .dispatched ⟨replyRequest 0, 1, 0, [65], none⟩ (some 0),
        .called 0 ⟨7, .send ⟨1⟩⟩, .submitted (replyRequest 1), .released 0,
        .dispatched ⟨replyRequest 1, 1, 0, [0], none⟩ none] :=
  Transition.reaches_of_leads IOUring.step Transition.Free
    (fun t => t.trace = [.submitted (replyRequest 0),
      .dispatched ⟨replyRequest 0, 1, 0, [65], none⟩ (some 0), .called 0 ⟨7, .send ⟨1⟩⟩,
      .submitted (replyRequest 1), .released 0,
      .dispatched ⟨replyRequest 1, 1, 0, [0], none⟩ none])
    (firstSend ++ reuse 0 [66] (.submitStreamData 0 8) ++
      [.callbackReturns .none, .complete 0 tookOne, .pollCompletionQueues])
    (initial 256 0 fun _ => 0) (by decide +kernel)

end IOUring

end Iuring
