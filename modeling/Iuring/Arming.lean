import Iuring.Matching

namespace Iuring

open Lib

namespace IOUring

variable {s s' : IOUring} {a : Action}

/-- The item has no request armed. -/
def Disarmed (s : IOUring) (o : Nat) : Prop := ∀ req ∈ s.armed, req.owner ≠ o

instance (s : IOUring) (o : Nat) : Decidable (s.Disarmed o) :=
  inferInstanceAs (Decidable (∀ _ ∈ _, _))

/-- A completion that is not -ENOBUFS is dispatched only to an item with nothing armed. -/
def PollsDisarmed (s : IOUring) (a : Action) : Prop :=
  a.polls = true → ∀ cqe ∈ s.pending.head?, cqe.res ≠ -enobufs →
    ∀ o ∈ s.pool.at? cqe.userData, s.Disarmed o

instance (s : IOUring) (a : Action) : Decidable (s.PollsDisarmed a) :=
  inferInstanceAs (Decidable (_ → _))

theorem Dispatching.disarmed_fresh (hd : Dispatching s) {o : Nat} (ho : o = s.pool.nextObj) :
    s.Disarmed o := by
  intro req hr he
  have hlt := (hd.sound.owned req (hd.sound.armed req hr)).lt
  omega

theorem Dispatching.disarmed_unknown (hd : Dispatching s) {o : Nat} (ho : s.kind o = .unknown) :
    s.Disarmed o := by
  intro req hr he
  have ht := (hd.sound.owned req (hd.sound.armed req hr)).type
  exact ht.known req.sqe.op.workType_ne_unknown (he ▸ ho)

/-- The item of a dispatch in progress is neither new nor waiting for its submission. -/
theorem Dispatching.frame_ne (hd : Dispatching s) {frame : Frame} (hf : frame ∈ s.frames) {o : Nat}
    (ho : o = s.pool.nextObj ∨ s.kind o = .unknown) : o ≠ frame.workItem := by
  obtain ⟨hlt, hk, hb⟩ := hd.sound.frames frame hf
  rintro rfl
  obtain ho | ho := ho
  · omega
  · exact hb.known hk ho

end IOUring

namespace Ledger

open IOUring

variable {s s' : IOUring} {a : Action}

/-- Armed requests belong to different items in their slots, and the item of a
dispatch in progress has none. -/
structure OneEach (l : Ledger) : Prop where
  single : l.desk.Single Request.id Request.owner
  frames : ∀ frame ∈ l.frames, ∀ req ∈ l.desk.waiting, req.owner ≠ frame.workItem

theorem OneEach.ending (h : s.ledger.OneEach) (hg : s.PollsDisarmed a) {cqe : Completion}
    {rest : List Completion} {o : Nat} {type : WorkType} {ret : ReceivePostAction}
    {events : List Event} (hend : s.Ending cqe rest o type ret events a) : s.Disarmed o := by
  obtain ⟨rfl, _⟩ | ⟨_, _, frame, hf, rfl, _⟩ := hend.source
  · exact hg rfl cqe (by rw [hend.pending]; rfl) hend.res o hend.holds
  · exact h.frames frame (show frame ∈ s.frames from hf ▸ List.mem_cons_self)

theorem OneEach.frames_issue (h : s.ledger.OneEach) (hd : Dispatching s) {req : Request}
    (ho : req.owner = s.pool.nextObj ∨ s.kind req.owner = .unknown) :
    ∀ frame ∈ s.frames, ∀ r ∈ s.armed ++ [req], r.owner ≠ frame.workItem := by
  intro frame hf
  exact List.forall_mem_append.mpr
    ⟨h.frames frame hf, List.forall_mem_singleton.mpr (hd.frame_ne hf ho)⟩

theorem OneEach.tracked (h : s.ledger.OneEach) (hd : Dispatching s)
    (hsub : ∀ o ∈ a.submits, s.kind o = .unknown) (hg : s.PollsDisarmed a)
    (ht : Tracked s s' a) : s'.ledger.OneEach := by
  cases ht with
  | opened socket req _ hfresh hvacant heq =>
    refine heq ▸ ⟨?_, h.frames_issue hd (.inl hfresh)⟩
    exact (h.single.assign hvacant).issue (Function.update_self _ _ _) (hd.disarmed_fresh hfresh)
  | acquired socket mem o id hfresh hvacant heq =>
    exact heq ▸ ⟨h.single.assign hvacant, h.frames⟩
  | edited _ _ heq | idle heq => exact heq ▸ h
  | submitted req hsubmits hheld hid _ heq =>
    have hu := hsub _ hsubmits
    refine heq ▸ ⟨?_, h.frames_issue hd (.inr hu)⟩
    exact h.single.issue (hid ▸ hd.reserved _ hheld hu) (hd.disarmed_unknown hu)
  | missed _ _ _ _ _ heq | exhausted _ _ _ _ _ _ _ heq =>
    exact heq ▸ ⟨h.single.settle, List.forall_mem_nil _⟩
  | entered cqe rest o call hf hp hat hres _ heq =>
    refine heq ▸ ⟨h.single, List.forall_mem_singleton.mpr ?_⟩
    exact hg rfl cqe (by rw [hp]; rfl) hres o hat
  | rearmed cqe rest o type ret events req hend _ howner hid _ heq =>
    refine heq ▸ ⟨h.single.settle.issue ?_ (howner ▸ h.ending hg hend), List.forall_mem_nil _⟩
    rw [hid, howner]
    exact hend.holds
  | freed cqe rest o type ret events hend _ heq =>
    exact heq ▸ ⟨h.single.settle.vacate hend.holds (h.ending hg hend), List.forall_mem_nil _⟩
  | completed i k req harmed heq =>
    refine heq ▸ ⟨h.single.answer, fun frame hf r hr => h.frames frame hf r ?_⟩
    simp only [Desk.answer] at hr
    split at hr
    · exact hr
    · exact List.mem_of_mem_eraseIdx hr

end Ledger

namespace IOUring

variable {s s' : IOUring} {a : Action}

/-- The items in the occupied slots, one for each slot. -/
def occupants (s : IOUring) : List Nat := s.pool.workItems.filterMap id

theorem mem_occupants {i o : Nat} (h : s.pool.at? i = some o) : o ∈ s.occupants := by
  simp only [occupants, List.mem_filterMap, id, exists_eq_right]
  exact List.mem_of_getElem? (WorkPool.at?_eq_some.mp h)

/-- The runs in which no multishot request stays armed behind a dispatched completion. -/
def Lapsing (s : IOUring) (a : Action) : Prop := s.SubmittedOnce a ∧ s.PollsDisarmed a

instance (s : IOUring) (a : Action) : Decidable (s.Lapsing a) :=
  inferInstanceAs (Decidable (_ ∧ _))

theorem initial_oneEach (queueSize mapped : Nat) (memory : Nat → Memory.Byte) :
    (initial queueSize mapped memory).ledger.OneEach :=
  ⟨⟨List.nodup_nil, List.forall_mem_nil _⟩, List.forall_mem_nil _⟩

/-- Each item has at most one request armed, so there are no more than occupied slots. -/
theorem one_armed_per_item {queueSize mapped : Nat} {memory : Nat → Memory.Byte}
    (hr : Transition.Reaches IOUring.step Lapsing (initial queueSize mapped memory) s) :
    (∀ o, s.armed.countP (fun req => req.owner = o) ≤ 1) ∧ s.armed.length ≤ s.occupants.length := by
  have h : Dispatching s ∧ s.ledger.OneEach := by
    refine hr.invariant (I := fun s => Dispatching s ∧ s.ledger.OneEach) ?_
      ⟨initial_dispatching queueSize mapped memory, initial_oneEach queueSize mapped memory⟩
    intro t a t' hp hg hs
    obtain ⟨ht, hd⟩ := hp.1.step hg.1.1 hs
    exact ⟨hd, hp.2.tracked hp.1 hg.1.2 hg.2 ht⟩
  refine ⟨fun o => ?_, h.2.single.length_le fun i o => mem_occupants⟩
  have hc := List.nodup_iff_count_le_one.mp h.2.single.nodup o
  simpa only [List.count, List.countP_map, Function.comp_def, beq_iff_eq, Bool.beq_eq_decide_eq,
    ledger, desk] using hc

private def udpSocket : Socket := ⟨.ipv4Udp, 0, .unicastClientSocket, 3⟩

private def oneDatagram (flags : BitVec 32) : Outcome := ⟨144, flags, default, fun _ => none⟩

theorem one_armed_per_item_datagram : ∃ t,
    Transition.Reaches IOUring.step Lapsing (initial 256 0 fun _ => 0) t ∧ t.armed ≠ [] ∧
      (∀ o, t.armed.countP (fun req => req.owner = o) ≤ 1) ∧
      t.armed.length ≤ t.occupants.length := by
  obtain ⟨t, hr, ha⟩ := Transition.reaches_of_leads IOUring.step Lapsing (fun t => t.armed ≠ [])
    [.submitRecv udpSocket 7 default, .complete 0 (oneDatagram 1), .pollCompletionQueues,
      .callbackReturns .reSubmit]
    (initial 256 0 fun _ => 0) (by decide +kernel)
  exact ⟨t, hr, ha, one_armed_per_item hr⟩

/-- A datagram with IORING_CQE_F_MORE whose callback returns RE_SUBMIT arms the item twice. -/
theorem two_armed_for_item : ∃ t,
    Transition.Reaches IOUring.step SubmittedOnce (initial 256 0 fun _ => 0) t ∧
      t.armed.countP (fun req => req.owner = 0) = 2 ∧ t.occupants.length = 1 := by
  obtain ⟨t, hr, ha⟩ := Transition.reaches_of_leads IOUring.step SubmittedOnce
    (fun t => t.armed.countP (fun req => req.owner = 0) = 2 ∧ t.occupants.length = 1)
    [.submitRecv udpSocket 7 default, .complete 0 (oneDatagram 3), .pollCompletionQueues,
      .callbackReturns .reSubmit]
    (initial 256 0 fun _ => 0) (by decide +kernel)
  exact ⟨t, hr, ha⟩

end IOUring

end Iuring
