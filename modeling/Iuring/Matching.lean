import Iuring.Dispatch

namespace Iuring

open Lib

/-- The items that one completion uses up. -/
def WorkType.isOneShot : WorkType → Bool
  | .close | .connect | .sendStreamData | .sendWorkpacket => true
  | .unknown | .accept | .recv => false

theorem WorkType.Becomes.isOneShot {a b : WorkType} (h : a.Becomes b) (ha : a.isOneShot = true) :
    b.isOneShot = true := by
  obtain rfl | ⟨_, hb⟩ := h
  · exact ha
  · cases b <;> first | rfl | cases hb

theorem Op.workType_of_isMultishot {op : Op} (h : op.isMultishot = true) :
    op.workType = .recv := by
  cases op <;> first | rfl | cases h

namespace IOUring

variable {s s' : IOUring} {a : Action}

/-- The tickets out are requests that were handed over. -/
theorem Sound.outstanding (h : Sound s) {req : Request} (hr : req ∈ s.desk.outstanding) :
    Owned s.pool req := by
  apply h.owned req
  obtain hr | hr := List.mem_append.mp hr
  · exact h.armed req hr
  · obtain ⟨cqe, hc, rfl⟩ := List.mem_map.mp hr
    exact h.posted cqe (List.mem_of_mem_drop hc)

theorem Sound.count_fresh (h : Sound s) {o : Nat} (ho : s.pool.nextObj ≤ o) :
    s.desk.count Request.owner o = 0 := by
  apply (Desk.count_eq_zero _).mpr
  intro req hr
  have := (h.outstanding hr).lt
  omega

theorem Sound.count_unknown (h : Sound s) {o : Nat} (ho : s.kind o = .unknown) :
    s.desk.count Request.owner o = 0 := by
  apply (Desk.count_eq_zero _).mpr
  intro req hr he
  exact (h.outstanding hr).type.known req.sqe.op.workType_ne_unknown (he ▸ ho)

theorem answers_eq {cqe : Completion} {rest : List Completion} (h : s.pending = cqe :: rest) :
    s.desk.answers = cqe.req :: rest.map (·.req) := by
  simp [desk, h]

/-- A recv handler that does not call back asks for the item to be armed again. -/
theorem callHandler_recv {cqe : Completion} {item : WorkItem} {ret : ReceivePostAction}
    {recycle : Bool} (ht : item.workType = .recv)
    (h : s.callHandler item cqe = .ok (.returned ret recycle)) : ret = .reSubmit := by
  cases callHandler_ok h with
  | failed htype _ => simp [ht, WorkType.isSend] at htype
  | interrupted _ _ | rejected _ _ => rfl

/-- A freed item is a one-shot one or a recv item whose callback said so. -/
theorem Ending.freed_kind {cqe : Completion} {rest : List Completion} {o : Nat}
    {type : WorkType} {ret : ReceivePostAction} {events : List Event}
    (h : s.Ending cqe rest o type ret events a) (hf : type ≠ .accept ∧ (type = .recv → ret = .none)) :
    (s.kind o).isOneShot = true ∨ type = .recv ∧ a = .callbackReturns .none ∧
      ∃ frame, s.frames = [frame] ∧ frame.workItem = o ∧ frame.type = .recv := by
  by_cases ht : type = .recv
  · have hret := hf.2 ht
    subst ht hret
    obtain ⟨_, _, hk, _, _, hcall⟩ | ⟨ha, _, frame, hfr, ho, hty⟩ := h.source
    · cases callHandler_recv hk.symm hcall
    · exact .inr ⟨rfl, ha, frame, hfr, ho, hty⟩
  · refine .inl (h.becomes.isOneShot ?_)
    have hk := h.known
    cases type <;> first | rfl | simp_all

/-- Apart from the completion being dispatched nothing of the item is out. -/
def NothingElseOut (s : IOUring) (o : Nat) : Prop :=
  (∀ req ∈ s.armed, req.owner ≠ o) ∧ ∀ cqe ∈ s.pending.tail, cqe.req.owner ≠ o

instance (s : IOUring) (o : Nat) : Decidable (s.NothingElseOut o) :=
  inferInstanceAs (Decidable (_ ∧ _))

theorem NothingElseOut.settled {o : Nat} (h : s.NothingElseOut o) :
    ∀ req ∈ s.desk.settle.outstanding, req.owner ≠ o := by
  intro req hr
  obtain hr | hr := List.mem_append.mp hr
  · exact h.1 req hr
  · simp only [Desk.settle, desk, ← List.map_tail, List.mem_map] at hr
    obtain ⟨cqe, hc, rfl⟩ := hr
    exact h.2 cqe hc

/-- Callbacks do not poll, and an acquired item is submitted once. -/
def SubmittedOnce (s : IOUring) (a : Action) : Prop :=
  s.Unnested a ∧ ∀ o ∈ a.submits, s.kind o = .unknown

instance (s : IOUring) (a : Action) : Decidable (s.SubmittedOnce a) :=
  inferInstanceAs (Decidable (_ ∧ _))

/-- A recv callback gives its item up only when nothing else of the item is out. -/
def GivesUpLast (s : IOUring) (a : Action) : Prop :=
  a.returns = some .none → ∀ frame ∈ s.frames, frame.type = .recv →
    s.NothingElseOut frame.workItem

instance (s : IOUring) (a : Action) : Decidable (s.GivesUpLast a) :=
  inferInstanceAs (Decidable (_ → _))

/-- The dispatch that the step ends, if it frees an item, leaves no ticket of that item out. -/
def ReleasesLast (s : IOUring) (a : Action) : Prop :=
  ∀ cqe rest o type ret events, s.Ending cqe rest o type ret events a →
    type ≠ .accept ∧ (type = .recv → ret = .none) →
    ∀ req ∈ s.desk.settle.outstanding, req.owner ≠ o

end IOUring

/-- A dispatch found the very item that armed the completion's request. -/
def Event.ReachedOwner : Event → Prop
  | .dispatched cqe found => found = some cqe.req.owner
  | .submitted _ | .called _ _ | .released _ => True

instance : DecidablePred Event.ReachedOwner
  | .dispatched _ _ => inferInstanceAs (Decidable (_ = _))
  | .submitted _ | .called _ _ | .released _ => inferInstanceAs (Decidable True)

namespace Ledger

open IOUring

variable {s s' : IOUring} {a : Action}

/-- Every ticket out names the slot of its own item. -/
def Matched (l : Ledger) : Prop := l.desk.Matched Request.id Request.owner

/-- An item of one use has at most one ticket out. -/
def SingleUse (l : Ledger) : Prop :=
  ∀ o, (l.kind o).isOneShot = true → l.desk.count Request.owner o ≤ 1

def ReachedOwner (l : Ledger) : Prop := ∀ e ∈ l.trace, e.ReachedOwner

theorem Matched.head (h : s.ledger.Matched) {cqe : Completion} {rest : List Completion}
    (hp : s.pending = cqe :: rest) : s.pool.at? cqe.userData = some cqe.req.owner := by
  refine h cqe.req (List.mem_append_right _ ?_)
  rw [show s.ledger.desk.answers = _ from answers_eq hp]
  exact List.mem_cons_self

/-- Tickets stay matched as long as held items are submitted from their slots
and an item is freed only with its last ticket. -/
theorem Matched.tracked (h : s.ledger.Matched) (hr : s.ReleasesLast a)
    (hsub : ∀ o ∈ s.handles, a.submits = some o → s.pool.at? (s.item o).id = some o)
    (ht : Tracked s s' a) : s'.ledger.Matched := by
  cases ht with
  | opened socket req _ _ hvacant heq =>
    exact heq ▸ (Desk.Matched.assign h hvacant).issue (Function.update_self _ _ _)
  | acquired socket mem o id _ hvacant heq => exact heq ▸ Desk.Matched.assign h hvacant
  | edited _ _ heq | idle heq | entered _ _ _ _ _ _ _ _ _ heq => exact heq ▸ h
  | submitted req hsubmits hheld hid _ heq =>
    exact heq ▸ Desk.Matched.issue h (hid ▸ hsub _ hheld hsubmits)
  | missed _ _ _ _ _ heq | exhausted _ _ _ _ _ _ _ heq => exact heq ▸ Desk.Matched.settle h
  | rearmed cqe rest o type ret events req hend _ howner hid _ heq =>
    refine heq ▸ (Desk.Matched.settle h).issue ?_
    rw [hid, howner]
    exact hend.holds
  | freed cqe rest o type ret events hend htype heq =>
    exact heq ▸ (Desk.Matched.settle h).vacate hend.holds (hr _ _ _ _ _ _ hend htype)
  | completed i k req harmed heq => exact heq ▸ Desk.Matched.answer h harmed

theorem SingleUse.tracked (h : s.ledger.SingleUse) (hd : Dispatching s)
    (hsub : ∀ o ∈ a.submits, s.kind o = .unknown) (ht : Tracked s s' a) :
    s'.ledger.SingleUse := by
  intro o ho
  cases ht with
  | opened socket req _ hfresh _ heq =>
    rw [heq] at ho ⊢
    rw [Desk.count_issue]
    change s.desk.count Request.owner o + _ ≤ 1
    by_cases he : req.owner = o
    · subst he
      simp [hd.sound.count_fresh hfresh.ge]
    · simp only [Function.update_of_ne (Ne.symm he)] at ho
      rw [if_neg he]
      exact h o ho
  | acquired socket mem o' id hfresh _ heq =>
    rw [heq] at ho ⊢
    by_cases he : o = o'
    · subst he
      exact (hd.sound.count_fresh hfresh.ge).trans_le (Nat.zero_le 1)
    · simp only [Function.update_of_ne he] at ho
      exact h o ho
  | edited _ _ heq | idle heq | entered _ _ _ _ _ _ _ _ _ heq =>
    rw [heq] at ho ⊢
    exact h o ho
  | submitted req hsubmits _ _ _ heq =>
    rw [heq] at ho ⊢
    rw [Desk.count_issue]
    by_cases he : req.owner = o
    · subst he
      simp [hd.sound.count_unknown (hsub _ hsubmits)]
    · simp only [Function.update_of_ne (Ne.symm he)] at ho
      rw [if_neg he]
      exact h o ho
  | missed cqe rest _ hp _ heq | exhausted cqe rest _ _ hp _ _ heq =>
    rw [heq] at ho ⊢
    have hc := Desk.count_settle Request.owner (o := o) (answers_eq hp)
    have hle : s.desk.count Request.owner o ≤ 1 := h o ho
    change s.desk.settle.count Request.owner o ≤ 1
    omega
  | rearmed cqe rest o' type ret events req hend htype howner _ _ heq =>
    rw [heq] at ho ⊢
    rw [Desk.count_issue]
    have hc := Desk.count_settle Request.owner (o := o) (answers_eq hend.pending)
    have hle : s.desk.count Request.owner o ≤ 1 := h o ho
    have hne : req.owner ≠ o := by
      intro he
      have hk : s.kind o = type := by
        rw [← he, howner]
        obtain ht | ⟨ht, _⟩ := htype <;> subst ht <;> exact hend.becomes.eq_of nofun rfl
      rw [show s.ledger.kind o = type from hk] at ho
      obtain ht | ⟨ht, _⟩ := htype <;> subst ht <;> cases ho
    rw [if_neg hne]
    omega
  | freed cqe rest o' type ret events hend htype heq =>
    rw [heq] at ho ⊢
    have hc := Desk.count_settle Request.owner (o := o) (answers_eq hend.pending)
    have hle : s.desk.count Request.owner o ≤ 1 := h o ho
    change s.desk.settle.count Request.owner o ≤ 1
    omega
  | completed i k req harmed heq =>
    rw [heq] at ho ⊢
    cases hm : req.sqe.op.isMultishot && (s.completion req k).hasMore with
    | false => exact (Desk.count_answer Request.owner harmed).trans_le (h o ho)
    | true =>
      have hne : req.owner ≠ o := by
        intro he
        have hop := Op.workType_of_isMultishot (Bool.and_eq_true _ _ ▸ hm).1
        have hb := (hd.sound.owned req (hd.sound.armed req (List.mem_of_getElem? harmed))).type
        rw [hop] at hb
        rw [show s.ledger.kind o = .recv from he ▸ hb.eq_of nofun rfl] at ho
        cases ho
      rw [Desk.count_answer_stays, if_neg hne]
      exact h o ho

theorem Matched.reachedOwner (h : s.ledger.Matched) {cqe : Completion} {rest : List Completion}
    (hp : s.pending = cqe :: rest) {found : Option Nat} (hat : s.pool.at? cqe.userData = found) :
    (Event.dispatched cqe found).ReachedOwner := hat.symm.trans (h.head hp)

theorem ReachedOwner.tracked (h : s.ledger.ReachedOwner) (hm : s.ledger.Matched)
    (ht : Tracked s s' a) : s'.ledger.ReachedOwner := by
  have hend : ∀ {cqe rest o type ret events}, s.Ending cqe rest o type ret events a →
      ∀ e ∈ events, e.ReachedOwner := by
    intro cqe rest o type ret events he
    obtain ⟨_, _, _, rfl, _⟩ | ⟨_, rfl, _⟩ := he.source
    · exact List.forall_mem_singleton.mpr (hm.reachedOwner he.pending he.holds)
    · exact List.forall_mem_nil _
  rw [ReachedOwner] at h ⊢
  cases ht with
  | opened _ _ _ _ _ heq | submitted _ _ _ _ _ heq =>
    rw [heq]
    exact List.forall_mem_append.mpr ⟨h, List.forall_mem_singleton.mpr trivial⟩
  | acquired _ _ _ _ _ _ heq | edited _ _ heq | idle heq | completed _ _ _ _ heq =>
    rw [heq]
    exact h
  | missed cqe rest _ hp hat heq | exhausted cqe rest _ _ hp hat _ heq =>
    rw [heq]
    exact List.forall_mem_append.mpr ⟨h, List.forall_mem_singleton.mpr (hm.reachedOwner hp hat)⟩
  | entered cqe rest o call _ hp hat _ _ heq =>
    rw [heq]
    refine List.forall_mem_append.mpr ⟨h, List.forall_mem_cons.mpr ⟨hm.reachedOwner hp hat, ?_⟩⟩
    exact List.forall_mem_singleton.mpr trivial
  | rearmed cqe rest o type ret events req he _ _ _ _ heq
  | freed cqe rest o type ret events he _ heq =>
    rw [heq]
    exact List.forall_mem_append.mpr ⟨List.forall_mem_append.mpr ⟨h, hend he⟩,
      List.forall_mem_singleton.mpr trivial⟩

end Ledger

namespace IOUring

variable {s s' : IOUring} {a : Action}

/-- With one ticket for an item of one use, the last one is the one being settled. -/
theorem releasesLast_of_givesUpLast (hsingle : s.ledger.SingleUse) (hm : s.ledger.Matched)
    (hg : s.GivesUpLast a) : s.ReleasesLast a := by
  intro cqe rest o type ret events hend hf
  obtain hk | ⟨_, ha, frame, hfr, rfl, hty⟩ := hend.freed_kind hf
  · have howner : cqe.req.owner = o := Option.some.inj ((hm.head hend.pending).symm.trans hend.holds)
    have hc := Desk.count_settle Request.owner (o := o) (answers_eq hend.pending)
    have hle : s.desk.count Request.owner o ≤ 1 := hsingle o hk
    rw [if_pos howner] at hc
    exact (Desk.count_eq_zero Request.owner).mp (by omega)
  · exact (hg (ha ▸ rfl) frame (hfr ▸ List.mem_cons_self) hty).settled

/-- The invariant of the runs in which every completion comes back to its item. -/
structure Paired (s : IOUring) : Prop where
  dispatching : Dispatching s
  matched : s.ledger.Matched
  single : s.ledger.SingleUse
  reached : s.ledger.ReachedOwner

theorem Paired.step (h : Paired s) (hu : s.SubmittedOnce a) (hg : s.GivesUpLast a)
    (hs : IOUring.step a s = .ok s') : Paired s' := by
  obtain ⟨ht, hd⟩ := h.dispatching.step hu.1 hs
  have hr := releasesLast_of_givesUpLast h.single h.matched hg
  exact ⟨hd, h.matched.tracked hr (fun o ho hsub => h.dispatching.reserved o ho (hu.2 o hsub)) ht,
    h.single.tracked h.dispatching hu.2 ht, h.reached.tracked h.matched ht⟩

theorem initial_paired (queueSize mapped : Nat) (memory : Nat → Memory.Byte) :
    Paired (initial queueSize mapped memory) :=
  ⟨initial_dispatching queueSize mapped memory, fun _ h => absurd h List.not_mem_nil,
    fun _ _ => Nat.zero_le 1, fun _ h => absurd h List.not_mem_nil⟩

/-- The runs in which a recv callback gives its item up only with the last request. -/
def Orderly (s : IOUring) (a : Action) : Prop := s.SubmittedOnce a ∧ s.GivesUpLast a

instance (s : IOUring) (a : Action) : Decidable (s.Orderly a) :=
  inferInstanceAs (Decidable (_ ∧ _))

theorem Paired.reaches (h : Paired s) (hr : Transition.Reaches IOUring.step Orderly s s') :
    Paired s' :=
  hr.invariant (fun _ _ _ hp hg hs => hp.step hg.1 hg.2 hs) h

/-- Every completion is dispatched to the item whose submission armed its request. -/
theorem dispatched_to_owner {queueSize mapped : Nat} {memory : Nat → Memory.Byte}
    (hr : Transition.Reaches IOUring.step Orderly (initial queueSize mapped memory) s)
    {cqe : Completion} {found : Option Nat} (hd : .dispatched cqe found ∈ s.trace) :
    found = some cqe.req.owner :=
  ((initial_paired queueSize mapped memory).reaches hr).reached _ hd

private def datagramSocket : Socket := ⟨.ipv4Udp, 0, .unicastClientSocket, 3⟩

/-- A datagram received while the multishot request stays armed. -/
private def datagram (flags : BitVec 32) : Outcome := ⟨144, flags, default, fun _ => none⟩

theorem dispatched_to_owner_datagram : ∃ t cqe found,
    Transition.Reaches IOUring.step Orderly (initial 256 0 fun _ => 0) t ∧
      .dispatched cqe found ∈ t.trace ∧ found = some cqe.req.owner := by
  obtain ⟨t, hr, hd⟩ := Transition.reaches_of_leads IOUring.step Orderly
    (fun t => .dispatched ⟨⟨0, 0, ⟨0, .recvmsgMultishot 3, false, true⟩⟩, 144, 1, [], none⟩
      (some 0) ∈ t.trace)
    [.submitRecv datagramSocket 7 default, .complete 0 (datagram 1), .pollCompletionQueues]
    (initial 256 0 fun _ => 0) (by decide +kernel)
  exact ⟨t, _, _, hr, hd, dispatched_to_owner hr hd⟩

/-- The recv callback returns NONE after a completion with IORING_CQE_F_MORE. -/
theorem dispatch_misses_owner : ∃ t cqe,
    Transition.Reaches IOUring.step SubmittedOnce (initial 256 0 fun _ => 0) t ∧
      .dispatched cqe none ∈ t.trace := by
  obtain ⟨t, hr, hd⟩ := Transition.reaches_of_leads IOUring.step SubmittedOnce
    (fun t => .dispatched ⟨⟨0, 0, ⟨0, .recvmsgMultishot 3, false, true⟩⟩, 144, 65537, [], none⟩
      none ∈ t.trace)
    [.submitRecv datagramSocket 7 default, .complete 0 (datagram 3), .pollCompletionQueues,
      .callbackReturns .none, .complete 0 (datagram 65537), .pollCompletionQueues]
    (initial 256 0 fun _ => 0) (by decide +kernel)
  exact ⟨t, _, hr, hd⟩

end IOUring

end Iuring
