import Iuring.Ledger

namespace Iuring

open Lib

namespace IOUring

variable {s s' t : IOUring} {a : Action}

theorem kind_setItem (o : Nat) (item : WorkItem) :
    (s.setItem o item).kind = Function.update s.kind o item.workType := by
  funext o'
  by_cases h : o' = o
  · subst o'
    simp [kind, IOUring.item, setItem, WorkPool.setItem]
  · simp [kind, IOUring.item, setItem, WorkPool.setItem, Function.update_of_ne h]

theorem pending_cqAdvance : s.cqAdvance.pending = s.pending.tail := by
  simp [pending, cqAdvance]

theorem desk_cqAdvance : s.cqAdvance.desk = s.desk.settle := by
  rw [desk, Desk.settle]
  rw [pending_cqAdvance, List.map_tail]
  rfl

theorem ledger_arm (o : Nat) (item : WorkItem) (sqe : Sqe) :
    (s.arm o item sqe).ledger = { s.ledger with
      desk := s.desk.issue ⟨s.consumed.length, o, sqe⟩
      kind := Function.update s.kind o item.workType
      consumed := s.consumed ++ [⟨s.consumed.length, o, sqe⟩]
      trace := s.trace ++ [.submitted ⟨s.consumed.length, o, sqe⟩] } :=
  Ledger.ext rfl (kind_setItem o item) rfl rfl rfl rfl rfl rfl rfl

/-- Advancing the queue settles the oldest completion. -/
theorem ledger_cqAdvance : s.cqAdvance.ledger = { s.ledger with
    desk := s.desk.settle
    cqHead := s.cqHead + 1 } :=
  Ledger.ext desk_cqAdvance rfl rfl rfl rfl rfl rfl rfl rfl

theorem ledger_allocated (hw : s.pool.WellFormed) {socket : Socket} {descr : String}
    {mem : Uninitialized} {o : Nat} {pool : WorkPool}
    (halloc : s.pool.internalAllocWorkItem socket descr mem = (o, pool)) :
    o = s.pool.nextObj ∧ ∃ id, s.pool.at? id = none ∧ (pool.objs o).id = id ∧
      ({ s with pool := pool } : IOUring).ledger = { s.ledger with
        desk := s.desk.assign id o
        kind := Function.update s.kind o .unknown
        next := o + 1 } := by
  obtain ⟨ho, hn, id, hid, hobjs, hat⟩ := WorkPool.internalAlloc_spec hw halloc
  refine ⟨ho, id, hid, by simp [hobjs, WorkItem.create], ?_⟩
  have hdesk : ({ s with pool := pool } : IOUring).desk = s.desk.assign id o := by
    have hf : pool.at? = Function.update s.pool.at? id (some o) := by
      funext j
      rw [hat, Function.update_apply]
    simp only [desk, Desk.assign, hf]
    rfl
  have hkind : ({ s with pool := pool } : IOUring).kind = Function.update s.kind o .unknown := by
    funext o'
    by_cases h : o' = o
    · subst o'
      simp [kind, IOUring.item, hobjs, WorkItem.create]
    · simp [kind, IOUring.item, hobjs, Function.update_of_ne h]
  exact Ledger.ext hdesk hkind hn rfl rfl rfl rfl rfl rfl

theorem ledger_released {id : Nat} {pool : WorkPool} (e : Event)
    (hf : s.pool.freeWorkItem id = .ok pool) :
    ({ s with pool := pool, trace := s.trace ++ [e] } : IOUring).ledger = { s.ledger with
      desk := s.desk.vacate id
      trace := s.trace ++ [e] } := by
  have hdesk : ({ s with pool := pool, trace := s.trace ++ [e] } : IOUring).desk =
      s.desk.vacate id := by
    have hat : pool.at? = Function.update s.pool.at? id none := by
      funext j
      rw [WorkPool.freeWorkItem_at? hf, Function.update_apply]
    simp only [desk, Desk.vacate, hat]
    rfl
  have hkind : ({ s with pool := pool, trace := s.trace ++ [e] } : IOUring).kind = s.kind := by
    obtain ⟨o, _, rfl⟩ := WorkPool.freeWorkItem_ok hf
    funext o'
    by_cases h : o' = o
    · subst o'
      simp [kind, IOUring.item]
    · simp [kind, IOUring.item, Function.update_of_ne h]
  have hn : pool.nextObj = s.pool.nextObj := by
    obtain ⟨_, _, rfl⟩ := WorkPool.freeWorkItem_ok hf
    rfl
  exact Ledger.ext hdesk hkind hn rfl rfl rfl rfl rfl rfl

theorem ledger_leaveCallback (frame : Frame) (frames : List Frame) :
    (s.leaveCallback frame frames).ledger = { s.ledger with frames := frames } := by
  rw [leaveCallback]
  cases frame.type with
  | sendStreamData | sendWorkpacket =>
    have hk := kind_setItem (s := { s with frames := frames }) frame.workItem
      (s.item frame.workItem).cleanSendPacket
    exact Ledger.ext rfl (hk.trans (Function.update_eq_self _ _)) rfl rfl rfl rfl rfl rfl rfl
  | recv | unknown | accept | connect | close => rfl

/-- The end of a dispatch, seen from a state that differs in the trace and the frames. -/
theorem tracked_of_settled {cqe : Completion} {rest : List Completion} {o : Nat}
    {type : WorkType} {ret : ReceivePostAction} {events : List Event} {idx : Nat}
    (hend : s.Ending cqe rest o type ret events a) (ht : Sound t)
    (hl : t.ledger = { s.ledger with frames := [], trace := s.trace ++ events })
    (hs : Settled ⟨o, cqe.userData, type, idx⟩ ret t s') : Tracked s s' a := by
  have hdesk : t.desk = s.desk := congrArg Ledger.desk hl
  have hkind : t.kind = s.kind := congrArg Ledger.kind hl
  have hconsumed : t.consumed = s.consumed := congrArg Ledger.consumed hl
  have htrace : t.trace = s.trace ++ events := congrArg Ledger.trace hl
  have hhead : t.cqHead = s.cqHead := congrArg Ledger.cqHead hl
  have hat : t.pool.at? = s.pool.at? := congrArg (fun l => l.desk.holder) hl
  cases hs with
  | rearmed item sqe htype hprep heq =>
    obtain ⟨hp, hd⟩ := prepare_ok hprep
    have hk : type = s.kind o := by
      obtain h | ⟨h, _⟩ := htype <;> simp only at h <;> rw [h] at hend ⊢ <;>
        exact (hend.becomes.eq_of nofun rfl).symm
    have htk : (t.item o).workType = s.kind o := congrFun hkind o
    have hid : (t.item o).id = cqe.userData := (ht.pool.live _ _ (hat ▸ hend.holds)).2.1
    refine .rearmed cqe rest o type ret events ⟨t.consumed.length, o, sqe⟩ hend htype rfl
      (hd.userData.trans hid) (hd.type.trans (htk.trans hk.symm)) ?_
    have hu : Function.update t.kind o item.workType = s.kind := by
      rw [hkind, hp.type, htk]
      exact Function.update_eq_self _ _
    rw [heq, ledger_cqAdvance]
    have hdesk' : (t.arm o item sqe).desk = s.desk.issue ⟨t.consumed.length, o, sqe⟩ := by
      rw [← hdesk]
      rfl
    have hhead' : (t.arm o item sqe).cqHead = s.cqHead := hhead
    rw [hdesk', ledger_arm, hl, hu, hhead', htrace, hconsumed]
    rfl
  | freed o' pool htype hat' hfree heq =>
    have ho : o' = o := by
      rw [hat] at hat'
      exact Option.some.inj (hat'.symm.trans hend.holds)
    subst o'
    refine .freed cqe rest o type ret events hend ⟨htype.1, htype.2.2⟩ ?_
    have hr := ledger_released (.released o) hfree
    rw [heq, ledger_cqAdvance]
    have hdesk' : ({ t with pool := pool, trace := t.trace ++ [.released o] } : IOUring).desk =
        s.desk.vacate cqe.userData := by
      rw [← hdesk]
      exact congrArg Ledger.desk hr
    have hhead' : ({ t with pool := pool, trace := t.trace ++ [.released o] } : IOUring).cqHead =
        s.cqHead := hhead
    rw [hdesk', hr, hl, hhead', htrace]
    rfl

/-- In a run without nested polls the dispatch that ends is the one in progress, or none was. -/
theorem Dispatching.tracked (h : Dispatching s) (hu : s.Unnested a) (hs : Stepped s s' a) :
    Tracked s s' a := by
  have hsound := h.sound
  cases hs with
  | opened socket descr mem o pool item₀ item sqe hopens halloc hsame hprep heq =>
    obtain ⟨ho, id, hvacant, hid, hl⟩ := ledger_allocated hsound.pool halloc
    obtain ⟨hp, hd⟩ := prepare_ok hprep
    have hreq : Request.id ⟨s.consumed.length, o, sqe⟩ = id :=
      hd.userData.trans (hsame.id.trans hid)
    refine .opened socket ⟨s.consumed.length, o, sqe⟩ hopens ho (hreq ▸ hvacant) ?_
    have hk : Function.update (Function.update s.kind o .unknown) o item.workType =
        Function.update s.kind o sqe.op.workType := by
      rw [Function.update_idem, hp.type, hd.type]
    have hdesk := congrArg Ledger.desk hl
    have hkind := congrArg Ledger.kind hl
    simp only at hkind
    rw [heq, ledger_arm, hl]
    refine Ledger.ext ?_ ?_ rfl rfl rfl rfl rfl rfl rfl
    · exact (congrArg (Desk.issue _) hdesk).trans (by rw [← hreq])
    · exact (congrArg (fun k => Function.update k o item.workType) hkind).trans hk
  | acquired socket mem o pool halloc heq =>
    obtain ⟨ho, id, hvacant, _, hl⟩ := ledger_allocated hsound.pool halloc
    refine .acquired socket mem o id ho hvacant ?_
    have hh := congrArg (fun l => ({ l with handles := o :: s.handles } : Ledger)) hl
    exact heq ▸ hh
  | edited o packet _ hopens hsubmits heq =>
    refine .edited hopens hsubmits ?_
    have hk := kind_setItem (s := s) o { s.item o with sendPacket := packet }
    subst heq
    exact Ledger.ext rfl (hk.trans (Function.update_eq_self _ _)) rfl rfl rfl rfl rfl rfl rfl
  | submitted o item₀ item sqe hsubmits hheld hsame htype hprep heq =>
    obtain ⟨hp, hd⟩ := prepare_ok hprep
    have hsend : sqe.op.workType.isSend = true := by
      rw [hd.type]
      obtain h | h := htype <;> rw [h] <;> rfl
    refine .submitted ⟨s.consumed.length, o, sqe⟩ hsubmits hheld (hd.userData.trans hsame.id)
      hsend ?_
    rw [heq, ledger_arm, hp.type, ← hd.type]
  | polled hhead hpoll =>
    have hf := hu rfl
    cases hpoll with
    | idle _ heq => exact .idle (congrArg ledger heq)
    | missed cqe rest hp hat heq =>
      refine .missed cqe rest hf hp hat ?_
      rw [heq, ledger_cqAdvance]
      exact Ledger.ext rfl rfl rfl rfl rfl rfl rfl hf rfl
    | exhausted cqe rest o hp hat hres heq =>
      refine .exhausted cqe rest o hf hp hat hres ?_
      rw [heq, ledger_cqAdvance]
      exact Ledger.ext rfl rfl rfl rfl rfl rfl rfl hf rfl
    | entered cqe rest o call hp hat hres hcall heq =>
      refine .entered cqe rest o call hf hp hat hres hcall ?_
      subst heq
      refine Ledger.ext rfl rfl rfl rfl rfl rfl rfl ?_ ?_
      · simp [ledger, enterCallback, emit, hf]
      · simp [ledger, enterCallback, emit, frameOf]
    | returned cqe rest o ret recycle hp hat hres hcall hafter =>
      have hknown : s.kind o ≠ .unknown := by
        intro hk
        simp only [kind] at hk
        simp [callHandler, hk] at hcall
      have hend : s.Ending cqe rest o (s.kind o) ret [.dispatched cqe (some o)]
          .pollCompletionQueues :=
        ⟨hp, hat, hres, hknown, .refl _, .inl ⟨rfl, hf, rfl, rfl, recycle, hcall⟩⟩
      have hl : ∀ b : BufferPool, ({ s.emit (.dispatched cqe (some o)) with buffers := b }).ledger =
          { s.ledger with frames := [], trace := s.trace ++ [.dispatched cqe (some o)] } :=
        fun b => Ledger.ext rfl rfl rfl rfl rfl rfl rfl hf rfl
      obtain ⟨buffers, hst, _⟩ := settled_of_returned hsound.sq hafter
      have hb : Sound { s.emit (.dispatched cqe (some o)) with buffers := buffers } :=
        { hsound with }
      exact tracked_of_settled hend hb (hl buffers) hst
  | returned ret frame frames hframes hafter =>
    obtain hf | ⟨frame', cqe, rest, hf, hp, hrun⟩ := h.frames
    · rw [hf] at hframes
      cases hframes
    · rw [hf] at hframes
      cases hframes
      have hfr := hsound.frames frame (hf ▸ List.mem_cons_self)
      have hend : s.Ending cqe rest frame.workItem frame.type ret [] (.callbackReturns ret) :=
        ⟨hp, hrun.id ▸ hrun.holds, hrun.res, hfr.2.1, hfr.2.2,
          .inr ⟨rfl, rfl, frame, hf, rfl, rfl⟩⟩
      have hb := hsound.leaveCallback hf
      have hl : (s.leaveCallback frame []).ledger =
          { s.ledger with frames := [], trace := s.trace ++ [] } := by
        rw [ledger_leaveCallback, List.append_nil]
        rfl
      have hs := afterHandler_ok hb.sq hafter
      rw [show frame = ⟨frame.workItem, cqe.userData, frame.type, frame.idx⟩ by rw [← hrun.id]] at hs
      exact tracked_of_settled hend hb hl hs
  | completed i k req t harmed _ hdeliver heq =>
    refine .completed i k req harmed ?_
    obtain ⟨hc, ha, hp, hhd, hf, hh, ht⟩ := hdeliver.frame
    have hpool : t.pool.at? = s.pool.at? ∧ t.kind = s.kind ∧ t.pool.nextObj = s.pool.nextObj := by
      cases hdeliver with
      | nothing _ _ heq | buffer _ _ _ _ _ _ heq => exact heq ▸ ⟨rfl, rfl, rfl⟩
      | peer _ _ heq =>
        subst heq
        exact ⟨rfl, (kind_setItem _ _).trans (Function.update_eq_self _ _), rfl⟩
    subst heq
    have hpending : (s.posted ++ [s.completion req k]).drop s.cqHead =
        s.pending ++ [s.completion req k] := List.drop_append_of_le_length h.head
    refine Ledger.ext ?_ hpool.2.1 hpool.2.2 hh hc rfl hhd hf ht
    simp only [ledger, desk, pending, hpool.1, hhd, hpending, Desk.answer, List.map_append,
      List.map_singleton, Bool.and_eq_true]
    rfl

theorem Ending.known_now {cqe : Completion} {rest : List Completion} {o : Nat} {type : WorkType}
    {ret : ReceivePostAction} {events : List Event} (h : s.Ending cqe rest o type ret events a) :
    s.kind o ≠ .unknown := h.becomes.known h.known

theorem head_lt {cqe : Completion} {rest : List Completion} (hp : s.pending = cqe :: rest) :
    s.cqHead < s.posted.length := by
  have hl := congrArg List.length hp
  simp only [pending, List.length_drop, List.length_cons] at hl
  omega

theorem take_succ_of_pending {cqe : Completion} {rest : List Completion}
    (hp : s.pending = cqe :: rest) :
    s.posted.take (s.cqHead + 1) = s.posted.take s.cqHead ++ [cqe] := by
  have hh := congrArg List.head? hp
  rw [pending, List.head?_drop] at hh
  rw [List.take_add_one, hh]
  rfl

/-- The entries passed and the one in progress are posted ones. -/
theorem Dispatching.passed_le (h : Dispatching s) :
    s.cqHead + s.frames.length ≤ s.posted.length := by
  obtain hf | ⟨frame, cqe, rest, hf, hp, _⟩ := h.frames
  · simp only [hf, List.length_nil, Nat.add_zero]
    exact h.head
  · simp only [hf, List.length_singleton]
    exact head_lt hp

variable {l : Ledger}

/-- Items that wait for their submission keep their slots. -/
theorem Dispatching.reserved_mono (h : Dispatching s) (he : s.pool.Extends s'.pool)
    (heq : s'.ledger = l) (hh : l.handles = s.handles)
    (hk : ∀ o ∈ s.handles, l.kind o = .unknown → s.kind o = .unknown)
    (hat : ∀ i o, s.pool.at? i = some o → s.kind o = .unknown → l.desk.holder i = some o) :
    ∀ o ∈ s'.handles, s'.kind o = .unknown → s'.pool.at? (s'.item o).id = some o := by
  subst heq
  intro o ho hu
  have ho' : o ∈ s.handles := hh ▸ ho
  have hk' := hk o ho' hu
  rw [show (s'.item o).id = (s.item o).id from (he.evolves o (h.sound.handles o ho').1).id]
  exact hat _ _ (h.reserved o ho' hk') hk'

/-- A step that leaves the queue's head and the dispatch in progress alone. -/
theorem Dispatching.quiet (h : Dispatching s) (hs' : Sound s') (heq : s'.ledger = l)
    {more : List Completion} (hp : l.posted = s.posted ++ more) (hhead : l.cqHead = s.cqHead)
    (hf : l.frames = s.frames)
    (hat : ∀ i o, s.pool.at? i = some o → l.desk.holder i = some o)
    (hr : ∀ o ∈ s'.handles, s'.kind o = .unknown → s'.pool.at? (s'.item o).id = some o) :
    Dispatching s' := by
  subst heq
  have hpending : s'.pending = s.pending ++ more := by
    have hp' : s'.posted = s.posted ++ more := hp
    have hhead' : s'.cqHead = s.cqHead := hhead
    simp only [pending, hp', hhead', List.drop_append_of_le_length h.head]
  refine ⟨hs', ?_, ?_, hr⟩
  · have hl := h.head
    have hlen := congrArg List.length hp
    simp only [ledger, List.length_append] at hlen hhead
    omega
  · obtain hn | ⟨frame, cqe, rest, hn, hpe, hrun⟩ := h.frames
    · exact .inl (hf.trans hn)
    · refine .inr ⟨frame, cqe, rest ++ more, hf.trans hn, by rw [hpending, hpe]; rfl, ?_⟩
      exact ⟨hrun.res, hrun.id, hrun.idx, hat _ _ hrun.holds⟩

/-- A step that dispatches the completion at the head and ends between two dispatches. -/
theorem Dispatching.between (h : Dispatching s) (hs' : Sound s') (he : s.pool.Extends s'.pool)
    {cqe : Completion} {rest : List Completion} (hpending : s.pending = cqe :: rest)
    (heq : s'.ledger = l) (hp : l.posted = s.posted) (hhead : l.cqHead = s.cqHead + 1)
    (hf : l.frames = []) (hh : l.handles = s.handles) (hk : l.kind = s.kind)
    (hat : ∀ i o, s.pool.at? i = some o → s.kind o = .unknown → l.desk.holder i = some o) :
    Dispatching s' := by
  have hr := h.reserved_mono he heq hh (fun _ _ hu => hk ▸ hu) hat
  subst heq
  refine ⟨hs', ?_, .inl hf, hr⟩
  have hlt := head_lt hpending
  simp only [ledger] at hp hhead
  rw [hp, hhead]
  omega

theorem Dispatching.next (h : Dispatching s) (hs' : Sound s') (he : s.pool.Extends s'.pool)
    (ht : Tracked s s' a) : Dispatching s' := by
  cases ht with
  | opened socket req _ hfresh hvacant heq =>
    have hkeep : ∀ i o, s.pool.at? i = some o →
        (s.desk.assign req.id req.owner).holder i = some o :=
      fun i o => Desk.holder_assign (d := s.desk) hvacant
    refine h.quiet hs' heq (List.append_nil _).symm rfl rfl hkeep
      (h.reserved_mono he heq rfl (fun o ho hu => ?_) (fun i o hi _ => hkeep i o hi))
    have hne : o ≠ req.owner := by
      have hlt := (h.sound.handles o ho).1
      omega
    rwa [← Function.update_of_ne hne req.sqe.op.workType s.kind]
  | acquired socket mem o id hfresh hvacant heq =>
    have hkeep : ∀ i o', s.pool.at? i = some o' → (s.desk.assign id o).holder i = some o' :=
      fun i o' => Desk.holder_assign (d := s.desk) hvacant
    apply h.quiet hs' heq (List.append_nil _).symm rfl rfl hkeep
    have hslot : s'.pool.at? = (s.desk.assign id o).holder :=
      congrArg (fun l => l.desk.holder) heq
    have hkind : s'.kind = Function.update s.kind o .unknown := congrArg Ledger.kind heq
    have hh : s'.handles = o :: s.handles := congrArg Ledger.handles heq
    intro o' ho' hu
    obtain rfl | hm := List.mem_cons.mp (hh ▸ ho')
    · have hi : s'.pool.at? id = some o' := hslot ▸ Function.update_self _ _ _
      rw [show (s'.item o').id = id from (hs'.pool.live _ _ hi).2.1, hi]
    · have hlt := (h.sound.handles o' hm).1
      have hne : o' ≠ o := by omega
      rw [hkind, Function.update_of_ne hne] at hu
      rw [show (s'.item o').id = (s.item o').id from (he.evolves o' hlt).id, hslot]
      exact hkeep _ _ (h.reserved o' hm hu)
  | edited _ _ heq | idle heq =>
    exact h.quiet hs' heq (List.append_nil _).symm rfl rfl (fun _ _ hi => hi)
      (h.reserved_mono he heq rfl (fun _ _ hu => hu) (fun _ _ hi _ => hi))
  | submitted req _ hheld _ hsend heq =>
    refine h.quiet hs' heq (List.append_nil _).symm rfl rfl (fun _ _ hi => hi)
      (h.reserved_mono he heq rfl (fun o ho hu => ?_) (fun _ _ hi _ => hi))
    by_cases heo : o = req.owner
    · subst o
      simp only [Function.update_self] at hu
      exact absurd hu req.sqe.op.workType_ne_unknown
    · rwa [← Function.update_of_ne heo req.sqe.op.workType s.kind]
  | missed cqe rest hf hpending _ heq | exhausted cqe rest _ hf hpending _ _ heq =>
    exact h.between hs' he hpending heq rfl rfl rfl rfl rfl (fun _ _ hi _ => hi)
  | entered cqe rest o call hf hpending hat hres hcall heq =>
    have hr := h.reserved_mono he heq rfl (fun _ _ hu => hu) (fun _ _ hi _ => hi)
    have hp : s'.posted = s.posted := congrArg Ledger.posted heq
    have hhead : s'.cqHead = s.cqHead := congrArg Ledger.cqHead heq
    have hslot : s'.pool.at? = s.pool.at? := congrArg (fun l => l.desk.holder) heq
    refine ⟨hs', by rw [hp, hhead]; exact h.head, .inr ⟨s.frameOf cqe o, cqe, rest,
      congrArg Ledger.frames heq, by simpa only [pending, hp, hhead] using hpending,
      ⟨hres, rfl, rfl, by rw [hslot]; exact hat⟩⟩, hr⟩
  | rearmed cqe rest o type ret events req hend _ _ _ _ heq =>
    exact h.between hs' he hend.pending heq rfl rfl rfl rfl rfl (fun _ _ hi _ => hi)
  | freed cqe rest o type ret events hend _ heq =>
    refine h.between hs' he hend.pending heq rfl rfl rfl rfl rfl (fun i o' hi hu => ?_)
    have hne : o' ≠ o := by
      rintro rfl
      exact hend.known_now hu
    exact Desk.holder_vacate hend.holds hi hne
  | completed i k req harmed heq =>
    exact h.quiet hs' heq rfl rfl rfl (fun _ _ hi => hi)
      (h.reserved_mono he heq rfl (fun _ _ hu => hu) (fun _ _ hi _ => hi))

/-- One step of a run without nested polls. -/
theorem Dispatching.step (h : Dispatching s) (hu : s.Unnested a)
    (hs : IOUring.step a s = .ok s') : Tracked s s' a ∧ Dispatching s' := by
  have hst := step_ok h.sound.sq hs
  have ht := h.tracked hu hst
  exact ⟨ht, h.next (h.sound.stepped hst) (hst.extends h.sound) ht⟩

theorem initial_dispatching (queueSize mapped : Nat) (memory : Nat → Memory.Byte) :
    Dispatching (initial queueSize mapped memory) :=
  ⟨initial_sound queueSize mapped memory, Nat.le_refl 0, .inl rfl, nofun⟩

end IOUring

end Iuring
