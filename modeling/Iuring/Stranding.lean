import Iuring.Flushing
import Iuring.Matching

namespace Iuring

open Lib

/-- A multishot request goes on after a completion with IORING_CQE_F_MORE. -/
def Completion.endsRequest (cqe : Completion) : Bool :=
  !(cqe.req.sqe.op.isMultishot && cqe.hasMore)

/-- Every completion that does not end its request is followed by the next
completion of that request, or the request is still armed. -/
def Followed (armed : List Request) : List Completion → Prop
  | [] => True
  | cqe :: rest =>
    (cqe.endsRequest = false → cqe.req ∈ armed ∨ ∃ c ∈ rest, c.req = cqe.req) ∧ Followed armed rest

theorem Followed.mono {armed armed' : List Request} {cqes : List Completion}
    (h : Followed armed cqes) (ha : armed ⊆ armed') : Followed armed' cqes := by
  induction cqes with
  | nil => trivial
  | cons cqe rest ih => exact ⟨fun he => (h.1 he).imp (fun hm => ha hm) id, ih h.2⟩

theorem Followed.tail {armed : List Request} {cqe : Completion} {rest : List Completion}
    (h : Followed armed (cqe :: rest)) : Followed armed rest := h.2

/-- The kernel takes one request out of the armed ones only by ending it. -/
theorem Followed.complete {armed armed' : List Request} {cqes : List Completion}
    {last : Completion} (h : Followed armed cqes)
    (ha : ∀ req ∈ armed, req ∈ armed' ∨ req = last.req)
    (hl : last.endsRequest = false → last.req ∈ armed') : Followed armed' (cqes ++ [last]) := by
  induction cqes with
  | nil => exact ⟨fun he => .inl (hl he), trivial⟩
  | cons cqe rest ih =>
    refine ⟨fun he => ?_, ih h.2⟩
    obtain hm | ⟨c, hc, hr⟩ := h.1 he
    · obtain hm | hm := ha _ hm
      · exact .inl hm
      · exact .inr ⟨last, List.mem_append_right _ List.mem_cons_self, hm.symm⟩
    · exact .inr ⟨c, List.mem_append_left _ hc, hr⟩

namespace IOUring

variable {s s' : IOUring} {a : Action}

/-- A slot that is held by the owner of a ticket is the one the ticket names. -/
theorem Sound.slot_of_ticket (h : Sound s) {req : Request} (hr : req ∈ s.desk.outstanding) {i : Nat}
    (hi : s.pool.at? i = some req.owner) : i = req.id :=
  (h.pool.live _ _ hi).2.1.symm.trans (h.outstanding hr).userData.symm

theorem Dispatching.followed (h : Followed s.armed s.pending) (hd : Dispatching s)
    (ht : Tracked s s' a) : Followed s'.armed s'.pending := by
  have hnext : ∀ {cqe : Completion} {rest : List Completion}, s.pending = cqe :: rest →
      s'.posted = s.posted → s'.cqHead = s.cqHead + 1 → s'.pending = rest := by
    intro cqe rest hp hpost hhead
    have ht := congrArg List.tail hp
    simp only [pending, List.tail_drop, List.tail_cons] at ht
    simpa only [pending, hpost, hhead] using ht
  have hsame : s'.posted = s.posted → s'.cqHead = s.cqHead → s'.pending = s.pending := by
    intro hpost hhead
    simp only [pending, hpost, hhead]
  cases ht with
  | opened _ _ _ _ _ heq | submitted _ _ _ _ _ heq =>
    rw [hsame (congrArg Ledger.posted heq) (congrArg Ledger.cqHead heq),
      show s'.armed = _ from congrArg (fun l => l.desk.waiting) heq]
    exact h.mono (List.subset_append_left _ _)
  | acquired _ _ _ _ _ _ heq | edited _ _ heq | idle heq | entered _ _ _ _ _ _ _ _ _ heq =>
    rw [hsame (congrArg Ledger.posted heq) (congrArg Ledger.cqHead heq),
      show s'.armed = s.armed from congrArg (fun l => l.desk.waiting) heq]
    exact h
  | missed cqe rest _ hp _ heq | exhausted cqe rest _ _ hp _ _ heq =>
    rw [hnext hp (congrArg Ledger.posted heq) (congrArg Ledger.cqHead heq),
      show s'.armed = s.armed from congrArg (fun l => l.desk.waiting) heq]
    exact (hp ▸ h).tail
  | rearmed cqe rest o type ret events req hend _ _ _ _ heq =>
    rw [hnext hend.pending (congrArg Ledger.posted heq) (congrArg Ledger.cqHead heq),
      show s'.armed = _ from congrArg (fun l => l.desk.waiting) heq]
    exact (hend.pending ▸ h).tail.mono (List.subset_append_left _ _)
  | freed cqe rest o type ret events hend _ heq =>
    rw [hnext hend.pending (congrArg Ledger.posted heq) (congrArg Ledger.cqHead heq),
      show s'.armed = s.armed from congrArg (fun l => l.desk.waiting) heq]
    exact (hend.pending ▸ h).tail
  | completed i k req harmed heq =>
    have hp : s'.pending = s.pending ++ [s.completion req k] := by
      rw [pending, show s'.posted = _ from congrArg Ledger.posted heq,
        show s'.cqHead = s.cqHead from congrArg Ledger.cqHead heq]
      exact List.drop_append_of_le_length hd.head
    rw [hp, show s'.armed = _ from congrArg (fun l => l.desk.waiting) heq]
    cases hm : req.sqe.op.isMultishot && (s.completion req k).hasMore with
    | true => exact h.complete (fun _ hr => .inl hr) (fun _ => List.mem_of_getElem? harmed)
    | false =>
      refine h.complete (fun r hr => ?_) (fun he => ?_)
      · obtain ⟨hi, rfl⟩ := List.getElem?_eq_some_iff.mp harmed
        exact (List.mem_cons.mp ((List.getElem_cons_eraseIdx_perm hi).mem_iff.mpr hr)).symm
      · rw [show (s.completion req k).endsRequest =
          !(req.sqe.op.isMultishot && (s.completion req k).hasMore) from rfl, hm] at he
        cases he

/-- The item was acquired and has not been submitted. -/
def Unsubmitted (s : IOUring) (o : Nat) : Prop := o ∈ s.handles ∧ s.kind o = .unknown

/-- A request of the item is armed or has a completion still to be dispatched. -/
def Expected (s : IOUring) (o : Nat) : Prop :=
  (∃ req ∈ s.armed, req.owner = o) ∨ ∃ cqe ∈ s.pending, cqe.req.owner = o

theorem expected_iff {o : Nat} : s.Expected o ↔ ∃ req ∈ s.desk.outstanding, req.owner = o := by
  constructor
  · rintro (⟨req, hr, ho⟩ | ⟨cqe, hc, ho⟩)
    · exact ⟨req, List.mem_append_left _ hr, ho⟩
    · exact ⟨cqe.req, List.mem_append_right _ (List.mem_map_of_mem hc), ho⟩
  · rintro ⟨req, hr, ho⟩
    obtain hr | hr := List.mem_append.mp hr
    · exact .inl ⟨req, hr, ho⟩
    · obtain ⟨cqe, hc, rfl⟩ := List.mem_map.mp hr
      exact .inr ⟨cqe, hc, ho⟩

/-- No completion that ends its request with -ENOBUFS is dispatched to an item. -/
def NeverStarved (s : IOUring) (a : Action) : Prop :=
  a.polls = true → ∀ cqe ∈ s.pending.head?, cqe.res = -enobufs → cqe.endsRequest = true →
    s.pool.at? cqe.userData = none

instance (s : IOUring) (a : Action) : Decidable (s.NeverStarved a) :=
  inferInstanceAs (Decidable (_ → _))

/-- Every occupied slot is covered: its item waits for its submission or has a ticket out. -/
def Accounted (s : IOUring) : Prop :=
  ∀ i o, s.pool.at? i = some o → s.Unsubmitted o ∨ s.Expected o

theorem accounted_iff : s.Accounted ↔ s.desk.Covered Request.owner s.Unsubmitted := by
  rw [Accounted, Desk.Covered]
  simp only [expected_iff]
  rfl

theorem Accounted.tracked (h : s.Accounted) (hd : Dispatching s)
    (hf : Followed s.armed s.pending) (hg : s.NeverStarved a) (ht : Tracked s s' a) :
    s'.Accounted := by
  rw [accounted_iff] at h ⊢
  have hkeep : s'.handles = s.handles → s'.kind = s.kind → s.Unsubmitted = s'.Unsubmitted := by
    intro hh hk
    funext o
    rw [Unsubmitted, Unsubmitted, hh, hk]
  cases ht with
  | opened socket req _ hfresh hvacant heq =>
    have hkind : s'.kind = Function.update s.kind req.owner req.sqe.op.workType :=
      congrArg Ledger.kind heq
    have hh : s'.handles = s.handles := congrArg Ledger.handles heq
    rw [show s'.desk = (s.desk.issue req).assign req.id req.owner from congrArg Ledger.desk heq]
    refine (h.issue.mono fun o hx => .inl ?_).assign
      (.inr ⟨req, Desk.outstanding_issue.mem_iff.mpr List.mem_cons_self, rfl⟩)
    have hne : o ≠ req.owner := by
      have hlt := (hd.sound.handles o hx.1).1
      omega
    exact ⟨hh ▸ hx.1, by rw [hkind, Function.update_of_ne hne]; exact hx.2⟩
  | acquired socket mem o id hfresh hvacant heq =>
    have hkind : s'.kind = Function.update s.kind o .unknown := congrArg Ledger.kind heq
    have hh : s'.handles = o :: s.handles := congrArg Ledger.handles heq
    rw [show s'.desk = s.desk.assign id o from congrArg Ledger.desk heq]
    refine (h.mono fun o' hx => .inl ?_).assign (.inl ?_)
    · have hne : o' ≠ o := by
        have hlt := (hd.sound.handles o' hx.1).1
        omega
      exact ⟨hh ▸ List.mem_cons_of_mem _ hx.1, by rw [hkind, Function.update_of_ne hne]; exact hx.2⟩
    · exact ⟨hh ▸ List.mem_cons_self, by rw [hkind, Function.update_self]⟩
  | edited _ _ heq | idle heq | entered _ _ _ _ _ _ _ _ _ heq =>
    rw [show s'.desk = s.desk from congrArg Ledger.desk heq,
      ← hkeep (congrArg Ledger.handles heq) (congrArg Ledger.kind heq)]
    exact h
  | submitted req hsubmits hheld hid hsend heq =>
    have hkind : s'.kind = Function.update s.kind req.owner req.sqe.op.workType :=
      congrArg Ledger.kind heq
    have hh : s'.handles = s.handles := congrArg Ledger.handles heq
    rw [show s'.desk = s.desk.issue req from congrArg Ledger.desk heq]
    apply h.issue.mono
    intro o hx
    by_cases he : o = req.owner
    · exact .inr ⟨req, Desk.outstanding_issue.mem_iff.mpr List.mem_cons_self, he.symm⟩
    · exact .inl ⟨hh ▸ hx.1, by rw [hkind, Function.update_of_ne he]; exact hx.2⟩
  | missed cqe rest _ hp hat heq =>
    rw [show s'.desk = s.desk.settle from congrArg Ledger.desk heq,
      ← hkeep (congrArg Ledger.handles heq) (congrArg Ledger.kind heq)]
    apply h.settle (answers_eq hp)
    intro j hj
    have hmem : cqe.req ∈ s.desk.outstanding :=
      List.mem_append_right _ (answers_eq hp ▸ List.mem_cons_self)
    rw [hd.sound.slot_of_ticket hmem hj] at hj
    cases hj.symm.trans hat
  | exhausted cqe rest o _ hp hat hres heq =>
    rw [show s'.desk = s.desk.settle from congrArg Ledger.desk heq,
      ← hkeep (congrArg Ledger.handles heq) (congrArg Ledger.kind heq)]
    refine h.settle (answers_eq hp) fun j _ => .inr ?_
    have hends : cqe.endsRequest = false := by
      by_contra hne
      have hn := hg rfl cqe (by rw [hp]; rfl) hres (by simpa using hne)
      cases hn.symm.trans hat
    obtain hr | ⟨c, hc, hr⟩ := (hp ▸ hf).1 hends
    · exact ⟨cqe.req, List.mem_append_left _ hr, rfl⟩
    · refine ⟨c.req, List.mem_append_right _ ?_, by rw [hr]⟩
      simp only [Desk.settle, answers_eq hp, List.tail_cons]
      exact List.mem_map_of_mem hc
  | rearmed cqe rest o type ret events req hend _ howner _ _ heq =>
    rw [show s'.desk = (s.desk.issue req).settle from congrArg Ledger.desk heq,
      ← hkeep (congrArg Ledger.handles heq) (congrArg Ledger.kind heq)]
    have ha : (s.desk.issue req).answers = cqe.req :: rest.map (·.req) := answers_eq hend.pending
    refine h.issue.settle ha fun j hj => .inr ?_
    have hmem : cqe.req ∈ s.desk.outstanding :=
      List.mem_append_right _ (answers_eq hend.pending ▸ List.mem_cons_self)
    have hj' : s.pool.at? j = some cqe.req.owner := hj
    rw [hd.sound.slot_of_ticket hmem hj] at hj'
    refine ⟨req, List.mem_append_left _ (List.mem_append_right _ List.mem_cons_self), ?_⟩
    exact howner.trans (Option.some.inj (hend.holds.symm.trans hj'))
  | freed cqe rest o type ret events hend _ heq =>
    rw [show s'.desk = (s.desk.vacate cqe.userData).settle from congrArg Ledger.desk heq,
      ← hkeep (congrArg Ledger.handles heq) (congrArg Ledger.kind heq)]
    have ha : (s.desk.vacate cqe.userData).answers = cqe.req :: rest.map (·.req) :=
      answers_eq hend.pending
    apply h.vacate.settle ha
    intro j hj
    have hmem : cqe.req ∈ s.desk.outstanding :=
      List.mem_append_right _ (answers_eq hend.pending ▸ List.mem_cons_self)
    obtain ⟨hne, hj⟩ := Desk.holder_of_vacate hj
    exact absurd (hd.sound.slot_of_ticket hmem hj) hne
  | completed i k req harmed heq =>
    rw [show s'.desk = _ from congrArg Ledger.desk heq,
      ← hkeep (congrArg Ledger.handles heq) (congrArg Ledger.kind heq)]
    exact h.answer harmed

/-- The item that a dispatch of an ended request found is freed or armed again by that dispatch. -/
def Concluded (s s' : IOUring) : Prop :=
  s'.cqHead = s.cqHead + 1 → ∀ cqe ∈ s.pending.head?, cqe.endsRequest = true →
    ∀ o ∈ s.pool.at? cqe.userData,
      .released o ∈ s'.trace.drop s.trace.length ∨ s.ArmedAgain s' o

theorem mem_drop_append {es fs : List Event} {e : Event} (h : e ∈ fs) :
    e ∈ (es ++ fs).drop es.length := by
  rwa [List.drop_left]

theorem concluded_of_tracked (hg : s.NeverStarved a) (ht : Tracked s s' a) : s.Concluded s' := by
  intro hhead cqe hc hends o ho
  have hidle : s'.cqHead ≠ s.cqHead := by omega
  cases ht with
  | opened _ _ _ _ _ heq | acquired _ _ _ _ _ _ heq | edited _ _ heq | submitted _ _ _ _ _ heq
  | idle heq | entered _ _ _ _ _ _ _ _ _ heq | completed _ _ _ _ heq =>
    exact absurd (congrArg Ledger.cqHead heq) hidle
  | missed c rest _ hp hat _ =>
    rw [hp] at hc
    cases hc
    cases hat.symm.trans ho
  | exhausted c rest o' _ hp hat hres _ =>
    have hn := hg rfl cqe hc
    rw [hp] at hc
    cases hc
    cases (hn hres hends).symm.trans hat
  | rearmed c rest o' type ret events req hend _ howner _ _ heq =>
    rw [hend.pending] at hc
    cases hc
    cases hend.holds.symm.trans ho
    have harmed : s'.armed = s.armed ++ [req] := congrArg (fun l => l.desk.waiting) heq
    refine .inr ⟨req, harmed ▸ List.mem_append_right _ List.mem_cons_self, howner, ?_⟩
    rw [show s'.trace = s.trace ++ (events ++ [.submitted req]) by
      rw [← List.append_assoc]; exact congrArg Ledger.trace heq]
    exact mem_drop_append (List.mem_append_right _ List.mem_cons_self)
  | freed c rest o' type ret events hend _ heq =>
    rw [hend.pending] at hc
    cases hc
    cases hend.holds.symm.trans ho
    refine .inl ?_
    rw [show s'.trace = s.trace ++ (events ++ [.released o]) by
      rw [← List.append_assoc]; exact congrArg Ledger.trace heq]
    exact mem_drop_append (List.mem_append_right _ List.mem_cons_self)

/-- The runs in which no callback polls, no item is starved, and the io_uring_submit at the
end of a submission takes every entry. -/
def Supplied (s : IOUring) (a : Flushes × Action) : Prop :=
  s.Unnested a.2 ∧ s.NeverStarved a.2 ∧ a.1.final.count (s.sq.length + 1) = s.sq.length + 1

instance (s : IOUring) (a : Flushes × Action) : Decidable (s.Supplied a) :=
  inferInstanceAs (Decidable (_ ∧ _))

structure Tended (s : IOUring) : Prop where
  dispatching : Dispatching s
  followed : Followed s.armed s.pending
  accounted : s.Accounted

theorem Tended.step (h : Tended s) {a : Flushes × Action} (hg : s.Supplied a)
    (hs : flushed a s = .ok s') : Tended s' ∧ s.Concluded s' := by
  obtain ⟨hnest, hstarved, hfinal⟩ := hg
  have hempty := h.dispatching.sound.sq
  -- nothing was left in the queue, so that the step is the one of a kernel that takes all
  rw [hempty] at hfinal
  rw [flushed, flushedStep_taken hempty hfinal] at hs
  obtain ⟨ht, hd⟩ := h.dispatching.step hnest hs
  exact ⟨⟨hd, h.dispatching.followed h.followed ht,
    h.accounted.tracked h.dispatching h.followed hstarved ht⟩, concluded_of_tracked hstarved ht⟩

theorem initial_tended (queueSize mapped : Nat) (memory : Nat → Memory.Byte) :
    Tended (initial queueSize mapped memory) := by
  refine ⟨initial_dispatching queueSize mapped memory, trivial, fun i o hi => ?_⟩
  rw [show (initial queueSize mapped memory).pool.at? i = none from rfl] at hi
  cases hi

/-- No slot is occupied by an item that nothing will ever free or arm again. -/
theorem no_item_stranded {queueSize mapped : Nat} {memory : Nat → Memory.Byte}
    (hr : Transition.Reaches flushed Supplied (initial queueSize mapped memory) s) :
    s.Accounted ∧ ∀ a s', s.Supplied a → flushed a s = .ok s' → s.Concluded s' := by
  have ht : Tended s := hr.invariant (fun _ _ _ hp hg hs => (hp.step hg hs).1)
    (initial_tended queueSize mapped memory)
  exact ⟨ht.accounted, fun a s' hg hs => (ht.step hg hs).2⟩

private def streamSocket : Socket := ⟨.ipv4Tcp, 0, .unicastClientSocket, 3⟩

private def received (res : Int) (flags : BitVec 32) : Outcome := ⟨res, flags, default, fun _ => none⟩

/-- Every io_uring_submit takes one entry. -/
private def oneEach : Flushes := ⟨.took 1, .took 1⟩

theorem no_item_stranded_stream : ∃ t t',
    Transition.Reaches flushed Supplied (initial 256 0 fun _ => 0) t ∧
      t.pool.at? 0 = some 0 ∧ t.Accounted ∧
      flushed (oneEach, .callbackReturns .reSubmit) t = .ok t' ∧ t.Concluded t' := by
  obtain ⟨t, hr, hat, hg, hok⟩ := Transition.reaches_of_leads flushed Supplied
    (fun t => t.pool.at? 0 = some 0 ∧ t.Supplied (oneEach, .callbackReturns .reSubmit) ∧
      (flushed (oneEach, .callbackReturns .reSubmit) t).isOk = true)
    [(oneEach, .submitRecv streamSocket 7 default), (oneEach, .complete 0 (received 5 1)),
      (oneEach, .pollCompletionQueues)]
    (initial 256 0 fun _ => 0) (by decide +kernel)
  obtain ⟨hacc, hcon⟩ := no_item_stranded hr
  cases hs : flushed (oneEach, .callbackReturns .reSubmit) t with
  | error _ => simp [hs, Except.isOk, Except.toBool] at hok
  | ok t' => exact ⟨t, t', hr, hat, hacc, hs, hcon _ _ hg hs⟩

/-- A receiver that runs out of buffers is left in its slot with nothing armed, although
every entry was taken. -/
theorem starved_receiver_stranded : ∃ t,
    Transition.Reaches flushed (fun s a => s.Unnested a.2) (initial 256 0 fun _ => 0) t ∧
      ¬t.Accounted := by
  obtain ⟨t, hr, hat, hh, ha, hp⟩ := Transition.reaches_of_leads flushed
    (fun s a => s.Unnested a.2)
    (fun t => t.pool.at? 0 = some 0 ∧ t.handles = [] ∧ t.armed = [] ∧ t.pending = [])
    [(oneEach, .submitRecv streamSocket 7 default),
      (oneEach, .complete 0 (received (-enobufs) 0)), (oneEach, .pollCompletionQueues)]
    (initial 256 0 fun _ => 0) (by decide +kernel)
  refine ⟨t, hr, fun hacc => ?_⟩
  obtain ⟨hm, _⟩ | ⟨_, hm, _⟩ | ⟨_, hm, _⟩ := hacc 0 0 hat
  · rw [hh] at hm
    cases hm
  · rw [ha] at hm
    cases hm
  · rw [hp] at hm
    cases hm

end IOUring

end Iuring
