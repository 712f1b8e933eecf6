import Iuring.DispatchOnce
import Iuring.Matching
import Iuring.Requests

namespace Iuring

open Lib

/-- The status that a callback was given, for the operations that report one. -/
def Call.status (call : Call) : Option Int :=
  match call.result with
  | .connect result => some result.status
  | .send result => some result.status
  | .close result => some result.status
  | .accept _ | .recv _ => none

namespace Event

/-- The item object that the event happens to. -/
def subject : Event → Option Nat
  | .submitted req => some req.owner
  | .dispatched _ found => found
  | .called o _ | .released o => some o

def callTo (o : Nat) : Event → Option Call
  | .called o' call => if o' = o then some call else none
  | .submitted _ | .dispatched _ _ | .released _ => none

/-- The completion that the item was dispatched, unless it was turned away as -ENOBUFS. -/
def handledBy (o : Nat) : Event → Option Completion
  | .dispatched cqe found => if found = some o ∧ cqe.res ≠ -IOUring.enobufs then some cqe else none
  | .submitted _ | .called _ _ | .released _ => none

/-- No callback of an item after its release. -/
def Silent (e e' : Event) : Prop := ∀ o, e = .released o → e'.callTo o = none

theorem callTo_eq_none {e : Event} {o : Nat} (h : e.subject ≠ some o) : e.callTo o = none := by
  cases e with
  | called o' call => exact if_neg fun he => h (congrArg some he)
  | submitted _ | dispatched _ _ | released _ => rfl

theorem handledBy_eq_none {e : Event} {o : Nat} (h : e.subject ≠ some o) :
    e.handledBy o = none := by
  cases e with
  | dispatched cqe found => exact if_neg fun he => h he.1
  | submitted _ | called _ _ | released _ => rfl

end Event

namespace IOUring

variable {s s' : IOUring} {a : Action}

theorem status_of_called {item : WorkItem} {cqe : Completion} {call : Call}
    (hk : item.workType.isOneShot = true) (h : s.callHandler item cqe = .ok (.called call)) :
    call.status = some cqe.res := by
  cases callHandler_ok h with
  | closed _ _ | sent _ _ _ | connected _ _ _ => rfl
  | accepted _ _ ht _ _ | received _ _ ht _ =>
    rw [ht] at hk
    cases hk

/-- Only a negative result of a connect or a send passes by the callback. -/
theorem neg_of_returned {item : WorkItem} {cqe : Completion} {ret : ReceivePostAction}
    {recycle : Bool} (hk : item.workType.isOneShot = true)
    (h : s.callHandler item cqe = .ok (.returned ret recycle)) :
    item.workType ≠ .close ∧ cqe.res < 0 := by
  cases callHandler_ok h with
  | failed ht hres =>
    refine ⟨fun hc => ?_, hres⟩
    simp [hc, WorkType.isSend] at ht
  | interrupted ht _ | rejected ht _ =>
    rw [ht] at hk
    cases hk

/-- No callback polls, and a completion other than -ENOBUFS is polled for an item of
one use only if that item armed its request and, but for a close, it has not failed. -/
def PollsAnswers (s : IOUring) (a : Action) : Prop :=
  a.polls = true → s.frames = [] ∧ ∀ cqe ∈ s.pending.head?, cqe.res ≠ -enobufs →
    ∀ o ∈ s.pool.at? cqe.userData, (s.kind o).isOneShot = true →
      cqe.req.owner = o ∧ (s.kind o = .close ∨ 0 ≤ cqe.res)

instance (s : IOUring) (a : Action) : Decidable (s.PollsAnswers a) :=
  inferInstanceAs (Decidable (_ → _))

theorem PollsAnswers.unnested (h : s.PollsAnswers a) : s.Unnested a := fun hp => (h hp).1

/-- Under this condition an item of one use is freed only after its callback. -/
theorem PollsAnswers.ending (h : s.PollsAnswers a) {cqe : Completion} {rest : List Completion}
    {o : Nat} {type : WorkType} {ret : ReceivePostAction} {events : List Event}
    (hend : s.Ending cqe rest o type ret events a) :
    (s.kind o = .accept ∨ s.kind o = .recv) ∧ events = [.dispatched cqe (some o)] ∨
      events = [] ∧ ∃ frame, s.frames = [frame] ∧ frame.workItem = o := by
  obtain ⟨rfl, _, hk, he, recycle, hcall⟩ | ⟨_, he, frame, hf, ho, _⟩ := hend.source
  · refine .inl ⟨?_, he⟩
    cases hone : (s.kind o).isOneShot with
    | true =>
      obtain ⟨hclose, hneg⟩ := neg_of_returned hone hcall
      have ha := ((h rfl).2 cqe (by rw [hend.pending]; rfl) hend.res o hend.holds hone).2
      obtain ha | ha := ha
      · exact absurd ha hclose
      · omega
    | false =>
      have hu := hend.known_now
      cases hko : s.kind o <;> simp_all [WorkType.isOneShot]
  · exact .inr ⟨he, frame, hf, ho⟩

end IOUring

namespace Ledger

open IOUring

variable {s s' : IOUring} {a : Action} {l : Ledger}

def calls (o : Nat) (l : Ledger) : List Call := l.trace.filterMap (Event.callTo o)

def handled (o : Nat) (l : Ledger) : List Completion := l.trace.filterMap (Event.handledBy o)

/-- The items whose kind may still become, or is, one of one use. -/
def Countable (l : Ledger) (o : Nat) : Prop := l.kind o ≠ .accept ∧ l.kind o ≠ .recv

structure Reporting (l : Ledger) : Prop where
  subjects : ∀ e ∈ l.trace, ∀ o ∈ e.subject, o < l.next
  answered : ∀ o, l.Countable o → (l.calls o).map Call.status = (l.handled o).map (some ·.res)
  own : ∀ o, l.Countable o → ∀ cqe ∈ l.handled o, cqe.req.owner = o
  running : ∀ frame ∈ l.frames, l.handled frame.workItem ≠ []
  gone : ∀ o, .released o ∈ l.trace → (∀ i, l.desk.holder i ≠ some o) ∧ l.handled o ≠ []
  silent : l.trace.Pairwise Event.Silent

/-- An item that does not exist yet has no events. -/
theorem Reporting.fresh (h : l.Reporting) {o : Nat} (ho : l.next ≤ o) :
    l.calls o = [] ∧ l.handled o = [] ∧ .released o ∉ l.trace := by
  have hne : ∀ e ∈ l.trace, e.subject ≠ some o := by
    intro e he hs
    have := h.subjects e he o hs
    omega
  refine ⟨List.filterMap_eq_nil_iff.mpr fun e he => Event.callTo_eq_none (hne e he),
    List.filterMap_eq_nil_iff.mpr fun e he => Event.handledBy_eq_none (hne e he),
    fun hr => hne _ hr rfl⟩

theorem silent_append {es : List Event} {e : Event} (h : es.Pairwise Event.Silent)
    (he : ∀ o, .released o ∈ es → e.callTo o = none) : (es ++ [e]).Pairwise Event.Silent := by
  refine List.pairwise_append.mpr ⟨h, List.pairwise_singleton _ _, fun e' hm e'' hm' o ho => ?_⟩
  rw [List.mem_singleton.mp hm']
  exact he o (ho ▸ hm)

/-- A step that at most submits a request, for items that were countable or new. -/
theorem Reporting.quiet (h : l.Reporting) {l' : Ledger} (reqs : List Request)
    (ht : l'.trace = l.trace ++ reqs.map .submitted) (hn : l.next ≤ l'.next)
    (hreqs : ∀ req ∈ reqs, req.owner < l'.next)
    (hf : l'.frames = l.frames)
    (hk : ∀ o, l'.Countable o → l.Countable o ∨ l.next ≤ o)
    (hh : ∀ i o, l'.desk.holder i = some o → l.desk.holder i = some o ∨ l.next ≤ o) :
    l'.Reporting := by
  have hcalls : ∀ o, l'.calls o = l.calls o := by
    intro o
    simp only [calls, ht, List.filterMap_append, List.filterMap_map]
    exact List.append_right_eq_self.mpr (List.filterMap_eq_nil_iff.mpr fun _ _ => rfl)
  have hhandled : ∀ o, l'.handled o = l.handled o := by
    intro o
    simp only [handled, ht, List.filterMap_append, List.filterMap_map]
    exact List.append_right_eq_self.mpr (List.filterMap_eq_nil_iff.mpr fun _ _ => rfl)
  have hreleased : ∀ o, .released o ∈ l'.trace → .released o ∈ l.trace := by
    intro o hm
    rw [ht] at hm
    obtain hm | hm := List.mem_append.mp hm
    · exact hm
    · obtain ⟨_, _, he⟩ := List.mem_map.mp hm
      cases he
  refine ⟨fun e he o ho => ?_, fun o ho => ?_, fun o ho => ?_, fun frame hm => ?_,
    fun o hm => ?_, ?_⟩
  · rw [ht] at he
    obtain he | he := List.mem_append.mp he
    · exact (h.subjects e he o ho).trans_le hn
    · obtain ⟨req, hr, rfl⟩ := List.mem_map.mp he
      cases ho
      exact hreqs req hr
  · rw [hcalls, hhandled]
    obtain hc | hc := hk o ho
    · exact h.answered o hc
    · rw [(h.fresh hc).1, (h.fresh hc).2.1]
      rfl
  · rw [hhandled]
    obtain hc | hc := hk o ho
    · exact h.own o hc
    · rw [(h.fresh hc).2.1]
      exact List.forall_mem_nil _
  · rw [hhandled]
    exact h.running frame (hf ▸ hm)
  · rw [hhandled]
    have hr := hreleased o hm
    refine ⟨fun i hi => ?_, (h.gone o hr).2⟩
    obtain hi | hi := hh i o hi
    · exact (h.gone o hr).1 i hi
    · exact (h.fresh hi).2.2 hr
  · rw [ht]
    refine List.pairwise_append.mpr ⟨h.silent, ?_, fun e _ e' he' o _ => ?_⟩
    · exact List.pairwise_map.mpr (List.pairwise_of_forall fun _ _ => nofun)
    · obtain ⟨req, _, rfl⟩ := List.mem_map.mp he'
      rfl

/-- A dispatch that is turned away, or that meets an item which is not countable. -/
theorem Reporting.dispatch (h : s.ledger.Reporting) (cqe : Completion) (found : Option Nat)
    (hlt : ∀ o ∈ found, o < s.pool.nextObj)
    (hskip : ∀ o, s.ledger.Countable o → (Event.dispatched cqe found).handledBy o = none) :
    ({ s.ledger with
      desk := s.desk.settle
      cqHead := s.cqHead + 1
      frames := []
      trace := s.trace ++ [.dispatched cqe found] } : Ledger).Reporting := by
  have hcalls : ∀ o, (s.trace ++ [Event.dispatched cqe found]).filterMap (Event.callTo o) =
      s.ledger.calls o := by
    intro o
    rw [List.filterMap_append]
    exact List.append_nil _
  have hhandled : ∀ o, s.ledger.Countable o →
      (s.trace ++ [Event.dispatched cqe found]).filterMap (Event.handledBy o) =
        s.ledger.handled o := by
    intro o ho
    rw [List.filterMap_append, List.filterMap_cons_none (hskip o ho)]
    exact List.append_nil _
  refine ⟨fun e he o ho => ?_, fun o ho => ?_, fun o ho => ?_, fun frame hm => ?_,
    fun o hm => ?_, ?_⟩
  · obtain he | he := List.mem_append.mp he
    · exact h.subjects e he o ho
    · cases List.mem_singleton.mp he
      exact hlt o ho
  · simp only [calls, handled]
    rw [hcalls, hhandled o ho]
    exact h.answered o ho
  · simp only [handled]
    rw [hhandled o ho]
    exact h.own o ho
  · cases hm
  · obtain hm | hm := List.mem_append.mp hm
    swap
    · cases List.mem_singleton.mp hm
    obtain ⟨hn, hd⟩ := h.gone o hm
    refine ⟨hn, fun hnil => hd ?_⟩
    simp only [handled, List.filterMap_append, List.append_eq_nil_iff] at hnil
    exact hnil.1
  · exact silent_append h.silent fun o _ => rfl

theorem calls_entered (cqe : Completion) (o o' : Nat) (call : Call) :
    (s.trace ++ [Event.dispatched cqe (some o), .called o call]).filterMap (Event.callTo o') =
      s.ledger.calls o' ++ if o = o' then [call] else [] := by
  rw [List.filterMap_append]
  by_cases h : o = o' <;> simp [List.filterMap_cons, Event.callTo, h, calls, ledger]

theorem handled_entered {cqe : Completion} (hres : cqe.res ≠ -enobufs) (o o' : Nat) (call : Call) :
    (s.trace ++ [Event.dispatched cqe (some o), .called o call]).filterMap (Event.handledBy o') =
      s.ledger.handled o' ++ if o = o' then [cqe] else [] := by
  rw [List.filterMap_append]
  by_cases h : o = o' <;> simp [List.filterMap_cons, Event.handledBy, h, hres, handled, ledger]

/-- A dispatch that calls the user back. -/
theorem Reporting.enter (h : s.ledger.Reporting) (hd : Dispatching s) (hg : s.PollsAnswers a)
    (ha : a.polls = true) {cqe : Completion} {rest : List Completion} {o : Nat} {call : Call}
    (hp : s.pending = cqe :: rest) (hat : s.pool.at? cqe.userData = some o)
    (hres : cqe.res ≠ -enobufs) (hcall : s.callHandler (s.item o) cqe = .ok (.called call)) :
    ({ s.ledger with
      frames := [s.frameOf cqe o]
      trace := s.trace ++ [.dispatched cqe (some o), .called o call] } : Ledger).Reporting := by
  obtain ⟨hf, hanswers⟩ := hg ha
  have hone : s.ledger.Countable o → (s.kind o).isOneShot = true := by
    intro hc
    have hu : s.kind o ≠ .unknown := by
      intro hk
      simp only [IOUring.kind] at hk
      simp [callHandler, hk] at hcall
    have hca : s.kind o ≠ .accept := hc.1
    have hcr : s.kind o ≠ .recv := hc.2
    cases hk : s.kind o <;> first | rfl | simp_all
  have hlt : o < s.pool.nextObj := (hd.sound.pool.live _ _ hat).1
  have hnew : .released o ∉ s.trace := fun hr => (h.gone o hr).1 cqe.userData hat
  refine ⟨fun e he o' ho => ?_, fun o' ho => ?_, fun o' ho => ?_, fun frame hm => ?_,
    fun o' hm => ?_, ?_⟩
  · obtain he | he := List.mem_append.mp he
    · exact h.subjects e he o' ho
    · simp only [List.mem_cons, List.not_mem_nil, or_false] at he
      obtain rfl | rfl := he <;> cases ho <;> exact hlt
  · simp only [calls, handled]
    rw [calls_entered, handled_entered hres, List.map_append, List.map_append, h.answered o' ho]
    by_cases he : o = o'
    · subst he
      simp [status_of_called (hone ho) hcall]
    · simp [he]
  · simp only [handled]
    rw [handled_entered hres]
    refine List.forall_mem_append.mpr ⟨h.own o' ho, fun c hc => ?_⟩
    by_cases he : o = o'
    · subst he
      rw [if_pos rfl] at hc
      cases List.mem_singleton.mp hc
      exact (hanswers cqe (by rw [hp]; rfl) hres o hat (hone ho)).1
    · simp [he] at hc
  · rw [List.mem_singleton.mp hm]
    simp only [handled]
    rw [handled_entered hres]
    simp [frameOf]
  · have hm' : .released o' ∈ s.trace := by simpa using hm
    refine ⟨(h.gone o' hm').1, ?_⟩
    simp only [handled]
    rw [handled_entered hres]
    exact List.append_ne_nil_of_left_ne_nil (h.gone o' hm').2 _
  · have hfirst := silent_append (e := .dispatched cqe (some o)) h.silent fun _ _ => rfl
    have hboth := silent_append (e := .called o call) hfirst fun o' hr => ?_
    · simpa only [ledger, List.append_assoc, List.cons_append, List.nil_append] using hboth
    · refine if_neg fun he => hnew ?_
      subst he
      simpa [ledger] using hr

/-- The end of a dispatch, before the item is freed or armed again. -/
theorem Reporting.ending (h : s.ledger.Reporting) (hd : Dispatching s) (hg : s.PollsAnswers a)
    {cqe : Completion} {rest : List Completion} {o : Nat} {type : WorkType}
    {ret : ReceivePostAction} {events : List Event}
    (hend : s.Ending cqe rest o type ret events a) {l' : Ledger}
    (hl : l' = { s.ledger with
      desk := s.desk.settle
      cqHead := s.cqHead + 1
      frames := []
      trace := s.trace ++ events }) : l'.Reporting ∧ l'.handled o ≠ [] := by
  subst hl
  obtain ⟨hk, rfl⟩ | ⟨rfl, frame, hf, rfl⟩ := hg.ending hend
  · have hf : s.frames = [] := by
      obtain ⟨_, hf, _⟩ | ⟨_, he, _⟩ := hend.source
      · exact hf
      · cases he
    have hlt : o < s.pool.nextObj := (hd.sound.pool.live _ _ hend.holds).1
    refine ⟨h.dispatch cqe (some o) (fun o' ho => ?_) (fun o' ho => if_neg fun he => ?_), ?_⟩
    · cases ho
      exact hlt
    · cases he.1
      obtain hk | hk := hk
      · exact ho.1 hk
      · exact ho.2 hk
    · simp [handled, Event.handledBy, hend.res]
  · have hrun := h.running frame (show frame ∈ s.frames from hf ▸ List.mem_cons_self)
    rw [List.append_nil]
    exact ⟨⟨h.subjects, h.answered, h.own, List.forall_mem_nil _, h.gone, h.silent⟩, hrun⟩

/-- The release of an item that has been dispatched empties its only slot. -/
theorem Reporting.release (h : l.Reporting) {o i : Nat} {l' : Ledger} (hlt : o < l.next)
    (hh : l.handled o ≠ []) (hi : ∀ j, l.desk.holder j = some o → j = i)
    (hl : l' = { l with desk := l.desk.vacate i, trace := l.trace ++ [.released o] }) :
    l'.Reporting := by
  subst hl
  have hcalls : ∀ o', (l.trace ++ [Event.released o]).filterMap (Event.callTo o') = l.calls o' := by
    intro o'
    rw [List.filterMap_append]
    exact List.append_nil _
  have hhandled : ∀ o', (l.trace ++ [Event.released o]).filterMap (Event.handledBy o') =
      l.handled o' := by
    intro o'
    rw [List.filterMap_append]
    exact List.append_nil _
  refine ⟨fun e he o' ho => ?_, fun o' ho => ?_, fun o' ho => ?_, fun frame hm => ?_,
    fun o' hm => ?_, silent_append h.silent fun _ _ => rfl⟩
  · obtain he | he := List.mem_append.mp he
    · exact h.subjects e he o' ho
    · cases List.mem_singleton.mp he
      cases ho
      exact hlt
  · simp only [calls, handled]
    rw [hcalls, hhandled]
    exact h.answered o' ho
  · simp only [handled]
    rw [hhandled]
    exact h.own o' ho
  · simp only [handled]
    rw [hhandled]
    exact h.running frame hm
  · simp only [handled]
    rw [hhandled]
    obtain hm | hm := List.mem_append.mp hm
    · exact ⟨fun j hj => (h.gone o' hm).1 j (Desk.holder_of_vacate hj).2, (h.gone o' hm).2⟩
    · cases List.mem_singleton.mp hm
      exact ⟨fun j hj => (Desk.holder_of_vacate hj).1
        (hi j (Desk.holder_of_vacate hj).2), hh⟩

theorem countable_of_update (l : Ledger) {l' : Ledger} {o o' : Nat} {type : WorkType}
    (hk : l'.kind = Function.update l.kind o type) (h : l'.Countable o') :
    l.Countable o' ∨ o' = o := by
  by_cases he : o' = o
  · exact .inr he
  · refine .inl ?_
    rw [Countable] at h
    rwa [hk, Function.update_of_ne he] at h

theorem Reporting.tracked (h : s.ledger.Reporting) (hd : Dispatching s) (hg : s.PollsAnswers a)
    (ht : Tracked s s' a) : s'.ledger.Reporting := by
  cases ht with
  | opened socket req _ hfresh hvacant heq =>
    have hnext : s.ledger.next = req.owner := hfresh.symm
    refine heq ▸ h.quiet [req] rfl (hnext.trans_le (Nat.le_succ _))
      (List.forall_mem_singleton.mpr (Nat.lt_succ_self _)) rfl (fun o ho => ?_)
      (fun i o ho => ?_)
    · exact (countable_of_update s.ledger rfl ho).imp_right fun he => (hnext.trans he.symm).le
    · exact (Desk.holder_of_assign ho).imp_right fun he =>
        (hnext.trans he.symm).le
  | acquired socket mem o id hfresh hvacant heq =>
    have hnext : s.ledger.next = o := hfresh.symm
    refine heq ▸ h.quiet [] (List.append_nil _).symm (hnext.trans_le (Nat.le_succ _))
      (List.forall_mem_nil _) rfl (fun o' ho => ?_) (fun i o' ho => ?_)
    · exact (countable_of_update s.ledger rfl ho).imp_right fun he => (hnext.trans he.symm).le
    · exact (Desk.holder_of_assign ho).imp_right fun he => (hnext.trans he.symm).le
  | edited _ _ heq | idle heq => exact heq ▸ h
  | submitted req _ hheld _ _ heq =>
    obtain ⟨hlt, hk⟩ := hd.sound.handles _ hheld
    refine heq ▸ h.quiet [req] rfl le_rfl (List.forall_mem_singleton.mpr hlt) rfl
      (fun o ho => ?_) (fun _ _ => .inl)
    obtain hc | rfl := countable_of_update s.ledger rfl ho
    · exact .inl hc
    · refine .inl ⟨fun he => ?_, fun he => ?_⟩ <;>
        rw [show (s.item req.owner).workType = _ from he] at hk <;> simp [WorkType.isSend] at hk
  | missed cqe rest hf hp hat heq =>
    exact heq ▸ h.dispatch cqe none (fun _ ho => by cases ho) (fun _ _ => rfl)
  | exhausted cqe rest o hf hp hat hres heq =>
    have hlt : o < s.pool.nextObj := (hd.sound.pool.live _ _ hat).1
    exact heq ▸ h.dispatch cqe (some o) (fun _ ho => by cases ho; exact hlt)
      (fun _ _ => if_neg fun he => he.2 hres)
  | entered cqe rest o call hf hp hat hres hcall heq =>
    exact heq ▸ h.enter hd hg rfl hp hat hres hcall
  | rearmed cqe rest o type ret events req hend htype howner _ _ heq =>
    obtain ⟨hr, _⟩ := h.ending hd hg hend rfl
    have hlt : o < s.pool.nextObj := (hd.sound.pool.live _ _ hend.holds).1
    exact heq ▸ hr.quiet [req] rfl le_rfl (List.forall_mem_singleton.mpr (howner ▸ hlt)) rfl
      (fun _ => .inl) (fun _ _ => .inl)
  | freed cqe rest o type ret events hend htype heq =>
    obtain ⟨hr, hh⟩ := h.ending hd hg hend rfl
    have hlt : o < s.pool.nextObj := (hd.sound.pool.live _ _ hend.holds).1
    exact heq ▸ hr.release hlt hh (fun j hj => hd.sound.pool.slot_unique hj hend.holds) rfl
  | completed i k req harmed heq =>
    exact heq ▸ h.quiet [] (List.append_nil _).symm le_rfl (List.forall_mem_nil _) rfl
      (fun _ => .inl) (fun _ _ => .inl)

end Ledger

namespace IOUring

variable {s s' : IOUring} {a : Action}

/-- The calls of an item's callback among the events. -/
def callsTo (o : Nat) (events : List Event) : List Call := events.filterMap (Event.callTo o)

/-- At its release an item that made one request of one use has called back
once, with the result of its one completion, and it never calls back later. -/
def ReportsOnce (s : IOUring) : Prop :=
  ∀ before after o, s.trace = before ++ .released o :: after →
    callsTo o after = [] ∧
    ∀ req, s.consumed.filter (fun r => r.owner = o) = [req] →
      req.sqe.op.workType.isOneShot = true →
      ∃ cqe, s.posted.filter (fun c => c.req.owner = o) = [cqe] ∧
        (callsTo o before).map Call.status = [some cqe.res]

theorem isMultishot_of_isOneShot {op : Op} (h : op.workType.isOneShot = true) :
    op.isMultishot = false := by
  cases op <;> first | rfl | cases h

theorem handledBy_eq_some {e : Event} {o : Nat} {cqe : Completion} (h : e.handledBy o = some cqe) :
    e.completion = some cqe := by
  cases e with
  | dispatched c found =>
    simp only [Event.handledBy, Option.ite_none_right_eq_some] at h
    exact h.2
  | submitted _ | called _ _ | released _ => cases h

theorem handled_sublist (o : Nat) (events : List Event) :
    (events.filterMap (Event.handledBy o)).Sublist (events.filterMap Event.completion) := by
  induction events with
  | nil => exact .slnil
  | cons e events ih =>
    cases hh : e.handledBy o with
    | none =>
      rw [List.filterMap_cons_none hh]
      cases hc : e.completion with
      | none => rwa [List.filterMap_cons_none hc]
      | some c =>
        rw [List.filterMap_cons_some hc]
        exact ih.cons c
    | some c =>
      rw [List.filterMap_cons_some hh, List.filterMap_cons_some (handledBy_eq_some hh)]
      exact ih.cons_cons c

theorem reportsOnce_of_reporting (hsound : Sound s) (hc : s.Conserved) (honce : s.ledger.Once)
    (h : s.ledger.Reporting) : s.ReportsOnce := by
  intro before after o ht
  have hafter : callsTo o after = [] := by
    have hs := h.silent
    rw [show s.ledger.trace = before ++ .released o :: after from ht] at hs
    have hrest := (List.pairwise_cons.mp (List.pairwise_append.mp hs).2.1).1
    exact List.filterMap_eq_nil_iff.mpr fun e he => hrest e he o rfl
  refine ⟨hafter, fun req hreq hone => ?_⟩
  have hmem : req ∈ s.consumed.filter (fun r => r.owner = o) := hreq ▸ List.mem_cons_self
  have howner : req.owner = o := by simpa using (List.mem_filter.mp hmem).2
  have hkind : (s.kind o).isOneShot = true :=
    (howner ▸ (hsound.owned req (List.mem_filter.mp hmem).1).type).isOneShot hone
  have hcount : s.ledger.Countable o := by
    refine ⟨fun hk => ?_, fun hk => ?_⟩ <;>
      rw [show s.kind o = _ from hk] at hkind <;> cases hkind
  have hreleased : .released o ∈ s.trace := by
    rw [ht]
    exact List.mem_append_right _ List.mem_cons_self
  have hhandled := (h.gone o hreleased).2
  have hsub : (s.ledger.handled o).Sublist (s.posted.filter (fun c => c.req.owner = o)) := by
    have hq := (handled_sublist o s.trace).trans (honce.queue ▸ List.take_sublist _ _)
    have hown := hq.filter (fun c => decide (c.req.owner = o))
    rwa [List.filter_eq_self.mpr fun c hm => by simpa using h.own o hcount c hm] at hown
  have hle := hsound.completions_le_one hc hreq (isMultishot_of_isOneShot hone)
  have hpos : 0 < (s.ledger.handled o).length := List.length_pos_iff.mpr hhandled
  have heq := hsub.eq_of_length_le (by omega)
  obtain ⟨cqe, hcqe⟩ := List.length_eq_one_iff.mp (Nat.le_antisymm hle (hpos.trans_le hsub.length_le))
  refine ⟨cqe, hcqe, ?_⟩
  have hcalls : callsTo o s.trace = callsTo o before := by
    rw [ht, callsTo, List.filterMap_append, List.filterMap_cons_none rfl]
    change callsTo o before ++ callsTo o after = _
    rw [hafter, List.append_nil]
  have hans := h.answered o hcount
  rw [heq, hcqe] at hans
  rw [← hcalls]
  exact hans

theorem initial_reporting (queueSize mapped : Nat) (memory : Nat → Memory.Byte) :
    (initial queueSize mapped memory).ledger.Reporting where
  subjects := List.forall_mem_nil _
  answered _ _ := rfl
  own _ _ := List.forall_mem_nil _
  running := List.forall_mem_nil _
  gone _ h := absurd h List.not_mem_nil
  silent := List.Pairwise.nil

/-- Every released item that was submitted once has reported its result once. -/
theorem released_reports_once {queueSize mapped : Nat} {memory : Nat → Memory.Byte}
    (hr : Transition.Reaches IOUring.step PollsAnswers (initial queueSize mapped memory) s) :
    s.ReportsOnce := by
  have h : Dispatching s ∧ s.Conserved ∧ s.ledger.Once ∧ s.ledger.Reporting := by
    refine hr.invariant
      (I := fun s => Dispatching s ∧ s.Conserved ∧ s.ledger.Once ∧ s.ledger.Reporting) ?_
      ⟨initial_dispatching queueSize mapped memory, initial_conserved queueSize mapped memory,
        initial_once queueSize mapped memory, initial_reporting queueSize mapped memory⟩
    intro t a t' hp hg hs
    obtain ⟨hd, hc, honce, hreporting⟩ := hp
    obtain ⟨ht, hd'⟩ := hd.step hg.unnested hs
    exact ⟨hd', hc.flow (hd.sound.flow (step_ok hd.sound.sq hs)), honce.tracked hd ht,
      hreporting.tracked hd hg ht⟩
  exact reportsOnce_of_reporting h.1.sound h.2.1 h.2.2.1 h.2.2.2

private def clientSocket : Socket := ⟨.ipv4Tcp, 0, .unicastClientSocket, 3⟩

private def sent (res : Int) : Outcome := ⟨res, 0, default, fun _ => none⟩

private def sendRequest : Request := ⟨0, 0, ⟨0, .send 3 1, false, false⟩⟩

theorem released_reports_once_send : ∃ t before,
    Transition.Reaches IOUring.step PollsAnswers (initial 256 0 fun _ => 0) t ∧
      t.trace = before ++ [.released 0] ∧ t.ReportsOnce := by
  obtain ⟨t, hr, ht⟩ := Transition.reaches_of_leads IOUring.step PollsAnswers
    (fun t => t.trace = [.submitted sendRequest,
      .dispatched ⟨sendRequest, 1, 0, [65], none⟩ (some 0), .called 0 ⟨7, .send ⟨1⟩⟩] ++
        [.released 0])
    [.send clientSocket ⟨[65], by decide⟩ 7 default, .complete 0 (sent 1), .pollCompletionQueues,
      .callbackReturns .none]
    (initial 256 0 fun _ => 0) (by decide +kernel)
  exact ⟨t, _, hr, ht, released_reports_once hr⟩

/-- A send that fails is released without a word to its caller. -/
theorem failed_send_unreported : ∃ t,
    Transition.Reaches IOUring.step Unnested (initial 256 0 fun _ => 0) t ∧ ¬t.ReportsOnce := by
  obtain ⟨t, hr, ht, hc⟩ := Transition.reaches_of_leads IOUring.step Unnested
    (fun t => t.trace = [.submitted sendRequest,
      .dispatched ⟨sendRequest, -32, 0, [], none⟩ (some 0)] ++ [.released 0] ∧
        t.consumed = [sendRequest])
    [.send clientSocket ⟨[65], by decide⟩ 7 default, .complete 0 (sent (-32)),
      .pollCompletionQueues]
    (initial 256 0 fun _ => 0) (by decide +kernel)
  refine ⟨t, hr, fun h => ?_⟩
  obtain ⟨_, hone⟩ := h _ _ _ ht
  obtain ⟨cqe, _, hcalls⟩ := hone sendRequest (by rw [hc]; rfl) rfl
  cases hcalls

end IOUring

end Iuring
