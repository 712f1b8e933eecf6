import Iuring.Dispatch

namespace Iuring

open Lib

namespace Event

def completion : Event → Option Completion
  | .dispatched cqe _ => some cqe
  | .submitted _ | .called _ _ | .released _ => none

/-- The item object that is taken out of its slot. -/
def releases : Event → Option Nat
  | .released o => some o
  | .submitted _ | .dispatched _ _ | .called _ _ => none

end Event

namespace IOUring

/-- The completion entries that polls have dispatched, in their order. -/
def dispatched (s : IOUring) : List Completion := s.trace.filterMap Event.completion

/-- The items that were freed, in the order of their release. -/
def released (s : IOUring) : List Nat := s.trace.filterMap Event.releases

end IOUring

namespace Ledger

open IOUring

variable {s s' : IOUring} {a : Action} {l l' : Ledger}

/-- The dispatched entries are those that the head has passed, with the one in
progress, and a freed item is in no slot any more. -/
structure Once (l : Ledger) : Prop where
  queue : l.trace.filterMap Event.completion = l.posted.take (l.cqHead + l.frames.length)
  gone : ∀ o ∈ l.trace.filterMap Event.releases, o < l.next ∧ ∀ i, l.desk.holder i ≠ some o
  nodup : (l.trace.filterMap Event.releases).Nodup

/-- A step that neither dispatches nor frees. -/
theorem Once.quiet (h : l.Once)
    (hc : l'.trace.filterMap Event.completion = l.trace.filterMap Event.completion)
    (hr : l'.trace.filterMap Event.releases = l.trace.filterMap Event.releases)
    (hp : l'.posted.take (l'.cqHead + l'.frames.length) =
      l.posted.take (l.cqHead + l.frames.length))
    (hn : l.next ≤ l'.next)
    (hh : ∀ i o, l'.desk.holder i = some o → l.desk.holder i = some o ∨ l.next ≤ o) : l'.Once := by
  refine ⟨by rw [hc, hp, h.queue], fun o ho => ?_, by rw [hr]; exact h.nodup⟩
  rw [hr] at ho
  obtain ⟨hlt, hgone⟩ := h.gone o ho
  refine ⟨hlt.trans_le hn, fun i hi => ?_⟩
  obtain hi | hge := hh i o hi
  · exact hgone i hi
  · omega

/-- The dispatch of the entry at the head, with the events of the step and the number of
entries that the head has then passed or that are in progress. -/
theorem Once.dispatch (h : s.ledger.Once) {cqe : Completion} {rest : List Completion}
    (hf : s.frames = []) (hp : s.pending = cqe :: rest) {events : List Event}
    (hc : events.filterMap Event.completion = [cqe])
    (hr : events.filterMap Event.releases = []) (hl : l'.trace = s.trace ++ events)
    (hposted : l'.posted = s.posted) (hhead : l'.cqHead + l'.frames.length = s.cqHead + 1)
    (hn : l'.next = s.pool.nextObj) (hh : l'.desk.holder = s.pool.at?) : l'.Once := by
  have hq : s.trace.filterMap Event.completion = s.posted.take s.cqHead := by
    simpa only [ledger, hf, List.length_nil, Nat.add_zero] using h.queue
  have hrel : l'.trace.filterMap Event.releases = s.trace.filterMap Event.releases := by
    rw [hl, List.filterMap_append, hr, List.append_nil]
  refine ⟨?_, ?_, by rw [hrel]; exact h.nodup⟩
  · rw [hl, List.filterMap_append, hc, hq, hposted, hhead, take_succ_of_pending hp]
  · rw [hrel, hn, hh]
    exact h.gone

/-- The end of a dispatch, before the item is freed or armed again. -/
theorem Once.ending (h : s.ledger.Once) {cqe : Completion} {rest : List Completion} {o : Nat}
    {type : WorkType} {ret : ReceivePostAction} {events : List Event}
    (hend : s.Ending cqe rest o type ret events a) : ({ s.ledger with
      desk := s.desk.settle
      cqHead := s.cqHead + 1
      frames := []
      trace := s.trace ++ events } : Ledger).Once := by
  obtain ⟨_, hf, _, rfl, _⟩ | ⟨_, rfl, frame, hf, _⟩ := hend.source
  · exact h.dispatch hf hend.pending rfl rfl rfl rfl rfl rfl rfl
  · have hq : s.trace.filterMap Event.completion = s.posted.take (s.cqHead + 1) := by
      simpa only [ledger, hf, List.length_singleton] using h.queue
    rw [List.append_nil]
    exact ⟨hq, h.gone, h.nodup⟩

theorem Once.release (h : l.Once) {i o : Nat} (hlt : o < l.next) (hi : l.desk.holder i = some o)
    (honly : ∀ j, l.desk.holder j = some o → j = i)
    (hl : l' = { l with desk := l.desk.vacate i, trace := l.trace ++ [.released o] }) :
    l'.Once := by
  have hrel : (l.trace ++ [Event.released o]).filterMap Event.releases =
      l.trace.filterMap Event.releases ++ [o] := by
    rw [List.filterMap_append]
    rfl
  subst hl
  refine ⟨?_, fun o' ho => ?_, ?_⟩
  · rw [List.filterMap_append]
    exact (List.append_nil _).trans h.queue
  · rw [hrel] at ho
    obtain ho | ho := List.mem_append.mp ho
    · obtain ⟨hlt', hgone⟩ := h.gone o' ho
      exact ⟨hlt', fun j hj => hgone j (Desk.holder_of_vacate hj).2⟩
    · cases List.mem_singleton.mp ho
      refine ⟨hlt, fun j hj => ?_⟩
      obtain ⟨hne, hj⟩ := Desk.holder_of_vacate hj
      exact hne (honly j hj)
  · rw [hrel]
    refine List.nodup_append.mpr ⟨h.nodup, List.nodup_singleton _, fun o' ho o'' ho' he => ?_⟩
    rw [he, List.mem_singleton.mp ho'] at ho
    exact (h.gone o ho).2 i hi

theorem Once.tracked (h : s.ledger.Once) (hd : Dispatching s) (ht : Tracked s s' a) :
    s'.ledger.Once := by
  cases ht with
  | opened socket req _ hfresh hvacant heq =>
    have hnext : s.ledger.next = req.owner := hfresh.symm
    refine heq ▸ h.quiet ?_ ?_ rfl (hnext.trans_le (Nat.le_succ _)) fun i o ho => ?_
    · exact List.filterMap_append.trans (List.append_nil _)
    · exact List.filterMap_append.trans (List.append_nil _)
    · exact (Desk.holder_of_assign ho).imp_right fun he => (hnext.trans he.symm).le
  | acquired socket mem o id hfresh hvacant heq =>
    have hnext : s.ledger.next = o := hfresh.symm
    refine heq ▸ h.quiet rfl rfl rfl (hnext.trans_le (Nat.le_succ _)) fun i o' ho => ?_
    exact (Desk.holder_of_assign ho).imp_right fun he => (hnext.trans he.symm).le
  | edited _ _ heq | idle heq => exact heq ▸ h
  | submitted req _ hheld _ _ heq =>
    refine heq ▸ h.quiet ?_ ?_ rfl le_rfl fun _ _ => .inl
    · exact List.filterMap_append.trans (List.append_nil _)
    · exact List.filterMap_append.trans (List.append_nil _)
  | missed cqe rest hf hp hat heq | exhausted cqe rest o hf hp hat hres heq =>
    exact heq ▸ h.dispatch hf hp rfl rfl rfl rfl rfl rfl rfl
  | entered cqe rest o call hf hp hat hres hcall heq =>
    exact heq ▸ h.dispatch hf hp rfl rfl rfl rfl rfl rfl rfl
  | rearmed cqe rest o type ret events req hend htype howner _ _ heq =>
    refine heq ▸ (h.ending hend).quiet ?_ ?_ rfl le_rfl fun _ _ => .inl
    · exact List.filterMap_append.trans (List.append_nil _)
    · exact List.filterMap_append.trans (List.append_nil _)
  | freed cqe rest o type ret events hend htype heq =>
    have hlt : o < s.pool.nextObj := (hd.sound.pool.live _ _ hend.holds).1
    exact heq ▸ (h.ending hend).release hlt hend.holds
      (fun j hj => hd.sound.pool.slot_unique hj hend.holds) rfl
  | completed i k req harmed heq =>
    exact heq ▸ h.quiet rfl rfl (List.take_append_of_le_length hd.passed_le) le_rfl fun _ _ => .inl

end Ledger

namespace IOUring

variable {s s' : IOUring} {a : Action}

theorem initial_once (queueSize mapped : Nat) (memory : Nat → Memory.Byte) :
    (initial queueSize mapped memory).ledger.Once where
  queue := rfl
  gone _ h := absurd h List.not_mem_nil
  nodup := List.nodup_nil

theorem once_reaches {queueSize mapped : Nat} {memory : Nat → Memory.Byte}
    (hr : Transition.Reaches IOUring.step Unnested (initial queueSize mapped memory) s) :
    Dispatching s ∧ s.ledger.Once := by
  refine hr.invariant (I := fun s => Dispatching s ∧ s.ledger.Once) (fun t a t' hp hg hs => ?_)
    ⟨initial_dispatching queueSize mapped memory, initial_once queueSize mapped memory⟩
  obtain ⟨ht, hd⟩ := hp.1.step hg hs
  exact ⟨hd, hp.2.tracked hp.1 ht⟩

/-- Without a poll in a callback the entries are dispatched in the order of the queue,
each once, the head counts those that are done with, and no item is freed twice. -/
theorem dispatched_once {queueSize mapped : Nat} {memory : Nat → Memory.Byte}
    (hr : Transition.Reaches IOUring.step Unnested (initial queueSize mapped memory) s) :
    s.dispatched = s.posted.take (s.cqHead + s.frames.length) ∧
      s.cqHead + s.frames.length ≤ s.posted.length ∧ s.frames.length ≤ 1 ∧ s.released.Nodup ∧
        ∀ frame ∈ s.frames, s.pool.at? frame.id = some frame.workItem := by
  have h := once_reaches hr
  refine ⟨h.2.queue, h.1.passed_le, ?_, h.2.nodup, fun frame hm => ?_⟩
  · obtain hf | ⟨frame, cqe, rest, hf, _⟩ := h.1.frames
    · exact hf ▸ Nat.zero_le _
    · exact hf ▸ le_rfl
  · obtain hf | ⟨frame', cqe, rest, hf, _, hrun⟩ := h.1.frames
    · rw [hf] at hm
      exact absurd hm List.not_mem_nil
    · rw [hf] at hm
      cases List.mem_singleton.mp hm
      exact hrun.holds

private def poster : Socket := ⟨.ipv4Tcp, 0, .unicastClientSocket, 3⟩

private def taken (res : Int) : Outcome := ⟨res, 0, default, fun _ => none⟩

theorem dispatched_once_send : ∃ s : IOUring, s.dispatched.length = 1 ∧
    s.dispatched = s.posted.take (s.cqHead + s.frames.length) ∧ s.released.Nodup := by
  obtain ⟨s, hr, hlen⟩ := Transition.reaches_of_leads IOUring.step Unnested
    (fun s => s.dispatched.length = 1)
    [.send poster ⟨[65], by decide⟩ 7 default, .complete 0 (taken 1), .pollCompletionQueues,
      .callbackReturns .none]
    (initial 256 0 fun _ => 0) (by decide +kernel)
  obtain ⟨hqueue, _, _, hnodup, _⟩ := dispatched_once hr
  exact ⟨s, hlen, hqueue, hnodup⟩

/-- A poll dispatches the entry at the head and no other. -/
theorem dispatched_of_poll (h : Sound s) {cqe : Completion} {rest : List Completion}
    (hpending : s.pending = cqe :: rest) (hs : s.pollCompletionQueues = .ok s') :
    s'.dispatched = s.dispatched ++ [cqe] := by
  have hone : ∀ (found : Option Nat) (events : List Event),
      events.filterMap Event.completion = [] →
      (s.trace ++ [Event.dispatched cqe found] ++ events).filterMap Event.completion =
        s.dispatched ++ [cqe] := by
    intro found events hnone
    rw [List.filterMap_append, List.filterMap_append, hnone, List.append_nil]
    rfl
  obtain ⟨_, hpoll⟩ := pollCompletionQueues_ok hs
  cases hpoll with
  | idle hp => rw [hpending] at hp; cases hp
  | missed c r hp _ heq =>
    cases hpending.symm.trans hp
    exact heq ▸ List.filterMap_append
  | exhausted c r o hp _ _ heq =>
    cases hpending.symm.trans hp
    exact heq ▸ List.filterMap_append
  | entered c r o call hp _ _ _ heq =>
    cases hpending.symm.trans hp
    exact heq ▸ hone (some o) [.called o call] rfl
  | returned c r o ret recycle hp _ _ _ hafter =>
    cases hpending.symm.trans hp
    obtain ⟨buffers, hst, _⟩ := settled_of_returned h.sq hafter
    cases hst with
    | rearmed item sqe _ _ heq => exact heq ▸ hone (some o) [.submitted _] rfl
    | freed o' pool _ _ _ heq => exact heq ▸ hone (some o) [.released o'] rfl

/-- A poll in a callback dispatches the entry that the callback was called for. -/
theorem nested_poll_repeats {queueSize mapped : Nat} {memory : Nat → Memory.Byte}
    (hr : Transition.Reaches IOUring.step Unnested (initial queueSize mapped memory) s)
    (hf : s.frames ≠ []) (hs : s.pollCompletionQueues = .ok s') :
    ∃ before cqe, s.dispatched = before ++ [cqe] ∧ s'.dispatched = before ++ [cqe, cqe] := by
  obtain ⟨hd, honce⟩ := once_reaches hr
  obtain hnil | ⟨frame, cqe, rest, hone, hpending, _⟩ := hd.frames
  · exact absurd hnil hf
  · have hq : s.dispatched = s.posted.take s.cqHead ++ [cqe] := by
      rw [← take_succ_of_pending hpending]
      simpa only [ledger, hone, List.length_singleton, dispatched] using honce.queue
    refine ⟨s.posted.take s.cqHead, cqe, hq, ?_⟩
    rw [dispatched_of_poll hd.sound hpending hs, hq, List.append_assoc]
    rfl

/-- The callback of a send polls: its entry is dispatched twice, and the second
release of the item fails an assertion. -/
theorem nested_poll_frees_twice : ∃ s,
    Transition.Reaches IOUring.step Transition.Free (initial 256 0 fun _ => 0) s ∧
      s.posted.length = 1 ∧ s.dispatched.length = 2 ∧ s.released = [0] ∧
        (s.callbackReturns .none).map (fun _ => ()) = .error .assertFailed :=
  Transition.reaches_of_leads IOUring.step Transition.Free
    (fun s => s.posted.length = 1 ∧ s.dispatched.length = 2 ∧ s.released = [0] ∧
      (s.callbackReturns .none).map (fun _ => ()) = .error .assertFailed)
    [.send poster ⟨[65], by decide⟩ 7 default, .complete 0 (taken 1), .pollCompletionQueues,
      .pollCompletionQueues, .callbackReturns .none]
    (initial 256 0 fun _ => 0) (by decide +kernel)

end IOUring

end Iuring
