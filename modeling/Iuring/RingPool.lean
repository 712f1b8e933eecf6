import Iuring.Items
import Iuring.WorkPoolMap

namespace Iuring

open Lib

open Lib.Registry (Current)

namespace WorkPool

variable {pool pool' : WorkPool} {history : List (Registry.Event Nat Nat)} {o : Nat}

/-- The pool is what a sequence of its own calls with this history leaves. -/
def Built (pool : WorkPool) (history : List (Registry.Event Nat Nat)) : Prop :=
  ∃ s : PoolSession, Transition.Reaches PoolSession.step Transition.Free .initial s ∧
    s.pool = pool ∧ s.history = history

theorem empty_built : Built .empty [] := ⟨.initial, .refl, rfl, rfl⟩

theorem Built.step {s s' : PoolSession} {call : PoolCall}
    (hr : Transition.Reaches PoolSession.step Transition.Free .initial s)
    (hs : PoolSession.step call s = .ok s') : s'.pool.Built s'.history :=
  ⟨s', hr.tail trivial hs, rfl, rfl⟩

theorem Built.alloc (h : pool.Built history) {socket : Socket} {descr : String}
    {mem : Uninitialized} (ha : pool.internalAllocWorkItem socket descr mem = (o, pool')) :
    pool'.Built (history ++ [.assigned (pool'.objs o).id o]) := by
  obtain ⟨s, hr, rfl, rfl⟩ := h
  have hsame : pool'.setItem o (pool'.objs o) = pool' := by
    simp only [setItem, Function.update_eq_self]
  have hs : PoolSession.step (.allocSendWorkItem socket descr mem) s =
      .ok (s.allocated false (o, pool'.setItem o (pool'.objs o))) := by
    simp only [PoolSession.step, allocSendWorkItem, allocForSubmit, ha]
    rfl
  have hbuilt := Built.step hr hs
  simp only [PoolSession.allocated, hsame] at hbuilt
  exact hbuilt

theorem Built.setItem (h : pool.Built history) {item : WorkItem}
    (hid : item.id = (pool.objs o).id) (hstate : item.state = (pool.objs o).state) :
    (pool.setItem o item).Built history := by
  obtain ⟨s, hr, rfl, rfl⟩ := h
  have hs : PoolSession.step (.writeItem o item) s =
      .ok { s with pool := s.pool.setItem o item } := by
    simp only [PoolSession.step, Checked.ensure, hid, hstate, and_self, if_true]
    rfl
  exact Built.step hr hs

theorem Built.free (h : pool.Built history) {id : Nat} (hf : pool.freeWorkItem id = .ok pool') :
    pool'.Built (history ++ [.vacated id]) := by
  obtain ⟨s, hr, rfl, rfl⟩ := h
  obtain ⟨o, hat, _⟩ := freeWorkItem_ok hf
  -- an item in the slot was allocated, so its id may be named
  have hknows : s.knows id := by
    obtain ⟨before, after, heq, _⟩ := (PoolSession.initial_agrees.reaches hr).live_iff.mp hat
    exact List.mem_map.mpr ⟨.assigned id o, heq ▸ by simp, rfl⟩
  have hs : PoolSession.step (.freeWorkItem id) s =
      .ok { s with pool := pool', history := s.history ++ [.vacated id] } := by
    simp only [PoolSession.step, Checked.ensure, hknows, if_true, hf]
    rfl
  exact Built.step hr hs

end WorkPool

namespace IOUring

variable {s s' t : IOUring} {a : Action} {history : List (Registry.Event Nat Nat)}

/-- A release empties the slot of the item's id. -/
def vacates (s : IOUring) : Event → Option (Registry.Event Nat Nat)
  | .released o => some (.vacated (s.item o).id)
  | _ => none

/-- What the pool gave out and took back between two states: the items that are new, and the
releases that the trace shows. -/
def poolEvents (s t : IOUring) : List (Registry.Event Nat Nat) :=
  (List.range' s.pool.nextObj (t.pool.nextObj - s.pool.nextObj)).map
    (fun o => .assigned (t.item o).id o) ++ (t.trace.drop s.trace.length).filterMap s.vacates

theorem poolEvents_of_kept (es : List Event) (hobj : s'.pool.nextObj = s.pool.nextObj)
    (htrace : s'.trace = s.trace ++ es) : s.poolEvents s' = es.filterMap s.vacates := by
  rw [poolEvents, hobj, Nat.sub_self, htrace, List.drop_left]
  rfl

theorem poolEvents_of_new (es : List Event) (hobj : s'.pool.nextObj = s.pool.nextObj + 1)
    (htrace : s'.trace = s.trace ++ es) (hes : es.filterMap s.vacates = []) :
    s.poolEvents s' = [.assigned (s'.item s.pool.nextObj).id s.pool.nextObj] := by
  rw [poolEvents, hobj, Nat.add_sub_cancel_left, htrace, List.drop_left, hes]
  rfl

theorem built_of_settled {frame : Frame} {ret : ReceivePostAction} (es : List Event)
    (hb : t.pool.Built history) (hw : t.pool.WellFormed)
    (hobj : t.pool.nextObj = s.pool.nextObj) (htrace : t.trace = s.trace ++ es)
    (hes : es.filterMap s.vacates = []) (hids : ∀ o, (t.item o).id = (s.item o).id)
    (hs : Settled frame ret t s') : s'.pool.Built (history ++ s.poolEvents s') := by
  cases hs with
  | rearmed item sqe _ hprep heq =>
    obtain ⟨hp, _⟩ := prepare_ok hprep
    have hsub : s'.trace = s.trace ++
        (es ++ [.submitted ⟨t.consumed.length, frame.workItem, sqe⟩]) := by
      rw [heq, ← List.append_assoc, ← htrace]
      rfl
    rw [poolEvents_of_kept _ (by rw [heq]; exact hobj) hsub, List.filterMap_append, hes, heq]
    exact (List.append_nil history).symm ▸ hb.setItem hp.same.id hp.same.state
  | freed o pool _ hat hfree heq =>
    have hrel : s'.trace = s.trace ++ (es ++ [.released o]) := by
      rw [heq, ← List.append_assoc, ← htrace]
      rfl
    have hnext : pool.nextObj = t.pool.nextObj := by
      obtain ⟨_, _, hpool⟩ := WorkPool.freeWorkItem_ok hfree
      rw [hpool]
    have hid : (s.item o).id = frame.id := (hids o).symm.trans (hw.live _ _ hat).2.1
    rw [poolEvents_of_kept _ (by rw [heq]; exact hnext.trans hobj) hrel, List.filterMap_append, hes,
      heq]
    simp only [List.nil_append, List.filterMap_cons, vacates, List.filterMap_nil, hid]
    exact hb.free hfree

theorem leaveCallback_built (h : s.pool.Built history) (frame : Frame) (frames : List Frame) :
    (s.leaveCallback frame frames).pool.Built history := by
  rw [leaveCallback]
  cases frame.type with
  | sendStreamData | sendWorkpacket => exact h.setItem rfl rfl
  | recv | unknown | accept | connect | close => exact h

/-- A step of the ring touches the pool only through the calls of the pool, and these are
the ones that the events of the step name. -/
theorem Sound.built (h : Sound s) (hb : s.pool.Built history) (hs : Stepped s s' a) :
    s'.pool.Built (history ++ s.poolEvents s') := by
  cases hs with
  | opened socket descr mem o pool item₀ item sqe _ halloc hsame hprep heq =>
    obtain ⟨hp, _⟩ := prepare_ok hprep
    have hsame := hsame.trans hp.same
    obtain ⟨rfl, hnext, _⟩ := WorkPool.internalAlloc_spec h.pool halloc
    have htrace : s'.trace = s.trace ++ [.submitted ⟨s.consumed.length, s.pool.nextObj, sqe⟩] :=
      heq ▸ rfl
    rw [poolEvents_of_new _ (by rw [heq]; exact hnext) htrace rfl, heq, item_arm, if_pos rfl,
      hsame.id]
    exact (hb.alloc halloc).setItem hsame.id hsame.state
  | acquired socket mem o pool halloc heq =>
    obtain ⟨rfl, hnext, _⟩ := WorkPool.internalAlloc_spec h.pool halloc
    rw [poolEvents_of_new [] (by rw [heq]; exact hnext) (by rw [heq, List.append_nil]) rfl,
      heq]
    exact hb.alloc halloc
  | edited o packet _ _ _ heq =>
    rw [poolEvents_of_kept [] (by rw [heq]; rfl) (by rw [heq, List.append_nil]; rfl),
      List.filterMap_nil, List.append_nil, heq]
    exact hb.setItem rfl rfl
  | submitted o item₀ item sqe _ _ hsame _ hprep heq =>
    obtain ⟨hp, _⟩ := prepare_ok hprep
    have hsame := hsame.trans hp.same
    have htrace : s'.trace = s.trace ++ [.submitted ⟨s.consumed.length, o, sqe⟩] := heq ▸ rfl
    rw [poolEvents_of_kept _ (by rw [heq]; rfl) htrace, heq]
    exact (List.append_nil history).symm ▸ hb.setItem hsame.id hsame.state
  | polled _ hpoll =>
    cases hpoll with
    | idle _ heq =>
      rw [poolEvents_of_kept [] (by rw [heq]) (by rw [heq, List.append_nil]),
        List.filterMap_nil, List.append_nil, heq]
      exact hb
    | missed cqe _ _ _ heq =>
      rw [poolEvents_of_kept [.dispatched cqe none] (by rw [heq]; rfl) (by rw [heq]; rfl), heq]
      exact (List.append_nil history).symm ▸ hb
    | exhausted cqe _ o _ _ _ heq =>
      rw [poolEvents_of_kept [.dispatched cqe (some o)] (by rw [heq]; rfl)
        (by rw [heq]; rfl), heq]
      exact (List.append_nil history).symm ▸ hb
    | entered cqe _ o call _ _ _ _ heq =>
      rw [poolEvents_of_kept [.dispatched cqe (some o), .called o call] (by rw [heq]; rfl)
        (by rw [heq]; exact List.append_assoc _ _ _), heq]
      exact (List.append_nil history).symm ▸ hb
    | returned cqe rest o ret recycle _ _ _ _ hafter =>
      obtain ⟨buffers, hst, _⟩ := settled_of_returned h.sq hafter
      exact built_of_settled (t := { s.emit (.dispatched cqe (some o)) with buffers := buffers })
        [.dispatched cqe (some o)] hb h.pool rfl rfl rfl (fun _ => rfl) hst
  | returned ret frame frames hframes hafter =>
    have hl := h.leaveCallback hframes
    have hst := afterHandler_ok hl.sq hafter
    have htrace : (s.leaveCallback frame frames).trace = s.trace ++ [] := by
      rw [List.append_nil, IOUring.leaveCallback]
      cases frame.type <;> rfl
    refine built_of_settled [] (leaveCallback_built hb frame frames) hl.pool
      (leaveCallback_nextObj frame frames) htrace rfl (fun o => ?_) hst
    obtain hi | ⟨_, _, hi⟩ := item_leaveCallback (s := s) frame frames o
    · rw [hi]
    · rw [hi]
      rfl
  | completed i k req t _ _ hdeliver heq =>
    have hsame : s'.pool.Built history ∧ s'.pool.nextObj = s.pool.nextObj ∧ s'.trace = s.trace := by
      subst heq
      cases hdeliver with
      | nothing _ _ heq | buffer _ _ _ _ _ _ heq =>
        subst heq
        exact ⟨hb, rfl, rfl⟩
      | peer _ _ heq =>
        subst heq
        exact ⟨hb.setItem rfl rfl, rfl, rfl⟩
    obtain ⟨hpool, hobj, htrace⟩ := hsame
    rw [poolEvents_of_kept [] hobj (htrace.trans (List.append_nil _).symm),
      List.filterMap_nil, List.append_nil]
    exact hpool

/-- What the pool gave out and took back in the steps of a run, in their order. -/
def poolHistory : List Action → IOUring → List (Registry.Event Nat Nat) :=
  Transition.record step poolEvents

/-- In every run, the pool of the ring is the map of the items that the steps of the run
allocated and have not released, as a session of the pool alone with that history leaves it. -/
theorem pool_refines_map {queueSize mapped : Nat} {memory : Nat → Memory.Byte}
    {guard : IOUring → Action → Prop} {as : List Action}
    (hr : Transition.Runs IOUring.step guard as (initial queueSize mapped memory) s) :
    (∃ session : PoolSession,
      Transition.Reaches PoolSession.step Transition.Free .initial session ∧
        session.pool = s.pool ∧
          session.history = poolHistory as (initial queueSize mapped memory)) ∧
      ∀ id o, s.pool.at? id = some o ↔
        Current (poolHistory as (initial queueSize mapped memory)) id o := by
  have hinv := hr.invariant (I := fun as u => Sound u ∧
    Transition.Runs IOUring.step guard as (initial queueSize mapped memory) u ∧
      u.pool.Built (poolHistory as (initial queueSize mapped memory))) []
    (fun as u a v hu hg hs => ?_)
    ⟨initial_sound queueSize mapped memory, .nil, WorkPool.empty_built⟩
  · rw [List.nil_append] at hinv
    obtain ⟨session, hsession, hpool, hhistory⟩ := hinv.2.2
    refine ⟨⟨session, hsession, hpool, hhistory⟩, fun id o => ?_⟩
    rw [← hpool, ← hhistory]
    exact (PoolSession.initial_agrees.reaches hsession).live_iff
  · refine ⟨hu.1.step hs, hu.2.1.append (.single hg hs), ?_⟩
    rw [poolHistory, hu.2.1.record_append, Transition.record_single hs]
    exact hu.1.built hu.2.2 (step_ok hu.1.sq hs)

private def closer : Socket := ⟨.ipv4Tcp, 0, .unicastClientSocket, 3⟩

private def closedAndReused : List Action :=
  [.submitClose closer 7 default, .complete 0 ⟨0, 0, default, fun _ => none⟩,
    .pollCompletionQueues, .callbackReturns .none, .submitRecv closer 8 default]

/-- The slot of a close that was reported is taken by the next item. -/
theorem pool_refines_map_reused :
    Current (poolHistory closedAndReused (initial 256 0 fun _ => 0)) 0 1 := by
  obtain ⟨s, hr, hat⟩ := Transition.runs_of_leads IOUring.step Transition.Free
    (fun s => s.pool.at? 0 = some 1) closedAndReused (initial 256 0 fun _ => 0) (by decide +kernel)
  exact ((pool_refines_map hr).2 0 1).mp hat

end IOUring

end Iuring
