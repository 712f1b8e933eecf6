import Iuring.Lib.Registry
import Iuring.Lib.Transition
import Iuring.WorkPool

namespace Iuring

open Lib Lib.Registry

namespace WorkPool

/-- An alloc_*_work_item function up to the call of IOUringInterface::submit,
before which the submit overload sets fields of the item. -/
def allocForSubmit (socket : Socket) (descr : String) (mem : Uninitialized)
    (set : WorkItem → Result WorkItem) (pool : WorkPool) : Result (Nat × WorkPool) := do
  let (o, pool) := pool.internalAllocWorkItem socket descr mem
  let item ← set (pool.objs o)
  return (o, pool.setItem o item)

/-- A send item is not submitted by the function that allocates it. -/
def allocSendWorkItem (socket : Socket) (descr : String) (mem : Uninitialized) :
    WorkPool → Result (Nat × WorkPool) :=
  allocForSubmit socket descr mem .ok

def allocRecvWorkItem (socket : Socket) (callback : CallbackFn) (descr : String)
    (mem : Uninitialized) : WorkPool → Result (Nat × WorkPool) :=
  allocForSubmit socket descr mem (fun item => .ok (item.submitRecv callback))

def allocAcceptWorkItem (socket : Socket) (callback : CallbackFn) (descr : String)
    (mem : Uninitialized) : WorkPool → Result (Nat × WorkPool) :=
  allocForSubmit socket descr mem (fun item => .ok (item.submitAccept callback))

def allocConnectWorkItem (target : IPAddress) (socket : Socket) (callback : CallbackFn)
    (descr : String) (mem : Uninitialized) : WorkPool → Result (Nat × WorkPool) :=
  allocForSubmit socket descr mem (WorkItem.submitConnect target callback)

def allocCloseWorkItem (socket : Socket) (callback : CallbackFn) (descr : String)
    (mem : Uninitialized) : WorkPool → Result (Nat × WorkPool) :=
  allocForSubmit socket descr mem (fun item => .ok (item.submitClose callback))

end WorkPool

/-- A pool with the items whose submission is running, innermost first, and
what was allocated and freed so far. -/
structure PoolSession where
  pool : WorkPool
  running : List Nat
  history : List (Registry.Event Nat Nat)

/-- A call of the pool, an item written by someone who holds it, or the return
of the innermost submit, which ends the allocation that called it. Calls between
an allocation and the return of its submit are made from inside that submit. -/
inductive PoolCall
  | allocSendWorkItem (socket : Socket) (descr : String) (mem : Uninitialized)
  | allocRecvWorkItem (socket : Socket) (callback : CallbackFn) (descr : String)
      (mem : Uninitialized)
  | allocAcceptWorkItem (socket : Socket) (callback : CallbackFn) (descr : String)
      (mem : Uninitialized)
  | allocConnectWorkItem (target : IPAddress) (socket : Socket) (callback : CallbackFn)
      (descr : String) (mem : Uninitialized)
  | allocCloseWorkItem (socket : Socket) (callback : CallbackFn) (descr : String)
      (mem : Uninitialized)
  | getWorkItem (id : Nat)
  | freeWorkItem (id : Nat)
  | writeItem (o : Nat) (item : WorkItem)
  | submitReturns

namespace PoolSession

def initial : PoolSession := ⟨.empty, [], []⟩

def knows (s : PoolSession) (id : Nat) : Prop := id ∈ s.history.map Registry.Event.key

instance (s : PoolSession) (id : Nat) : Decidable (s.knows id) :=
  inferInstanceAs (Decidable (_ ∈ _))

def allocated (submits : Bool) (ret : Nat × WorkPool) (s : PoolSession) : PoolSession where
  pool := ret.2
  running := if submits then ret.1 :: s.running else s.running
  history := s.history ++ [.assigned (ret.2.objs ret.1).id ret.1]

def step : PoolCall → PoolSession → Result PoolSession
  | .allocSendWorkItem socket descr mem, s => do
    return s.allocated false (← s.pool.allocSendWorkItem socket descr mem)
  | .allocRecvWorkItem socket callback descr mem, s => do
    return s.allocated true (← s.pool.allocRecvWorkItem socket callback descr mem)
  | .allocAcceptWorkItem socket callback descr mem, s => do
    return s.allocated true (← s.pool.allocAcceptWorkItem socket callback descr mem)
  | .allocConnectWorkItem target socket callback descr mem, s => do
    return s.allocated true (← s.pool.allocConnectWorkItem target socket callback descr mem)
  | .allocCloseWorkItem socket callback descr mem, s => do
    return s.allocated true (← s.pool.allocCloseWorkItem socket callback descr mem)
  | .getWorkItem id, s => do
    Checked.ensure .notEnabled (s.knows id)
    let _ ← s.pool.getWorkItem id
    return s
  | .freeWorkItem id, s => do
    Checked.ensure .notEnabled (s.knows id)
    return { s with
      pool := ← s.pool.freeWorkItem id
      history := s.history ++ [.vacated id] }
  | .writeItem o item, s => do
    Checked.ensure .notEnabled (item.id = (s.pool.objs o).id ∧ item.state = (s.pool.objs o).state)
    return { s with pool := s.pool.setItem o item }
  | .submitReturns, s =>
    match s.running with
    | [] => .error .notEnabled
    | _ :: running => return { s with running := running }

end PoolSession

namespace WorkPool

variable {pool pool' : WorkPool} {id o : Nat}

/-- An allocation fills one empty slot with a new item, which names it. -/
structure Allocated (pool pool' : WorkPool) (o : Nat) : Prop where
  fresh : pool.at? (pool'.objs o).id = none
  wellFormed : pool'.WellFormed
  at? : ∀ j, pool'.at? j = if j = (pool'.objs o).id then some o else pool.at? j
  length : pool.workItems.length ≤ pool'.workItems.length

theorem allocForSubmit_eq_ok {socket : Socket} {descr : String} {mem : Uninitialized}
    {set : WorkItem → Result WorkItem}
    (h : pool.allocForSubmit socket descr mem set = .ok (o, pool')) : ∃ pool₁ item,
      pool.internalAllocWorkItem socket descr mem = (o, pool₁) ∧
        set (pool₁.objs o) = .ok item ∧ pool' = pool₁.setItem o item := by
  rw [allocForSubmit] at h
  generalize hp : pool.internalAllocWorkItem socket descr mem = p at h
  obtain ⟨item, hitem, he⟩ := Checked.bind_eq_ok.mp h
  cases he
  exact ⟨p.2, item, rfl, hitem, rfl⟩

theorem allocForSubmit_ok {socket : Socket} {descr : String} {mem : Uninitialized}
    {set : WorkItem → Result WorkItem} (hw : pool.WellFormed)
    (hset : ∀ item item', set item = .ok item' → item'.id = item.id ∧ item'.state = item.state)
    (h : pool.allocForSubmit socket descr mem set = .ok (o, pool')) : Allocated pool pool' o := by
  obtain ⟨pool₁, item, ha, hitem, rfl⟩ := allocForSubmit_eq_ok h
  obtain ⟨hid, hstate⟩ := hset _ _ hitem
  obtain ⟨_, _, id, hvacant, hobjs, hat⟩ := internalAlloc_spec hw ha
  have hkey : ((pool₁.setItem o item).objs o).id = id := by
    simp [setItem, hid, hobjs, WorkItem.create]
  have hlen := internalAlloc_length ha
  refine ⟨hkey ▸ hvacant, setItem_wellFormed (internalAlloc_wellFormed hw ha) hid hstate,
    fun j => ?_, hlen⟩
  rw [hkey]
  exact hat j

end WorkPool

namespace PoolCall

def allocates : PoolCall → Bool
  | .allocSendWorkItem .. | .allocRecvWorkItem .. | .allocAcceptWorkItem ..
  | .allocConnectWorkItem .. | .allocCloseWorkItem .. => true
  | .getWorkItem _ | .freeWorkItem _ | .writeItem _ _ | .submitReturns => false

def frees : PoolCall → Option Nat
  | .freeWorkItem id => some id
  | _ => none

end PoolCall

namespace PoolSession

variable {s s' : PoolSession} {call : PoolCall}

/-- Everything that a call of the pool can do to the table and the history. -/
inductive Called (s s' : PoolSession) (call : PoolCall) : Prop
  | assigned (o : Nat) (hcall : call.allocates = true) (halloc : s.pool.Allocated s'.pool o)
      (hhistory : s'.history = s.history ++ [.assigned (s'.pool.objs o).id o])
  | vacated (id : Nat) (hcall : call = .freeWorkItem id)
      (hfree : s.pool.freeWorkItem id = .ok s'.pool)
      (hhistory : s'.history = s.history ++ [.vacated id])
  | kept (hcall : call.allocates = false) (hwell : s'.pool.WellFormed)
      (hat : s'.pool.at? = s.pool.at?)
      (hlength : s'.pool.workItems.length = s.pool.workItems.length)
      (hhistory : s'.history = s.history)

theorem called_of_alloc {submits : Bool} {socket : Socket} {descr : String} {mem : Uninitialized}
    {set : WorkItem → Result WorkItem} (hw : s.pool.WellFormed) (hcall : call.allocates = true)
    (hset : ∀ item item', set item = .ok item' → item'.id = item.id ∧ item'.state = item.state)
    (h : (do return s.allocated submits (← s.pool.allocForSubmit socket descr mem set)) =
      (.ok s' : Result PoolSession)) : Called s s' call := by
  obtain ⟨⟨o, pool⟩, ha, he⟩ := Checked.bind_eq_ok.mp h
  cases he
  exact .assigned o hcall (WorkPool.allocForSubmit_ok hw hset ha) rfl

theorem step_ok (hw : s.pool.WellFormed) (h : step call s = .ok s') : Called s s' call := by
  cases call with
  | allocSendWorkItem socket descr mem =>
    have hset : ∀ item item', Except.ok item = (.ok item' : Result WorkItem) →
        item'.id = item.id ∧ item'.state = item.state := by
      rintro item _ ⟨⟩
      exact ⟨rfl, rfl⟩
    exact called_of_alloc hw rfl hset h
  | allocRecvWorkItem socket callback descr mem =>
    refine called_of_alloc hw rfl (fun item item' he => ?_) h
    cases he
    exact ⟨rfl, rfl⟩
  | allocAcceptWorkItem socket callback descr mem =>
    refine called_of_alloc hw rfl (fun item item' he => ?_) h
    cases he
    exact ⟨rfl, rfl⟩
  | allocCloseWorkItem socket callback descr mem =>
    refine called_of_alloc hw rfl (fun item item' he => ?_) h
    cases he
    exact ⟨rfl, rfl⟩
  | allocConnectWorkItem target socket callback descr mem =>
    refine called_of_alloc hw rfl (fun item item' he => ?_) h
    obtain ⟨_, _, h1⟩ := Checked.bind_eq_ok.mp he
    obtain ⟨_, _, h2⟩ := Checked.bind_eq_ok.mp h1
    obtain ⟨_, _, h3⟩ := Checked.bind_eq_ok.mp h2
    cases h3
    exact ⟨rfl, rfl⟩
  | getWorkItem id =>
    obtain ⟨_, _, h⟩ := Checked.bind_eq_ok.mp h
    obtain ⟨_, _, h⟩ := Checked.bind_eq_ok.mp h
    cases h
    exact .kept rfl hw rfl rfl rfl
  | freeWorkItem id =>
    obtain ⟨_, _, h⟩ := Checked.bind_eq_ok.mp h
    obtain ⟨pool, hf, h⟩ := Checked.bind_eq_ok.mp h
    cases h
    exact .vacated id rfl hf rfl
  | writeItem o item =>
    obtain ⟨_, hsame, h⟩ := Checked.bind_eq_ok.mp h
    rw [Checked.ensure_eq_ok] at hsame
    cases h
    exact .kept rfl (WorkPool.setItem_wellFormed hw hsame.1 hsame.2) rfl rfl rfl
  | submitReturns =>
    cases hrun : s.running with
    | nil => simp [step, hrun] at h
    | cons o running =>
      simp only [step, hrun, Checked.pure_eq_ok] at h
      subst h
      exact .kept rfl hw rfl rfl rfl

/-- The slots of the pool hold what the history says. -/
structure Agrees (s : PoolSession) : Prop where
  wellFormed : s.pool.WellFormed
  table : ∀ id, s.pool.at? id = table s.history id
  known : ∀ e ∈ s.history, e.key < s.pool.workItems.length

theorem initial_agrees : Agrees initial where
  wellFormed := WorkPool.empty_wellFormed
  table _ := rfl
  known := List.forall_mem_nil _

theorem Agrees.called (h : Agrees s) (hc : Called s s' call) : Agrees s' := by
  cases hc with
  | assigned o _ halloc hhistory =>
    have hslot := WorkPool.lt_length_of_at? ((halloc.at? _).trans (if_pos rfl))
    refine ⟨halloc.wellFormed, fun id => ?_, ?_⟩
    · rw [hhistory, table_snoc_apply, halloc.at?, h.table]
      rfl
    · rw [hhistory]
      refine List.forall_mem_append.mpr ⟨fun e he => (h.known e he).trans_le halloc.length, ?_⟩
      exact List.forall_mem_singleton.mpr hslot
  | vacated id _ hfree hhistory =>
    obtain ⟨o, ho, _⟩ := WorkPool.freeWorkItem_ok hfree
    refine ⟨WorkPool.freeWorkItem_wellFormed h.wellFormed hfree, fun j => ?_, ?_⟩
    · rw [hhistory, table_snoc_apply, WorkPool.freeWorkItem_at? hfree, h.table]
      rfl
    · rw [hhistory, WorkPool.freeWorkItem_length hfree]
      refine List.forall_mem_append.mpr ⟨h.known, ?_⟩
      exact List.forall_mem_singleton.mpr (WorkPool.lt_length_of_at? ho)
  | kept _ hwell hat hlength hhistory =>
    refine ⟨hwell, fun j => ?_, ?_⟩
    · rw [hat, hhistory, h.table]
    · rw [hlength, hhistory]
      exact h.known

theorem Agrees.step (h : Agrees s) (hs : PoolSession.step call s = .ok s') : Agrees s' :=
  h.called (step_ok h.wellFormed hs)

theorem Agrees.reaches (h : Agrees s)
    (hr : Transition.Reaches PoolSession.step Transition.Free s s') : Agrees s' :=
  hr.invariant (fun _ _ _ hp _ hs => hp.step hs) h

/-- The item was the last to be allocated under the id and has not been freed since. -/
def Live (s : PoolSession) (id o : Nat) : Prop := Current s.history id o

theorem Agrees.live_iff (h : Agrees s) {id o : Nat} : s.pool.at? id = some o ↔ s.Live id o := by
  rw [h.table, table_eq_some_iff]
  rfl

/-- The pool is the partial map of its live items, in what can be asked of it
and in what the next call can do. -/
structure RefinesMap (s : PoolSession) : Prop where
  get : ∀ id, s.knows id →
    ∃ found, s.pool.getWorkItem id = .ok found ∧ ∀ o, found = some o ↔ s.Live id o
  alloc : ∀ call s', call.allocates = true → step call s = .ok s' → ∃ id o,
    s'.history = s.history ++ [.assigned id o] ∧ (∀ o', ¬s.Live id o') ∧
      ∀ j, j ≠ id → ∀ o', s'.Live j o' ↔ s.Live j o'
  other : ∀ call s', call.allocates = false → step call s = .ok s' →
    ∀ j, call.frees ≠ some j → ∀ o', s'.Live j o' ↔ s.Live j o'
  freeIds : s.pool.freeIds.Nodup ∧ ∀ i, i ∈ s.pool.freeIds ↔ s.pool.workItems[i]? = some none
  slots : ∀ i o, s.pool.workItems[i]? = some (some o) →
    (s.pool.objs o).id = i ∧ (s.pool.objs o).isFree = false
  free : ∀ id o, s.Live id o → ∃ pool', s.pool.freeWorkItem id = .ok pool'

theorem Agrees.alloc (h : Agrees s) (hcall : call.allocates = true)
    (hs : PoolSession.step call s = .ok s') : ∃ id o,
      s'.history = s.history ++ [.assigned id o] ∧ (∀ o', ¬s.Live id o') ∧
        ∀ j, j ≠ id → ∀ o', s'.Live j o' ↔ s.Live j o' := by
  cases step_ok h.wellFormed hs with
  | assigned o _ halloc hhistory =>
    refine ⟨_, o, hhistory, fun o' ho' => ?_, fun j hj o' => ?_⟩
    · have hheld := h.live_iff.mpr ho'
      rw [halloc.fresh] at hheld
      cases hheld
    · rw [← h.live_iff, ← (h.step hs).live_iff, halloc.at?, if_neg hj]
  | vacated id hfree => exact absurd hcall (by simp [hfree, PoolCall.allocates])
  | kept hkept => exact absurd hcall (by simp [hkept])

theorem Agrees.other (h : Agrees s) (hcall : call.allocates = false)
    (hs : PoolSession.step call s = .ok s') {j : Nat} (hj : call.frees ≠ some j) (o' : Nat) :
    s'.Live j o' ↔ s.Live j o' := by
  rw [← h.live_iff, ← (h.step hs).live_iff]
  cases step_ok h.wellFormed hs with
  | assigned o halloc => exact absurd hcall (by simp [halloc])
  | vacated id hfree hpool =>
    have hne : j ≠ id := by
      rintro rfl
      exact hj (by rw [hfree]; rfl)
    rw [WorkPool.freeWorkItem_at? hpool, if_neg hne]
  | kept _ _ hat => rw [hat]

/-- For every order of calls, made from inside running submits or not. -/
theorem refines_map (hr : Transition.Reaches step Transition.Free initial s) : s.RefinesMap := by
  have h := initial_agrees.reaches hr
  refine ⟨fun id hid => ?_, fun _ _ hc hs => h.alloc hc hs, fun _ _ hc hs _ hj => h.other hc hs hj,
    ⟨h.wellFormed.freeIds_nodup, h.wellFormed.mem_freeIds⟩, fun i o ho => ?_, fun id o ho => ?_⟩
  · obtain ⟨e, he, rfl⟩ := List.mem_map.mp hid
    exact ⟨_, WorkPool.getWorkItem_eq h.wellFormed (h.known e he), fun o => h.live_iff⟩
  · obtain ⟨_, hid, hstate⟩ := h.wellFormed.live i o (WorkPool.at?_eq_some.mpr ho)
    exact ⟨hid, by simp [WorkItem.isFree, hstate]⟩
  · exact WorkPool.freeWorkItem_of_at? h.wellFormed (h.live_iff.mpr ho)

private def pooledSocket : Socket := ⟨.ipv4Tcp, 80, .unicastClientSocket, 42⟩

/-- The submit of an accept item frees that item and allocates a send item in its place. -/
theorem refines_map_reentrant : ∃ s : PoolSession,
    s.running = [0] ∧ s.Live 0 1 ∧ s.pool.getWorkItem 0 = .ok (some 1) := by
  obtain ⟨s, hr, hrun, hknows, htable⟩ := Transition.reaches_of_leads step Transition.Free
    (fun s => s.running = [0] ∧ s.knows 0 ∧ table s.history 0 = some 1)
    [.allocAcceptWorkItem pooledSocket 7 "test-accept" default, .freeWorkItem 0,
      .allocSendWorkItem pooledSocket "write-from-socket" default] initial (by decide)
  have hlive : s.Live 0 1 := table_eq_some_iff.mp htable
  obtain ⟨found, hget, hfound⟩ := (refines_map hr).get 0 hknows
  exact ⟨s, hrun, hlive, by rw [hget, (hfound 1).mpr hlive]⟩

end PoolSession

end Iuring
