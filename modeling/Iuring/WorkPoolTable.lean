import Iuring.WorkPoolMap

namespace Iuring

open Lib Lib.Registry

namespace WorkPool

variable {pool pool' : WorkPool} {id o : Nat} {socket : Socket} {descr : String}
  {mem : Uninitialized}

/-- Where a free id is at hand, the table keeps its length. -/
theorem internalAlloc_length_eq (h : pool.internalAllocWorkItem socket descr mem = (o, pool')) :
    pool'.workItems.length = pool.workItems.length + if pool.freeIds = [] then 1 else 0 := by
  rw [internalAllocWorkItem] at h
  split at h
  · rename_i hnil
    cases h
    rw [if_pos hnil, List.length_append, List.length_singleton]
  · rename_i top rest hcons
    cases h
    rw [if_neg (hcons ▸ List.cons_ne_nil top rest), List.length_set]
    rfl

theorem allocForSubmit_length_eq {set : WorkItem → Result WorkItem}
    (h : pool.allocForSubmit socket descr mem set = .ok (o, pool')) :
    pool'.workItems.length = pool.workItems.length + if pool.freeIds = [] then 1 else 0 := by
  obtain ⟨pool₁, item, halloc, _, rfl⟩ := allocForSubmit_eq_ok h
  have hlength := internalAlloc_length_eq halloc
  exact hlength

theorem WellFormed.mem_freeIds_iff (hw : pool.WellFormed) :
    id ∈ pool.freeIds ↔ id < pool.workItems.length ∧ pool.at? id = none := by
  rw [hw.mem_freeIds, at?]
  cases hslot : pool.workItems[id]? with
  | none => simpa using List.getElem?_eq_none_iff.mp hslot
  | some slot => simp [(List.getElem?_eq_some_iff.mp hslot).1]

/-- Every slot of the table is that of a live item or that of a free id. -/
theorem WellFormed.length_eq (hw : pool.WellFormed) {ids : List Nat} (hids : ids.Nodup)
    (hlive : ∀ id, id ∈ ids ↔ ∃ o, pool.at? id = some o) :
    pool.workItems.length = ids.length + pool.freeIds.length := by
  have hslots : ids.Perm
      ((List.range pool.workItems.length).filter fun id => (pool.at? id).isSome) := by
    apply (List.perm_ext_iff_of_nodup hids (List.nodup_range.filter _)).mpr
    intro id
    rw [hlive, List.mem_filter, List.mem_range, Option.isSome_iff_exists]
    exact ⟨fun ⟨o, ho⟩ => ⟨lt_length_of_at? ho, o, ho⟩, And.right⟩
  have hfree : pool.freeIds.Perm
      ((List.range pool.workItems.length).filter fun id => !(pool.at? id).isSome) := by
    apply (List.perm_ext_iff_of_nodup hw.freeIds_nodup (List.nodup_range.filter _)).mpr
    intro id
    rw [hw.mem_freeIds_iff, List.mem_filter, List.mem_range]
    simp
  rw [hslots.length_eq, hfree.length_eq, ← List.length_eq_length_filter_add, List.length_range]

/-- The element that both lookups read, behind the assertion that they begin with. -/
def indexed (id : Nat) (pool : WorkPool) : Result (Option Nat) := do
  assert (id ≤ pool.workItems.length)
  match pool.workItems[id]? with
  | none => .error .outOfBounds
  | some slot => return slot

theorem getWorkItem_eq_indexed (id : Nat) (pool : WorkPool) :
    pool.getWorkItem id = do
      match ← pool.indexed id with
      | none => return none
      | some o =>
        assert ((pool.objs o).isFree = false)
        return some o := by
  rw [getWorkItem, indexed, bind_assoc]
  congr 1
  funext _
  cases pool.workItems[id]? with
  | none => rfl
  | some slot => cases slot <;> rfl

theorem freeWorkItem_eq_indexed (id : Nat) (pool : WorkPool) :
    pool.freeWorkItem id = do
      match ← pool.indexed id with
      | none => .error .assertFailed
      | some o =>
        assert ((pool.objs o).isFree = false)
        let item ← (pool.objs o).markIsFree
        return { pool.setItem o item with
          workItems := pool.workItems.set id none
          freeIds := id :: pool.freeIds } := by
  rw [freeWorkItem, indexed, bind_assoc]
  congr 1
  funext _
  cases pool.workItems[id]? with
  | none => rfl
  | some slot => cases slot <;> rfl

/-- The assertion lets through the one id that is past the end. -/
theorem indexed_eq_error {f : Fault} : pool.indexed id = .error f ↔
    f = .assertFailed ∧ pool.workItems.length < id ∨
      f = .outOfBounds ∧ id = pool.workItems.length := by
  obtain hlt | rfl | hgt := Nat.lt_trichotomy id pool.workItems.length
  · simp [indexed, hlt.le, hlt.not_gt, hlt.ne, List.getElem?_eq_getElem hlt, assert, Checked.ensure,
      Checked.bind_ok, pure, Except.pure]
  · simp [indexed, assert, Checked.ensure, Checked.bind_ok, eq_comm]
  · simp [indexed, hgt, hgt.not_ge, hgt.ne', assert, Checked.ensure, bind, Except.bind, eq_comm]

section Lookup

variable {α : Type} {rest : Option Nat → Result α}

theorem lookup_in_bounds (h : id ≠ pool.workItems.length) :
    (pool.indexed id >>= rest) = .error .assertFailed ∨ id < pool.workItems.length := by
  obtain hlt | hgt := Nat.lt_or_gt_of_ne h
  · exact .inr hlt
  · exact .inl (Checked.bind_eq_error.mpr (.inl (indexed_eq_error.mpr (.inl ⟨rfl, hgt⟩))))

theorem lookup_outOfBounds_iff (hrest : ∀ slot, rest slot ≠ .error .outOfBounds) :
    (pool.indexed id >>= rest) = .error .outOfBounds ↔ id = pool.workItems.length := by
  rw [Checked.bind_eq_error, indexed_eq_error]
  constructor
  · rintro ((⟨hfault, _⟩ | ⟨_, hid⟩) | ⟨slot, _, hslot⟩)
    · cases hfault
    · exact hid
    · exact absurd hslot (hrest slot)
  · exact fun hid => .inl (.inr ⟨rfl, hid⟩)

end Lookup

theorem getWorkItem_outOfBounds_iff :
    pool.getWorkItem id = .error .outOfBounds ↔ id = pool.workItems.length := by
  rw [getWorkItem_eq_indexed]
  apply lookup_outOfBounds_iff
  intro slot h
  cases slot with
  | none => cases h
  | some o => simp [Checked.bind_eq_error, assert, pure, Except.pure] at h

theorem freeWorkItem_outOfBounds_iff :
    pool.freeWorkItem id = .error .outOfBounds ↔ id = pool.workItems.length := by
  rw [freeWorkItem_eq_indexed]
  apply lookup_outOfBounds_iff
  intro slot h
  cases slot with
  | none => cases h
  | some o =>
    simp [Checked.bind_eq_error, assert, WorkItem.markIsFree, pure, Except.pure] at h

/-- The lookups either stop at their assertion or index the table below its size. -/
structure LooksUpInBounds (pool : WorkPool) (id : Nat) : Prop where
  get : pool.getWorkItem id = .error .assertFailed ∨ id < pool.workItems.length
  free : pool.freeWorkItem id = .error .assertFailed ∨ id < pool.workItems.length
  inside : pool.getWorkItem id ≠ .error .outOfBounds ∧ pool.freeWorkItem id ≠ .error .outOfBounds

/-- They do, in every state of the pool, for all ids but the one just past the
end of the table, which its next growth gives out. -/
theorem looksUpInBounds_iff (pool : WorkPool) (id : Nat) :
    pool.LooksUpInBounds id ↔ id ≠ pool.workItems.length := by
  constructor
  · intro h hid
    exact h.inside.1 (getWorkItem_outOfBounds_iff.mpr hid)
  · intro hne
    refine ⟨?_, ?_, fun h => ?_, fun h => ?_⟩
    · rw [getWorkItem_eq_indexed]
      exact lookup_in_bounds hne
    · rw [freeWorkItem_eq_indexed]
      exact lookup_in_bounds hne
    · exact hne (getWorkItem_outOfBounds_iff.mp h)
    · exact hne (freeWorkItem_outOfBounds_iff.mp h)

/-- The pool without items lets the id 0 pass. -/
theorem empty_pool_reads_past_end : ∃ s, Transition.Reaches PoolSession.step Transition.Free
    .initial s ∧ ¬s.pool.LooksUpInBounds 0 := by
  refine ⟨.initial, .refl, fun h => ?_⟩
  exact absurd rfl h.inside.1

end WorkPool

namespace PoolSession

variable {s t : PoolSession} {call : PoolCall}

/-- What the length of the table says about the items allocated and freed so far. -/
structure GrowsWithNeed (s : PoolSession) : Prop where
  kept : ∀ t, Transition.Reaches step Transition.Free s t →
    s.pool.workItems.length ≤ t.pool.workItems.length
  peak : Peak s.history s.pool.workItems.length
  split : s.pool.workItems.length = (live s.history).length + s.pool.freeIds.length

theorem Agrees.mem_live_ids (h : Agrees s) (id : Nat) :
    id ∈ (live s.history).map Prod.fst ↔ ∃ o, s.pool.at? id = some o := by
  simp only [h.live_iff, Live, ← mem_live_iff, List.mem_map, Prod.exists, exists_and_right,
    exists_eq_right]

theorem Agrees.split (h : Agrees s) :
    s.pool.workItems.length = (live s.history).length + s.pool.freeIds.length := by
  rw [h.wellFormed.length_eq nodup_live h.mem_live_ids, List.length_map]

/-- Only an allocation without a free id makes the table longer. -/
theorem alloc_length_eq (hcall : call.allocates = true) (h : step call s = .ok t) :
    t.pool.workItems.length = s.pool.workItems.length + if s.pool.freeIds = [] then 1 else 0 := by
  cases call with
  | allocSendWorkItem | allocRecvWorkItem | allocAcceptWorkItem | allocConnectWorkItem
  | allocCloseWorkItem =>
    obtain ⟨⟨o, pool⟩, halloc, he⟩ := Checked.bind_eq_ok.mp h
    cases he
    exact WorkPool.allocForSubmit_length_eq halloc
  | getWorkItem | freeWorkItem | writeItem | submitReturns => cases hcall

theorem Agrees.length_le (h : Agrees s) (hs : PoolSession.step call s = .ok t) :
    s.pool.workItems.length ≤ t.pool.workItems.length := by
  cases step_ok h.wellFormed hs with
  | assigned o _ halloc _ => exact halloc.length
  | vacated id _ hfree _ => exact (WorkPool.freeWorkItem_length hfree).ge
  | kept _ _ _ hlength _ => exact hlength.ge

theorem Agrees.length_le_of_reaches (h : Agrees s)
    (hr : Transition.Reaches PoolSession.step Transition.Free s t) :
    s.pool.workItems.length ≤ t.pool.workItems.length := by
  have hinv := hr.invariant
    (I := fun u => Agrees u ∧ s.pool.workItems.length ≤ u.pool.workItems.length)
    (fun _ _ _ hu _ hs => ⟨hu.1.step hs, hu.2.trans (hu.1.length_le hs)⟩) ⟨h, Nat.le_refl _⟩
  exact hinv.2

/-- The table is as long as the most items that were live at one time. -/
theorem Agrees.peak_step (h : Agrees s) (hpeak : Peak s.history s.pool.workItems.length)
    (hs : PoolSession.step call s = .ok t) : Peak t.history t.pool.workItems.length := by
  have hbefore := h.split
  have hafter := (h.step hs).split
  cases step_ok h.wellFormed hs with
  | assigned o hcall halloc hhistory =>
    have hlength := alloc_length_eq hcall hs
    have hlive : (live t.history).length = (live s.history).length + 1 := by
      rw [hhistory]
      apply length_live_assigned
      rw [← h.table]
      exact halloc.fresh
    have hmax : max s.pool.workItems.length (live t.history).length = t.pool.workItems.length := by
      by_cases hnil : s.pool.freeIds = []
      · rw [if_pos hnil] at hlength
        rw [hnil, List.length_nil] at hbefore
        omega
      · rw [if_neg hnil] at hlength
        omega
    rw [← hmax, hhistory]
    exact hpeak.snoc
  | vacated id _ hfree hhistory =>
    have hlength := WorkPool.freeWorkItem_length hfree
    have hmax : max s.pool.workItems.length (live t.history).length = t.pool.workItems.length := by
      omega
    rw [← hmax, hhistory]
    exact hpeak.snoc
  | kept _ _ _ hlength hhistory =>
    rw [hlength, hhistory]
    exact hpeak

/-- For every order of calls, made from inside running submits or not. -/
theorem grows_with_need (hr : Transition.Reaches step Transition.Free initial s) :
    s.GrowsWithNeed := by
  have hinv := hr.invariant (I := fun u => Agrees u ∧ Peak u.history u.pool.workItems.length)
    (fun _ _ _ hu _ hs => ⟨hu.1.step hs, hu.1.peak_step hu.2 hs⟩) ⟨initial_agrees, peak_nil⟩
  exact ⟨fun _ ht => hinv.1.length_le_of_reaches ht, hinv.2, hinv.1.split⟩

private def tableSocket : Socket := ⟨.ipv4Tcp, 80, .unicastClientSocket, 42⟩

/-- Two items were live at one time, and a third takes the place of the first. -/
theorem grows_with_need_reused : ∃ s : PoolSession,
    s.pool.workItems = [some 2, some 1] ∧ Peak s.history 2 := by
  obtain ⟨s, hr, hitems⟩ := Transition.reaches_of_leads step Transition.Free
    (fun s => s.pool.workItems = [some 2, some 1])
    [.allocSendWorkItem tableSocket "write-from-socket" default,
      .allocRecvWorkItem tableSocket 7 "read-from-socket" default, .submitReturns,
      .freeWorkItem 0, .allocSendWorkItem tableSocket "write-from-socket" default]
    initial (by decide)
  have hpeak := (grows_with_need hr).peak
  rw [hitems] at hpeak
  exact ⟨s, hitems, hpeak⟩

end PoolSession

end Iuring
