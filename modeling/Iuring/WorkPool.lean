import Iuring.WorkItem
import Mathlib.Logic.Function.Basic

namespace Iuring

open Lib

/-- The table of live items, the stack of free ids with its top first, and
every WorkItem object made so far. An object is named by its serial number:
two shared pointers are equal when these are. -/
structure WorkPool where
  objs : Nat → WorkItem
  nextObj : Nat
  workItems : List (Option Nat)
  freeIds : List Nat
deriving Inhabited

namespace WorkPool

def empty : WorkPool := ⟨fun _ => default, 0, [], []⟩

def setItem (o : Nat) (item : WorkItem) (pool : WorkPool) : WorkPool :=
  { pool with objs := Function.update pool.objs o item }

def getWorkItem (id : Nat) (pool : WorkPool) : Result (Option Nat) := do
  assert (id ≤ pool.workItems.length)
  match pool.workItems[id]? with
  | none => .error .outOfBounds
  | some none => return none
  | some (some o) =>
    assert ((pool.objs o).isFree = false)
    return some o

def freeWorkItem (id : Nat) (pool : WorkPool) : Result WorkPool := do
  assert (id ≤ pool.workItems.length)
  match pool.workItems[id]? with
  | none => .error .outOfBounds
  | some none => .error .assertFailed
  | some (some o) =>
    assert ((pool.objs o).isFree = false)
    let item ← (pool.objs o).markIsFree
    return { pool.setItem o item with
      workItems := pool.workItems.set id none
      freeIds := id :: pool.freeIds }

def internalAllocWorkItem (socket : Socket) (descr : String) (mem : Uninitialized)
    (pool : WorkPool) : Nat × WorkPool :=
  let o := pool.nextObj
  match pool.freeIds with
  | [] =>
    let id := pool.workItems.length
    (o, { pool with
      objs := Function.update pool.objs o (.create id descr socket mem)
      nextObj := o + 1
      workItems := pool.workItems ++ [some o] })
  | id :: rest =>
    (o, { pool with
      objs := Function.update pool.objs o (.create id descr socket mem)
      nextObj := o + 1
      workItems := pool.workItems.set id (some o)
      freeIds := rest })

/-- The object whose item the table holds under the id. -/
def at? (pool : WorkPool) (id : Nat) : Option Nat := (pool.workItems[id]?).join

/-- The free ids are the indices of the null slots, each once, and a live slot
holds an item that carries the slot's own index and is in use. -/
structure WellFormed (pool : WorkPool) : Prop where
  freeIds_nodup : pool.freeIds.Nodup
  mem_freeIds : ∀ id, id ∈ pool.freeIds ↔ pool.workItems[id]? = some none
  live : ∀ id o, pool.at? id = some o →
    o < pool.nextObj ∧ (pool.objs o).id = id ∧ (pool.objs o).state = .inUse

theorem at?_eq_some {pool : WorkPool} {id : Nat} {o : Nat} :
    pool.at? id = some o ↔ pool.workItems[id]? = some (some o) := by
  simp [at?, Option.join_eq_some_iff]

theorem empty_wellFormed : WellFormed empty where
  freeIds_nodup := List.nodup_nil
  mem_freeIds id := by simp [empty]
  live id o h := by simp [at?, empty] at h

/-- An item sits in no slot but the one it names. -/
theorem WellFormed.slot_unique {pool : WorkPool} (h : pool.WellFormed) {i j : Nat} {o : Nat}
    (hi : pool.at? i = some o) (hj : pool.at? j = some o) : i = j :=
  (h.live i o hi).2.1.symm.trans (h.live j o hj).2.1

theorem getWorkItem_ok {pool : WorkPool} {id : Nat} {found : Option Nat}
    (h : pool.getWorkItem id = .ok found) : pool.at? id = found := by
  obtain ⟨_, _, h⟩ := Checked.bind_eq_ok.mp h
  split at h
  · cases h
  · rename_i hs
    cases h
    simp [at?, hs]
  · rename_i o hs
    obtain ⟨_, _, h⟩ := Checked.bind_eq_ok.mp h
    cases h
    exact at?_eq_some.mpr hs

theorem freeWorkItem_ok {pool pool' : WorkPool} {id : Nat} (h : pool.freeWorkItem id = .ok pool') :
    ∃ o, pool.at? id = some o ∧ pool' = { pool with
      objs := Function.update pool.objs o { pool.objs o with state := .free }
      workItems := pool.workItems.set id none
      freeIds := id :: pool.freeIds } := by
  obtain ⟨_, _, h⟩ := Checked.bind_eq_ok.mp h
  split at h
  · cases h
  · cases h
  · rename_i o hs
    obtain ⟨_, _, h⟩ := Checked.bind_eq_ok.mp h
    obtain ⟨item, hm, h⟩ := Checked.bind_eq_ok.mp h
    obtain ⟨_, _, hm⟩ := Checked.bind_eq_ok.mp hm
    cases hm
    cases h
    exact ⟨o, at?_eq_some.mpr hs, rfl⟩

theorem at?_set {pool : WorkPool} {i j : Nat} {x : Option Nat} (hi : i < pool.workItems.length) :
    ((pool.workItems.set i x)[j]?).join = if j = i then x else pool.at? j := by
  by_cases h : j = i
  · subst j
    simp [hi]
  · simp [at?, List.getElem?_set_ne (Ne.symm h), h]

theorem lt_length_of_at? {pool : WorkPool} {id : Nat} {o : Nat} (h : pool.at? id = some o) :
    id < pool.workItems.length := (List.getElem?_eq_some_iff.mp (at?_eq_some.mp h)).1

/-- Freeing empties the one slot and leaves the others as they were. -/
theorem freeWorkItem_at? {pool pool' : WorkPool} {id : Nat}
    (h : pool.freeWorkItem id = .ok pool') (j : Nat) :
    pool'.at? j = if j = id then none else pool.at? j := by
  obtain ⟨o, ho, rfl⟩ := freeWorkItem_ok h
  exact at?_set (lt_length_of_at? ho)

theorem freeWorkItem_wellFormed {pool pool' : WorkPool} {id : Nat} (hw : pool.WellFormed)
    (h : pool.freeWorkItem id = .ok pool') : pool'.WellFormed := by
  have hat := freeWorkItem_at? h
  obtain ⟨o, ho, rfl⟩ := freeWorkItem_ok h
  have hlt := lt_length_of_at? ho
  refine ⟨?_, ?_, ?_⟩
  · refine List.nodup_cons.mpr ⟨?_, hw.freeIds_nodup⟩
    rw [hw.mem_freeIds, at?_eq_some.mp ho]
    simp
  · intro j
    by_cases hj : j = id
    · subst j
      simp [hlt]
    · simp [hj, List.getElem?_set_ne (Ne.symm hj), hw.mem_freeIds j]
  · intro j o' ho'
    rw [hat] at ho'
    by_cases hj : j = id
    · simp [hj] at ho'
    · rw [if_neg hj] at ho'
      have hne : o' ≠ o := by
        rintro rfl
        exact hj (hw.slot_unique ho' ho)
      simpa [Function.update_of_ne hne] using hw.live j o' ho'

/-- The slot that an allocation fills was empty, and no other one changes. -/
theorem internalAlloc_spec {pool pool' : WorkPool} {socket : Socket} {descr : String}
    {mem : Uninitialized} {o : Nat} (hw : pool.WellFormed)
    (h : pool.internalAllocWorkItem socket descr mem = (o, pool')) :
    o = pool.nextObj ∧ pool'.nextObj = o + 1 ∧ ∃ id, pool.at? id = none ∧
      pool'.objs = Function.update pool.objs o (.create id descr socket mem) ∧
      ∀ j, pool'.at? j = if j = id then some o else pool.at? j := by
  rw [internalAllocWorkItem] at h
  split at h
  · cases h
    refine ⟨rfl, rfl, pool.workItems.length, by simp [at?], rfl, fun j => ?_⟩
    obtain hj | hj | hj := Nat.lt_trichotomy j pool.workItems.length
    · simp [at?, List.getElem?_append_left hj, hj.ne]
    · simp [at?, hj]
    · have hn : (pool.workItems ++ [some pool.nextObj])[j]? = none :=
        List.getElem?_eq_none (by rw [List.length_append, List.length_singleton]; omega)
      simp [at?, hn, hj.ne', hj.le]
  · rename_i id rest hf
    cases h
    have hs : pool.workItems[id]? = some none := (hw.mem_freeIds id).mp (by simp [hf])
    have hlt : id < pool.workItems.length := (List.getElem?_eq_some_iff.mp hs).1
    exact ⟨rfl, rfl, id, by simp [at?, hs], rfl, fun j => at?_set hlt⟩

/-- The objects made before are not touched. -/
theorem internalAlloc_objs {pool pool' : WorkPool} {socket : Socket} {descr : String}
    {mem : Uninitialized} {o o' : Nat} (hw : pool.WellFormed)
    (h : pool.internalAllocWorkItem socket descr mem = (o, pool')) (ho' : o' < pool.nextObj) :
    o' ≠ o ∧ pool'.objs o' = pool.objs o' := by
  obtain ⟨ho, _, _, _, hobjs, _⟩ := internalAlloc_spec hw h
  have hne : o' ≠ o := (ho ▸ ho').ne
  rw [hobjs]
  exact ⟨hne, Function.update_of_ne hne _ _⟩

theorem internalAlloc_wellFormed {pool pool' : WorkPool} {socket : Socket} {descr : String}
    {mem : Uninitialized} {o : Nat} (hw : pool.WellFormed)
    (h : pool.internalAllocWorkItem socket descr mem = (o, pool')) : pool'.WellFormed := by
  obtain ⟨ho, hn, id, hid, hobjs, hat⟩ := internalAlloc_spec hw h
  refine ⟨?_, ?_, ?_⟩
  · rw [internalAllocWorkItem] at h
    split at h
    · cases h
      exact hw.freeIds_nodup
    · rename_i top rest hf
      cases h
      have hnd := hw.freeIds_nodup
      rw [hf] at hnd
      exact (List.nodup_cons.mp hnd).2
  · rw [internalAllocWorkItem] at h
    split at h
    · rename_i hf
      cases h
      intro j
      have hj := hw.mem_freeIds j
      simp only [hf, List.not_mem_nil, false_iff] at hj ⊢
      obtain hlt | rfl | hgt := Nat.lt_trichotomy j pool.workItems.length
      · rwa [List.getElem?_append_left hlt]
      · simp
      · have hn : (pool.workItems ++ [some pool.nextObj])[j]? = none :=
          List.getElem?_eq_none (by rw [List.length_append, List.length_singleton]; omega)
        simp [hn]
    · rename_i top rest hf
      cases h
      intro j
      have hnd := hw.freeIds_nodup
      have hmem := hw.mem_freeIds j
      have hlt : top < pool.workItems.length :=
        (List.getElem?_eq_some_iff.mp ((hw.mem_freeIds top).mp (by simp [hf]))).1
      rw [hf] at hnd hmem
      by_cases hj : j = top
      · subst j
        simp [hlt, (List.nodup_cons.mp hnd).1]
      · simpa [hj, List.getElem?_set_ne (Ne.symm hj)] using hmem
  · intro j o' ho'
    rw [hat] at ho'
    by_cases hj : j = id
    · subst j
      rw [if_pos rfl] at ho'
      cases ho'
      exact ⟨by omega, by simp [hobjs, WorkItem.create], by simp [hobjs, WorkItem.create]⟩
    · rw [if_neg hj] at ho'
      have hl := hw.live j o' ho'
      have hne : o' ≠ o := by omega
      exact ⟨by omega, by simpa [hobjs, Function.update_of_ne hne] using hl.2⟩

theorem getWorkItem_eq {pool : WorkPool} {id : Nat} (hw : pool.WellFormed)
    (hid : id < pool.workItems.length) : pool.getWorkItem id = .ok (pool.at? id) := by
  have hle : id ≤ pool.workItems.length := hid.le
  cases hs : pool.workItems[id] with
  | none => simp [getWorkItem, at?, assert, Checked.ensure, hle, List.getElem?_eq_getElem hid, hs,
      Checked.bind_ok, pure, Except.pure]
  | some o =>
    have hat : pool.at? id = some o := by simp [at?, List.getElem?_eq_getElem hid, hs]
    have huse := (hw.live id o hat).2.2
    simp [getWorkItem, at?, assert, Checked.ensure, hle, List.getElem?_eq_getElem hid, hs,
      WorkItem.isFree, huse, Checked.bind_ok, pure, Except.pure]

/-- Freeing the item in an occupied slot passes every assertion. -/
theorem freeWorkItem_of_at? {pool : WorkPool} {id o : Nat} (hw : pool.WellFormed)
    (ho : pool.at? id = some o) : ∃ pool', pool.freeWorkItem id = .ok pool' := by
  have hle : id ≤ pool.workItems.length := (lt_length_of_at? ho).le
  have huse := (hw.live id o ho).2.2
  simp [freeWorkItem, at?_eq_some.mp ho, assert, Checked.ensure, hle, WorkItem.isFree,
    WorkItem.markIsFree, huse, pure, Except.pure, bind, Except.bind]

theorem freeWorkItem_length {pool pool' : WorkPool} {id : Nat}
    (h : pool.freeWorkItem id = .ok pool') : pool'.workItems.length = pool.workItems.length := by
  obtain ⟨o, _, rfl⟩ := freeWorkItem_ok h
  exact List.length_set

theorem internalAlloc_length {pool pool' : WorkPool} {o : Nat} {socket : Socket} {descr : String}
    {mem : Uninitialized} (h : pool.internalAllocWorkItem socket descr mem = (o, pool')) :
    pool.workItems.length ≤ pool'.workItems.length := by
  rw [internalAllocWorkItem] at h
  split at h <;> cases h
  · simp
  · simp

/-- Writing an object's other fields keeps the table in order. -/
theorem setItem_wellFormed {pool : WorkPool} {o : Nat} {item : WorkItem} (hw : pool.WellFormed)
    (hid : item.id = (pool.objs o).id) (hstate : item.state = (pool.objs o).state) :
    (pool.setItem o item).WellFormed := by
  refine ⟨hw.freeIds_nodup, hw.mem_freeIds, fun j o' ho' => ?_⟩
  have hl := hw.live j o' ho'
  by_cases h : o' = o
  · subst o'
    simpa [setItem, hid, hstate] using hl
  · simpa [setItem, Function.update_of_ne h] using hl

end WorkPool

end Iuring
