import Mathlib.Data.List.Nodup
import Mathlib.Data.List.Perm.Subperm
import Mathlib.Logic.Function.Basic

namespace Iuring.Lib

/-- Owners hold numbered slots and have tickets out: those that wait for an
answer, and those answered and not yet settled, oldest first. -/
structure Desk (I O T : Type) where
  holder : I → Option O
  waiting : List T
  answers : List T

namespace Desk

variable {I O T : Type} {d : Desk I O T} {i : I} {o : O} {t : T} {rest : List T} {n : Nat}

def assign [DecidableEq I] (i : I) (o : O) (d : Desk I O T) : Desk I O T :=
  { d with holder := Function.update d.holder i (some o) }

def vacate [DecidableEq I] (i : I) (d : Desk I O T) : Desk I O T :=
  { d with holder := Function.update d.holder i none }

theorem holder_of_assign [DecidableEq I] {j : I} {o' : O} (h : (d.assign i o).holder j = some o') :
    d.holder j = some o' ∨ o' = o := by
  by_cases he : j = i
  · subst he
    simp only [assign, Function.update_self, Option.some.injEq] at h
    exact .inr h.symm
  · exact .inl ((Function.update_of_ne he _ _).symm.trans h)

theorem holder_of_vacate [DecidableEq I] {j : I} (h : (d.vacate i).holder j = some o) :
    j ≠ i ∧ d.holder j = some o := by
  by_cases he : j = i
  · subst he
    simp [vacate] at h
  · exact ⟨he, (Function.update_of_ne he _ _).symm.trans h⟩

/-- Assigning a vacant slot moves no holder. -/
theorem holder_assign [DecidableEq I] {j : I} {o' : O} (hv : d.holder i = none)
    (h : d.holder j = some o') : (d.assign i o).holder j = some o' := by
  have hne : j ≠ i := by
    rintro rfl
    rw [hv] at h
    cases h
  exact (Function.update_of_ne hne _ _).trans h

theorem holder_vacate [DecidableEq I] {j : I} {o' : O} (hi : d.holder i = some o)
    (h : d.holder j = some o') (hne : o' ≠ o) : (d.vacate i).holder j = some o' := by
  have hji : j ≠ i := by
    rintro rfl
    exact hne (Option.some.inj (h.symm.trans hi))
  exact (Function.update_of_ne hji _ _).trans h

def issue (t : T) (d : Desk I O T) : Desk I O T := { d with waiting := d.waiting ++ [t] }

/-- The n-th waiting ticket is answered; it may stay to be answered again. -/
def answer (n : Nat) (t : T) (stays : Bool) (d : Desk I O T) : Desk I O T :=
  { d with
    waiting := if stays then d.waiting else d.waiting.eraseIdx n
    answers := d.answers ++ [t] }

def settle (d : Desk I O T) : Desk I O T := { d with answers := d.answers.tail }

def outstanding (d : Desk I O T) : List T := d.waiting ++ d.answers

theorem outstanding_issue : (d.issue t).outstanding.Perm (t :: d.outstanding) := by
  simp only [outstanding, issue, List.append_assoc, List.singleton_append]
  exact List.perm_middle

theorem outstanding_answer_stays : (d.answer n t true).outstanding.Perm (t :: d.outstanding) := by
  simp only [outstanding, answer, if_true, ← List.append_assoc]
  exact List.perm_append_singleton _ _

theorem outstanding_answer (h : d.waiting[n]? = some t) :
    (d.answer n t false).outstanding.Perm d.outstanding := by
  obtain ⟨hn, rfl⟩ := List.getElem?_eq_some_iff.mp h
  have hp := List.getElem_cons_eraseIdx_perm hn
  simp only [outstanding, answer, Bool.false_eq_true, if_false, ← List.append_assoc]
  exact (List.perm_append_singleton _ _).trans (hp.append_right d.answers)

theorem outstanding_settle (h : d.answers = t :: rest) :
    d.outstanding.Perm (t :: d.settle.outstanding) := by
  simp only [outstanding, settle, h, List.tail_cons]
  exact List.perm_middle

/-- No step but an issue brings a new ticket out. -/
theorem mem_of_mem_answer {u : T} {stays : Bool} (h : d.waiting[n]? = some t)
    (hu : u ∈ (d.answer n t stays).outstanding) : u ∈ d.outstanding := by
  cases stays with
  | false => exact (outstanding_answer h).mem_iff.mp hu
  | true =>
    obtain rfl | hu := List.mem_cons.mp (outstanding_answer_stays.mem_iff.mp hu)
    · exact List.mem_append_left _ (List.mem_of_getElem? h)
    · exact hu

theorem mem_answer_of_mem {u : T} {stays : Bool} (h : d.waiting[n]? = some t)
    (hu : u ∈ d.outstanding) : u ∈ (d.answer n t stays).outstanding := by
  cases stays with
  | false => exact (outstanding_answer h).mem_iff.mpr hu
  | true => exact outstanding_answer_stays.mem_iff.mpr (List.mem_cons_of_mem t hu)

theorem mem_of_mem_settle {u : T} (hu : u ∈ d.settle.outstanding) : u ∈ d.outstanding := by
  obtain hu | hu := List.mem_append.mp hu
  · exact List.mem_append_left _ hu
  · exact List.mem_append_right _ (List.mem_of_mem_tail hu)

section Count

variable [DecidableEq O] (owner : T → O)

/-- How many tickets of this owner are out. -/
def count (o : O) (d : Desk I O T) : Nat := d.outstanding.countP (fun t => owner t = o)

theorem count_eq_zero : d.count owner o = 0 ↔ ∀ t ∈ d.outstanding, owner t ≠ o := by
  simp [count, List.countP_eq_zero]

theorem count_issue : (d.issue t).count owner o =
    d.count owner o + if owner t = o then 1 else 0 := by
  simp [count, outstanding_issue.countP_eq, List.countP_cons]

theorem count_answer_stays : (d.answer n t true).count owner o =
    d.count owner o + if owner t = o then 1 else 0 := by
  simp [count, outstanding_answer_stays.countP_eq, List.countP_cons]

theorem count_answer (h : d.waiting[n]? = some t) :
    (d.answer n t false).count owner o = d.count owner o :=
  (outstanding_answer h).countP_eq _

theorem count_settle (h : d.answers = t :: rest) : d.count owner o =
    d.settle.count owner o + if owner t = o then 1 else 0 := by
  simp [count, (outstanding_settle h).countP_eq, List.countP_cons]

end Count

section Matched

variable (id : T → I) (owner : T → O)

/-- The slot that an outstanding ticket names is held by the ticket's owner. -/
def Matched (d : Desk I O T) : Prop := ∀ t ∈ d.outstanding, d.holder (id t) = some (owner t)

variable {id owner}

theorem Matched.assign [DecidableEq I] (h : d.Matched id owner) (hi : d.holder i = none) :
    (d.assign i o).Matched id owner :=
  fun t ht => holder_assign hi (h t ht)

theorem Matched.issue (h : d.Matched id owner) (ht : d.holder (id t) = some (owner t)) :
    (d.issue t).Matched id owner := by
  intro u hu
  obtain rfl | hu := List.mem_cons.mp (outstanding_issue.mem_iff.mp hu)
  · exact ht
  · exact h u hu

/-- A slot may be given up once its holder has no ticket out any more. -/
theorem Matched.vacate [DecidableEq I] (h : d.Matched id owner) (hi : d.holder i = some o)
    (hn : ∀ t ∈ d.outstanding, owner t ≠ o) : (d.vacate i).Matched id owner :=
  fun t ht => holder_vacate hi (h t ht) (hn t ht)

theorem Matched.answer {stays : Bool} (h : d.Matched id owner) (hn : d.waiting[n]? = some t) :
    (d.answer n t stays).Matched id owner :=
  fun u hu => h u (mem_of_mem_answer hn hu)

theorem Matched.settle (h : d.Matched id owner) : d.settle.Matched id owner :=
  fun u hu => h u (mem_of_mem_settle hu)

end Matched

section Covered

variable (owner : T → O) (exempt : O → Prop)

/-- Every holder that is not exempt has a ticket out. -/
def Covered (d : Desk I O T) : Prop :=
  ∀ i o, d.holder i = some o → exempt o ∨ ∃ t ∈ d.outstanding, owner t = o

variable {owner exempt} {exempt' : O → Prop}

theorem Covered.mono (h : d.Covered owner exempt)
    (he : ∀ o, exempt o → exempt' o ∨ ∃ t ∈ d.outstanding, owner t = o) :
    d.Covered owner exempt' := by
  intro i o hi
  obtain hx | hx := h i o hi
  · exact he o hx
  · exact .inr hx

theorem Covered.assign [DecidableEq I] (h : d.Covered owner exempt)
    (ho : exempt o ∨ ∃ t ∈ d.outstanding, owner t = o) : (d.assign i o).Covered owner exempt := by
  intro j o' hj
  obtain hj | rfl := holder_of_assign hj
  · exact h j o' hj
  · exact ho

theorem Covered.vacate [DecidableEq I] (h : d.Covered owner exempt) :
    (d.vacate i).Covered owner exempt :=
  fun j o' hj => h j o' (holder_of_vacate hj).2

theorem Covered.issue (h : d.Covered owner exempt) : (d.issue t).Covered owner exempt := by
  intro j o' hj
  obtain hx | ⟨u, hu, he⟩ := h j o' hj
  · exact .inl hx
  · exact .inr ⟨u, outstanding_issue.mem_iff.mpr (List.mem_cons_of_mem t hu), he⟩

theorem Covered.answer {stays : Bool} (h : d.Covered owner exempt) (hn : d.waiting[n]? = some t) :
    (d.answer n t stays).Covered owner exempt := by
  intro j o' hj
  obtain hx | ⟨u, hu, he⟩ := h j o' hj
  · exact .inl hx
  · exact .inr ⟨u, mem_answer_of_mem hn hu, he⟩

/-- Settling a ticket needs a reason only for the ticket's own owner. -/
theorem Covered.settle (h : d.Covered owner exempt) (ha : d.answers = t :: rest)
    (ht : ∀ j, d.holder j = some (owner t) →
      exempt (owner t) ∨ ∃ u ∈ d.settle.outstanding, owner u = owner t) :
    d.settle.Covered owner exempt := by
  intro j o' hj
  obtain hx | ⟨u, hu, rfl⟩ := h j o' hj
  · exact .inl hx
  · obtain rfl | hu := List.mem_cons.mp ((outstanding_settle ha).mem_iff.mp hu)
    · exact ht j hj
    · exact .inr ⟨u, hu, rfl⟩

end Covered

section Single

variable (id : T → I) (owner : T → O)

/-- No owner has two tickets waiting, and one with a ticket waiting holds its slot. -/
structure Single (d : Desk I O T) : Prop where
  nodup : (d.waiting.map owner).Nodup
  holds : ∀ t ∈ d.waiting, d.holder (id t) = some (owner t)

variable {id owner}

theorem Single.assign [DecidableEq I] (h : d.Single id owner) (hi : d.holder i = none) :
    (d.assign i o).Single id owner :=
  ⟨h.nodup, fun t ht => holder_assign hi (h.holds t ht)⟩

theorem Single.issue (h : d.Single id owner) (ht : d.holder (id t) = some (owner t))
    (hn : ∀ u ∈ d.waiting, owner u ≠ owner t) : (d.issue t).Single id owner := by
  refine ⟨?_, fun u hu => ?_⟩
  · simp only [Desk.issue, List.map_append, List.map_singleton]
    refine List.nodup_append.mpr ⟨h.nodup, List.nodup_singleton _, ?_⟩
    rintro o ho o' hs rfl
    obtain ⟨u, hu, rfl⟩ := List.mem_map.mp ho
    exact hn u hu (List.mem_singleton.mp hs)
  · obtain hu | hu := List.mem_append.mp hu
    · exact h.holds u hu
    · rw [List.mem_singleton.mp hu]
      exact ht

theorem Single.vacate [DecidableEq I] (h : d.Single id owner) (hi : d.holder i = some o)
    (hn : ∀ t ∈ d.waiting, owner t ≠ o) : (d.vacate i).Single id owner :=
  ⟨h.nodup, fun t ht => holder_vacate hi (h.holds t ht) (hn t ht)⟩

theorem Single.answer {stays : Bool} (h : d.Single id owner) :
    (d.answer n t stays).Single id owner := by
  have hsub : (d.answer n t stays).waiting.Sublist d.waiting := by
    cases stays with
    | false => exact List.eraseIdx_sublist d.waiting n
    | true => exact List.Sublist.refl _
  exact ⟨h.nodup.sublist (hsub.map owner), fun u hu => h.holds u (hsub.subset hu)⟩

theorem Single.settle (h : d.Single id owner) : d.settle.Single id owner := ⟨h.nodup, h.holds⟩

/-- There are no more waiting tickets than holders. -/
theorem Single.length_le (h : d.Single id owner) {holders : List O}
    (hh : ∀ i o, d.holder i = some o → o ∈ holders) : d.waiting.length ≤ holders.length := by
  rw [← List.length_map (f := owner)]
  refine (List.subperm_of_subset h.nodup fun o ho => ?_).length_le
  obtain ⟨t, ht, rfl⟩ := List.mem_map.mp ho
  exact hh _ _ (h.holds t ht)

end Single

end Desk

end Iuring.Lib
