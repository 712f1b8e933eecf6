import Mathlib.Data.List.Induction
import Mathlib.Order.Bounds.Basic
import Mathlib.Order.MinMax
import Mathlib.Logic.Function.Basic

namespace Iuring.Lib.Registry

variable {I O : Type}

/-- What happens to the entries of a table. -/
inductive Event (I O : Type)
  | assigned (i : I) (o : O)
  | vacated (i : I)

namespace Event

def key : Event I O → I
  | .assigned i _ | .vacated i => i

def holder : Event I O → Option O
  | .assigned _ o => some o
  | .vacated _ => none

end Event

/-- The key was assigned to the holder and no later event names the key. -/
def Current (events : List (Event I O)) (i : I) (o : O) : Prop :=
  ∃ before after, events = before ++ .assigned i o :: after ∧ ∀ e ∈ after, e.key ≠ i

variable [DecidableEq I] {events : List (Event I O)} {e : Event I O} {i : I} {o : O}

/-- The partial map that a history leaves: the last event of a key decides. -/
def table (events : List (Event I O)) : I → Option O :=
  events.foldl (fun f e => Function.update f e.key e.holder) (fun _ => none)

theorem table_snoc : table (events ++ [e]) = Function.update (table events) e.key e.holder := by
  rw [table]
  rw [List.foldl_append]
  rfl

theorem table_snoc_apply :
    table (events ++ [e]) i = if i = e.key then e.holder else table events i := by
  rw [table_snoc, Function.update_apply]

theorem table_append_of_ne {more : List (Event I O)} (h : ∀ e ∈ more, e.key ≠ i) :
    table (events ++ more) i = table events i := by
  induction more using List.reverseRecOn with
  | nil => rw [List.append_nil]
  | append_singleton more e ih =>
    have hne : i ≠ e.key := (h e (by simp)).symm
    rw [← List.append_assoc, table_snoc_apply, if_neg hne]
    exact ih (fun e' he' => h e' (List.mem_append_left _ he'))

theorem table_eq_some_iff : table events i = some o ↔ Current events i o := by
  constructor
  · intro h
    induction events using List.reverseRecOn with
    | nil => cases h
    | append_singleton events e ih =>
      rw [table_snoc_apply] at h
      by_cases hi : i = e.key
      · rw [if_pos hi] at h
        cases e with
        | vacated j => cases h
        | assigned j o' =>
          cases h
          cases hi
          exact ⟨events, [], rfl, List.forall_mem_nil _⟩
      · rw [if_neg hi] at h
        obtain ⟨before, after, rfl, hafter⟩ := ih h
        refine ⟨before, after ++ [e], by simp, List.forall_mem_append.mpr ⟨hafter, ?_⟩⟩
        exact List.forall_mem_singleton.mpr (Ne.symm hi)
  · rintro ⟨before, after, rfl, hafter⟩
    rw [List.append_cons, table_append_of_ne hafter, table_snoc_apply]
    exact if_pos rfl

def Event.entry (e : Event I O) : List (I × O) := e.holder.toList.map fun o => (e.key, o)

/-- The entries that the history leaves in the table, the one assigned last first. -/
def live (events : List (Event I O)) : List (I × O) :=
  events.foldl (fun entries e => e.entry ++ entries.filter fun x => x.1 ≠ e.key) []

theorem live_snoc :
    live (events ++ [e]) = e.entry ++ (live events).filter fun x => x.1 ≠ e.key := by
  rw [live, List.foldl_append]
  rfl

theorem mem_live : (i, o) ∈ live events ↔ table events i = some o := by
  induction events using List.reverseRecOn with
  | nil => simp [live, table]
  | append_singleton events e ih =>
    rw [live_snoc, table_snoc_apply, List.mem_append, List.mem_filter, ih]
    by_cases hi : i = e.key
    · simp [Event.entry, hi]
    · simp [Event.entry, hi, Ne.symm hi]

/-- The entries in the table are those that are current. -/
theorem mem_live_iff : (i, o) ∈ live events ↔ Current events i o := mem_live.trans table_eq_some_iff

theorem nodup_live : ((live events).map Prod.fst).Nodup := by
  induction events using List.reverseRecOn with
  | nil => exact List.nodup_nil
  | append_singleton events e ih =>
    have hrest : (((live events).filter fun x => x.1 ≠ e.key).map Prod.fst).Nodup :=
      ih.sublist ((List.filter_sublist).map Prod.fst)
    rw [live_snoc, List.map_append, Event.entry]
    cases e with
    | vacated j => exact hrest
    | assigned j o =>
      refine List.nodup_cons.mpr ⟨fun hmem => ?_, hrest⟩
      obtain ⟨x, hx, hkey⟩ := List.mem_map.mp hmem
      have hne := (List.mem_filter.mp hx).2
      simp [Event.key, hkey] at hne

theorem length_live_assigned (h : table events i = none) :
    (live (events ++ [.assigned i o])).length = (live events).length + 1 := by
  have hkeep : (live events).filter (fun x => x.1 ≠ i) = live events := by
    apply List.filter_eq_self.mpr
    rintro ⟨j, o'⟩ hmem
    apply decide_eq_true
    rintro rfl
    rw [mem_live.mp hmem] at h
    cases h
  rw [live_snoc, show (Event.assigned i o).key = i from rfl, hkeep]
  rfl

/-- The most entries that were in the table at one time. -/
def Peak (events : List (Event I O)) (n : Nat) : Prop :=
  IsGreatest {k | ∃ before, before <+: events ∧ (live before).length = k} n

theorem peak_nil : Peak ([] : List (Event I O)) 0 := by
  refine ⟨⟨[], List.prefix_rfl, rfl⟩, ?_⟩
  rintro k ⟨before, hbefore, rfl⟩
  obtain rfl := List.prefix_nil.mp hbefore
  exact Nat.le_refl 0

theorem Peak.snoc {n : Nat} (h : Peak events n) :
    Peak (events ++ [e]) (max n (live (events ++ [e])).length) := by
  obtain ⟨⟨top, htop, rfl⟩, hle⟩ := h
  constructor
  · obtain hmax | hmax := max_choice (live top).length (live (events ++ [e])).length
    · rw [hmax]
      exact ⟨top, htop.trans (List.prefix_append events [e]), rfl⟩
    · rw [hmax]
      exact ⟨events ++ [e], List.prefix_rfl, rfl⟩
  · rintro k ⟨before, hbefore, rfl⟩
    obtain rfl | hbefore := List.prefix_concat_iff.mp hbefore
    · exact le_max_right _ _
    · exact (hle ⟨before, hbefore, rfl⟩).trans (le_max_left _ _)

end Iuring.Lib.Registry
