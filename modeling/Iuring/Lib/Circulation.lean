import Mathlib.Data.List.Perm.Basic
import Mathlib.Logic.Relation

namespace Iuring.Lib

/-- Things that wait in a queue or are out with someone who will put them back. -/
structure Circulation (α : Type) where
  queue : List α
  out : List α

namespace Circulation

variable {α : Type} {c c' : Circulation α} {xs : List α}

def all (c : Circulation α) : List α := c.queue ++ c.out

theorem length_queue_add_out (h : c.all.Perm xs) : c.queue.length + c.out.length = xs.length := by
  rw [← h.length_eq, all, List.length_append]

variable [DecidableEq α]

/-- The first in the queue goes out, or one that is out joins the queue at its end. -/
inductive Moves : Circulation α → Circulation α → Prop
  | taken (x : α) (queue out : List α) : Moves ⟨x :: queue, out⟩ ⟨queue, x :: out⟩
  | returned {x : α} (queue : List α) {out : List α} (hmem : x ∈ out) :
      Moves ⟨queue, out⟩ ⟨queue ++ [x], out.erase x⟩

/-- Nothing appears and nothing is lost. -/
theorem Moves.perm (h : Moves c c') : c'.all.Perm c.all := by
  cases h with
  | taken x queue out => exact List.perm_middle
  | returned queue hmem =>
    have hout : (_ :: List.erase _ _).Perm _ := (List.perm_cons_erase hmem).symm
    rw [all, all, List.append_assoc]
    exact hout.append_left queue

theorem perm_of_moves (h : Relation.ReflTransGen Moves c c') : c'.all.Perm c.all := by
  induction h with
  | refl => exact .refl _
  | tail _ hlast ih => exact hlast.perm.trans ih

theorem perm_of_moves_queued (h : Relation.ReflTransGen Moves ⟨xs, []⟩ c) : c.all.Perm xs := by
  have hall : all ⟨xs, []⟩ = xs := List.append_nil xs
  exact (perm_of_moves h).trans (.of_eq hall)

end Circulation

end Iuring.Lib
