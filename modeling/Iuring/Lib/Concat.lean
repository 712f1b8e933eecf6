import Mathlib.Data.List.Perm.Basic

namespace Iuring.Lib.Concat

variable {α β : Type}

/-- An order of the images is the image of an order. -/
theorem exists_map_of_perm {f : α → β} {xs : List α} {ys : List β} (h : ys.Perm (xs.map f)) :
    ∃ zs : List α, ys = zs.map f ∧ zs.Perm xs := by
  have hc := congrFun (congrFun (List.eq_map_comp_perm f) ys) xs
  exact hc.mpr h

/-- The two words give the same concatenation in either order. -/
def Commutes (u v : List α) : Prop := u ++ v = v ++ u

theorem Commutes.symm {u v : List α} (h : Commutes u v) : Commutes v u := Eq.symm h

theorem flatten_of_perm {us vs : List (List α)} (h : us.Perm vs) (hc : us.Pairwise Commutes) :
    us.flatten = vs.flatten := by
  induction h with
  | nil => rfl
  | cons u _ ih => rw [List.flatten_cons, List.flatten_cons, ih (List.pairwise_cons.mp hc).2]
  | swap u v ws =>
    have huv : v ++ u = u ++ v := (List.pairwise_cons.mp hc).1 u (by simp)
    simp only [List.flatten_cons, ← List.append_assoc, huv]
  | trans hp _ ihp ihq =>
    exact (ihp hc).trans (ihq (hc.perm hp (fun h => h.symm)))

/-- Every order of the words gives one and the same concatenation exactly
when the words commute pairwise. -/
theorem flatten_perm_iff (ws : List (List α)) :
    (∀ vs : List (List α), vs.Perm ws → vs.flatten = ws.flatten) ↔ ws.Pairwise Commutes := by
  constructor
  · intro h
    rw [List.pairwise_iff_forall_sublist]
    intro u v hs
    obtain ⟨rest, hr⟩ := hs.exists_perm_append
    have huv := h _ hr.symm
    have hvu := h _ (((List.Perm.swap u v []).append_right rest).trans hr.symm)
    have he := huv.trans hvu.symm
    simp only [List.flatten_append, List.flatten_cons, List.flatten_nil, List.append_nil] at he
    exact List.append_cancel_right he
  · intro hc vs hp
    exact (flatten_of_perm hp.symm hc).symm

end Iuring.Lib.Concat
