import Mathlib.Data.List.Range
import Mathlib.Data.Nat.ModEq
import Mathlib.Logic.Function.Basic

namespace Iuring.Lib.Window

variable {α : Type}

/-- The `n` cells of a circular array from the given head on, oldest first. -/
def window (cells : Nat → α) (cap head n : Nat) : List α :=
  (List.range n).map (fun k => cells ((head + k) % cap))

@[simp] theorem length_window (cells : Nat → α) (cap head n : Nat) :
    (window cells cap head n).length = n := by
  simp [window]

/-- Distinct offsets below the capacity name distinct cells. -/
theorem offset_injective {cap head i j : Nat} (hi : i < cap) (hj : j < cap)
    (h : (head + i) % cap = (head + j) % cap) : i = j := by
  have hm : i ≡ j [MOD cap] := Nat.ModEq.add_left_cancel' head h
  rwa [Nat.ModEq, Nat.mod_eq_of_lt hi, Nat.mod_eq_of_lt hj] at hm

theorem window_congr {cells cells' : Nat → α} {cap head n : Nat}
    (h : ∀ k < n, cells ((head + k) % cap) = cells' ((head + k) % cap)) :
    window cells cap head n = window cells' cap head n :=
  List.map_congr_left (fun k hk => h k (List.mem_range.mp hk))

/-- Filling the cell just past the window extends it at the back. -/
theorem window_push (cells : Nat → α) (cap head n : Nat) (hn : n < cap) (x : α) :
    window (Function.update cells ((head + n) % cap) x) cap head (n + 1) =
      window cells cap head n ++ [x] := by
  have hw : window (Function.update cells ((head + n) % cap) x) cap head n =
      window cells cap head n := by
    apply window_congr
    intro k hk
    have hne : (head + k) % cap ≠ (head + n) % cap :=
      fun he => hk.ne (offset_injective (hk.trans hn) hn he)
    exact Function.update_of_ne hne x cells
  rw [window] at hw ⊢
  rw [List.range_succ, List.map_append, hw]
  simp

theorem window_pop (cells : Nat → α) (cap head n : Nat) :
    window cells cap head (n + 1) = cells (head % cap) :: window cells cap (head + 1) n := by
  rw [window]
  rw [List.range_succ_eq_map, List.map_cons, List.map_map]
  congr 1
  apply List.map_congr_left
  intro k _
  simp only [Function.comp_apply, Nat.succ_eq_add_one, Nat.add_assoc, Nat.add_comm 1]

/-- A counter may wrap at any multiple of the capacity. -/
theorem window_mod (cells : Nat → α) {cap modulus : Nat} (hd : cap ∣ modulus) (head n : Nat) :
    window cells cap (head % modulus) n = window cells cap head n := by
  apply List.map_congr_left
  intro k _
  rw [← Nat.mod_add_mod (head % modulus), Nat.mod_mod_of_dvd _ hd, Nat.mod_add_mod]

end Iuring.Lib.Window
