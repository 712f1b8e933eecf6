import Mathlib.Data.Nat.Notation

namespace Iuring.Lib.Chain

variable {next : Nat → Option Nat} {bound off off' : Nat}

/-- Every link leads further on, and never past the bound. -/
def Forward (next : Nat → Option Nat) (bound : Nat) : Prop :=
  ∀ off off', next off = some off' → off < off' ∧ off' < bound

/-- The places that a walk along the links comes to. -/
def offsets (next : Nat → Option Nat) (bound : Nat) (forward : Forward next bound) (off : Nat) :
    List Nat :=
  match _hnext : next off with
  | none => [off]
  | some off' => off :: offsets next bound forward off'
termination_by bound - off
decreasing_by
  have hlink := forward off off' _hnext
  omega

theorem offsets_last (forward : Forward next bound) (hlast : next off = none) :
    offsets next bound forward off = [off] := by
  rw [offsets]
  split
  · rfl
  · rename_i hnext
    rw [hlast] at hnext
    cases hnext

theorem offsets_link (forward : Forward next bound) (hlink : next off = some off') :
    offsets next bound forward off = off :: offsets next bound forward off' := by
  rw [offsets]
  split
  · rename_i hnext
    rw [hlink] at hnext
    cases hnext
  · rename_i hnext
    rw [hlink] at hnext
    cases hnext
    rfl

end Iuring.Lib.Chain
