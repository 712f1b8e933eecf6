import Iuring.Lib.Checked
import Iuring.Lib.Memory
import Mathlib.Algebra.Group.Nat.Defs
import Mathlib.Data.List.TakeWhile

namespace Iuring

open Lib Lib.Memory

/-- Why a call does not return normally. The last case is an action that the
caller or the kernel cannot take in the current state. -/
inductive Fault
  | assertFailed
  | aborted
  | outOfBounds
  | notEnabled
deriving DecidableEq

abbrev Result (α : Type) := Except Fault α

def assert (p : Prop) [Decidable p] : Result Unit := Checked.ensure .assertFailed p

def abort {α : Type} : Result α := .error .aborted

@[simp] theorem assert_eq_ok (p : Prop) [Decidable p] (u : Unit) : assert p = .ok u ↔ p :=
  Checked.ensure_eq_ok _ p u

/-- A std::string; its length never exceeds max_size(). -/
structure StdString where
  bytes : List Byte
  length_lt : bytes.length < 2 ^ 63
deriving DecidableEq

def StdString.empty : StdString := ⟨[], Nat.two_pow_pos 63⟩

/-- What a C function finds behind c_str(): the bytes up to the first NUL. -/
def cStr (text : List Byte) : List Byte := text.takeWhile (fun c => c ≠ 0)

theorem cStr_eq_self {text : List Byte} (h : 0 ∉ text) : cStr text = text := by
  refine List.takeWhile_eq_self_iff.mpr fun c hc => decide_eq_true ?_
  rintro rfl
  exact h hc

end Iuring
