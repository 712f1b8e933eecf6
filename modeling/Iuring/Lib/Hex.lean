import Iuring.Lib.Memory

namespace Iuring.Lib.Hex

open Memory

def chr (c : Char) : Byte := BitVec.ofNat 8 c.toNat

def isXDigit (c : Byte) : Bool :=
  (chr '0' ≤ c && c ≤ chr '9') || (chr 'A' ≤ c && c ≤ chr 'F') || (chr 'a' ≤ c && c ≤ chr 'f')

def digitValue (c : Byte) : Nat :=
  if c ≤ chr '9' then c.toNat - 48 else if c ≤ chr 'F' then c.toNat - 55 else c.toNat - 87

def toLower (c : Byte) : Byte := if chr 'A' ≤ c ∧ c ≤ chr 'Z' then c + 32 else c

def lowerDigit (d : Nat) : Byte := BitVec.ofNat 8 (if d < 10 then 48 + d else 87 + d)

def value (digits : List Byte) : Nat := digits.foldl (fun acc c => 16 * acc + digitValue c) 0

/-- A byte as two lower-case digits. -/
def pair (b : Byte) : List Byte := [lowerDigit (b.toNat / 16), lowerDigit (b.toNat % 16)]

/-- The longest number of at most `width` digits in front, and what follows it. -/
def scan (width : Nat) (s : List Byte) : Option (Nat × List Byte) :=
  let digits := (s.take width).takeWhile isXDigit
  if digits = [] then none else some (value digits, s.drop digits.length)

/-- One or two digits, in either case. -/
inductive Group : List Byte → Prop
  | one {c : Byte} (hc : isXDigit c = true) : Group [c]
  | two {c d : Byte} (hc : isXDigit c = true) (hd : isXDigit d = true) : Group [c, d]

def padded (g : List Byte) : List Byte := List.leftpad 2 (chr '0') (g.map toLower)

variable {c : Byte} {g rest : List Byte} {d : Nat}

theorem digitValue_lt : isXDigit c = true → digitValue c < 16 := by
  decide +revert

theorem lowerDigit_digitValue : isXDigit c = true → lowerDigit (digitValue c) = toLower c := by
  decide +revert

theorem lowerDigit_spec : ∀ d < 16,
    isXDigit (lowerDigit d) = true ∧ digitValue (lowerDigit d) = d := by
  decide

theorem isXDigit_ne_zero : isXDigit c = true → c ≠ 0 := by
  decide +revert

theorem group_pair (b : Byte) : Group (pair b) :=
  .two (lowerDigit_spec _ (by omega)).1 (lowerDigit_spec _ (by omega)).1

theorem value_pair (b : Byte) : value (pair b) = b.toNat := by
  have hhigh := (lowerDigit_spec (b.toNat / 16) (by omega)).2
  have hlow := (lowerDigit_spec (b.toNat % 16) (by omega)).2
  simp only [value, pair, List.foldl_cons, List.foldl_nil, hhigh, hlow]
  omega

theorem Group.value_lt (h : Group g) : value g < 256 := by
  cases h with
  | one hc =>
    have hlt := digitValue_lt hc
    simp only [value, List.foldl_cons, List.foldl_nil]
    omega
  | two hc hd =>
    have hhigh := digitValue_lt hc
    have hlow := digitValue_lt hd
    simp only [value, List.foldl_cons, List.foldl_nil]
    omega

/-- Printing the value of a group pads it and lowers its letters. -/
theorem Group.pair_value (h : Group g) : pair (BitVec.ofNat 8 (value g)) = padded g := by
  have hvalue : (BitVec.ofNat 8 (value g)).toNat = value g := by
    rw [BitVec.toNat_ofNat, Nat.mod_eq_of_lt h.value_lt]
  rw [pair, hvalue]
  cases h with
  | @one c hc =>
    have hlt := digitValue_lt hc
    have heq : value [c] = digitValue c := by simp [value]
    rw [heq, Nat.div_eq_of_lt hlt, Nat.mod_eq_of_lt hlt, lowerDigit_digitValue hc]
    rfl
  | @two c d hc hd =>
    have hlt := digitValue_lt hd
    have heq : value [c, d] = 16 * digitValue c + digitValue d := by simp [value]
    have hhigh : value [c, d] / 16 = digitValue c := by omega
    have hlow : value [c, d] % 16 = digitValue d := by omega
    rw [hhigh, hlow, lowerDigit_digitValue hc, lowerDigit_digitValue hd]
    rfl

/-- The scan of a group stops at its end, if no digit follows. -/
theorem Group.scan (h : Group g) (hrest : ∀ c ∈ rest.head?, isXDigit c = false) :
    scan 2 (g ++ rest) = some (value g, rest) := by
  cases h with
  | one hc =>
    cases rest with
    | nil => simp [Hex.scan, hc]
    | cons d rest =>
      have hd := hrest d rfl
      simp [Hex.scan, hc, hd]
  | two hc hd => simp [Hex.scan, hc, hd]

theorem Group.ne_zero (h : Group g) : ∀ c ∈ g, c ≠ 0 := by
  cases h with
  | one hc => simpa using isXDigit_ne_zero hc
  | two hc hd => simpa using ⟨isXDigit_ne_zero hc, isXDigit_ne_zero hd⟩

end Iuring.Lib.Hex
