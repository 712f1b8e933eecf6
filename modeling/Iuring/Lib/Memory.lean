import Mathlib.Data.List.Range

namespace Iuring.Lib.Memory

variable {α : Type}

/-- The cells of a block of memory, addressed from its first one. -/
def read (m : Nat → α) (off len : Nat) : List α := (List.range len).map (fun i => m (off + i))

def write (m : Nat → α) (off : Nat) (xs : List α) : Nat → α :=
  fun i => if off ≤ i then (xs[i - off]?).getD (m i) else m i

def fill (m : Nat → α) (off len : Nat) (x : α) : Nat → α :=
  fun i => if off ≤ i ∧ i < off + len then x else m i

/-- Overwrite only the cells for which the patch has a value. -/
def overlay (m : Nat → α) (off len : Nat) (patch : Nat → Option α) : Nat → α :=
  fun i => if off ≤ i ∧ i < off + len then (patch (i - off)).getD (m i) else m i

@[simp] theorem length_read (m : Nat → α) (off len : Nat) : (read m off len).length = len := by
  simp [read]

theorem read_write (m : Nat → α) (off : Nat) (xs : List α) :
    read (write m off xs) off xs.length = xs := by
  apply List.ext_getElem (length_read _ _ _)
  intro i hi hx
  simp [read, write, hx]

theorem write_of_lt (m : Nat → α) {off i : Nat} (xs : List α) (h : i < off) :
    write m off xs i = m i := by
  simp [write, Nat.not_le_of_lt h]

theorem write_of_le (m : Nat → α) {off i : Nat} {xs : List α} (h : off + xs.length ≤ i) :
    write m off xs i = m i := by
  have hpast : xs.length ≤ i - off := by omega
  simp [write, List.getElem?_eq_none hpast]

theorem read_add (m : Nat → α) (off a b : Nat) :
    read m off (a + b) = read m off a ++ read m (off + a) b := by
  simp [read, List.range_add, Nat.add_assoc]

/-- Writing behind the cells that were read adds to them. -/
theorem read_write_append (m : Nat → α) (off : Nat) (xs : List α) :
    read (write m off xs) 0 (off + xs.length) = read m 0 off ++ xs := by
  have hkept : read (write m off xs) 0 off = read m 0 off := by
    refine List.map_congr_left fun i hi => write_of_lt m xs ?_
    rw [Nat.zero_add]
    exact List.mem_range.mp hi
  rw [read_add, hkept, Nat.zero_add, read_write]

theorem overlay_fill (m : Nat → α) (off len : Nat) (x : α) (patch : Nat → Option α) :
    overlay (fill m off len x) off len patch =
      write m off ((List.range len).map fun i => (patch i).getD x) := by
  funext i
  by_cases hin : off ≤ i ∧ i < off + len
  · have hlt : i - off < len := by omega
    simp [overlay, fill, write, hin, hlt]
  · by_cases hle : off ≤ i
    · have hpast : off + ((List.range len).map fun i => (patch i).getD x).length ≤ i := by
        rw [List.length_map, List.length_range]
        omega
      rw [write_of_le m hpast]
      simp [overlay, fill, hin]
    · rw [write_of_lt m _ (Nat.lt_of_not_le hle)]
      simp [overlay, fill, hin]

theorem fill_of_mem (m : Nat → α) {off len i : Nat} {x : α} (h : off ≤ i) (h' : i < off + len) :
    fill m off len x i = x :=
  if_pos ⟨h, h'⟩

theorem fill_of_le (m : Nat → α) {off len i : Nat} {x : α} (h : off + len ≤ i) :
    fill m off len x i = m i :=
  if_neg fun hin => Nat.not_lt_of_le h hin.2

theorem read_fill (m : Nat → α) (off len : Nat) (x : α) :
    read (fill m off len x) off len = List.replicate len x := by
  apply List.ext_getElem (by simp)
  intro i hi _
  have hlt : i < len := by simpa using hi
  simp [read, fill, hlt]

/-- The cells from an address on hold the list. -/
def Holds (m : Nat → α) (off : Nat) (xs : List α) : Prop := read m off xs.length = xs

theorem holds_append (m : Nat → α) (off : Nat) (xs ys : List α) :
    Holds m off (xs ++ ys) ↔ Holds m off xs ∧ Holds m (off + xs.length) ys := by
  rw [Holds]
  rw [List.length_append, read_add]
  constructor
  · intro h
    exact List.append_inj h (length_read m off xs.length)
  · rintro ⟨hx, hy⟩
    rw [hx, hy]

theorem holds_write (m : Nat → α) (off : Nat) (xs : List α) : Holds (write m off xs) off xs :=
  read_write m off xs

/-- The two memories hold the same in the given cells. -/
def Agree (m m' : Nat → α) (off len : Nat) : Prop := ∀ i, off ≤ i → i < off + len → m i = m' i

variable {m m' : Nat → α} {off len : Nat}

theorem Agree.sub (h : Agree m m' off len) {off' len' : Nat} (hoff : off ≤ off')
    (hlen : off' + len' ≤ off + len) : Agree m m' off' len' :=
  fun i hi hi' => h i (hoff.trans hi) (hi'.trans_le hlen)

theorem Agree.read (h : Agree m m' off len) : Memory.read m off len = Memory.read m' off len := by
  refine List.map_congr_left fun i hi => h _ (Nat.le_add_right off i) ?_
  exact Nat.add_lt_add_left (List.mem_range.mp hi) off

/-- Writing behind the cells of a range leaves them as they are. -/
theorem agree_write_behind {pos : Nat} (h : off + len ≤ pos) (xs : List α) :
    Agree m (write m pos xs) off len :=
  fun _ _ hi => (write_of_lt m xs (hi.trans_le h)).symm

theorem agree_write_before {pos : Nat} {xs : List α} (h : pos + xs.length ≤ off) :
    Agree m (write m pos xs) off len :=
  fun _ hi _ => (write_of_le m (h.trans hi)).symm

theorem Holds.write_behind {xs : List α} {pos : Nat} (h : Holds m off xs)
    (hle : off + xs.length ≤ pos) (ys : List α) : Holds (write m pos ys) off xs :=
  (agree_write_behind hle ys).read.symm.trans h

abbrev Byte := BitVec 8

/-- Little-endian words of a little-endian host. -/
def load16 (m : Nat → Byte) (off : Nat) : BitVec 16 := m (off + 1) ++ m off

def load32 (m : Nat → Byte) (off : Nat) : BitVec 32 := load16 m (off + 2) ++ load16 m off

def load64 (m : Nat → Byte) (off : Nat) : BitVec 64 := load32 m (off + 4) ++ load32 m off

def load128 (m : Nat → Byte) (off : Nat) : BitVec 128 := load64 m (off + 8) ++ load64 m off

def bytes16 (v : BitVec 16) : List Byte := [v.extractLsb' 0 8, v.extractLsb' 8 8]

def bytes32 (v : BitVec 32) : List Byte := bytes16 (v.extractLsb' 0 16) ++ bytes16 (v.extractLsb' 16 16)

def bytes64 (v : BitVec 64) : List Byte := bytes32 (v.extractLsb' 0 32) ++ bytes32 (v.extractLsb' 32 32)

def bytes128 (v : BitVec 128) : List Byte :=
  bytes64 (v.extractLsb' 0 64) ++ bytes64 (v.extractLsb' 64 64)

theorem extractLsb'_extractLsb' {w off len' start len : Nat} (v : BitVec w)
    (h : start + len ≤ len') :
    (v.extractLsb' off len').extractLsb' start len = v.extractLsb' (off + start) len := by
  ext i hi
  have hin : start + i < len' := by omega
  simp only [BitVec.getElem_extractLsb', BitVec.getLsbD_extractLsb', hin, decide_true,
    Bool.true_and, Nat.add_assoc]

theorem bytes16_append (hi lo : Byte) : bytes16 (hi ++ lo) = [lo, hi] := by
  rw [bytes16, BitVec.extractLsb'_append_eq_right, BitVec.extractLsb'_append_eq_left]

theorem bytes32_append (hi lo : BitVec 16) : bytes32 (hi ++ lo) = bytes16 lo ++ bytes16 hi := by
  rw [bytes32, BitVec.extractLsb'_append_eq_right, BitVec.extractLsb'_append_eq_left]

section Words

variable {m m' : Nat → Byte} {off len : Nat}

theorem Holds.load16 {v : BitVec 16} (h : Holds m off (bytes16 v)) : load16 m off = v := by
  obtain ⟨hlo, hhi⟩ := List.cons_eq_cons.mp h
  rw [Memory.load16]
  rw [show m (off + 1) = v.extractLsb' 8 8 from (List.cons_eq_cons.mp hhi).1,
    show m off = v.extractLsb' 0 8 from hlo]
  exact BitVec.extractLsb'_append_extractLsb'

theorem Holds.load32 {v : BitVec 32} (h : Holds m off (bytes32 v)) : load32 m off = v := by
  obtain ⟨hlo, hhi⟩ := (holds_append m off _ _).mp h
  have hhi' : Holds m (off + 2) (bytes16 (v.extractLsb' 16 16)) := hhi
  rw [Memory.load32]
  rw [hlo.load16, hhi'.load16]
  exact BitVec.extractLsb'_append_extractLsb'

theorem Holds.load64 {v : BitVec 64} (h : Holds m off (bytes64 v)) : load64 m off = v := by
  obtain ⟨hlo, hhi⟩ := (holds_append m off _ _).mp h
  have hhi' : Holds m (off + 4) (bytes32 (v.extractLsb' 32 32)) := hhi
  rw [Memory.load64]
  rw [hlo.load32, hhi'.load32]
  exact BitVec.extractLsb'_append_extractLsb'

theorem Holds.load128 {v : BitVec 128} (h : Holds m off (bytes128 v)) : load128 m off = v := by
  obtain ⟨hlo, hhi⟩ := (holds_append m off _ _).mp h
  have hhi' : Holds m (off + 8) (bytes64 (v.extractLsb' 64 64)) := hhi
  rw [Memory.load128]
  rw [hlo.load64, hhi'.load64]
  exact BitVec.extractLsb'_append_extractLsb'

theorem Agree.load16 (h : Agree m m' off 2) : load16 m off = load16 m' off := by
  have hlo := h off (Nat.le_refl off) (by omega)
  have hhi := h (off + 1) (by omega) (by omega)
  rw [Memory.load16, Memory.load16, hlo, hhi]

theorem Agree.load32 (h : Agree m m' off 4) : load32 m off = load32 m' off := by
  have hlo : Agree m m' off 2 := h.sub (by omega) (by omega)
  have hhi : Agree m m' (off + 2) 2 := h.sub (by omega) (by omega)
  rw [Memory.load32, Memory.load32, hlo.load16, hhi.load16]

theorem Agree.load64 (h : Agree m m' off 8) : load64 m off = load64 m' off := by
  have hlo : Agree m m' off 4 := h.sub (by omega) (by omega)
  have hhi : Agree m m' (off + 4) 4 := h.sub (by omega) (by omega)
  rw [Memory.load64, Memory.load64, hlo.load32, hhi.load32]

theorem Agree.load128 (h : Agree m m' off 16) : load128 m off = load128 m' off := by
  have hlo : Agree m m' off 8 := h.sub (by omega) (by omega)
  have hhi : Agree m m' (off + 8) 8 := h.sub (by omega) (by omega)
  rw [Memory.load128, Memory.load128, hlo.load64, hhi.load64]

end Words

end Iuring.Lib.Memory
