import Iuring.SendPacket
import Mathlib.Data.List.Infix

namespace Iuring

open Lib Lib.Memory

namespace SendPacket

/-- A call that adds bytes to the packet. -/
inductive Piece
  | byte (b : Byte)
  | uint16 (v : BitVec 16)
  | uint32 (v : BitVec 32)
  | bytes (data : Span)
  | string (data : StdString)
  | cString (data : CString)
  | object (sizeofT : BitVec 64) (ctor : Nat → Option Byte)

/-- The method of the packet that each of the calls is. -/
def Piece.append : Piece → SendPacket → Result SendPacket
  | .byte b => appendByte b
  | .uint16 v => appendUint16 v
  | .uint32 v => appendUint32 v
  | .bytes data => SendPacket.append data.bytes
  | .string data => appendString data
  | .cString data => appendCString data
  | .object sizeofT ctor => emplaceBack sizeofT.toNat ctor

/-- What the call stands for: words go most significant byte first, and a
constructed object has zeros where its constructor wrote nothing. -/
def Piece.content : Piece → List Byte
  | .byte b => [b]
  | .uint16 v => [v.extractLsb' 8 8, v.extractLsb' 0 8]
  | .uint32 v =>
    [v.extractLsb' 24 8, v.extractLsb' 16 8, v.extractLsb' 8 8, v.extractLsb' 0 8]
  | .bytes data => data.bytes
  | .string data => data.bytes
  | .cString data => read data.mem 0 data.strlen
  | .object sizeofT ctor => (List.range sizeofT.toNat).map fun i => (ctor i).getD 0

inductive Write
  | append (piece : Piece)
  | reset
  | cleanProper

def Write.apply : Write → SendPacket → Result SendPacket
  | .append piece, p => piece.append p
  | .reset, p => .ok p.reset
  | .cleanProper, p => .ok p.cleanProper

/-- The positions of the buffer that the call stores to. -/
def Write.stores : Write → SendPacket → Nat → Prop
  | .append piece, p, i => p.size ≤ i ∧ i < p.size + piece.content.length
  | .reset, p, i => i < p.size
  | .cleanProper, _, i => i < capacity

/-- A packet as its constructor leaves it. -/
def fresh (mem : Nat → Byte) : SendPacket := ⟨0, mem⟩

def run (mem : Nat → Byte) (writes : List Write) : Result SendPacket :=
  writes.foldlM (fun p w => w.apply p) (fresh mem)

/-- The pieces written since the packet was last emptied. -/
def contents (writes : List Write) : List Byte :=
  writes.foldl (fun content w =>
    match w with
    | .append piece => content ++ piece.content
    | .reset | .cleanProper => []) []

/-- Every piece keeps the total below the size of the buffer. -/
def Fits (writes : List Write) : Prop := ∀ before ∈ writes.inits, (contents before).length < capacity

instance (writes : List Write) : Decidable (Fits writes) := inferInstanceAs (Decidable (∀ _ ∈ _, _))

/-- Some call since the construction has stored to the position. -/
def Written (mem : Nat → Byte) (writes : List Write) (i : Nat) : Prop :=
  ∃ before w after p, writes = before ++ w :: after ∧ run mem before = .ok p ∧ w.stores p i

variable {mem : Nat → Byte} {writes : List Write} {w : Write} {piece : Piece} {p q : SendPacket}
  {i : Nat}

theorem bytes16_ntohs (v : BitVec 16) :
    bytes16 (ntohs v) = [v.extractLsb' 8 8, v.extractLsb' 0 8] :=
  bytes16_append _ _

theorem bytes32_ntohl (v : BitVec 32) : bytes32 (ntohl v) =
    [v.extractLsb' 24 8, v.extractLsb' 16 8, v.extractLsb' 8 8, v.extractLsb' 0 8] := by
  rw [ntohl, bytes32_append, bytes16_ntohs, bytes16_ntohs]
  simp only [extractLsb'_extractLsb' v (show 0 + 8 ≤ 16 by decide),
    extractLsb'_extractLsb' v (show 8 + 8 ≤ 16 by decide)]
  rfl

/-- Every call that adds bytes is one append of its content. -/
theorem Piece.append_eq (piece : Piece) (p : SendPacket) :
    piece.append p = p.append piece.content := by
  cases piece with
  | byte | bytes | string | cString => rfl
  | uint16 v => rw [Piece.append, Piece.content, ← bytes16_ntohs, appendUint16]
  | uint32 v => rw [Piece.append, Piece.content, ← bytes32_ntohl, appendUint32]
  | object sizeofT ctor =>
    simp only [Piece.append, Piece.content, emplaceBack, SendPacket.append, overlay_fill,
      List.length_map, List.length_range]

theorem append_ok {data : List Byte} (h : p.append data = .ok q) :
    q = ⟨(p.size + data.length) % sizeModulus, write p.buf p.size data⟩ ∧ q.size < capacity := by
  obtain ⟨_, hlt, he⟩ := Checked.bind_eq_ok.mp h
  rw [assert_eq_ok] at hlt
  cases he
  exact ⟨rfl, hlt⟩

/-- A piece that fits is accepted and goes behind the others. -/
theorem append_of_fits {data : List Byte} (h : p.size + data.length < capacity) :
    p.append data = .ok ⟨p.size + data.length, write p.buf p.size data⟩ := by
  have hm : (p.size + data.length) % sizeModulus = p.size + data.length := by
    apply Nat.mod_eq_of_lt
    rw [capacity] at h
    rw [sizeModulus]
    omega
  simp only [append, hm, assert, Checked.ensure, if_pos h]
  rfl

theorem run_snoc : run mem (writes ++ [w]) = run mem writes >>= w.apply := by
  unfold run
  rw [List.foldlM_append]
  simp only [List.foldlM_cons, List.foldlM_nil, bind_pure]

theorem contents_append : contents (writes ++ [.append piece]) = contents writes ++ piece.content := by
  simp [contents]

theorem contents_reset : contents (writes ++ [.reset]) = [] := by simp [contents]

theorem contents_cleanProper : contents (writes ++ [.cleanProper]) = [] := by simp [contents]

theorem written_snoc : Written mem (writes ++ [w]) i →
    Written mem writes i ∨ ∃ p, run mem writes = .ok p ∧ w.stores p i := by
  rintro ⟨before, w', after, p, heq, hrun, hs⟩
  obtain rfl | ⟨after, last, rfl⟩ := List.eq_nil_or_concat after
  · obtain ⟨rfl, hw⟩ := List.append_inj' heq rfl
    cases hw
    exact .inr ⟨p, hrun, hs⟩
  · rw [List.concat_eq_append, ← List.cons_append, ← List.append_assoc] at heq
    obtain ⟨rfl, -⟩ := List.append_inj' heq rfl
    exact .inl ⟨before, w', after, p, rfl, hrun, hs⟩

theorem Fits.init (h : Fits (writes ++ [w])) : Fits writes :=
  fun before hb => h before ((List.mem_inits _ _).mpr
    (((List.mem_inits _ _).mp hb).trans (List.prefix_append writes [w])))

theorem Fits.last (h : Fits writes) : (contents writes).length < capacity :=
  h writes ((List.mem_inits _ _).mpr List.prefix_rfl)

/-- What the packet holds after the calls; behind its end, whatever was stored is gone. -/
structure Holding (mem : Nat → Byte) (writes : List Write) (p : SendPacket) : Prop where
  size : p.size = (contents writes).length
  data : p.data p.size = contents writes
  clear : ∀ i, Written mem writes i → p.size ≤ i → p.buf i = 0

theorem Holding.append (h : Holding mem writes p) (hrun : run mem writes = .ok p)
    (hfits : Fits (writes ++ [.append piece])) : ∃ q, piece.append p = .ok q ∧
      Holding mem (writes ++ [.append piece]) q := by
  have hlt : p.size + piece.content.length < capacity := by
    rw [h.size, ← List.length_append, ← contents_append]
    exact hfits.last
  refine ⟨_, (piece.append_eq p).trans (append_of_fits hlt), ?_, ?_, fun i hw hi => ?_⟩
  · rw [contents_append, List.length_append, h.size]
  · rw [SendPacket.data, read_write_append, contents_append, ← h.data, SendPacket.data]
  · have hi : p.size + piece.content.length ≤ i := hi
    obtain hw | ⟨q, hq, hs⟩ := written_snoc hw
    · exact (write_of_le p.buf hi).trans (h.clear i hw (by omega))
    · cases hrun.symm.trans hq
      exact absurd hs.2 (Nat.not_lt_of_le hi)

/-- A reset leaves no byte that was stored before. -/
theorem Holding.clear_reset (h : Holding mem writes p) (hi : Written mem writes i) :
    p.reset.buf i = 0 := by
  obtain hlt | hle := Nat.lt_or_ge i p.size
  · exact fill_of_mem p.buf (Nat.zero_le i) (by omega)
  · exact (fill_of_le p.buf (by omega)).trans (h.clear i hi hle)

theorem Holding.reset (h : Holding mem writes p) (hrun : run mem writes = .ok p) :
    Holding mem (writes ++ [.reset]) p.reset := by
  refine ⟨by rw [contents_reset]; rfl, by rw [contents_reset]; rfl, fun i hi _ => ?_⟩
  obtain hw | ⟨q, hq, hs⟩ := written_snoc hi
  · exact h.clear_reset hw
  · cases hrun.symm.trans hq
    exact fill_of_mem p.buf (Nat.zero_le i) ((Nat.zero_add p.size).symm ▸ hs)

/-- The memory behind the buffer is never reached by a packet that fits. -/
theorem Holding.cleanProper (h : Holding mem writes p) (hsize : p.size < capacity) :
    Holding mem (writes ++ [.cleanProper]) p.cleanProper := by
  refine ⟨by rw [contents_cleanProper]; rfl, by rw [contents_cleanProper]; rfl, fun i hi _ => ?_⟩
  obtain hlt | hle := Nat.lt_or_ge i capacity
  · exact fill_of_mem p.buf (Nat.zero_le i) (by omega)
  · obtain hw | ⟨q, hq, hs⟩ := written_snoc hi
    · exact (fill_of_le p.buf (by omega)).trans (h.clear i hw (by omega))
    · exact absurd hs (Nat.not_lt_of_le hle)

theorem holding_of_fits (hfits : Fits writes) :
    ∃ p, run mem writes = .ok p ∧ Holding mem writes p := by
  induction writes using List.reverseRecOn with
  | nil =>
    refine ⟨fresh mem, rfl, rfl, rfl, ?_⟩
    rintro i ⟨before, w, after, p, heq, _⟩
    simp at heq
  | append_singleton writes w ih =>
    obtain ⟨p, hrun, h⟩ := ih hfits.init
    cases w with
    | append piece =>
      obtain ⟨q, hq, hh⟩ := h.append hrun hfits
      exact ⟨q, by rw [run_snoc, hrun]; exact hq, hh⟩
    | reset => exact ⟨p.reset, by rw [run_snoc, hrun]; rfl, h.reset hrun⟩
    | cleanProper =>
      have hlt : p.size < capacity := h.size ▸ hfits.init.last
      exact ⟨p.cleanProper, by rw [run_snoc, hrun]; rfl, h.cleanProper hlt⟩

/-- As long as every piece fits, no assertion fails and the packet holds exactly
what was written since it was last emptied; a reset then clears every byte. -/
theorem holds_what_was_written (mem : Nat → Byte) (writes : List Write) (hfits : Fits writes) :
    ∃ p, run mem writes = .ok p ∧ p.size = (contents writes).length ∧
      p.data p.size = contents writes ∧ ∀ i, Written mem writes i → p.reset.buf i = 0 := by
  obtain ⟨p, hrun, h⟩ := holding_of_fits hfits
  exact ⟨p, hrun, h.size, h.data, fun i hi => h.clear_reset hi⟩

private def helloString : StdString := ⟨[104, 101, 108, 108, 111], by decide⟩

private def emptyString : StdString := ⟨[], by decide⟩

private def alphabet : List Write :=
  [.append (.string helloString), .append (.string emptyString), .append (.byte 97), .reset,
    .append (.byte 97), .append (.uint16 0x6263), .append (.uint32 0x64656667)]

/-- The sequence of the packet's own test. -/
theorem holds_what_was_written_alphabet : ∃ p, run (fun _ => 255) alphabet = .ok p ∧
    p.data p.size = [97, 98, 99, 100, 101, 102, 103] := by
  obtain ⟨p, hrun, _, hdata, _⟩ := holds_what_was_written (fun _ => 255) alphabet (by decide)
  exact ⟨p, hrun, hdata⟩

theorem Piece.length_content_lt (piece : Piece) : piece.content.length < sizeModulus := by
  cases piece with
  | byte | uint16 | uint32 => simp [Piece.content, sizeModulus]
  | bytes data => exact data.length_lt
  | string data => exact data.length_lt.trans (by decide)
  | cString data =>
    rw [Piece.content, length_read]
    exact (Nat.find_spec data.terminated).1
  | object sizeofT ctor =>
    rw [Piece.content, List.length_map, List.length_range]
    exact sizeofT.isLt

theorem zero_lt_capacity : 0 < capacity := by decide

theorem size_lt_of_run (hrun : run mem writes = .ok p) : p.size < capacity := by
  induction writes using List.reverseRecOn generalizing p with
  | nil =>
    cases hrun
    exact zero_lt_capacity
  | append_singleton writes w ih =>
    rw [run_snoc] at hrun
    obtain ⟨q, hq, hw⟩ := Checked.bind_eq_ok.mp hrun
    cases w with
    | append piece =>
      rw [Write.apply, piece.append_eq] at hw
      exact (append_ok hw).2
    | reset | cleanProper =>
      cases hw
      exact zero_lt_capacity

/-- The assertion passes exactly if the bytes fit behind those that are there. -/
def AcceptsWhatFits (p : SendPacket) (piece : Piece) : Prop :=
  (∃ q, piece.append p = .ok q) ↔ p.size + piece.content.length ≤ capacity

theorem append_succeeds_iff {data : List Byte} :
    (∃ q, p.append data = .ok q) ↔ (p.size + data.length) % sizeModulus < capacity := by
  constructor
  · rintro ⟨q, hq⟩
    obtain ⟨rfl, hlt⟩ := append_ok hq
    exact hlt
  · intro hlt
    exact ⟨_, Checked.bind_eq_ok.mpr ⟨(), (assert_eq_ok _ _).mpr hlt, rfl⟩⟩

theorem accepts_iff_of_size_lt (hsize : p.size < capacity) (piece : Piece) :
    AcceptsWhatFits p piece ↔
      p.size + piece.content.length ≠ capacity ∧ p.size + piece.content.length < sizeModulus := by
  have hlen := piece.length_content_lt
  have hcap : capacity < sizeModulus := by decide
  rw [AcceptsWhatFits]
  rw [piece.append_eq, append_succeeds_iff]
  obtain hlt | hle := Nat.lt_or_ge (p.size + piece.content.length) sizeModulus
  · rw [Nat.mod_eq_of_lt hlt]
    omega
  · have hwrap : (p.size + piece.content.length) % sizeModulus < p.size := by
      rw [Nat.mod_eq_sub_mod hle, Nat.mod_eq_of_lt (by omega)]
      omega
    omega

/-- The law fails for a piece that fills the buffer and for one whose length
makes the sum wrap around, whichever of the calls adds it. -/
theorem accepts_what_fits_iff (hrun : run mem writes = .ok p) (piece : Piece) :
    AcceptsWhatFits p piece ↔
      p.size + piece.content.length ≠ capacity ∧ p.size + piece.content.length < sizeModulus :=
  accepts_iff_of_size_lt (size_lt_of_run hrun) piece

theorem accepts_what_fits_iff_byte : AcceptsWhatFits (fresh fun _ => 0) (.byte 97) := by
  have hrun : run (fun _ => 0) [] = .ok (fresh fun _ => 0) := rfl
  exact (accepts_what_fits_iff hrun (.byte 97)).mpr (by decide)

private def block : Span := ⟨List.replicate 4096 0, by rw [List.length_replicate]; decide⟩

/-- A message that fills the buffer exactly is refused. -/
theorem full_buffer_refused : ¬AcceptsWhatFits (fresh fun _ => 0) (.bytes block) := by
  have hlen : (fresh fun _ => 0).size + (Piece.bytes block).content.length = capacity := by
    simp only [fresh, Piece.content, block, List.length_replicate, Nat.zero_add, capacity]
  rw [accepts_iff_of_size_lt zero_lt_capacity]
  exact fun h => h.1 hlen

end SendPacket

end Iuring
