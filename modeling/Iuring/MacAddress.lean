import Iuring.Lib.Hex
import Iuring.SendPacket

namespace Iuring

open Lib Lib.Memory Lib.Hex

@[ext] structure MacAddress where
  bytes : List Byte
  length_eq : bytes.length = 6
deriving DecidableEq

namespace MacAddress

/-- The arguments that sscanf assigns for `n` directives %02hhx with colons between. -/
def sscanf : Nat → List Byte → List Byte
  | 0, _ => []
  | n + 1, s =>
    match scan 2 s with
    | none => []
    | some (v, rest) =>
      BitVec.ofNat 8 v ::
        match rest with
        | [] => []
        | c :: rest => if c = chr ':' then sscanf n rest else []

/-- The bytes that are not assigned keep the zeros of their initializer. -/
def ofString (mac : StdString) : MacAddress where
  bytes := (List.range 6).map fun i => ((sscanf 6 (cStr mac.bytes))[i]?).getD 0
  length_eq := by rw [List.length_map, List.length_range]

def ofBytes (b0 b1 b2 b3 b4 b5 : Byte) : MacAddress := ⟨[b0, b1, b2, b3, b4, b5], rfl⟩

def toString (sep : Byte) (m : MacAddress) : StdString where
  bytes := List.intercalate [sep] (m.bytes.map pair)
  length_lt := by
    have hbound : 17 < 2 ^ 63 := by decide
    obtain ⟨bytes, hlen⟩ := m
    match bytes, hlen with
    | [_, _, _, _, _, _], _ => exact hbound

/-- Groups with colons between them. -/
def joined (groups : List (List Byte)) : List Byte := List.intercalate [chr ':'] groups

theorem joined_cons (g : List Byte) {groups : List (List Byte)} (h : groups ≠ []) :
    joined (g :: groups) = g ++ chr ':' :: joined groups := by
  rw [joined, List.intercalate_cons_of_ne_nil h, List.append_assoc]
  rfl

variable {groups : List (List Byte)}

theorem joined_ne_zero (h : ∀ g ∈ groups, Group g) : ∀ c ∈ joined groups, c ≠ 0 := by
  induction groups with
  | nil =>
    intro c hc
    cases hc
  | cons g groups ih =>
    have hg := (h g List.mem_cons_self).ne_zero
    have hgroups := ih fun g' hg' => h g' (List.mem_cons_of_mem g hg')
    by_cases hnil : groups = []
    · subst hnil
      rw [joined, List.intercalate_singleton]
      exact hg
    · intro c hc
      rw [joined_cons g hnil, List.mem_append, List.mem_cons] at hc
      obtain hc | rfl | hc := hc
      · exact hg c hc
      · decide
      · exact hgroups c hc

/-- Each directive takes one group, and the format's colon the one behind it. -/
theorem sscanf_joined (h : ∀ g ∈ groups, Group g) :
    sscanf groups.length (joined groups) = groups.map fun g => BitVec.ofNat 8 (value g) := by
  induction groups with
  | nil => rfl
  | cons g groups ih =>
    have hg := h g List.mem_cons_self
    have hgroups := ih fun g' hg' => h g' (List.mem_cons_of_mem g hg')
    by_cases hnil : groups = []
    · subst hnil
      have hscan : scan 2 (g ++ []) = some (value g, []) := hg.scan (by simp)
      rw [List.append_nil] at hscan
      rw [joined, List.intercalate_singleton, List.length_singleton, sscanf, hscan]
      rfl
    · have hcolon : isXDigit (chr ':') = false := by decide
      have hscan : scan 2 (g ++ chr ':' :: joined groups) =
          some (value g, chr ':' :: joined groups) := hg.scan (by simpa using hcolon)
      rw [joined_cons g hnil, List.length_cons, sscanf, hscan]
      simp only [if_true, hgroups, List.map_cons]

/-- A text of six groups of one or two digits. -/
structure Written (s : StdString) (groups : List (List Byte)) : Prop where
  six : groups.length = 6
  group : ∀ g ∈ groups, Group g
  bytes : s.bytes = joined groups

theorem Written.ofString {s : StdString} (h : Written s groups) :
    (ofString s).bytes = groups.map fun g => BitVec.ofNat 8 (value g) := by
  have hplain : 0 ∉ s.bytes := by
    rw [h.bytes]
    exact fun hzero => joined_ne_zero h.group 0 hzero rfl
  have hscan : sscanf 6 (cStr s.bytes) = groups.map fun g => BitVec.ofNat 8 (value g) := by
    rw [cStr_eq_self hplain, h.bytes, ← h.six]
    exact sscanf_joined h.group
  apply List.ext_getElem
  · rw [(MacAddress.ofString s).length_eq, List.length_map, h.six]
  · intro i hi hi'
    simp only [MacAddress.ofString, hscan, List.getElem_map, List.getElem_range,
      List.getElem?_eq_getElem hi', Option.getD_some]

theorem written_toString (m : MacAddress) : Written (m.toString (chr ':')) (m.bytes.map pair) where
  six := by rw [List.length_map, m.length_eq]
  group := by
    intro g hg
    obtain ⟨b, _, rfl⟩ := List.mem_map.mp hg
    exact group_pair b
  bytes := rfl

/-- Parsing undoes printing, and printing what was parsed gives the text back
with its letters lowered and its groups padded. -/
theorem text_round_trip :
    (∀ m : MacAddress, ofString (m.toString (chr ':')) = m) ∧
      ∀ s groups, Written s groups →
        ((ofString s).toString (chr ':')).bytes = joined (groups.map padded) := by
  constructor
  · intro m
    have hvalue : ∀ b ∈ m.bytes, BitVec.ofNat 8 (value (pair b)) = id b := by
      intro b _
      rw [value_pair, BitVec.ofNat_toNat, BitVec.setWidth_eq]
      rfl
    apply MacAddress.ext
    rw [(written_toString m).ofString, List.map_map]
    exact (List.map_congr_left hvalue).trans (List.map_id m.bytes)
  · intro s groups h
    have hbytes : ((ofString s).toString (chr ':')).bytes =
        joined ((groups.map fun g => BitVec.ofNat 8 (value g)).map pair) := by
      rw [← h.ofString]
      rfl
    rw [hbytes, List.map_map]
    exact congrArg joined (List.map_congr_left fun g hg => (h.group g hg).pair_value)

private def shortGroups : List (List Byte) :=
  [[chr '2'], [chr 'A', chr 'b'], [chr '0'], [chr '0', chr '0'], [chr 'f'], [chr '1', chr '0']]

private def shortText : StdString := ⟨joined shortGroups, by decide⟩

/-- The text 2:Ab:0:00:f:10 becomes 02:ab:00:00:0f:10. -/
theorem text_round_trip_short :
    ofString ((ofBytes 2 171 0 0 15 16).toString (chr ':')) = ofBytes 2 171 0 0 15 16 ∧
      ((ofString shortText).toString (chr ':')).bytes =
        joined [[chr '0', chr '2'], [chr 'a', chr 'b'], [chr '0', chr '0'], [chr '0', chr '0'],
          [chr '0', chr 'f'], [chr '1', chr '0']] := by
  have hgroups : ∀ g ∈ shortGroups, Group g := by
    simp only [shortGroups, List.mem_cons, List.not_mem_nil, or_false, forall_eq_or_imp, forall_eq]
    exact ⟨.one rfl, .two rfl rfl, .one rfl, .two rfl rfl, .one rfl, .two rfl rfl⟩
  exact ⟨text_round_trip.1 _, text_round_trip.2 shortText shortGroups ⟨rfl, hgroups, rfl⟩⟩

end MacAddress

end Iuring
