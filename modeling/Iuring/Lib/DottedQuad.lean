import Mathlib.Data.List.Basic
import Iuring.Lib.Hex

namespace Iuring.Lib.DottedQuad

open Memory
open Hex (chr)

def isDigit (c : Byte) : Bool := chr '0' ≤ c && c ≤ chr '9'

def digitValue (c : Byte) : Nat := c.toNat - 48

/-- A number in decimal, without leading zeros. -/
def decimal (n : Nat) : List Byte := (Nat.toDigits 10 n).map chr

/-- The octets in decimal with dots between them. -/
def text (octets : List Byte) : List Byte :=
  List.intercalate [chr '.'] (octets.map fun o => decimal o.toNat)

/-- What has been read of a text: the octets that a dot has ended, and the one being read. -/
structure Scan where
  ended : List Byte
  current : Option Byte
deriving DecidableEq

/-- No octet starts with a zero that another digit follows, or is above 255, and
there are no more than four. -/
def Scan.next (c : Byte) (s : Scan) : Option Scan :=
  match s.current with
  | none => if isDigit c then some ⟨s.ended, some (BitVec.ofNat 8 (digitValue c))⟩ else none
  | some o =>
    if isDigit c then
      if o = 0 ∨ 255 < 10 * o.toNat + digitValue c then none
      else some ⟨s.ended, some (BitVec.ofNat 8 (10 * o.toNat + digitValue c))⟩
    else if c = chr '.' ∧ s.ended.length < 3 then some ⟨s.ended ++ [o], none⟩
    else none

def Scan.octets (s : Scan) : Option (List Byte) :=
  match s.current with
  | none => none
  | some o => if s.ended.length = 3 then some (s.ended ++ [o]) else none

def parse (s : List Byte) : Option (List Byte) :=
  (s.foldlM (fun (scan : Scan) c => scan.next c) ⟨[], none⟩).bind Scan.octets

variable {c : Byte} {n d : Nat} {octets : List Byte} {s t : Scan}

theorem decimal_digit : isDigit c = true → decimal (digitValue c) = [c] := by
  decide +revert

theorem digitValue_lt : isDigit c = true → digitValue c < 10 := by
  decide +revert

theorem isDigit_digit : ∀ d < 10, ∃ c, isDigit c = true ∧ digitValue c = d := by
  decide

theorem decimal_append (hn : 0 < n) (hd : d < 10) : decimal n ++ decimal d = decimal (10 * n + d) := by
  rw [decimal, decimal, ← List.map_append, Nat.toDigits_append_toDigits (by decide) hn hd, decimal]

theorem digits_lt {c : Char} (h : c ∈ Nat.toDigits 10 n) : 48 ≤ c.toNat ∧ c.toNat ≤ 57 := by
  have hdigit := Nat.isDigit_of_mem_toDigits (by decide) (by decide) h
  rw [Char.isDigit, Bool.and_eq_true, decide_eq_true_eq, decide_eq_true_eq] at hdigit
  exact ⟨hdigit.1, hdigit.2⟩

theorem isDigit_of_mem_decimal (h : c ∈ decimal n) : isDigit c = true := by
  obtain ⟨d, hd, rfl⟩ := List.mem_map.mp h
  obtain ⟨hlow, hhigh⟩ := digits_lt hd
  have hall : ∀ k, 48 ≤ k → k ≤ 57 → isDigit (BitVec.ofNat 8 k) = true := by decide
  exact hall d.toNat hlow hhigh

/-- The characters of a number in decimal give its digits back. -/
theorem map_decimal (n : Nat) :
    (decimal n).map (fun c => Char.ofNat c.toNat) = Nat.toDigits 10 n := by
  rw [decimal, List.map_map]
  apply (List.map_congr_left fun d hd => ?_).trans (List.map_id' _)
  have hlt : d.toNat < 256 := (digits_lt hd).2.trans_lt (by decide)
  rw [Function.comp_apply, chr, BitVec.toNat_ofNat, Nat.mod_eq_of_lt hlt, Char.ofNat_toNat]

theorem decimal_injective : Function.Injective decimal := by
  intro n m h
  have hsame : Nat.toDigits 10 n = Nat.toDigits 10 m := by rw [← map_decimal n, ← map_decimal m, h]
  rw [← Nat.ofDigitChars_ten_toDigits (n := n), hsame, Nat.ofDigitChars_ten_toDigits]

theorem length_decimal (o : Byte) : (decimal o.toNat).length ≤ 3 := by
  rw [decimal, List.length_map, Nat.length_toDigits_le_iff (by decide) (by decide)]
  exact o.isLt.trans (by decide)

/-- The characters that lead to a state of the scan. -/
def Scan.text (s : Scan) : List Byte :=
  s.ended.flatMap (fun o => decimal o.toNat ++ [chr '.']) ++
    match s.current with
    | none => []
    | some o => decimal o.toNat

theorem toNat_ofNat_digit (hn : n < 256) : (BitVec.ofNat 8 n : Byte).toNat = n := by
  rw [BitVec.toNat_ofNat, Nat.mod_eq_of_lt hn]

theorem text_next (h : s.next c = some t) : t.text = s.text ++ [c] := by
  obtain ⟨ended, current⟩ := s
  cases current with
  | none =>
    obtain ⟨hc, h⟩ := Option.ite_none_right_eq_some.mp h
    cases h
    have hlt := digitValue_lt hc
    rw [Scan.text, Scan.text, List.append_nil]
    dsimp only
    rw [toNat_ofNat_digit (by omega), decimal_digit hc]
  | some o =>
    by_cases hc : isDigit c = true
    · have h : (if o = 0 ∨ 255 < 10 * o.toNat + digitValue c then none
          else some (⟨ended, some (BitVec.ofNat 8 (10 * o.toNat + digitValue c))⟩ : Scan)) = some t :=
        (if_pos hc).symm.trans h
      obtain ⟨hbound, h⟩ := Option.ite_none_left_eq_some.mp h
      cases h
      have hlt := digitValue_lt hc
      have hpos : 0 < o.toNat := by
        rw [not_or] at hbound
        exact Nat.pos_of_ne_zero fun hz => hbound.1 (BitVec.eq_of_toNat_eq hz)
      rw [Scan.text, Scan.text]
      dsimp only
      rw [toNat_ofNat_digit (by omega), ← decimal_append hpos hlt, decimal_digit hc,
        List.append_assoc]
    · have h : (if c = chr '.' ∧ ended.length < 3 then some (⟨ended ++ [o], none⟩ : Scan)
          else none) = some t := (if_neg hc).symm.trans h
      obtain ⟨hdot, h⟩ := Option.ite_none_right_eq_some.mp h
      cases h
      rw [Scan.text, Scan.text, List.flatMap_append, List.append_nil, List.flatMap_singleton,
        hdot.1, List.append_assoc]

theorem text_foldlM {text : List Byte}
    (h : text.foldlM (fun (scan : Scan) c => scan.next c) s = some t) : t.text = s.text ++ text := by
  induction text generalizing s with
  | nil =>
    cases h
    exact (List.append_nil _).symm
  | cons c text ih =>
    rw [List.foldlM_cons] at h
    obtain ⟨u, hu, h⟩ := Option.bind_eq_some_iff.mp h
    rw [ih h, text_next hu, List.append_assoc]
    rfl

/-- The scan of an octet's digits. -/
theorem foldlM_decimal (ended : List Byte) (hn : n < 256) :
    (decimal n).foldlM (fun (scan : Scan) c => scan.next c) ⟨ended, none⟩ =
      some ⟨ended, some (BitVec.ofNat 8 n)⟩ := by
  induction n using Nat.strong_induction_on with
  | _ n ih =>
    obtain ⟨c, hc, hvalue⟩ := isDigit_digit (n % 10) (Nat.mod_lt n (by decide))
    have hlast : decimal (n % 10) = [c] := hvalue ▸ decimal_digit hc
    by_cases hlt : n < 10
    · rw [Nat.mod_eq_of_lt hlt] at hlast hvalue
      rw [hlast, List.foldlM_cons, Scan.next]
      dsimp only
      rw [if_pos hc, hvalue]
      rfl
    · have hfront := ih (n / 10) (by omega) (by omega)
      have hsplit : decimal n = decimal (n / 10) ++ [c] := by
        rw [← hlast, decimal_append (by omega) (Nat.mod_lt n (by decide)), Nat.div_add_mod]
      have hnat : (BitVec.ofNat 8 (n / 10) : Byte).toNat = n / 10 :=
        toNat_ofNat_digit (by omega)
      have hne : (BitVec.ofNat 8 (n / 10) : Byte) ≠ 0 := by
        intro hz
        rw [hz] at hnat
        have : (0 : Byte).toNat = 0 := rfl
        omega
      rw [hsplit, List.foldlM_append, hfront]
      change (Scan.next c _).bind _ = _
      rw [Scan.next]
      dsimp only
      have hbound : ¬((BitVec.ofNat 8 (n / 10) : Byte) = 0 ∨ 255 < 10 * (n / 10) + n % 10) :=
        not_or.mpr ⟨hne, by omega⟩
      rw [if_pos hc, hnat, hvalue, if_neg hbound, Nat.div_add_mod]
      rfl

theorem text_cons (o : Byte) (h : octets ≠ []) :
    text (o :: octets) = decimal o.toNat ++ chr '.' :: text octets := by
  have hmap : octets.map (fun o => decimal o.toNat) ≠ [] := fun he => h (List.map_eq_nil_iff.mp he)
  rw [text, List.map_cons, List.intercalate_cons_of_ne_nil hmap, List.append_assoc]
  rfl

/-- The scan takes an octet and the dot behind it. -/
theorem foldlM_octet {ended : List Byte} (o : Byte) (rest : List Byte) (h : ended.length < 3) :
    (decimal o.toNat ++ chr '.' :: rest).foldlM (fun (scan : Scan) c => scan.next c) ⟨ended, none⟩ =
      rest.foldlM (fun (scan : Scan) c => scan.next c) ⟨ended ++ [o], none⟩ := by
  have hdot : isDigit (chr '.') = false := by decide
  rw [List.foldlM_append, foldlM_decimal ended o.isLt, BitVec.ofNat_toNat, BitVec.setWidth_eq]
  change (Scan.next (chr '.') ⟨ended, some o⟩).bind _ = _
  rw [Scan.next]
  dsimp only
  rw [hdot, if_neg Bool.false_ne_true, if_pos ⟨rfl, h⟩]
  rfl

theorem parse_text (h : octets.length = 4) : parse (text octets) = some octets := by
  obtain ⟨a, b, c, d, rfl⟩ := List.length_eq_four.mp h
  rw [parse, text_cons a (by simp), foldlM_octet a _ (by simp), text_cons b (by simp),
    foldlM_octet b _ (by simp), text_cons c (by simp), foldlM_octet c _ (by simp), text,
    List.map_singleton, List.intercalate_singleton, foldlM_decimal _ d.isLt, BitVec.ofNat_toNat,
    BitVec.setWidth_eq]
  rfl

/-- Four octets have one text, and no other text is read as them. -/
theorem parse_eq_some {s : List Byte} :
    parse s = some octets ↔ octets.length = 4 ∧ s = text octets := by
  constructor
  · intro h
    obtain ⟨⟨ended, current⟩, hscan, hoctets⟩ := Option.bind_eq_some_iff.mp h
    cases current with
    | none => cases hoctets
    | some d =>
      obtain ⟨hlen, he⟩ := Option.ite_none_right_eq_some.mp hoctets
      cases he
      obtain ⟨a, b, c, rfl⟩ := List.length_eq_three.mp hlen
      refine ⟨rfl, ?_⟩
      have htext := (text_foldlM hscan).symm
      rw [Scan.text, List.flatMap_nil, List.append_nil, List.nil_append] at htext
      rw [htext, Scan.text]
      simp only [List.cons_append, List.nil_append]
      rw [text_cons a (by simp), text_cons b (by simp), text_cons c (by simp), text,
        List.map_singleton, List.intercalate_singleton]
      simp
  · rintro ⟨hlen, rfl⟩
    exact parse_text hlen

theorem mem_text (h : c ∈ text octets) : isDigit c = true ∨ c = chr '.' := by
  induction octets with
  | nil => cases h
  | cons o octets ih =>
    by_cases hnil : octets = []
    · subst hnil
      rw [text, List.map_singleton, List.intercalate_singleton] at h
      exact .inl (isDigit_of_mem_decimal h)
    · rw [text_cons o hnil, List.mem_append, List.mem_cons] at h
      obtain h | h | h := h
      · exact .inl (isDigit_of_mem_decimal h)
      · exact .inr h
      · exact ih h

theorem length_text (h : octets.length = 4) : (text octets).length ≤ 15 := by
  obtain ⟨a, b, c, d, rfl⟩ := List.length_eq_four.mp h
  have ha := length_decimal a
  have hb := length_decimal b
  have hc := length_decimal c
  have hd := length_decimal d
  rw [text_cons a (by simp), text_cons b (by simp), text_cons c (by simp), text,
    List.map_singleton, List.intercalate_singleton]
  simp only [List.length_append, List.length_cons]
  omega

end Iuring.Lib.DottedQuad
