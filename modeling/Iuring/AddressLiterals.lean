import Iuring.Lib.Hex
import Iuring.Resolver
import Iuring.SendPacket

namespace Iuring

open Lib Lib.Memory Lib.Hex

namespace IPAddress

/-- The texts that inet_pton takes for an address of each family. Its manual page
allows digits and dots in the one, and digits, colons and dots in the other. -/
structure Literals extends InetPton where
  ipv4_chars : ∀ text addr, ipv4 text = some addr →
    ∀ c ∈ text, isXDigit c = true ∨ c = chr '.'
  ipv6_chars : ∀ text addr, ipv6 text = some addr →
    ∀ c ∈ text, isXDigit c = true ∨ c = chr ':' ∨ c = chr '.'
  ipv6_colon : ∀ text addr, ipv6 text = some addr → chr ':' ∈ text

/-- The suffix that string_to_ipv4_address strips. -/
def slash32 : List Byte := [chr '/', chr '3', chr '2']

def stripped (ipAddress : List Byte) : List Byte :=
  if slash32.isSuffixOf ipAddress then ipAddress.take (ipAddress.length - 3) else ipAddress

def stringToIpv4Address (p : Literals) (ipAddress : StdString) : Result (BitVec 32) :=
  match p.ipv4 (cStr (stripped ipAddress.bytes)) with
  | some addr => .ok addr
  | none => abort

variable {p : Literals} {text quad : List Byte} {s : StdString} {sa4 : SockaddrIn}
  {sa6 : SockaddrIn6}

/-- The text as a whole is an address of one of the two families. -/
def Literals.IsLiteral (p : Literals) (text : List Byte) : Prop :=
  (p.ipv4 text).isSome = true ∨ (p.ipv6 text).isSome = true

theorem Literals.disjoint {addr : BitVec 32} (h : p.ipv4 text = some addr) : p.ipv6 text = none := by
  apply Option.eq_none_iff_forall_ne_some.mpr
  intro addr' h'
  obtain hx | hdot := p.ipv4_chars text addr h _ (p.ipv6_colon text addr' h')
  · exact absurd hx (by decide)
  · exact absurd hdot (by decide)

theorem Literals.zero_not_mem (h : p.IsLiteral text) : 0 ∉ text := by
  intro hzero
  obtain h | h := h
  · obtain ⟨addr, haddr⟩ := Option.isSome_iff_exists.mp h
    exact absurd (p.ipv4_chars text addr haddr 0 hzero) (by decide)
  · obtain ⟨addr, haddr⟩ := Option.isSome_iff_exists.mp h
    exact absurd (p.ipv6_chars text addr haddr 0 hzero) (by decide)

theorem Literals.slash_not_mem {addr : BitVec 32} (h : p.ipv4 text = some addr) :
    chr '/' ∉ text :=
  fun hslash => absurd (p.ipv4_chars text addr h _ hslash) (by decide)

theorem parse_ok_iff {a : IPAddress} : parse p.toInetPton sa4 sa6 s = .ok a ↔
    (∃ addr, p.ipv4 (cStr s.bytes) = some addr ∧
      a = .ofSockaddrIn { sa4 with sinFamily := afInet, sinAddr := addr }) ∨
    ∃ addr, p.ipv6 (cStr s.bytes) = some addr ∧
      a = .ofSockaddrIn6 { sa6 with sin6Family := afInet6, sin6Addr := addr } := by
  rw [parse]
  cases h4 : p.ipv4 (cStr s.bytes) with
  | some addr => simp [Literals.disjoint h4, eq_comm]
  | none =>
    cases h6 : p.ipv6 (cStr s.bytes) with
    | some addr => simp [eq_comm]
    | none => simp

theorem parse_succeeds_iff :
    (∃ a, parse p.toInetPton sa4 sa6 s = .ok a) ↔ p.IsLiteral (cStr s.bytes) := by
  rw [parse, Literals.IsLiteral]
  cases p.ipv4 (cStr s.bytes) with
  | some addr => simp
  | none => cases p.ipv6 (cStr s.bytes) <;> simp

theorem stringToIpv4Address_ok_iff {addr : BitVec 32} :
    stringToIpv4Address p s = .ok addr ↔ p.ipv4 (cStr (stripped s.bytes)) = some addr := by
  rw [stringToIpv4Address]
  cases p.ipv4 (cStr (stripped s.bytes)) <;> simp [abort]

theorem stripped_append (quad : List Byte) : stripped (quad ++ slash32) = quad := by
  have hsuffix : slash32.isSuffixOf (quad ++ slash32) = true :=
    List.isSuffixOf_iff_suffix.mpr (List.suffix_append _ _)
  rw [stripped, if_pos hsuffix, List.length_append]
  exact List.take_left' (Nat.add_sub_cancel _ 3).symm

theorem stripped_of_not_suffix (h : ¬slash32 <:+ text) : stripped text = text :=
  if_neg fun hsuffix => h (List.isSuffixOf_iff_suffix.mp hsuffix)

theorem cStr_append_of_mem {text rest : List Byte} (h : 0 ∈ text) :
    cStr (text ++ rest) = cStr text := by
  have hshort : (cStr text).length ≠ text.length := by
    intro hlen
    have hself : cStr text = text := (List.takeWhile_prefix _).eq_of_length hlen
    have hall := List.takeWhile_eq_self_iff.mp hself 0 h
    exact of_decide_eq_true hall rfl
  rw [cStr, List.takeWhile_append]
  exact if_neg hshort

/-- resolve_hostname calls the handler with an address of its own accord. -/
def Direct (p : Literals) (hostname : StdString) : Prop :=
  ∀ sa4 sa6 request handler (r : Resolver), ∃ addr,
    r.resolveHostname p.toInetPton sa4 sa6 request hostname handler =
      { r with calls := r.calls ++ [(handler, .ok [addr])] }

/-- The string is taken for an address if the whole of it is one. -/
structure AcceptedExactly (p : Literals) (s : StdString) : Prop where
  parse : ∀ sa4 sa6 a, parse p.toInetPton sa4 sa6 s = .ok a ↔
    (∃ addr, p.ipv4 s.bytes = some addr ∧
      a = .ofSockaddrIn { sa4 with sinFamily := afInet, sinAddr := addr }) ∨
    ∃ addr, p.ipv6 s.bytes = some addr ∧
      a = .ofSockaddrIn6 { sa6 with sin6Family := afInet6, sin6Addr := addr }
  ipv4Address : ∀ addr, stringToIpv4Address p s = .ok addr ↔
    p.ipv4 s.bytes = some addr ∨ ∃ quad, s.bytes = quad ++ slash32 ∧ p.ipv4 quad = some addr
  resolve : Direct p s ↔ p.IsLiteral s.bytes

theorem direct_iff : Direct p s ↔ p.IsLiteral (cStr s.bytes) := by
  constructor
  · intro hdirect
    obtain ⟨addr, hresolve⟩ := hdirect default default 0 0 .initial
    cases hparse : parse p.toInetPton default default s with
    | ok a => exact parse_succeeds_iff.mp ⟨a, hparse⟩
    | error e =>
      have hcalls := congrArg Resolver.calls hresolve
      rw [Resolver.resolveHostname, hparse] at hcalls
      cases hcalls
  · intro hliteral sa4 sa6 request handler r
    obtain ⟨addr, hparse⟩ := parse_succeeds_iff.mpr hliteral
    exact ⟨addr, by rw [Resolver.resolveHostname, hparse]⟩

theorem accepted_of_no_zero (h : 0 ∉ s.bytes) : AcceptedExactly p s := by
  have hself := cStr_eq_self h
  refine ⟨fun sa4 sa6 a => ?_, fun addr => ?_, ?_⟩
  · rw [parse_ok_iff, hself]
  · rw [stringToIpv4Address_ok_iff]
    by_cases hsuffix : slash32 <:+ s.bytes
    · obtain ⟨quad, hquad⟩ := hsuffix
      have hslash : chr '/' ∈ s.bytes := by
        rw [← hquad]
        exact List.mem_append_right _ List.mem_cons_self
      have hzero : 0 ∉ quad := fun hmem => h (hquad ▸ List.mem_append_left _ hmem)
      rw [← hquad, stripped_append, cStr_eq_self hzero, hquad]
      constructor
      · exact fun haddr => .inr ⟨quad, hquad.symm, haddr⟩
      · rintro (haddr | ⟨quad', hquad', haddr⟩)
        · exact absurd hslash (Literals.slash_not_mem haddr)
        · have hsame : quad' = quad := List.append_cancel_right (hquad'.symm.trans hquad.symm)
          exact hsame ▸ haddr
    · rw [stripped_of_not_suffix hsuffix, hself]
      refine ⟨.inl, ?_⟩
      rintro (haddr | ⟨quad, hquad, _⟩)
      · exact haddr
      · exact absurd ⟨quad, hquad.symm⟩ hsuffix
  · rw [direct_iff, hself]

theorem accepted_of_not_literal (hzero : 0 ∈ s.bytes) (h : ¬p.IsLiteral (cStr s.bytes)) :
    AcceptedExactly p s := by
  have hwhole : ¬p.IsLiteral s.bytes := fun hliteral => Literals.zero_not_mem hliteral hzero
  refine ⟨fun sa4 sa6 a => ?_, fun addr => ?_, ?_⟩
  · refine iff_of_false (fun hparse => h (parse_succeeds_iff.mp ⟨a, hparse⟩)) ?_
    rintro (⟨addr, haddr, _⟩ | ⟨addr, haddr, _⟩)
    · exact hwhole (.inl (Option.isSome_of_eq_some haddr))
    · exact hwhole (.inr (Option.isSome_of_eq_some haddr))
  · rw [stringToIpv4Address_ok_iff]
    have hseen : cStr (stripped s.bytes) = cStr s.bytes := by
      by_cases hsuffix : slash32 <:+ s.bytes
      · obtain ⟨quad, hquad⟩ := hsuffix
        have hmem : 0 ∈ quad := by
          rw [← hquad, List.mem_append] at hzero
          exact hzero.resolve_right (by decide)
        rw [← hquad, stripped_append, cStr_append_of_mem hmem]
      · rw [stripped_of_not_suffix hsuffix]
    rw [hseen]
    refine iff_of_false (fun haddr => h (.inl (Option.isSome_of_eq_some haddr))) ?_
    rintro (haddr | ⟨quad, hquad, haddr⟩)
    · exact hwhole (.inl (Option.isSome_of_eq_some haddr))
    · rw [hquad, List.mem_append] at hzero
      obtain hmem | hmem := hzero
      · exact Literals.zero_not_mem (.inl (Option.isSome_of_eq_some haddr)) hmem
      · exact absurd hmem (by decide)
  · rw [direct_iff]
    exact iff_of_false h hwhole

/-- Both parsers accept exactly the literals, but for a string with a NUL whose
part before the first NUL is a literal. -/
theorem acceptedExactly_iff (p : Literals) (s : StdString) :
    AcceptedExactly p s ↔ 0 ∉ s.bytes ∨ ¬p.IsLiteral (cStr s.bytes) := by
  constructor
  · intro h
    by_contra hnot
    obtain ⟨hzero, hliteral⟩ := not_or.mp hnot
    obtain ⟨a, hparse⟩ : ∃ a, parse p.toInetPton default default s = .ok a :=
      parse_succeeds_iff.mpr (not_not.mp hliteral)
    have hwhole : p.IsLiteral s.bytes := by
      obtain ⟨addr, haddr, _⟩ | ⟨addr, haddr, _⟩ := (h.parse default default a).mp hparse
      · exact .inl (Option.isSome_of_eq_some haddr)
      · exact .inr (Option.isSome_of_eq_some haddr)
    exact hzero (Literals.zero_not_mem hwhole)
  · rintro (h | h)
    · exact accepted_of_no_zero h
    · by_cases hzero : 0 ∈ s.bytes
      · exact accepted_of_not_literal hzero h
      · exact accepted_of_no_zero hzero

private def quadText : List Byte :=
  [chr '1', chr '.', chr '2', chr '.', chr '3', chr '.', chr '4']

/-- What inet_pton answers on the one text that the examples need. -/
private def oneQuad : Literals where
  ipv4 text := if text = quadText then some 0x04030201 else none
  ipv6 _ := none
  ipv4_chars text addr h := by
    by_cases htext : text = quadText
    · rw [htext]
      decide
    · rw [if_neg htext] at h
      cases h
  ipv6_chars _ _ h := by cases h
  ipv6_colon _ _ h := by cases h

private def trailing : StdString := ⟨quadText ++ [0, chr 'x'], by decide⟩

private def masked : StdString := ⟨quadText ++ slash32, by decide⟩

theorem acceptedExactly_iff_masked : stringToIpv4Address oneQuad masked = .ok 0x04030201 := by
  have h := (acceptedExactly_iff oneQuad masked).mpr (.inl (by decide))
  exact (h.ipv4Address _).mpr (.inr ⟨quadText, rfl, rfl⟩)

/-- The string 1.2.3.4 with a NUL and an x behind it is taken for an address. -/
theorem text_after_nul_is_ignored : ¬AcceptedExactly oneQuad trailing := by
  intro h
  have hparse : parse oneQuad.toInetPton default default trailing =
      .ok (.ofSockaddrIn { (default : SockaddrIn) with sinFamily := afInet, sinAddr := 0x04030201 }) :=
    rfl
  obtain ⟨_, haddr, _⟩ | ⟨_, haddr, _⟩ := (h.parse _ _ _).mp hparse
  · cases haddr
  · cases haddr

end IPAddress

end Iuring
