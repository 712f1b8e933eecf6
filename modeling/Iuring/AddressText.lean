import Iuring.Lib.DottedQuad
import Iuring.AddressDecoding
import Iuring.AddressLiterals

namespace Iuring

open Lib Lib.Memory Lib.Hex

namespace IPAddress

/-- inet_pton and inet_ntop for IPv4: four octets in memory order. -/
def inetPton4 (text : List Byte) : Option (BitVec 32) :=
  (DottedQuad.parse text).map fun octets => load32 (fun i => octets.getD i 0) 0

def inetNtop4 (addr : BitVec 32) : List Byte := DottedQuad.text (bytes32 addr)

def inet6Addrstrlen : Nat := 46

/-- inet_pton and inet_ntop for IPv6, as far as their manual pages go: what is written is
read back, a text has hexadecimal digits, colons and dots, at least one colon, and fits. -/
structure Inet6 where
  pton : List Byte → Option (BitVec 128)
  ntop : BitVec 128 → List Byte
  pton_ntop : ∀ addr, pton (ntop addr) = some addr
  pton_chars : ∀ text addr, pton text = some addr →
    ∀ c ∈ text, isXDigit c = true ∨ c = chr ':' ∨ c = chr '.'
  pton_colon : ∀ text addr, pton text = some addr → chr ':' ∈ text
  length_ntop : ∀ addr, (ntop addr).length < inet6Addrstrlen

/-- inet_ntop writes the text and a NUL, or fails if the buffer is too small. -/
def inetNtop (text : List Byte) (size : Nat) : Option (List Byte) :=
  if text.length < size then some text else none

def sourceName (text : List Byte) : List Byte :=
  (inetNtop text 128).getD (['<', 'I', 'N', 'V', 'A', 'L', 'I', 'D', '>'].map chr)

def unknownText : List Byte := ['?', '.', '?', '.', '?', '.', '?'].map chr

/-- The text of an address with its family in front and its port behind it. -/
def endpointText (version : Char) (name : List Byte) (port : SocketPortID) : List Byte :=
  ['v', version, ':', ' '].map chr ++ name ++ [':', ' ', 'p', 'o', 'r', 't', ' '].map chr ++
    DottedQuad.decimal port.toNat

def ipString (x : Inet6) (a : IPAddress) : List Byte :=
  match a.getIpv4, a.getIpv6 with
  | some v, _ => sourceName (inetNtop4 v.sinAddr)
  | none, some v => sourceName (x.ntop v.sin6Addr)
  | none, none => unknownText

def toHumanReadableString (x : Inet6) (a : IPAddress) : List Byte :=
  match a.getIpv4, a.getIpv6 with
  | some v, _ => endpointText '4' (sourceName (inetNtop4 v.sinAddr)) (htons v.sinPort)
  | none, some v => endpointText '6' (sourceName (x.ntop v.sin6Addr)) (htons v.sin6Port)
  | none, none => unknownText

def createSockAddrIn (p : Literals) (addr : StdString) (port : SocketPortID) : Result IPAddress := do
  let sinAddr ← stringToIpv4Address p addr
  return ofSockaddrIn ⟨afInet, htons port, sinAddr, 0⟩

variable {text : List Byte} {addr : BitVec 32} {x : Inet6} {a b : IPAddress} {s : StdString}

theorem htons_htons (port : BitVec 16) : htons (htons port) = port := by
  rw [htons, htons, BitVec.extractLsb'_append_eq_right, BitVec.extractLsb'_append_eq_left]
  exact BitVec.extractLsb'_append_extractLsb'

theorem bytes32_octets {octets : List Byte} (h : octets.length = 4) :
    bytes32 (load32 (fun i => octets.getD i 0) 0) = octets := by
  obtain ⟨o₀, o₁, o₂, o₃, rfl⟩ := List.length_eq_four.mp h
  have hload : load32 (fun i => [o₀, o₁, o₂, o₃].getD i 0) 0 = (o₃ ++ o₂) ++ (o₁ ++ o₀) := rfl
  rw [hload, bytes32_append, bytes16_append, bytes16_append]
  rfl

theorem octets_bytes32 (addr : BitVec 32) :
    load32 (fun i => (bytes32 addr).getD i 0) 0 = addr := by
  apply Holds.load32
  rfl

/-- An IPv4 address is read from one text, the one that is written for it. -/
theorem inetPton4_eq_some : inetPton4 text = some addr ↔ text = inetNtop4 addr := by
  rw [inetPton4, inetNtop4, Option.map_eq_some_iff]
  constructor
  · rintro ⟨octets, hparse, rfl⟩
    obtain ⟨hlen, htext⟩ := DottedQuad.parse_eq_some.mp hparse
    rw [bytes32_octets hlen, htext]
  · rintro rfl
    exact ⟨_, DottedQuad.parse_text rfl, octets_bytes32 addr⟩

theorem length_inetNtop4 (addr : BitVec 32) : (inetNtop4 addr).length ≤ 15 :=
  DottedQuad.length_text rfl

theorem sourceName_eq (h : text.length < 128) : sourceName text = text := by
  rw [sourceName, inetNtop, if_pos h]
  rfl

theorem sourceName4 (addr : BitVec 32) : sourceName (inetNtop4 addr) = inetNtop4 addr :=
  sourceName_eq ((length_inetNtop4 addr).trans_lt (by decide))

theorem sourceName6 (x : Inet6) (addr : BitVec 128) : sourceName (x.ntop addr) = x.ntop addr :=
  sourceName_eq ((x.length_ntop addr).trans (by decide))

theorem isXDigit_of_isDigit {c : Byte} : DottedQuad.isDigit c = true → isXDigit c = true := by
  decide +revert

/-- The literals of the two families. -/
def Inet6.literals (x : Inet6) : Literals where
  ipv4 := inetPton4
  ipv6 := x.pton
  ipv4_chars text addr h c hc := by
    rw [inetPton4_eq_some.mp h] at hc
    exact (DottedQuad.mem_text hc).imp_left isXDigit_of_isDigit
  ipv6_chars := x.pton_chars
  ipv6_colon := x.pton_colon

theorem ipString_ipv4 {v : SockaddrIn} (h : a.in4 = some v) :
    ipString x a = inetNtop4 v.sinAddr := by
  rw [ipString, getIpv4, h]
  exact sourceName4 v.sinAddr

theorem ipString_ipv6 {v : SockaddrIn6} (h4 : a.in4 = none) (h6 : a.in6 = some v) :
    ipString x a = x.ntop v.sin6Addr := by
  rw [ipString, getIpv4, getIpv6, h4, h6]
  exact sourceName6 x v.sin6Addr

theorem length_ipString (x : Inet6) (a : IPAddress) : (ipString x a).length < inet6Addrstrlen := by
  cases h4 : a.in4 with
  | some v =>
    rw [ipString_ipv4 h4]
    exact (length_inetNtop4 _).trans_lt (by decide)
  | none =>
    cases h6 : a.in6 with
    | some v =>
      rw [ipString_ipv6 h4 h6]
      exact x.length_ntop _
    | none =>
      rw [ipString, getIpv4, getIpv6, h4, h6]
      exact (by decide : unknownText.length < inet6Addrstrlen)

def toHumanReadableIpString (x : Inet6) (a : IPAddress) : StdString :=
  ⟨ipString x a, (length_ipString x a).trans (by decide)⟩

theorem zero_not_mem_inetNtop4 (addr : BitVec 32) : 0 ∉ inetNtop4 addr := by
  intro h
  obtain h | h := DottedQuad.mem_text h
  · exact absurd h (by decide)
  · exact absurd h (by decide)

theorem not_slash32_suffix (addr : BitVec 32) : ¬slash32 <:+ inetNtop4 addr := by
  rintro ⟨front, h⟩
  have hslash : chr '/' ∈ inetNtop4 addr := h ▸ List.mem_append_right _ List.mem_cons_self
  obtain h | h := DottedQuad.mem_text hslash
  · exact absurd h (by decide)
  · exact absurd h (by decide)

theorem read_stripped (x : Inet6) (s : StdString) (addr : BitVec 32) :
    stringToIpv4Address x.literals s = .ok addr ↔ cStr (stripped s.bytes) = inetNtop4 addr :=
  stringToIpv4Address_ok_iff.trans inetPton4_eq_some

theorem read_parsed (x : Inet6) (sa4 : SockaddrIn) (sa6 : SockaddrIn6) (s : StdString)
    (addr : BitVec 32) : (∃ b w, parse x.literals.toInetPton sa4 sa6 s = .ok b ∧ b.in4 = some w ∧
      w.sinAddr = addr) ↔ cStr s.bytes = inetNtop4 addr := by
  rw [← inetPton4_eq_some]
  constructor
  · rintro ⟨b, w, hparse, hin4, rfl⟩
    obtain ⟨addr, h, rfl⟩ | ⟨addr, _, rfl⟩ := parse_ok_iff.mp hparse
    · cases hin4
      exact h
    · cases hin4
  · intro h
    exact ⟨_, _, parse_ok_iff.mpr (.inl ⟨addr, h, rfl⟩), rfl, rfl⟩

theorem read_ipString (x : Inet6) {v : SockaddrIn} (ha : a.in4 = some v) :
    stringToIpv4Address x.literals (a.toHumanReadableIpString x) = .ok v.sinAddr := by
  have htext : (a.toHumanReadableIpString x).bytes = inetNtop4 v.sinAddr := ipString_ipv4 ha
  rw [read_stripped, htext, stripped_of_not_suffix (not_slash32_suffix _),
    cStr_eq_self (zero_not_mem_inetNtop4 _)]

/-- The text that is written for an IPv4 address is the one from which its number is read, with
or without the suffix, and the address that is made of the text and the port is equal to it. -/
theorem ip_text_read_back (x : Inet6) {v : SockaddrIn} (ha : a.in4 = some v)
    (hfamily : v.sinFamily = afInet) :
    (∀ s, stringToIpv4Address x.literals s = .ok v.sinAddr ↔
      cStr (stripped s.bytes) = (a.toHumanReadableIpString x).bytes) ∧
    (∀ sa4 sa6 s, (∃ b w, parse x.literals.toInetPton sa4 sa6 s = .ok b ∧ b.in4 = some w ∧
      w.sinAddr = v.sinAddr) ↔ cStr s.bytes = (a.toHumanReadableIpString x).bytes) ∧
    ∃ b, createSockAddrIn x.literals (a.toHumanReadableIpString x) (htons v.sinPort) = .ok b ∧
      b.operatorEq a = true := by
  have htext : (a.toHumanReadableIpString x).bytes = inetNtop4 v.sinAddr := ipString_ipv4 ha
  refine ⟨fun s => ?_, fun sa4 sa6 s => ?_, ?_⟩
  · rw [htext]
    exact read_stripped x s v.sinAddr
  · rw [htext]
    exact read_parsed x sa4 sa6 s v.sinAddr
  · have hcreate : createSockAddrIn x.literals (a.toHumanReadableIpString x) (htons v.sinPort) =
        .ok (.ofSockaddrIn ⟨afInet, v.sinPort, v.sinAddr, 0⟩) := by
      rw [createSockAddrIn, read_ipString x ha, Checked.bind_ok, htons_htons]
      rfl
    refine ⟨_, hcreate, ?_⟩
    simp only [operatorEq, ofSockaddrIn, ha, hfamily, decide_true, Bool.and_self]

/-- An IPv6 address as one number behind a colon. -/
def numbered (addr : BitVec 128) : List Byte := chr ':' :: DottedQuad.decimal addr.toNat

def number (text : List Byte) : BitVec 128 :=
  BitVec.ofNat 128 (Nat.ofDigitChars 10 (text.tail.map fun c => Char.ofNat c.toNat) 0)

def numbers : Inet6 where
  pton text := if text = numbered (number text) then some (number text) else none
  ntop := numbered
  pton_ntop addr := by
    have hnumber : number (numbered addr) = addr := by
      rw [number, numbered, List.tail_cons, DottedQuad.map_decimal, Nat.ofDigitChars_ten_toDigits,
        BitVec.ofNat_toNat, BitVec.setWidth_eq]
    rw [hnumber, if_pos rfl]
  pton_chars text addr h c hc := by
    obtain ⟨htext, _⟩ := Option.ite_none_right_eq_some.mp h
    rw [htext] at hc
    obtain hc | hc := List.mem_cons.mp hc
    · exact .inr (.inl hc)
    · exact .inl (isXDigit_of_isDigit (DottedQuad.isDigit_of_mem_decimal hc))
  pton_colon text addr h := by
    obtain ⟨htext, _⟩ := Option.ite_none_right_eq_some.mp h
    rw [htext]
    exact List.mem_cons_self
  length_ntop addr := by
    have hlt : addr.toNat < 10 ^ 39 := addr.isLt.trans (by decide)
    have hlength := (Nat.length_toDigits_le_iff (by decide) (by decide)).mpr hlt
    rw [numbered, List.length_cons, DottedQuad.decimal, List.length_map]
    exact (Nat.succ_le_succ hlength).trans_lt (by decide)

private def gateway : SockaddrIn := ⟨afInet, htons 80, 0x0101a8c0, 0⟩

/-- The address 192.168.1.1 with the suffix /32. -/
private def gatewayText : StdString :=
  ⟨['1', '9', '2', '.', '1', '6', '8', '.', '1', '.', '1', '/', '3', '2'].map chr, by decide⟩

theorem ip_text_read_back_gateway :
    stringToIpv4Address numbers.literals gatewayText = .ok 0x0101a8c0 :=
  ((ip_text_read_back numbers (a := .ofSockaddrIn gateway) rfl rfl).1 gatewayText).mpr (by decide)

/-- A blank ends what comes before the first one. -/
theorem append_blank_inj {u w u' w' : List Byte} (hu : chr ' ' ∉ u) (hu' : chr ' ' ∉ u')
    (h : u ++ chr ' ' :: w = u' ++ chr ' ' :: w') : u = u' ∧ w = w' := by
  have hfront : ∀ {u w : List Byte}, chr ' ' ∉ u →
      (u ++ chr ' ' :: w).takeWhile (fun c => c ≠ chr ' ') = u := by
    intro u w hu
    have hall : ∀ c ∈ u, decide (c ≠ chr ' ') = true := by
      rintro c hc
      exact decide_eq_true fun he => hu (he ▸ hc)
    rw [List.takeWhile_append_of_pos hall, List.takeWhile_cons_of_neg (by simp), List.append_nil]
  have hsame : u = u' := by rw [← hfront (w := w) hu, h, hfront hu']
  subst hsame
  exact ⟨rfl, (List.cons_eq_cons.mp (List.append_cancel_left h)).2⟩

theorem endpointText_inj {version version' : Char} {name name' : List Byte}
    {port port' : SocketPortID} (hname : chr ' ' ∉ name) (hname' : chr ' ' ∉ name')
    (h : endpointText version name port = endpointText version' name' port') :
    chr version = chr version' ∧ name = name' ∧ port = port' := by
  have hcolon : ∀ {name : List Byte}, chr ' ' ∉ name → chr ' ' ∉ name ++ [chr ':'] := by
    intro name hname hmem
    obtain hmem | hmem := List.mem_append.mp hmem
    · exact hname hmem
    · exact absurd (List.mem_singleton.mp hmem) (by decide)
  have hshape : ∀ (version : Char) (name : List Byte) (port : SocketPortID),
      endpointText version name port = chr 'v' :: chr version :: chr ':' :: chr ' ' ::
        ((name ++ [chr ':']) ++ chr ' ' :: (['p', 'o', 'r', 't', ' '].map chr ++
          DottedQuad.decimal port.toNat)) := by
    intro version name port
    rw [endpointText, List.append_assoc, List.append_assoc, List.append_assoc]
    rfl
  rw [hshape, hshape] at h
  obtain ⟨_, h⟩ := List.cons_eq_cons.mp h
  obtain ⟨hversion, h⟩ := List.cons_eq_cons.mp h
  obtain ⟨_, h⟩ := List.cons_eq_cons.mp h
  obtain ⟨_, h⟩ := List.cons_eq_cons.mp h
  obtain ⟨hfront, hback⟩ := append_blank_inj (hcolon hname) (hcolon hname') h
  refine ⟨hversion, List.append_cancel_right hfront, BitVec.eq_of_toNat_eq ?_⟩
  exact DottedQuad.decimal_injective (List.append_cancel_left hback)

theorem blank_not_mem_inetNtop4 (addr : BitVec 32) : chr ' ' ∉ inetNtop4 addr := by
  intro h
  obtain h | h := DottedQuad.mem_text h
  · exact absurd h (by decide)
  · exact absurd h (by decide)

theorem blank_not_mem_ntop (x : Inet6) (addr : BitVec 128) : chr ' ' ∉ x.ntop addr := by
  intro h
  obtain h | h | h := x.pton_chars _ addr (x.pton_ntop addr) _ h
  · exact absurd h (by decide)
  · exact absurd h (by decide)
  · exact absurd h (by decide)

theorem inetNtop4_injective : Function.Injective inetNtop4 := by
  intro addr addr' h
  exact Option.some.inj ((inetPton4_eq_some.mpr rfl).symm.trans (inetPton4_eq_some.mpr h))

theorem ntop_injective (x : Inet6) : Function.Injective x.ntop := by
  intro addr addr' h
  exact Option.some.inj ((x.pton_ntop addr).symm.trans (h ▸ x.pton_ntop addr'))

theorem shown_ipv4 (x : Inet6) (v : SockaddrIn) : (ofSockaddrIn v).toHumanReadableString x =
    endpointText '4' (inetNtop4 v.sinAddr) (htons v.sinPort) := by
  rw [← sourceName4]
  rfl

theorem shown_ipv6 (x : Inet6) (v : SockaddrIn6) : (ofSockaddrIn6 v).toHumanReadableString x =
    endpointText '6' (x.ntop v.sin6Addr) (htons v.sin6Port) := by
  rw [← sourceName6]
  rfl

theorem htons_injective : Function.Injective htons := by
  intro port port' h
  rw [← htons_htons port, h, htons_htons]

/-- Two addresses are shown alike, family, number and port, if and only if they are equal. -/
theorem shown_alike_iff (x : Inet6) (ha : a.Proper) (hb : b.Proper) :
    a.toHumanReadableString x = b.toHumanReadableString x ↔ a.operatorEq b = true := by
  have hne : chr '4' ≠ chr '6' := by decide
  cases ha with
  | ipv4 v hv =>
    rw [shown_ipv4]
    cases hb with
    | ipv4 w hw =>
      rw [shown_ipv4]
      simp only [operatorEq, ofSockaddrIn, Bool.and_eq_true, decide_eq_true_eq]
      constructor
      · intro h
        obtain ⟨_, haddr, hport⟩ := endpointText_inj (blank_not_mem_inetNtop4 _)
          (blank_not_mem_inetNtop4 _) h
        exact ⟨⟨htons_injective hport, inetNtop4_injective haddr⟩, hv.trans hw.symm⟩
      · rintro ⟨⟨hport, haddr⟩, _⟩
        rw [hport, haddr]
    | ipv6 w hw =>
      rw [shown_ipv6]
      refine iff_of_false (fun h => hne ?_) Bool.false_ne_true
      exact (endpointText_inj (blank_not_mem_inetNtop4 _) (blank_not_mem_ntop x _) h).1
  | ipv6 v hv =>
    rw [shown_ipv6]
    cases hb with
    | ipv4 w hw =>
      rw [shown_ipv4]
      refine iff_of_false (fun h => hne ?_) Bool.false_ne_true
      exact (endpointText_inj (blank_not_mem_ntop x _) (blank_not_mem_inetNtop4 _) h).1.symm
    | ipv6 w hw =>
      rw [shown_ipv6]
      simp only [operatorEq, ofSockaddrIn6, Bool.and_eq_true, decide_eq_true_eq]
      constructor
      · intro h
        obtain ⟨_, haddr, hport⟩ := endpointText_inj (blank_not_mem_ntop x _)
          (blank_not_mem_ntop x _) h
        exact ⟨⟨htons_injective hport, ntop_injective x haddr⟩, hv.trans hw.symm⟩
      · rintro ⟨⟨hport, haddr⟩, _⟩
        rw [hport, haddr]

/-- Another port of the same host is shown otherwise. -/
theorem shown_alike_iff_other_port :
    (ofSockaddrIn gateway).toHumanReadableString numbers ≠
      (ofSockaddrIn { gateway with sinPort := htons 8080 }).toHumanReadableString numbers := by
  intro h
  have heq := (shown_alike_iff numbers (.ipv4 gateway rfl) (.ipv4 _ rfl)).mp h
  exact absurd heq (by decide)

end IPAddress

end Iuring
