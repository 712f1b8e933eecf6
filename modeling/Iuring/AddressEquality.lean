import Iuring.IPAddress

namespace Iuring

open Lib Lib.Memory

namespace IPAddress

/-- What the constructors, copies of their results and set_port produce. -/
inductive Built : IPAddress → Prop
  | default : Built {}
  | ofInAddr (stack : Nat → Byte) (sa : BitVec 32) (port : SocketPortID) :
      Built (.ofInAddr stack sa port)
  | ofIn6Addr (stack : Nat → Byte) (sa : BitVec 128) (port : SocketPortID) :
      Built (.ofIn6Addr stack sa port)
  | ofSockaddrIn (sa : SockaddrIn) : Built (.ofSockaddrIn sa)
  | ofSockaddrIn6 (sa : SockaddrIn6) : Built (.ofSockaddrIn6 sa)
  | ofSockaddrStorage {sa : Nat → Byte} {len : Nat} {a : IPAddress}
      (h : IPAddress.ofSockaddrStorage sa len = .ok a) : Built a
  | setPort {port : SocketPortID} {a b : IPAddress} (ha : Built a) (h : a.setPort port = .ok b) :
      Built b

def OneFamily (a : IPAddress) : Prop := a.in4 = none ∨ a.in6 = none

/-- What operator== compares, when there is anything to compare. -/
inductive Endpoint
  | ipv4 (port : BitVec 16) (addr : BitVec 32) (family : BitVec 16)
  | ipv6 (port : BitVec 16) (addr : BitVec 128) (family : BitVec 16)

def endpoint (a : IPAddress) : Option Endpoint :=
  match a.in4, a.in6 with
  | some sa, _ => some (.ipv4 sa.sinPort sa.sinAddr sa.sinFamily)
  | none, some sa => some (.ipv6 sa.sin6Port sa.sin6Addr sa.sin6Family)
  | none, none => none

variable {a b c : IPAddress} {e : Endpoint}

/-- The constructor that goes by the length sets exactly one family. -/
theorem oneFamily_ofSockaddrStorage {sa : Nat → Byte} {len : Nat}
    (h : ofSockaddrStorage sa len = .ok a) : a.OneFamily := by
  have hfamily := ofSockaddrStorage_family h
  obtain ⟨_, hlen, h⟩ := Checked.bind_eq_ok.mp h
  obtain hlen | hlen := (assert_eq_ok _ _).mp hlen
  · exact .inl (hfamily.1 hlen)
  · exact .inr (hfamily.2 hlen)

theorem OneFamily.shape (ha : a.OneFamily) :
    a = {} ∨ (∃ v, a = .ofSockaddrIn v) ∨ ∃ v, a = .ofSockaddrIn6 v := by
  obtain ⟨_ | v4, _ | v6⟩ := a
  · exact .inl rfl
  · exact .inr (.inr ⟨v6, rfl⟩)
  · exact .inr (.inl ⟨v4, rfl⟩)
  · obtain h4 | h6 := ha
    · cases h4
    · cases h6

theorem OneFamily.setPort {port : SocketPortID} (ha : a.OneFamily) (h : a.setPort port = .ok b) :
    b.OneFamily := by
  obtain rfl | ⟨v, rfl⟩ | ⟨v, rfl⟩ := ha.shape
  · cases h
  · cases h
    exact .inr rfl
  · cases h
    exact .inl rfl

theorem Built.oneFamily (ha : a.Built) : a.OneFamily := by
  induction ha with
  | default => exact .inl rfl
  | ofInAddr | ofSockaddrIn => exact .inr rfl
  | ofIn6Addr | ofSockaddrIn6 => exact .inl rfl
  | ofSockaddrStorage h => exact oneFamily_ofSockaddrStorage h
  | setPort _ h ih => exact ih.setPort h

/-- Two addresses of one family each are equal if both have the same endpoint. -/
theorem operatorEq_iff_endpoint (ha : a.OneFamily) (hb : b.OneFamily) :
    a.operatorEq b = true ↔ ∃ e, a.endpoint = some e ∧ b.endpoint = some e := by
  obtain rfl | ⟨v, rfl⟩ | ⟨v, rfl⟩ := ha.shape
  · simp [operatorEq, endpoint]
  · obtain rfl | ⟨w, rfl⟩ | ⟨w, rfl⟩ := hb.shape
    · simp [operatorEq, endpoint, IPAddress.ofSockaddrIn]
    · simp only [operatorEq, endpoint, IPAddress.ofSockaddrIn, Option.some.injEq, exists_eq_left',
        Bool.and_eq_true, decide_eq_true_eq, Endpoint.ipv4.injEq]
      grind
    · simp [operatorEq, endpoint, IPAddress.ofSockaddrIn, IPAddress.ofSockaddrIn6]
  · obtain rfl | ⟨w, rfl⟩ | ⟨w, rfl⟩ := hb.shape
    · simp [operatorEq, endpoint, IPAddress.ofSockaddrIn6]
    · simp [operatorEq, endpoint, IPAddress.ofSockaddrIn, IPAddress.ofSockaddrIn6]
    · simp only [operatorEq, endpoint, IPAddress.ofSockaddrIn6, Option.some.injEq, exists_eq_left',
        Bool.and_eq_true, decide_eq_true_eq, Endpoint.ipv6.injEq]
      grind

theorem valid_iff : a.valid = true ↔ ∃ e, a.endpoint = some e := by
  obtain ⟨_ | sa4, _ | sa6⟩ := a <;> simp [valid, getIpv4, getIpv6, endpoint]

/-- The laws of an equivalence, and that the representation is sound, at the given addresses. -/
structure EqualityLaws (a b c : IPAddress) : Prop where
  oneFamily : a.OneFamily
  refl : a.operatorEq a = true
  symm : a.operatorEq b = true → b.operatorEq a = true
  trans : a.operatorEq b = true → b.operatorEq c = true → a.operatorEq c = true

/-- Of the laws only reflexivity fails, and only for an address without a family. -/
theorem equalityLaws_iff (ha : a.Built) (hb : b.Built) (hc : c.Built) :
    EqualityLaws a b c ↔ a.valid = true := by
  have ha := ha.oneFamily
  have hb := hb.oneFamily
  have hc := hc.oneFamily
  constructor
  · intro h
    obtain ⟨e, he, _⟩ := (operatorEq_iff_endpoint ha ha).mp h.refl
    exact valid_iff.mpr ⟨e, he⟩
  · intro hvalid
    obtain ⟨e, he⟩ := valid_iff.mp hvalid
    refine ⟨ha, (operatorEq_iff_endpoint ha ha).mpr ⟨e, he, he⟩, fun hab => ?_, fun hab hbc => ?_⟩
    · obtain ⟨e', hae, hbe⟩ := (operatorEq_iff_endpoint ha hb).mp hab
      exact (operatorEq_iff_endpoint hb ha).mpr ⟨e', hbe, hae⟩
    · obtain ⟨e', hae, hbe⟩ := (operatorEq_iff_endpoint ha hb).mp hab
      obtain ⟨e'', hbe', hce⟩ := (operatorEq_iff_endpoint hb hc).mp hbc
      have hsame : e' = e'' := Option.some.inj (hbe.symm.trans hbe')
      exact (operatorEq_iff_endpoint ha hc).mpr ⟨e', hae, hsame ▸ hce⟩

private def loopback : IPAddress := ofSockaddrIn ⟨afInet, htons 7, 0x0100007f, 0⟩

theorem equalityLaws_iff_loopback : EqualityLaws loopback loopback {} :=
  (equalityLaws_iff (.ofSockaddrIn _) (.ofSockaddrIn _) .default).mpr rfl

/-- The source address of a stream message is not equal to itself. -/
theorem default_not_equal_to_itself : ¬EqualityLaws {} {} {} := by
  intro h
  cases h.refl

end IPAddress

end Iuring
