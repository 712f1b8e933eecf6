import Iuring.AddressDecoding
import Mathlib.Order.RelClasses

namespace Iuring

open Lib Lib.Memory

namespace IPAddress

/-- The two words that an address is folded into, the low one first. -/
def folded (a : IPAddress) : BitVec 32 × BitVec 32 :=
  match a.in4, a.in6 with
  | some sa, _ => (sa.sinAddr, 0)
  | none, some sa => (u6Addr32 sa 0 ||| u6Addr32 sa 2, u6Addr32 sa 1 ||| u6Addr32 sa 3)
  | none, none => (0, 0)

/-- The same address of the same family with the same port. -/
inductive SameEndpoint : IPAddress → IPAddress → Prop
  | ipv4 (v1 v2 : SockaddrIn) (hport : v1.sinPort = v2.sinPort) (haddr : v1.sinAddr = v2.sinAddr) :
      SameEndpoint (ofSockaddrIn v1) (ofSockaddrIn v2)
  | ipv6 (v1 v2 : SockaddrIn6) (hport : v1.sin6Port = v2.sin6Port)
      (haddr : v1.sin6Addr = v2.sin6Addr) : SameEndpoint (ofSockaddrIn6 v1) (ofSockaddrIn6 v2)

/-- operator< holds of the two addresses. -/
def Less (a b : IPAddress) : Prop := a.operatorLt b = .ok true

instance (a b : IPAddress) : Decidable (Less a b) := inferInstanceAs (Decidable (_ = _))

variable {a b : IPAddress}

theorem or_shiftLeft (x y z w : BitVec 32) :
    x.setWidth 64 <<< 0 ||| y.setWidth 64 <<< 32 ||| z.setWidth 64 <<< 0 |||
      w.setWidth 64 <<< 32 = (y ||| w) ++ (x ||| z) := by
  apply BitVec.eq_of_getLsbD_eq
  intro i hi
  rw [show ((y ||| w) ++ (x ||| z) : BitVec 64).getLsbD i = _ from BitVec.getLsbD_append]
  simp only [BitVec.getLsbD_or, BitVec.getLsbD_shiftLeft, BitVec.getLsbD_setWidth]
  by_cases h : i < 32
  · simp [h, hi]
  · have hhi : i - 32 < 64 := by omega
    have hx : x.getLsbD i = false := BitVec.getLsbD_of_ge x i (Nat.le_of_not_lt h)
    have hz : z.getLsbD i = false := BitVec.getLsbD_of_ge z i (Nat.le_of_not_lt h)
    simp [h, hi, hhi, hx, hz]

theorem getHash_eq (ha : a.Proper) : a.getHash = .ok (a.folded.2 ++ a.folded.1) := by
  cases ha with
  | ipv4 sa _ =>
    have hz : sa.sinAddr.setWidth 64 = (0 : BitVec 32) ++ sa.sinAddr := by
      simpa using or_shiftLeft sa.sinAddr 0 0 0
    exact congrArg Except.ok hz
  | ipv6 sa _ => exact congrArg Except.ok (or_shiftLeft _ _ _ _)

/-- The hash as a number. -/
def rank (a : IPAddress) : Nat := (a.folded.2 ++ a.folded.1).toNat

theorem less_iff (ha : a.Proper) (hb : b.Proper) : Less a b ↔ a.rank < b.rank := by
  rw [Less, operatorLt]
  rw [getHash_eq ha, getHash_eq hb, Checked.bind_ok, Checked.bind_ok, Checked.pure_eq_ok,
    decide_eq_true_iff]
  exact BitVec.lt_def

theorem rank_eq_iff : a.rank = b.rank ↔ a.folded = b.folded := by
  constructor
  · intro h
    have happ := BitVec.eq_of_toNat_eq h
    have hlo := congrArg (fun v => v.extractLsb' 0 32) happ
    have hhi := congrArg (fun v => v.extractLsb' 32 32) happ
    simp only [BitVec.extractLsb'_append_eq_right, BitVec.extractLsb'_append_eq_left] at hlo hhi
    exact Prod.ext hlo hhi
  · intro h
    rw [rank, rank, h]

theorem incomparable_iff (ha : a.Proper) (hb : b.Proper) :
    ¬Less a b ∧ ¬Less b a ↔ a.folded = b.folded := by
  rw [less_iff ha hb, less_iff hb ha, ← rank_eq_iff]
  omega

theorem operatorEq_iff (ha : a.Proper) (hb : b.Proper) :
    a.operatorEq b = true ↔ SameEndpoint a b := by
  constructor
  · intro h
    cases ha with
    | ipv4 v1 h1 =>
      cases hb with
      | ipv4 v2 h2 =>
        simp only [operatorEq, ofSockaddrIn, Bool.and_eq_true, decide_eq_true_eq] at h
        exact .ipv4 v1 v2 h.1.1 h.1.2
      | ipv6 v2 _ => cases h
    | ipv6 v1 h1 =>
      cases hb with
      | ipv4 v2 _ => cases h
      | ipv6 v2 h2 =>
        simp only [operatorEq, ofSockaddrIn6, Bool.and_eq_true, decide_eq_true_eq] at h
        exact .ipv6 v1 v2 h.1.1 h.1.2
  · intro h
    cases h with
    | ipv4 v1 v2 hport haddr =>
      cases ha with
      | ipv4 _ h1 =>
        cases hb with
        | ipv4 _ h2 => simp [operatorEq, ofSockaddrIn, hport, haddr, h1, h2]
    | ipv6 v1 v2 hport haddr =>
      cases ha with
      | ipv6 _ h1 =>
        cases hb with
        | ipv6 _ h2 => simp [operatorEq, ofSockaddrIn6, hport, haddr, h1, h2]

theorem SameEndpoint.folded (h : SameEndpoint a b) : a.folded = b.folded := by
  cases h with
  | ipv4 v1 v2 _ haddr => simp [IPAddress.folded, ofSockaddrIn, haddr]
  | ipv6 v1 v2 _ haddr => simp [IPAddress.folded, ofSockaddrIn6, u6Addr32, haddr]

theorem less_isStrictWeakOrder :
    IsStrictWeakOrder {a : IPAddress // a.Proper} (fun a b => Less a.1 b.1) := by
  have heq : (fun a b : {a : IPAddress // a.Proper} => Less a.1 b.1) =
      Order.Preimage (fun a => a.1.rank) (· < ·) := by
    funext a b
    exact propext (less_iff a.2 b.2)
  have hnat : IsStrictWeakOrder Nat (· < ·) := isStrictWeakOrder_of_isOrderConnected
  rw [heq]
  infer_instance

/-- operator< is a strict weak order, and it tells two addresses apart as
operator== does exactly if different endpoints fold to different words. -/
theorem order_agrees_iff (ha : a.Proper) (hb : b.Proper) :
    IsStrictWeakOrder {a : IPAddress // a.Proper} (fun a b => Less a.1 b.1) ∧
      ((¬Less a b ∧ ¬Less b a ↔ a.operatorEq b = true) ↔
        (a.folded = b.folded → SameEndpoint a b)) := by
  refine ⟨less_isStrictWeakOrder, ?_⟩
  rw [incomparable_iff ha hb, operatorEq_iff ha hb]
  exact ⟨Iff.mp, fun h => ⟨h, SameEndpoint.folded⟩⟩

private def web (addr : BitVec 32) (port : SocketPortID) : IPAddress :=
  ofSockaddrIn ⟨afInet, htons port, addr, 0⟩

theorem order_agrees_iff_hosts : ¬Less (web 0x04030201 80) (web 0x05030201 80) ∧
    ¬Less (web 0x05030201 80) (web 0x04030201 80) ↔
      (web 0x04030201 80).operatorEq (web 0x05030201 80) = true :=
  (order_agrees_iff (.ipv4 _ rfl) (.ipv4 _ rfl)).2.mpr fun h => absurd h (by decide)

/-- One host with two ports is one key of a map. -/
theorem ports_not_ordered : ¬Less (web 0x04030201 80) (web 0x04030201 443) ∧
    ¬Less (web 0x04030201 443) (web 0x04030201 80) ∧
      (web 0x04030201 80).operatorEq (web 0x04030201 443) = false := by
  decide

end IPAddress

end Iuring
