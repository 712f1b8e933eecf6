import Iuring.AddressText
import Iuring.MacAddress

namespace Iuring

open Lib Lib.Memory Lib.Hex

/-- A node of the list that getifaddrs returns: the name of an interface and one of its
addresses, when it has one. -/
structure Ifaddrs where
  ifaName : List Byte
  ifaAddr : Option (Nat → Byte)

structure NetworkAdapter where
  interfaceName : List Byte
  interfaceIp4 : Option StdString := none
  interfaceIp6 : Option StdString := none
  macOpt : Option MacAddress := none

namespace NetworkAdapter

open IPAddress (Inet6 toHumanReadableIpString ofSockaddrIn ofSockaddrIn6)

def ip4Text (x : Inet6) (sa : Nat → Byte) : StdString :=
  (ofSockaddrIn (.load sa 0)).toHumanReadableIpString x

def ip6Text (x : Inet6) (sa : Nat → Byte) : StdString :=
  (ofSockaddrIn6 (.load sa 0)).toHumanReadableIpString x

/-- One round of the loop of try_get_interface_ip, with the flag that it returns. -/
def visit (x : Inet6) (found : Bool × NetworkAdapter) (ifa : Ifaddrs) : Bool × NetworkAdapter :=
  match ifa.ifaAddr with
  | none => found
  | some sa =>
    if ifa.ifaName ≠ found.2.interfaceName then found
    else if load16 sa 0 = afInet then
      (true, { found.2 with interfaceIp4 := some (ip4Text x sa) })
    else if load16 sa 0 = afInet6 then
      (found.1, { found.2 with interfaceIp6 := some (ip6Text x sa) })
    else found

/-- The argument is what getifaddrs answers, when it does not fail. -/
def tryGetInterfaceIp (x : Inet6) (ifaddr : Option (List Ifaddrs)) (a : NetworkAdapter) :
    Result (Bool × NetworkAdapter) := do
  assert (a.interfaceName ≠ [])
  match ifaddr with
  | none => abort
  | some list => return list.foldl (visit x) (false, a)

/-- The loop with the answers of getifaddrs so far; there is no result yet while it asks again. -/
def retrieveInterfaceIp (x : Inet6) : List (Option (List Ifaddrs)) → NetworkAdapter →
    Result (Option NetworkAdapter)
  | [], a => .ok (if a.interfaceIp4.isSome then some a else none)
  | ifaddr :: answers, a =>
    if a.interfaceIp4.isSome then .ok (some a)
    else do
      let (_, a) ← a.tryGetInterfaceIp x ifaddr
      retrieveInterfaceIp x answers a

/-- The socket addresses of one family that the list has for an interface. -/
def addressesOf (name : List Byte) (family : BitVec 16) (list : List Ifaddrs) : List (Nat → Byte) :=
  (list.filter fun ifa => ifa.ifaName = name).filterMap fun ifa =>
    ifa.ifaAddr.filter fun sa => load16 sa 0 = family

/-- What the adapter knows after a list: the last address of each family that it has. -/
def learn (x : Inet6) (list : List Ifaddrs) (a : NetworkAdapter) : NetworkAdapter :=
  { a with
    interfaceIp4 := ((addressesOf a.interfaceName afInet list).getLast?.map (ip4Text x)).or
      a.interfaceIp4
    interfaceIp6 := ((addressesOf a.interfaceName afInet6 list).getLast?.map (ip6Text x)).or
      a.interfaceIp6 }

def hasIp4 (list : List Ifaddrs) (a : NetworkAdapter) : Bool :=
  !(addressesOf a.interfaceName afInet list).isEmpty

variable {x : Inet6} {a b : NetworkAdapter} {list more : List Ifaddrs}

theorem addressesOf_append (name : List Byte) (family : BitVec 16) (list more : List Ifaddrs) :
    addressesOf name family (list ++ more) =
      addressesOf name family list ++ addressesOf name family more := by
  rw [addressesOf, List.filter_append, List.filterMap_append]
  rfl

theorem addressesOf_flatten {name : List Byte} {family : BitVec 16} {lists : List (List Ifaddrs)}
    (h : ∀ list ∈ lists, addressesOf name family list = []) :
    addressesOf name family lists.flatten = [] := by
  induction lists with
  | nil => rfl
  | cons list lists ih =>
    obtain ⟨hlist, hlists⟩ := List.forall_mem_cons.mp h
    rw [List.flatten_cons, addressesOf_append, hlist, ih hlists, List.append_nil]

theorem learn_append (x : Inet6) (list more : List Ifaddrs) (a : NetworkAdapter) :
    learn x (list ++ more) a = learn x more (learn x list a) := by
  simp only [learn, addressesOf_append, List.getLast?_append, Option.map_or, Option.or_assoc]

theorem hasIp4_append (list more : List Ifaddrs) (a : NetworkAdapter) :
    hasIp4 (list ++ more) a = (hasIp4 list a || hasIp4 more a) := by
  rw [hasIp4, hasIp4, hasIp4, addressesOf_append]
  cases addressesOf a.interfaceName afInet list <;> rfl

theorem addressesOf_single (name : List Byte) (family : BitVec 16) (ifa : Ifaddrs) :
    addressesOf name family [ifa] = if ifa.ifaName = name then
      (ifa.ifaAddr.filter fun sa => load16 sa 0 = family).toList else [] := by
  by_cases hname : ifa.ifaName = name
  · rw [addressesOf, List.filter_cons, if_pos (decide_eq_true hname), if_pos hname, List.filter_nil,
      List.filterMap_cons]
    cases ifa.ifaAddr.filter fun sa => load16 sa 0 = family <;> rfl
  · rw [addressesOf, List.filter_cons, if_neg fun h => hname (of_decide_eq_true h), if_neg hname]
    rfl

theorem visit_eq (x : Inet6) (found : Bool × NetworkAdapter) (ifa : Ifaddrs) :
    visit x found ifa = (found.1 || hasIp4 [ifa] found.2, learn x [ifa] found.2) := by
  have hne : afInet ≠ afInet6 := by decide
  obtain ⟨success, a⟩ := found
  rw [visit, hasIp4, learn, addressesOf_single, addressesOf_single]
  cases haddr : ifa.ifaAddr with
  | none => simp
  | some sa =>
    by_cases hname : ifa.ifaName = a.interfaceName
    · by_cases h4 : load16 sa 0 = afInet
      · simp [hname, h4, hne, Option.filter_some]
      · by_cases h6 : load16 sa 0 = afInet6 <;>
          simp [hname, h4, h6, Ne.symm hne, Option.filter_some]
    · simp [hname]

/-- The loop over a list finds what the list has for the interface. -/
theorem foldl_visit (x : Inet6) (list : List Ifaddrs) (found : Bool × NetworkAdapter) :
    list.foldl (visit x) found = (found.1 || hasIp4 list found.2, learn x list found.2) := by
  induction list generalizing found with
  | nil =>
    obtain ⟨success, a⟩ := found
    exact Prod.ext (Bool.or_false success).symm rfl
  | cons ifa list ih =>
    have hsplit : ifa :: list = [ifa] ++ list := rfl
    rw [List.foldl_cons, ih, visit_eq, hsplit, learn_append, hasIp4_append, Bool.or_assoc]
    rfl

theorem interfaceIp4_learn (x : Inet6) (list : List Ifaddrs) (h : a.interfaceIp4 = none) :
    (learn x list a).interfaceIp4 =
      (addressesOf a.interfaceName afInet list).getLast?.map (ip4Text x) := by
  rw [learn, h, Option.or_none]

theorem interfaceIp4_learn_eq_none (h : a.interfaceIp4 = none) :
    (learn x list a).interfaceIp4 = none ↔ addressesOf a.interfaceName afInet list = [] := by
  rw [interfaceIp4_learn x list h, Option.map_eq_none_iff, List.getLast?_eq_none_iff]

/-- One more answer, while there is no IPv4 address yet. -/
theorem retrieve_cons (h : a.interfaceIp4 = none) (ifaddr : Option (List Ifaddrs))
    (answers : List (Option (List Ifaddrs))) {r : Option NetworkAdapter} :
    retrieveInterfaceIp x (ifaddr :: answers) a = .ok r ↔ a.interfaceName ≠ [] ∧
      ∃ list, ifaddr = some list ∧ retrieveInterfaceIp x answers (learn x list a) = .ok r := by
  have hasks : ¬a.interfaceIp4.isSome = true := by
    rw [h]
    exact Bool.false_ne_true
  rw [retrieveInterfaceIp, if_neg hasks, Checked.bind_eq_ok]
  constructor
  · rintro ⟨⟨success, a'⟩, htry, hr⟩
    obtain ⟨_, hname, htry⟩ := Checked.bind_eq_ok.mp htry
    rw [assert_eq_ok] at hname
    cases ifaddr with
    | none => cases htry
    | some list =>
      have hfound : list.foldl (visit x) (false, a) = (success, a') := Checked.pure_eq_ok.mp htry
      rw [foldl_visit] at hfound
      cases hfound
      exact ⟨hname, list, rfl, hr⟩
  · rintro ⟨hname, list, rfl, hr⟩
    refine ⟨(hasIp4 list a, learn x list a), ?_, hr⟩
    rw [tryGetInterfaceIp, assert, Checked.ensure, if_pos hname, Checked.bind_ok]
    exact Checked.pure_eq_ok.mpr (by rw [foldl_visit, Bool.false_or])

theorem retrieve_done (h : a.interfaceIp4 ≠ none) (answers : List (Option (List Ifaddrs))) :
    retrieveInterfaceIp x answers a = .ok (some a) := by
  have hdone : a.interfaceIp4.isSome = true := Option.isSome_iff_ne_none.mpr h
  cases answers with
  | nil => rw [retrieveInterfaceIp, if_pos hdone]
  | cons ifaddr answers => rw [retrieveInterfaceIp, if_pos hdone]

/-- The loop ends with the first answer that has an IPv4 address for the interface, the last
one of which it takes; of the IPv6 addresses it takes the last in all answers up to that. -/
theorem retrieved_iff (h : a.interfaceIp4 = none) (answers : List (Option (List Ifaddrs))) :
    retrieveInterfaceIp x answers a = .ok (some b) ↔ a.interfaceName ≠ [] ∧
      ∃ (before : List (List Ifaddrs)) (list : List Ifaddrs) (after : List (Option (List Ifaddrs))),
        answers = before.map some ++ some list :: after ∧
        (∀ earlier ∈ before, addressesOf a.interfaceName afInet earlier = []) ∧
        addressesOf a.interfaceName afInet list ≠ [] ∧ b = learn x (before.flatten ++ list) a := by
  induction answers generalizing a with
  | nil =>
    have hnone : ¬a.interfaceIp4.isSome = true := by
      rw [h]
      exact Bool.false_ne_true
    rw [retrieveInterfaceIp, if_neg hnone]
    refine iff_of_false (fun he => by cases he) ?_
    rintro ⟨_, before, list, after, hnil, _⟩
    exact absurd hnil.symm (List.append_ne_nil_of_right_ne_nil _ (List.cons_ne_nil _ _))
  | cons ifaddr answers ih =>
    rw [retrieve_cons h]
    refine and_congr_right fun hname => ?_
    constructor
    · rintro ⟨list, rfl, hr⟩
      by_cases hlist : addressesOf a.interfaceName afInet list = []
      · obtain ⟨_, before, last, after, rfl, hbefore, hlast, rfl⟩ :=
          (ih ((interfaceIp4_learn_eq_none h).mpr hlist)).mp hr
        refine ⟨list :: before, last, after, rfl, ?_, hlast, ?_⟩
        · exact List.forall_mem_cons.mpr ⟨hlist, hbefore⟩
        · rw [List.flatten_cons, List.append_assoc, learn_append x list]
      · have hknown : (learn x list a).interfaceIp4 ≠ none :=
          fun he => hlist ((interfaceIp4_learn_eq_none h).mp he)
        rw [retrieve_done hknown] at hr
        cases hr
        exact ⟨[], list, answers, rfl, List.forall_mem_nil _, hlist, rfl⟩
    · rintro ⟨before, list, after, heq, hbefore, hlist, rfl⟩
      cases before with
      | nil =>
        obtain ⟨rfl, rfl⟩ := List.cons_eq_cons.mp heq
        have hknown : (learn x list a).interfaceIp4 ≠ none :=
          fun he => hlist ((interfaceIp4_learn_eq_none h).mp he)
        exact ⟨list, rfl, retrieve_done hknown _⟩
      | cons first before =>
        obtain ⟨rfl, rfl⟩ := List.cons_eq_cons.mp heq
        obtain ⟨hfirst, hbefore⟩ := List.forall_mem_cons.mp hbefore
        refine ⟨first, rfl, (ih ((interfaceIp4_learn_eq_none h).mpr hfirst)).mpr ⟨hname, ?_⟩⟩
        refine ⟨before, list, after, rfl, hbefore, hlist, ?_⟩
        rw [List.flatten_cons, List.append_assoc, learn_append]

/-- As long as no answer has one, the loop goes on asking. -/
theorem still_asking_iff (h : a.interfaceIp4 = none) (answers : List (Option (List Ifaddrs))) :
    retrieveInterfaceIp x answers a = .ok none ↔ (answers = [] ∨ a.interfaceName ≠ []) ∧
      ∃ lists : List (List Ifaddrs), answers = lists.map some ∧
        ∀ list ∈ lists, addressesOf a.interfaceName afInet list = [] := by
  induction answers generalizing a with
  | nil =>
    have hnone : ¬a.interfaceIp4.isSome = true := by
      rw [h]
      exact Bool.false_ne_true
    rw [retrieveInterfaceIp, if_neg hnone]
    exact iff_of_true rfl ⟨.inl rfl, [], rfl, List.forall_mem_nil _⟩
  | cons ifaddr answers ih =>
    rw [retrieve_cons h]
    constructor
    · rintro ⟨hname, list, rfl, hr⟩
      by_cases hlist : addressesOf a.interfaceName afInet list = []
      · obtain ⟨_, lists, rfl, hlists⟩ := (ih ((interfaceIp4_learn_eq_none h).mpr hlist)).mp hr
        exact ⟨.inr hname, list :: lists, rfl, List.forall_mem_cons.mpr ⟨hlist, hlists⟩⟩
      · have hknown : (learn x list a).interfaceIp4 ≠ none :=
          fun he => hlist ((interfaceIp4_learn_eq_none h).mp he)
        rw [retrieve_done hknown] at hr
        cases hr
    · rintro ⟨hnamed, lists, heq, hlists⟩
      have hname := hnamed.resolve_left (List.cons_ne_nil _ _)
      cases lists with
      | nil => cases heq
      | cons list lists =>
        obtain ⟨rfl, rfl⟩ := List.cons_eq_cons.mp heq
        obtain ⟨hlist, hlists⟩ := List.forall_mem_cons.mp hlists
        refine ⟨hname, list, rfl, (ih ((interfaceIp4_learn_eq_none h).mpr hlist)).mpr ?_⟩
        exact ⟨.inr hname, lists, rfl, hlists⟩

end NetworkAdapter

end Iuring
