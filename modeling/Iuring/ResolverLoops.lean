import Iuring.ResolverReentry

namespace Iuring

open Lib Lib.Hex

namespace Notification

section Prefix

variable {α : Type} {f : α → α} {xs : List α} {x : α} {c : Nat}

/-- The list with its first `c` elements mapped. -/
def mapFirst (f : α → α) (c : Nat) (xs : List α) : List α := (xs.take c).map f ++ xs.drop c

theorem take_succ_of_getElem? (h : xs[c]? = some x) : xs.take (c + 1) = xs.take c ++ [x] := by
  rw [List.take_add_one, h]
  rfl

theorem drop_of_getElem? (h : xs[c]? = some x) : xs.drop c = x :: xs.drop (c + 1) := by
  obtain ⟨hlt, rfl⟩ := List.getElem?_eq_some_iff.mp h
  exact List.drop_eq_getElem_cons hlt

theorem getElem?_mapFirst (f : α → α) (c : Nat) (xs : List α) : (mapFirst f c xs)[c]? = xs[c]? := by
  obtain hlt | hle := Nat.lt_or_ge c xs.length
  · have hlen : ((xs.take c).map f).length = c := by
      rw [List.length_map, List.length_take, Nat.min_eq_left (Nat.le_of_lt hlt)]
    rw [mapFirst, List.getElem?_append_right (Nat.le_of_eq hlen), hlen, Nat.sub_self,
      List.getElem?_drop, Nat.add_zero]
  · have hshort : (mapFirst f c xs).length ≤ c := by
      simp only [mapFirst, List.length_append, List.length_map, List.length_take, List.length_drop]
      omega
    rw [List.getElem?_eq_none hshort, List.getElem?_eq_none hle]

theorem getElem?_mapFirst_succ (f : α → α) (h : xs[c]? = some x) :
    (mapFirst f (c + 1) xs)[c]? = some (f x) := by
  have hlt := (List.getElem?_eq_some_iff.mp h).1
  have hlen : c < ((xs.take (c + 1)).map f).length := by
    rw [List.length_map, List.length_take, Nat.min_eq_left hlt]
    exact Nat.lt_succ_self c
  rw [mapFirst, List.getElem?_append_left hlen, List.getElem?_map,
    List.getElem?_take_of_lt (Nat.lt_succ_self c), h, Option.map_some]

theorem set_mapFirst (h : xs[c]? = some x) :
    (mapFirst f c xs).set c (f x) = mapFirst f (c + 1) xs := by
  have hlt := (List.getElem?_eq_some_iff.mp h).1
  have hlen : ((xs.take c).map f).length = c := by
    rw [List.length_map, List.length_take, Nat.min_eq_left (Nat.le_of_lt hlt)]
  rw [mapFirst, List.set_append_right _ _ (Nat.le_of_eq hlen), hlen, Nat.sub_self,
    drop_of_getElem? h, List.set_cons_zero, mapFirst, take_succ_of_getElem? h, List.map_append,
    List.append_assoc]
  rfl

theorem mapFirst_succ_of_fixed (h : xs[c]? = some x) (hfixed : f x = x) :
    mapFirst f (c + 1) xs = mapFirst f c xs := by
  rw [mapFirst, take_succ_of_getElem? h, List.map_append, List.append_assoc, mapFirst,
    drop_of_getElem? h, List.map_singleton, hfixed]
  rfl

end Prefix

variable {inetPton : IPAddress.InetPton} {ptr : RequestPtr} {arResult : Option (List Addrinfo)}
  {a : Action} {s t : Notification} {r : Resolver} {c d : Nat} {it : RequestInfo}

theorem triggerOne_match (h : it.request = some ptr) :
    (Resolver.triggerOne ptr arResult it).2 =
      it.handlers.map fun handler => (handler, result arResult) := by
  cases arResult <;> simp [Resolver.triggerOne, h, result]

theorem triggerOne_other (h : it.request ≠ some ptr) :
    Resolver.triggerOne ptr arResult it = (it, []) := by
  cases hreq : it.request with
  | none => simp [Resolver.triggerOne, hreq]
  | some request =>
    have hne : request ≠ ptr := fun heq => h (hreq.trans (congrArg some heq))
    simp [Resolver.triggerOne, hreq, hne]

/-- The resolver when the outer loop has set its mark on the first `table` entries
and called the handlers of the first `c`, and then made some more calls. -/
def reached (r : Resolver) (ptr : RequestPtr) (arResult : Option (List Addrinfo)) (table c : Nat)
    (more : List (HandlerFn × ResolveHostnameArg)) : Resolver :=
  { r with
    requests := mapFirst (fun it => (Resolver.triggerOne ptr arResult it).1) table r.requests
    calls := r.calls ++
      ((r.requests.take c).flatMap (fun it => (Resolver.triggerOne ptr arResult it).2) ++ more) }

theorem flatMap_take_succ {β : Type} (g : RequestInfo → List β) (hit : r.requests[c]? = some it) :
    (r.requests.take (c + 1)).flatMap g = (r.requests.take c).flatMap g ++ g it := by
  rw [take_succ_of_getElem? hit, List.flatMap_append, List.flatMap_singleton]

theorem reached_append (table : Nat) (more extra : List (HandlerFn × ResolveHostnameArg)) :
    reached r ptr arResult table c (more ++ extra) =
      { reached r ptr arResult table c more with
        calls := (reached r ptr arResult table c more).calls ++ extra } := by
  simp only [reached, List.append_assoc]

theorem reached_other (hit : r.requests[c]? = some it) (hreq : it.request ≠ some ptr) :
    reached r ptr arResult (c + 1) (c + 1) [] = reached r ptr arResult c c [] := by
  have hone : Resolver.triggerOne ptr arResult it = (it, []) := triggerOne_other hreq
  rw [reached, mapFirst_succ_of_fixed hit (congrArg Prod.fst hone), flatMap_take_succ _ hit, hone,
    List.append_nil]
  rfl

theorem reached_all (hend : r.requests[c]? = none) :
    reached r ptr arResult c c [] = r.triggerHostnameResolveCallbacks ptr arResult := by
  have hlen := List.getElem?_eq_none_iff.mp hend
  rw [reached, mapFirst, List.take_of_length_le hlen, List.drop_of_length_le hlen, List.append_nil,
    List.append_nil]
  rfl

theorem reached_handlers (hit : r.requests[c]? = some it) (hreq : it.request = some ptr) :
    reached r ptr arResult (c + 1) c
        (it.handlers.map fun handler => (handler, result arResult)) =
      reached r ptr arResult (c + 1) (c + 1) [] := by
  rw [reached, reached, flatMap_take_succ _ hit, triggerOne_match hreq, List.append_nil]

/-- Where the one step of the resolver has got to at each position of the loops. -/
inductive Follows (r : Resolver) (ptr : RequestPtr) (arResult : Option (List Addrinfo)) :
    LoopPosition → Resolver → Prop
  | entry (c : Nat) : Follows r ptr arResult (.entry c) (reached r ptr arResult c c [])
  | handler (c d : Nat) (it : RequestInfo) (hit : r.requests[c]? = some it)
      (hreq : it.request = some ptr) :
      Follows r ptr arResult (.handler c d) (reached r ptr arResult (c + 1) c
        ((it.handlers.take d).map fun handler => (handler, result arResult)))
  | finished :
      Follows r ptr arResult .finished (r.triggerHostnameResolveCallbacks ptr arResult)

theorem Follows.proceed (h : Follows r ptr arResult s.position s.resolver) :
    Follows r ptr arResult (s.proceed ptr arResult).position (s.proceed ptr arResult).resolver := by
  generalize hpos : s.position = position at h
  generalize hresolver : s.resolver = resolver at h
  cases h with
  | finished =>
    rw [proceed_finished hpos, hpos, hresolver]
    exact .finished
  | entry c =>
    have hget : s.resolver.requests[c]? = r.requests[c]? := hresolver ▸ getElem?_mapFirst _ _ _
    cases hit : r.requests[c]? with
    | none =>
      rw [proceed_end hpos (hget.trans hit), hresolver, reached_all hit]
      exact .finished
    | some it =>
      by_cases hreq : it.request = some ptr
      · rw [proceed_enter hpos (hget.trans hit) hreq, hresolver]
        have hset : (reached r ptr arResult c c []).requests.set c
            (Resolver.triggerOne ptr arResult it).1 = (reached r ptr arResult (c + 1) c []).requests :=
          set_mapFirst hit
        rw [hset]
        exact .handler c 0 it hit hreq
      · rw [proceed_skip hpos (hget.trans hit) hreq, hresolver, ← reached_other hit hreq]
        exact .entry (c + 1)
  | handler c d it hit hreq =>
    have hget : s.resolver.requests[c]? = some (Resolver.triggerOne ptr arResult it).1 :=
      hresolver ▸ getElem?_mapFirst_succ _ hit
    have hbind : (s.resolver.requests[c]?.bind fun it => it.handlers[d]?) = it.handlers[d]? := by
      rw [hget, Option.bind_some, Resolver.triggerOne_handlers]
    cases hhandler : it.handlers[d]? with
    | none =>
      rw [proceed_leave hpos (hbind.trans hhandler), hresolver,
        List.take_of_length_le (List.getElem?_eq_none_iff.mp hhandler), reached_handlers hit hreq]
      exact .entry (c + 1)
    | some handler =>
      rw [proceed_call hpos (hbind.trans hhandler), hresolver]
      have hnext : Follows r ptr arResult _ _ := .handler c (d + 1) it hit hreq
      rw [take_succ_of_getElem? hhandler, List.map_append, reached_append] at hnext
      exact hnext

/-- The handlers only look at the result. -/
def Silent (_ : Notification) : Action → Prop
  | .resolveHostname _ _ _ _ _ => False
  | .proceed | .handlerReturns => True

theorem Follows.step (h : Follows r ptr arResult s.position s.resolver) (ha : Silent s a)
    (hs : Notification.step inetPton ptr arResult a s = .ok t) :
    Follows r ptr arResult t.position t.resolver := by
  cases a with
  | resolveHostname => exact ha.elim
  | proceed =>
    obtain ⟨_, _, hs⟩ := Checked.bind_eq_ok.mp hs
    cases hs
    exact h.proceed
  | handlerReturns =>
    obtain ⟨_, _, hs⟩ := Checked.bind_eq_ok.mp hs
    cases hs
    exact h

/-- With handlers that do not use the resolver the two loops do what the one
step of the resolver does. -/
theorem loops_refine_trigger
    (hr : Transition.Reaches (step inetPton ptr arResult) Silent (start r) s)
    (hpos : s.position = .finished) :
    s.resolver = r.triggerHostnameResolveCallbacks ptr arResult := by
  have hstart : Follows r ptr arResult (start r).position (start r).resolver := by
    have hentry : Follows r ptr arResult _ _ := .entry 0
    rw [reached, mapFirst, List.take_zero, List.map_nil, List.nil_append, List.drop_zero,
      List.flatMap_nil, List.nil_append, List.append_nil] at hentry
    exact hentry
  have hfollows : Follows r ptr arResult s.position s.resolver :=
    hr.invariant (I := fun s => Follows r ptr arResult s.position s.resolver)
      (fun _ _ _ h ha hs => h.step ha hs) hstart
  rw [hpos] at hfollows
  generalize s.resolver = resolver at hfollows
  cases hfollows
  rfl

instance (s : Notification) : DecidablePred (Silent s)
  | .resolveHostname _ _ _ _ _ => isFalse id
  | .proceed | .handlerReturns => isTrue trivial

private def noAddress : IPAddress.InetPton := ⟨fun _ => none, fun _ => none⟩

private def sqlHost : StdString := ⟨['s', 'q', 'l'].map chr, by decide⟩

private def wwwHost : StdString := ⟨['w', 'w', 'w'].map chr, by decide⟩

private def sharedLookup : Resolver :=
  ⟨[⟨sqlHost, some 1, [7, 8]⟩, ⟨wwwHost, some 2, [9]⟩, ⟨sqlHost, some 1, [7]⟩], [1, 2], [], []⟩

/-- Two entries wait for the lookup that failed, and a third does not. -/
theorem loops_refine_trigger_failed : ∃ s : Notification, s.position = .finished ∧
    s.resolver = sharedLookup.triggerHostnameResolveCallbacks 1 none ∧
      s.resolver.calls.map Prod.fst = [7, 8, 7] := by
  obtain ⟨s, hr, hpos⟩ := Transition.reaches_of_leads (step noAddress 1 none) Silent
    (fun s => s.position = .finished)
    [.proceed, .proceed, .handlerReturns, .proceed, .handlerReturns, .proceed, .proceed, .proceed,
      .proceed, .handlerReturns, .proceed, .proceed] (start sharedLookup) (by decide)
  have hsame := loops_refine_trigger hr hpos
  exact ⟨s, hpos, hsame, congrArg (fun r => r.calls.map Prod.fst) hsame⟩

end Notification

end Iuring
