import Iuring.HostnameHandlers

namespace Iuring

open Lib Lib.Hex

/-- Where the two nested loops of a notification stand. -/
inductive LoopPosition
  | entry (i : Nat)
  | handler (i j : Nat)
  | finished
deriving DecidableEq

namespace LoopPosition

/-- The entry over whose handlers the inner loop goes. -/
def current : LoopPosition → Option Nat
  | .handler i _ => some i
  | .entry _ | .finished => none

/-- The sizes of the vectors that the loops go over. -/
def sizes (requests : List RequestInfo) (position : LoopPosition) : Nat × Option Nat :=
  (requests.length,
    position.current.bind fun i => requests[i]?.map fun it => it.handlers.length)

/-- The inner loop has passed the handler at the given place. -/
def Passed (i j : Nat) : LoopPosition → Prop
  | .entry c => i < c
  | .handler c d => i < c ∨ i = c ∧ j < d
  | .finished => True

/-- The outer loop is still to look at the entry. -/
def Ahead (k : Nat) : LoopPosition → Prop
  | .entry c => c ≤ k
  | .handler c _ => c < k
  | .finished => False

end LoopPosition

/-- One run of trigger_hostname_resolve_callbacks: the handlers that have not
returned, the innermost first, the places of those that the loop called, and
whether a vector changed its size under a loop. -/
structure Notification where
  resolver : Resolver
  position : LoopPosition
  running : List HandlerFn
  called : List (Nat × Nat)
  resized : Bool

namespace Notification

/-- What the handlers of the lookup are called with. -/
def result (arResult : Option (List Addrinfo)) : ResolveHostnameArg :=
  match arResult with
  | none => .error .hostnameResolveFailed
  | some res => .ok (Resolver.convertAddresses res)

/-- The next test or call of the two loops. -/
def proceed (ptr : RequestPtr) (arResult : Option (List Addrinfo)) (s : Notification) :
    Notification :=
  match s.position with
  | .entry i =>
    match s.resolver.requests[i]? with
    | none => { s with position := .finished }
    | some it =>
      if it.request = some ptr then
        { s with
          resolver := { s.resolver with
            requests := s.resolver.requests.set i (Resolver.triggerOne ptr arResult it).1 }
          position := .handler i 0 }
      else { s with position := .entry (i + 1) }
  | .handler i j =>
    match s.resolver.requests[i]?.bind fun it => it.handlers[j]? with
    | none => { s with position := .entry (i + 1) }
    | some handler => { s with
        resolver := { s.resolver with calls := s.resolver.calls ++ [(handler, result arResult)] }
        position := .handler i (j + 1)
        running := [handler]
        called := s.called ++ [(i, j)] }
  | .finished => s

/-- What the loops do while no handler runs, and what a running handler can do. -/
inductive Action
  | proceed
  | resolveHostname (sa4 : SockaddrIn) (sa6 : SockaddrIn6) (request : RequestPtr)
      (hostname : StdString) (handler : HandlerFn)
  | handlerReturns

/-- After a vector changed its size under a loop the behaviour is undefined: no
step follows. A literal's handler is called from within resolve_hostname. -/
def step (inetPton : IPAddress.InetPton) (ptr : RequestPtr) (arResult : Option (List Addrinfo)) :
    Action → Notification → Result Notification
  | .proceed, s => do
    Checked.ensure .notEnabled (s.resized = false ∧ s.running = [])
    return s.proceed ptr arResult
  | .resolveHostname sa4 sa6 request hostname handler, s => do
    Checked.ensure .notEnabled (s.resized = false ∧ s.running ≠ [])
    let r ← Resolver.step inetPton (.resolveHostname sa4 sa6 request hostname handler) s.resolver
    return { s with
      resolver := r
      running := match IPAddress.parse inetPton sa4 sa6 hostname with
        | .ok _ => handler :: s.running
        | .error _ => s.running
      resized := s.position.sizes r.requests ≠ s.position.sizes s.resolver.requests }
  | .handlerReturns, s => do
    Checked.ensure .notEnabled (s.resized = false ∧ s.running ≠ [])
    return { s with running := s.running.tail }

def start (r : Resolver) : Notification := ⟨r, .entry 0, [], [], false⟩

/-- The handler asks for an address, or for the hostname of an entry whose
handlers are not being called. -/
def Quiet (inetPton : IPAddress.InetPton) (s : Notification) : Action → Prop
  | .resolveHostname _ _ _ hostname _ => Resolver.IsLiteral inetPton hostname ∨
      ∃ k, s.resolver.requests.findIdx? (fun it => it.hostname = hostname) = some k ∧
        s.position.current ≠ some k
  | .proceed | .handlerReturns => True

instance (inetPton : IPAddress.InetPton) (s : Notification) (a : Action) :
    Decidable (Quiet inetPton s a) :=
  match a with
  | .proceed | .handlerReturns => isTrue trivial
  | .resolveHostname _ _ _ hostname _ =>
    match h : s.resolver.requests.findIdx? (fun it => it.hostname = hostname) with
    | none => decidable_of_iff (Resolver.IsLiteral inetPton hostname) (by simp [Quiet, h])
    | some k =>
      decidable_of_iff (Resolver.IsLiteral inetPton hostname ∨ s.position.current ≠ some k)
        (by simp [Quiet, h])

/-- No loop's vector changed its size, and at the end every handler that the
lookup had at the start was called once. -/
structure Safe (r : Resolver) (ptr : RequestPtr) (s : Notification) : Prop where
  sizes : s.resized = false
  once : s.position = .finished → ∀ i it, r.requests[i]? = some it → it.request = some ptr →
    ∀ j < it.handlers.length, s.called.count (i, j) = 1

end Notification

namespace Resolver

variable {inetPton : IPAddress.InetPton} {sa4 : SockaddrIn} {sa6 : SockaddrIn6}
  {request : RequestPtr} {hostname : StdString} {handler : HandlerFn} {r r' : Resolver}

def addHandler (handler : HandlerFn) (it : RequestInfo) : RequestInfo :=
  { it with handlers := it.handlers ++ [handler] }

/-- The handler goes to the first entry of the hostname. -/
theorem pushHandler_eq (hostname : StdString) (handler : HandlerFn) (rs : List RequestInfo) :
    pushHandler hostname handler rs =
      (rs.findIdx? fun it => it.hostname = hostname).map fun k =>
        rs.modify k (addHandler handler) := by
  induction rs with
  | nil => rfl
  | cons req rest ih =>
    rw [pushHandler, List.findIdx?_cons, ih]
    by_cases hname : req.hostname = hostname
    · simp [hname, addHandler]
    · simp only [hname, decide_false, Bool.false_eq_true, if_false, Option.map_map]
      rfl

/-- The three ways in which resolve_hostname can leave the table. -/
theorem resolve_requests
    (h : step inetPton (.resolveHostname sa4 sa6 request hostname handler) r = .ok r') :
    (IsLiteral inetPton hostname ∧ r'.requests = r.requests) ∨
    (¬IsLiteral inetPton hostname ∧
      ((∃ k, r.requests.findIdx? (fun it => it.hostname = hostname) = some k ∧
        r'.requests = r.requests.modify k (addHandler handler)) ∨
      (r.requests.findIdx? (fun it => it.hostname = hostname) = none ∧
        r'.requests = r.requests ++ [⟨hostname, some request, []⟩]))) := by
  obtain ⟨_, _, h⟩ := Checked.bind_eq_ok.mp h
  cases h
  rw [resolveHostname]
  obtain ⟨hlit, addr, hparse⟩ | ⟨hlit, e, hparse⟩ := parse_cases inetPton sa4 sa6 hostname
  · exact .inl ⟨hlit, by simp only [hparse]⟩
  · refine .inr ⟨hlit, ?_⟩
    simp only [hparse, pushHandler_eq]
    cases hfind : r.requests.findIdx? (fun it => it.hostname = hostname) with
    | none => exact .inr ⟨rfl, rfl⟩
    | some k => exact .inl ⟨k, rfl, rfl⟩

/-- An entry stays in its place with its request, and its handlers stay in theirs. -/
theorem resolve_keeps
    (h : step inetPton (.resolveHostname sa4 sa6 request hostname handler) r = .ok r') {k : Nat}
    {it : RequestInfo} (hit : r.requests[k]? = some it) : ∃ it', r'.requests[k]? = some it' ∧
      it.handlers.length ≤ it'.handlers.length ∧ it'.request = it.request := by
  obtain ⟨_, hsame⟩ | ⟨_, ⟨n, _, hpush⟩ | ⟨_, hnew⟩⟩ := resolve_requests h
  · exact ⟨it, hsame ▸ hit, Nat.le_refl _, rfl⟩
  · rw [hpush]
    by_cases hnk : n = k
    · subst hnk
      refine ⟨addHandler handler it, ?_, ?_, rfl⟩
      · rw [List.getElem?_modify_eq, hit]
        rfl
      · simp [addHandler]
    · exact ⟨it, (List.getElem?_modify_ne _ _ hnk).trans hit, Nat.le_refl _, rfl⟩
  · rw [hnew]
    have hlt := (List.getElem?_eq_some_iff.mp hit).1
    exact ⟨it, (List.getElem?_append_left hlt).trans hit, Nat.le_refl _, rfl⟩

theorem triggerOne_handlers (ptr : RequestPtr) (arResult : Option (List Addrinfo))
    (it : RequestInfo) : (triggerOne ptr arResult it).1.handlers = it.handlers := by
  unfold triggerOne
  split
  · rfl
  · split
    · rfl
    · split <;> rfl

end Resolver

namespace LoopPosition

variable {requests : List RequestInfo} {position : LoopPosition} {k : Nat}

theorem sizes_append (requests : List RequestInfo) (it : RequestInfo) (position : LoopPosition) :
    position.sizes (requests ++ [it]) ≠ position.sizes requests := by
  intro h
  have hlen := congrArg Prod.fst h
  simp [sizes] at hlen

theorem sizes_modify (hk : k < requests.length) (handler : HandlerFn) :
    position.sizes (requests.modify k (Resolver.addHandler handler)) = position.sizes requests ↔
      position.current ≠ some k := by
  unfold sizes
  rw [List.length_modify, Prod.mk.injEq]
  simp only [true_and]
  cases position.current with
  | none => simp
  | some i =>
    by_cases hik : k = i
    · subst hik
      simp [hk, Resolver.addHandler]
    · have hne : (some i : Option Nat) ≠ some k := fun h => hik (Option.some.inj h).symm
      simp [List.getElem?_modify_ne _ _ hik, hne]

end LoopPosition

namespace Notification

variable {inetPton : IPAddress.InetPton} {ptr : RequestPtr} {arResult : Option (List Addrinfo)}
  {a : Action} {s t : Notification} {r : Resolver}

section Equations

variable {i j : Nat} {it : RequestInfo} {handler : HandlerFn}

theorem proceed_end (hpos : s.position = .entry i) (hit : s.resolver.requests[i]? = none) :
    s.proceed ptr arResult = { s with position := .finished } := by
  simp only [proceed, hpos, hit]

theorem proceed_enter (hpos : s.position = .entry i) (hit : s.resolver.requests[i]? = some it)
    (hreq : it.request = some ptr) : s.proceed ptr arResult = { s with
      resolver := { s.resolver with
        requests := s.resolver.requests.set i (Resolver.triggerOne ptr arResult it).1 }
      position := .handler i 0 } := by
  simp only [proceed, hpos, hit, if_pos hreq]

theorem proceed_skip (hpos : s.position = .entry i) (hit : s.resolver.requests[i]? = some it)
    (hreq : it.request ≠ some ptr) :
    s.proceed ptr arResult = { s with position := .entry (i + 1) } := by
  simp only [proceed, hpos, hit, if_neg hreq]

theorem proceed_leave (hpos : s.position = .handler i j)
    (hend : (s.resolver.requests[i]?.bind fun it => it.handlers[j]?) = none) :
    s.proceed ptr arResult = { s with position := .entry (i + 1) } := by
  simp only [proceed, hpos, hend]

theorem proceed_call (hpos : s.position = .handler i j)
    (hhandler : (s.resolver.requests[i]?.bind fun it => it.handlers[j]?) = some handler) :
    s.proceed ptr arResult = { s with
      resolver := { s.resolver with calls := s.resolver.calls ++ [(handler, result arResult)] }
      position := .handler i (j + 1)
      running := [handler]
      called := s.called ++ [(i, j)] } := by
  simp only [proceed, hpos, hhandler]

theorem proceed_finished (hpos : s.position = .finished) : s.proceed ptr arResult = s := by
  simp only [proceed, hpos]

end Equations

theorem proceed_resized (ptr : RequestPtr) (arResult : Option (List Addrinfo)) (s : Notification) :
    (s.proceed ptr arResult).resized = s.resized := by
  rw [proceed]
  split
  · split
    · rfl
    · split <;> rfl
  · split <;> rfl
  · rfl

/-- A vector changes its size under a loop exactly if the handler is not quiet. -/
theorem step_resized (hs : step inetPton ptr arResult a s = .ok t) :
    s.resized = false ∧ (t.resized = false ↔ Quiet inetPton s a) := by
  cases a with
  | proceed =>
    obtain ⟨_, hfree, hs⟩ := Checked.bind_eq_ok.mp hs
    cases hs
    have hfree := ((Checked.ensure_eq_ok _ _ _).mp hfree).1
    exact ⟨hfree, iff_of_true ((proceed_resized ptr arResult s).trans hfree) trivial⟩
  | handlerReturns =>
    obtain ⟨_, hfree, hs⟩ := Checked.bind_eq_ok.mp hs
    cases hs
    have hfree := ((Checked.ensure_eq_ok _ _ _).mp hfree).1
    exact ⟨hfree, iff_of_true hfree trivial⟩
  | resolveHostname sa4 sa6 request hostname handler =>
    obtain ⟨_, hfree, hs⟩ := Checked.bind_eq_ok.mp hs
    obtain ⟨r, hr, hs⟩ := Checked.bind_eq_ok.mp hs
    cases hs
    refine ⟨((Checked.ensure_eq_ok _ _ _).mp hfree).1, ?_⟩
    simp only [Quiet, decide_eq_false_iff_not, ne_eq, not_not]
    obtain ⟨hlit, hsame⟩ | ⟨hlit, ⟨k, hk, hpush⟩ | ⟨hk, hnew⟩⟩ := Resolver.resolve_requests hr
    · rw [hsame]
      exact iff_of_true rfl (.inl hlit)
    · have hbound := (List.findIdx?_eq_some_iff_findIdx_eq.mp hk).1
      rw [hpush, LoopPosition.sizes_modify hbound]
      simp [hlit, hk]
    · rw [hnew]
      apply iff_of_false (LoopPosition.sizes_append _ _ _)
      simp [hlit, hk]

/-- The table keeps the entries and handlers that it had at the start, and the
loop has called those that it has passed, each of them once. -/
structure Visits (r : Resolver) (ptr : RequestPtr) (s : Notification) : Prop where
  kept : ∀ k it, r.requests[k]? = some it → ∃ it', s.resolver.requests[k]? = some it' ∧
    it.handlers.length ≤ it'.handlers.length ∧ (s.position.Ahead k → it'.request = it.request)
  nodup : s.called.Nodup
  passed : ∀ i j, (i, j) ∈ s.called → s.position.Passed i j
  covered : ∀ i it, r.requests[i]? = some it → it.request = some ptr →
    ∀ j < it.handlers.length, s.position.Passed i j → (i, j) ∈ s.called

theorem start_visits (r : Resolver) (ptr : RequestPtr) : Visits r ptr (start r) where
  kept _ it hit := ⟨it, hit, Nat.le_refl _, fun _ => rfl⟩
  nodup := List.nodup_nil
  passed _ _ hmem := by cases hmem
  covered _ _ _ _ _ _ hpassed := absurd hpassed (Nat.not_lt_zero _)

section Proceed

variable {i j : Nat} {it₀ : RequestInfo}

theorem Visits.keep (h : Visits r ptr s) (position : LoopPosition)
    (hahead : ∀ k, position.Ahead k → s.position.Ahead k) {k : Nat} {it : RequestInfo}
    (hk : r.requests[k]? = some it) : ∃ it', s.resolver.requests[k]? = some it' ∧
      it.handlers.length ≤ it'.handlers.length ∧
      (position.Ahead k → it'.request = it.request) := by
  obtain ⟨it', hk', hlen, hreq⟩ := h.kept k it hk
  exact ⟨it', hk', hlen, fun hnext => hreq (hahead k hnext)⟩

theorem Visits.finish (h : Visits r ptr s) (hpos : s.position = .entry i)
    (hend : s.resolver.requests[i]? = none) : Visits r ptr { s with position := .finished } where
  kept _ _ := by
    apply h.keep .finished
    exact fun _ => False.elim
  nodup := h.nodup
  passed _ _ _ := trivial
  covered k it hk hreq j hj _ := by
    obtain ⟨it', hk', _⟩ := h.kept k it hk
    have hlt := (List.getElem?_eq_some_iff.mp hk').1
    have hle := List.getElem?_eq_none_iff.mp hend
    apply h.covered k it hk hreq j hj
    rw [hpos]
    exact hlt.trans_le hle

theorem Visits.skip (h : Visits r ptr s) (hpos : s.position = .entry i)
    (hit : s.resolver.requests[i]? = some it₀) (hother : it₀.request ≠ some ptr) :
    Visits r ptr { s with position := .entry (i + 1) } where
  kept _ _ := by
    apply h.keep (.entry (i + 1))
    intro k hahead
    rw [hpos]
    exact Nat.le_of_succ_le hahead
  nodup := h.nodup
  passed k j hmem := by
    have hpassed := h.passed k j hmem
    rw [hpos] at hpassed
    exact Nat.lt_succ_of_lt hpassed
  covered k it hk hreq j hj hpassed := by
    obtain hlt | rfl := Nat.lt_succ_iff_lt_or_eq.mp hpassed
    · apply h.covered k it hk hreq j hj
      rw [hpos]
      exact hlt
    · obtain ⟨it', hk', _, hsame⟩ := h.kept k it hk
      have hahead : s.position.Ahead k := hpos ▸ Nat.le_refl k
      obtain rfl : it₀ = it' := Option.some.inj (hit.symm.trans hk')
      exact absurd ((hsame hahead).trans hreq) hother

theorem Visits.enter (h : Visits r ptr s) (hpos : s.position = .entry i)
    (hit : s.resolver.requests[i]? = some it₀) : Visits r ptr { s with
      resolver := { s.resolver with
        requests := s.resolver.requests.set i (Resolver.triggerOne ptr arResult it₀).1 }
      position := .handler i 0 } where
  kept k it hk := by
    obtain ⟨it', hk', hlen, hreq⟩ := h.kept k it hk
    by_cases hik : i = k
    · subst hik
      obtain rfl : it₀ = it' := Option.some.inj (hit.symm.trans hk')
      refine ⟨_, List.getElem?_set_self (List.getElem?_eq_some_iff.mp hit).1, ?_,
        fun hahead => absurd hahead (Nat.lt_irrefl i)⟩
      rw [Resolver.triggerOne_handlers]
      exact hlen
    · refine ⟨it', (List.getElem?_set_ne hik).trans hk', hlen, fun hahead => hreq ?_⟩
      rw [hpos]
      exact Nat.le_of_lt hahead
  nodup := h.nodup
  passed k j hmem := by
    have hpassed := h.passed k j hmem
    rw [hpos] at hpassed
    exact .inl hpassed
  covered k it hk hreq j hj hpassed := by
    obtain hlt | ⟨_, hlt⟩ := hpassed
    · apply h.covered k it hk hreq j hj
      rw [hpos]
      exact hlt
    · exact absurd hlt (Nat.not_lt_zero j)

theorem Visits.leave (h : Visits r ptr s) (hpos : s.position = .handler i j)
    (hend : (s.resolver.requests[i]?.bind fun it => it.handlers[j]?) = none) :
    Visits r ptr { s with position := .entry (i + 1) } where
  kept _ _ := by
    apply h.keep (.entry (i + 1))
    intro k hahead
    rw [hpos]
    exact hahead
  nodup := h.nodup
  passed k j' hmem := by
    have hpassed := h.passed k j' hmem
    rw [hpos] at hpassed
    obtain hlt | ⟨rfl, _⟩ := hpassed
    · exact Nat.lt_succ_of_lt hlt
    · exact Nat.lt_succ_self k
  covered k it hk hreq j' hj' hpassed := by
    apply h.covered k it hk hreq j' hj'
    rw [hpos]
    obtain hlt | rfl := Nat.lt_succ_iff_lt_or_eq.mp hpassed
    · exact .inl hlt
    · obtain ⟨it', hk', hlen, _⟩ := h.kept k it hk
      rw [hk', Option.bind_some] at hend
      have hle := List.getElem?_eq_none_iff.mp hend
      exact .inr ⟨rfl, by omega⟩

theorem Visits.call (h : Visits r ptr s) (hpos : s.position = .handler i j)
    {calls : List (HandlerFn × ResolveHostnameArg)} {running : List HandlerFn} :
    Visits r ptr { s with
      resolver := { s.resolver with calls := calls }
      position := .handler i (j + 1)
      running := running
      called := s.called ++ [(i, j)] } where
  kept _ _ := by
    apply h.keep (.handler i (j + 1))
    intro k hahead
    rw [hpos]
    exact hahead
  nodup := by
    have hnew : (i, j) ∉ s.called := by
      intro hmem
      have hpassed := h.passed i j hmem
      rw [hpos] at hpassed
      obtain hlt | ⟨_, hlt⟩ := hpassed
      · exact Nat.lt_irrefl i hlt
      · exact Nat.lt_irrefl j hlt
    exact (List.perm_append_singleton (i, j) s.called).nodup_iff.mpr
      (List.nodup_cons.mpr ⟨hnew, h.nodup⟩)
  passed k j' hmem := by
    obtain hmem | hmem := List.mem_append.mp hmem
    · have hpassed := h.passed k j' hmem
      rw [hpos] at hpassed
      exact hpassed.imp_right fun hlt => ⟨hlt.1, Nat.lt_succ_of_lt hlt.2⟩
    · cases List.mem_singleton.mp hmem
      exact .inr ⟨rfl, Nat.lt_succ_self j⟩
  covered k it hk hreq j' hj' hpassed := by
    rw [List.mem_append]
    have hold : s.position.Passed k j' → (k, j') ∈ s.called := h.covered k it hk hreq j' hj'
    rw [hpos] at hold
    obtain hlt | ⟨rfl, hlt⟩ := hpassed
    · exact .inl (hold (.inl hlt))
    · obtain hlt | rfl := Nat.lt_succ_iff_lt_or_eq.mp hlt
      · exact .inl (hold (.inr ⟨rfl, hlt⟩))
      · exact .inr List.mem_cons_self

end Proceed

theorem Visits.proceed (h : Visits r ptr s) : Visits r ptr (s.proceed ptr arResult) := by
  cases hpos : s.position with
  | finished =>
    rw [proceed_finished hpos]
    exact h
  | entry i =>
    cases hit : s.resolver.requests[i]? with
    | none =>
      rw [proceed_end hpos hit]
      exact h.finish hpos hit
    | some it₀ =>
      by_cases hreq : it₀.request = some ptr
      · rw [proceed_enter hpos hit hreq]
        exact h.enter hpos hit
      · rw [proceed_skip hpos hit hreq]
        exact h.skip hpos hit hreq
  | handler i j =>
    cases hhandler : s.resolver.requests[i]?.bind fun it => it.handlers[j]? with
    | none =>
      rw [proceed_leave hpos hhandler]
      exact h.leave hpos hhandler
    | some handler =>
      rw [proceed_call hpos hhandler]
      exact h.call hpos

theorem Visits.step (h : Visits r ptr s) (hs : Notification.step inetPton ptr arResult a s = .ok t) :
    Visits r ptr t := by
  cases a with
  | proceed =>
    obtain ⟨_, _, hs⟩ := Checked.bind_eq_ok.mp hs
    cases hs
    exact h.proceed
  | handlerReturns =>
    obtain ⟨_, _, hs⟩ := Checked.bind_eq_ok.mp hs
    cases hs
    exact ⟨h.kept, h.nodup, h.passed, h.covered⟩
  | resolveHostname sa4 sa6 request hostname handler =>
    obtain ⟨_, _, hs⟩ := Checked.bind_eq_ok.mp hs
    obtain ⟨r', hr, hs⟩ := Checked.bind_eq_ok.mp hs
    cases hs
    refine ⟨fun k it hk => ?_, h.nodup, h.passed, h.covered⟩
    obtain ⟨it', hk', hlen, hreq⟩ := h.kept k it hk
    obtain ⟨it'', hk'', hlen', hreq'⟩ := Resolver.resolve_keeps hr hk'
    exact ⟨it'', hk'', hlen.trans hlen', fun hahead => hreq'.trans (hreq hahead)⟩

theorem Visits.once (h : Visits r ptr s) (hpos : s.position = .finished) {i j : Nat}
    {it : RequestInfo} (hit : r.requests[i]? = some it) (hreq : it.request = some ptr)
    (hj : j < it.handlers.length) : s.called.count (i, j) = 1 := by
  have hpassed : s.position.Passed i j := hpos ▸ trivial
  rw [h.nodup.count]
  exact if_pos (h.covered i it hit hreq j hj hpassed)

/-- A run keeps the sizes and calls each handler once exactly if no handler asks
for a new hostname, or for the one whose handlers are being called. -/
theorem safe_iff_quiet
    (hr : Transition.Reaches (step inetPton ptr arResult) Transition.Free (start r) s) :
    Safe r ptr s ↔
      Transition.Reaches (step inetPton ptr arResult) (Quiet inetPton) (start r) s := by
  constructor
  · intro h
    have hsizes := h.sizes
    clear h
    induction hr with
    | refl => exact .refl
    | tail _ hlast ih =>
      obtain ⟨a, _, hs⟩ := hlast
      obtain ⟨hbefore, hquiet⟩ := step_resized hs
      exact (ih hbefore).tail (hquiet.mp hsizes) hs
  · intro hquiet
    have hvisits : Visits r ptr s :=
      hr.invariant (I := Visits r ptr) (fun _ _ _ h _ hs => h.step hs) (start_visits r ptr)
    have hsizes : s.resized = false :=
      hquiet.invariant (I := fun s => s.resized = false)
        (fun _ _ _ _ ha hs => (step_resized hs).2.mpr ha) rfl
    exact ⟨hsizes, fun hpos i it hit hreq j hj => hvisits.once hpos hit hreq hj⟩

private def noLiteral : IPAddress.InetPton := ⟨fun _ => none, fun _ => none⟩

private def dbName : StdString := ⟨['d', 'b'].map chr, by decide⟩

private def webName : StdString := ⟨['w', 'e', 'b'].map chr, by decide⟩

private def twoLookups : Resolver :=
  ⟨[⟨dbName, some 1, [7, 8]⟩, ⟨webName, some 2, [9]⟩], [1, 2], [], []⟩

/-- The lookup of db fails, and its first handler goes on to ask for web. -/
theorem safe_iff_quiet_other_lookup : ∃ s, s.position = .finished ∧ Safe twoLookups 1 s := by
  obtain ⟨s, hr, hpos⟩ := Transition.reaches_of_leads (step noLiteral 1 none) (Quiet noLiteral)
    (fun s => s.position = .finished)
    [.proceed, .proceed, .resolveHostname default default 3 webName 7, .handlerReturns, .proceed,
      .handlerReturns, .proceed, .proceed, .proceed] (start twoLookups) (by decide)
  exact ⟨s, hpos, (safe_iff_quiet (hr.weaken fun _ _ _ => trivial)).mpr hr⟩

/-- The lookup of db fails, and its first handler tries again. -/
theorem retry_resizes_handlers : ∃ s, Transition.Reaches (step noLiteral 1 none) Transition.Free
    (start twoLookups) s ∧ ¬Safe twoLookups 1 s := by
  obtain ⟨s, hr, hresized⟩ := Transition.reaches_of_leads (step noLiteral 1 none) Transition.Free
    (fun s => s.resized = true)
    [.proceed, .proceed, .resolveHostname default default 3 dbName 7] (start twoLookups) (by decide)
  refine ⟨s, hr, fun h => ?_⟩
  rw [h.sizes] at hresized
  cases hresized

end Notification

end Iuring
