import Mathlib.Data.List.Nodup
import Iuring.HostnameHandlers

namespace Iuring

open Lib Lib.Hex

namespace RequestInfo

/-- The move constructor: the object it makes and what is left of the other. The
gaicb that the initializer of the new object's member allocates is lost. -/
def move (arg : RequestInfo) : RequestInfo × RequestInfo :=
  (⟨arg.hostname, arg.request, arg.handlers⟩, ⟨.empty, none, []⟩)

/-- The handlers of an entry with the hostname they were passed under. -/
def keys (it : RequestInfo) : List (StdString × HandlerFn) :=
  it.handlers.map (fun handler => (it.hostname, handler))

end RequestInfo

/-- A lookup that was issued: its request and the string that its name points into. -/
structure Lookup where
  request : RequestPtr
  arName : StdString
deriving DecidableEq

/-- A resolver with the lookups that are to be notified and, for each one that
was, its name and its result. -/
structure Routing where
  resolver : Resolver
  lookups : List Lookup
  answered : List (StdString × Option (List Addrinfo))

namespace Routing

inductive Action
  | resolveHostname (sa4 : SockaddrIn) (sa6 : SockaddrIn6) (request : RequestPtr)
      (hostname : StdString) (handler : HandlerFn)
  | grow
  | notify (lookup : Lookup) (arResult : Option (List Addrinfo))

/-- The vector moves its elements whenever it grows. -/
def step (inetPton : IPAddress.InetPton) : Action → Routing → Result Routing
  | .resolveHostname sa4 sa6 request hostname handler, s => do
    let r ← Resolver.step inetPton (.resolveHostname sa4 sa6 request hostname handler) s.resolver
    return { s with
      resolver := r
      lookups := if r.waiting = s.resolver.waiting then s.lookups
        else ⟨request, hostname⟩ :: s.lookups }
  | .grow, s =>
    return { s with resolver := { s.resolver with
      requests := s.resolver.requests.map (fun it => it.move.1) } }
  | .notify lookup arResult, s => do
    Checked.ensure .notEnabled (lookup ∈ s.lookups)
    let r ← Resolver.step inetPton (.notify lookup.request arResult) s.resolver
    return { s with
      resolver := r
      lookups := s.lookups.erase lookup
      answered := s.answered ++ [(lookup.arName, arResult)] }

def initial : Routing := ⟨.initial, [], []⟩

/-- What a handler is told about a lookup. -/
def outcome : Option (List Addrinfo) → ResolveHostnameArg
  | none => .error .hostnameResolveFailed
  | some res => .ok (Resolver.convertAddresses res)

/-- One call of a handler with the hostname under which the handler was passed. -/
structure Routed where
  hostname : StdString
  handler : HandlerFn
  arg : ResolveHostnameArg

/-- A literal is answered with its own address, any other name with the outcome
of a lookup of that name. -/
def Routed.Correct (inetPton : IPAddress.InetPton)
    (answered : List (StdString × Option (List Addrinfo))) (c : Routed) : Prop :=
  (∃ sa4 sa6 addr, IPAddress.parse inetPton sa4 sa6 c.hostname = .ok addr ∧ c.arg = .ok [addr]) ∨
    ∃ res, (c.hostname, res) ∈ answered ∧ c.arg = outcome res

/-- The handlers with their hostnames that a notification still to come will call. -/
def stored (w : List RequestPtr) (rs : List RequestInfo) : List (StdString × HandlerFn) :=
  rs.flatMap (fun it => if Resolver.awaits w it then it.keys else [])

variable {inetPton : IPAddress.InetPton} {s s' : Routing} {w : List RequestPtr}
  {rs rs' : List RequestInfo} {k : StdString × HandlerFn}

open Resolver (Accounted IsLiteral awaits triggerOne pushHandler)

theorem stored_cons (it : RequestInfo) :
    stored w (it :: rs) = (if awaits w it then it.keys else []) ++ stored w rs := rfl

theorem stored_append (rs rs' : List RequestInfo) :
    stored w (rs ++ rs') = stored w rs ++ stored w rs' := List.flatMap_append

theorem count_stored_pushHandler {hostname : StdString} {handler : HandlerFn}
    (h : pushHandler hostname handler rs = some rs') :
    (stored w rs').count k ≤ (stored w rs).count k + [(hostname, handler)].count k := by
  induction rs generalizing rs' with
  | nil => cases h
  | cons req rest ih =>
    rw [pushHandler] at h
    split at h
    · rename_i hname
      cases h
      have ha : awaits w { req with handlers := req.handlers ++ [handler] } = awaits w req := rfl
      rw [stored_cons, stored_cons, ha]
      subst hname
      split
      · simp only [RequestInfo.keys, List.map_append, List.map_cons, List.map_nil, List.count_append]
        omega
      · exact Nat.le_add_right _ _
    · obtain ⟨more, hmore, rfl⟩ := Option.map_eq_some_iff.mp h
      have := ih hmore
      rw [stored_cons, stored_cons, List.count_append, List.count_append]
      omega

theorem stored_new {p : RequestPtr} (hp : p ∉ rs.filterMap (·.request)) (hostname : StdString) :
    stored (p :: w) (rs ++ [⟨hostname, some p, []⟩]) = stored w rs := by
  have hold : stored (p :: w) rs = stored w rs := by
    apply List.flatMap_congr
    intro it hit
    rw [Resolver.awaits_cons_of_mem hp hit]
  have hnew : stored (p :: w) [⟨hostname, some p, []⟩] = [] := by simp [stored, RequestInfo.keys]
  rw [stored_append, hold, hnew, List.append_nil]

/-- The calls of the handlers of one entry when a lookup is notified. -/
def routedBy (p : RequestPtr) (arResult : Option (List Addrinfo)) (it : RequestInfo) : List Routed :=
  if it.request = some p then
    it.handlers.map (fun handler => ⟨it.hostname, handler, outcome arResult⟩)
  else []

theorem mem_routedBy {p : RequestPtr} {arResult : Option (List Addrinfo)} {it : RequestInfo}
    {c : Routed} (hc : c ∈ routedBy p arResult it) :
    it.request = some p ∧ c.hostname = it.hostname ∧ c.arg = outcome arResult := by
  rw [routedBy] at hc
  split at hc
  · rename_i hreq
    obtain ⟨handler, _, rfl⟩ := List.mem_map.mp hc
    exact ⟨hreq, rfl, rfl⟩
  · exact absurd hc List.not_mem_nil

/-- The hostname that a call is labelled with and its handler. -/
def Routed.key (c : Routed) : StdString × HandlerFn := (c.hostname, c.handler)

def Routed.call (c : Routed) : HandlerFn × ResolveHostnameArg := (c.handler, c.arg)

theorem triggerOne_calls (p : RequestPtr) (arResult : Option (List Addrinfo)) (it : RequestInfo) :
    (triggerOne p arResult it).2 = (routedBy p arResult it).map Routed.call := by
  unfold triggerOne routedBy
  cases hreq : it.request with
  | none => rfl
  | some q =>
    by_cases hq : q = p
    · cases arResult <;> simp [hq, outcome, Routed.call]
    · simp [hq]

theorem hostname_triggered (p : RequestPtr) (arResult : Option (List Addrinfo))
    (it : RequestInfo) : (triggerOne p arResult it).1.hostname = it.hostname := by
  unfold triggerOne
  cases it.request with
  | none => rfl
  | some q =>
    by_cases hq : q ≠ p
    · simp [hq]
    · cases arResult <;> simp [hq]

/-- A notification gives a request up or leaves it where it is. -/
theorem requests_triggered (p : RequestPtr) (arResult : Option (List Addrinfo))
    (rs : List RequestInfo) :
    ((rs.map (fun it => (triggerOne p arResult it).1)).filterMap (·.request)).Sublist
      (rs.filterMap (·.request)) := by
  induction rs with
  | nil => exact List.Sublist.refl _
  | cons it rs ih =>
    have hone : (triggerOne p arResult it).1.request = none ∨
        (triggerOne p arResult it).1.request = it.request := by
      unfold triggerOne
      cases hreq : it.request with
      | none => exact .inl hreq
      | some q =>
        by_cases hq : q ≠ p
        · simp [hq, hreq]
        · cases arResult <;> simp [hq, hreq]
    rw [List.map_cons, List.filterMap_cons, List.filterMap_cons]
    obtain hnone | hsame := hone
    · rw [hnone]
      cases it.request with
      | none => exact ih
      | some q => exact ih.cons q
    · rw [hsame]
      cases it.request with
      | none => exact ih
      | some q => exact ih.cons_cons q

theorem count_stored_trigger {p : RequestPtr} (hp : p ∈ w) (hw : w.Nodup)
    (arResult : Option (List Addrinfo)) (rs : List RequestInfo) :
    (stored (w.erase p) (rs.map (fun it => (triggerOne p arResult it).1))).count k +
      ((rs.flatMap (routedBy p arResult)).map Routed.key).count k = (stored w rs).count k := by
  induction rs with
  | nil => rfl
  | cons it rs ih =>
    have hone : (if awaits (w.erase p) (triggerOne p arResult it).1
        then (triggerOne p arResult it).1.keys else []).count k +
        ((routedBy p arResult it).map Routed.key).count k =
          (if awaits w it then it.keys else []).count k := by
      cases hreq : it.request with
      | none => simp [triggerOne, routedBy, awaits, hreq]
      | some q =>
        by_cases hq : q = p
        · subst hq
          have hgone : q ∉ w.erase q := hw.not_mem_erase
          have hkeys : (routedBy q arResult it).map Routed.key = it.keys := by
            simp [routedBy, hreq, RequestInfo.keys, Routed.key, Function.comp_def]
          cases arResult <;> simp [triggerOne, awaits, hreq, hp, hgone, hkeys]
        · have hkept : q ∈ w.erase p ↔ q ∈ w := List.mem_erase_of_ne hq
          simp [triggerOne, routedBy, awaits, hreq, hq, hkept]
    rw [List.map_cons, List.flatMap_cons, List.map_append, stored_cons, stored_cons,
      List.count_append, List.count_append, List.count_append]
    omega

/-- At most one entry is about a request. -/
theorem entry_unique (hrs : (rs.filterMap (·.request)).Nodup) {p : RequestPtr}
    {it it' : RequestInfo} (hit : it ∈ rs) (hit' : it' ∈ rs) (hreq : it.request = some p)
    (hreq' : it'.request = some p) : it = it' := by
  by_contra hne
  have hp := List.pairwise_filterMap.mp hrs
  have : Std.Symm fun a a' : RequestInfo =>
      ∀ b, a.request = some b → ∀ b', a'.request = some b' → b ≠ b' :=
    ⟨fun _ _ h b hb b' hb' he => h b' hb' b hb he.symm⟩
  exact hp.forall hit hit' hne p hreq p hreq' rfl

/-- Each outstanding lookup has an entry of its own, under the name it asks for,
and each call made so far can be put down to the hostname of a handler passed. -/
structure Kept (inetPton : IPAddress.InetPton) (s : Routing) : Prop where
  accounted : Accounted inetPton s.resolver
  distinct : (s.resolver.requests.filterMap (·.request)).Nodup
  issued : (s.lookups.map (·.request)).Nodup
  waiting : ∀ l ∈ s.lookups, l.request ∈ s.resolver.waiting
  named : ∀ l ∈ s.lookups, ∃ it ∈ s.resolver.requests,
    it.request = some l.request ∧ it.hostname = l.arName
  routed : ∃ routed : List Routed, routed.map Routed.call = s.resolver.calls ∧
    (∀ k, (routed.map Routed.key).count k + (stored s.resolver.waiting s.resolver.requests).count k ≤
      s.resolver.passed.count k) ∧
    ∀ c ∈ routed, c.Correct inetPton s.answered

theorem initial_kept (inetPton : IPAddress.InetPton) : Kept inetPton initial where
  accounted := Resolver.initial_accounted inetPton
  distinct := List.nodup_nil
  issued := List.nodup_nil
  waiting := List.forall_mem_nil _
  named := List.forall_mem_nil _
  routed := ⟨[], rfl, fun _ => Nat.le_refl 0, List.forall_mem_nil _⟩

theorem Kept.grow (h : Kept inetPton s) (hs : Routing.step inetPton .grow s = .ok s') :
    Kept inetPton s' := by
  have hid : (fun it : RequestInfo => it.move.1) = id := rfl
  cases hs
  rw [hid, List.map_id]
  exact h

theorem entry_pushHandler {hostname : StdString} {handler : HandlerFn}
    (h : pushHandler hostname handler rs = some rs') {it : RequestInfo} (hit : it ∈ rs) :
    ∃ it' ∈ rs', it'.request = it.request ∧ it'.hostname = it.hostname := by
  obtain ⟨before, req, after, rfl, rfl⟩ := Resolver.pushHandler_eq_some h
  obtain hit | hit := List.mem_append.mp hit
  · exact ⟨it, List.mem_append_left _ hit, rfl, rfl⟩
  · obtain rfl | hit := List.mem_cons.mp hit
    · exact ⟨_, List.mem_append_right _ List.mem_cons_self, rfl, rfl⟩
    · exact ⟨it, List.mem_append_right _ (List.mem_cons_of_mem _ hit), rfl, rfl⟩

theorem Routed.Correct.mono {answered : List (StdString × Option (List Addrinfo))} {c : Routed}
    (h : c.Correct inetPton answered) (more : List (StdString × Option (List Addrinfo))) :
    c.Correct inetPton (answered ++ more) := by
  obtain hlit | ⟨res, hres, harg⟩ := h
  · exact .inl hlit
  · exact .inr ⟨res, List.mem_append_left _ hres, harg⟩

theorem Kept.resolve (h : Kept inetPton s) {sa4 : SockaddrIn} {sa6 : SockaddrIn6}
    {request : RequestPtr} {hostname : StdString} {handler : HandlerFn}
    (hs : Routing.step inetPton (.resolveHostname sa4 sa6 request hostname handler) s = .ok s') :
    Kept inetPton s' := by
  obtain ⟨r, hr, hs⟩ := Checked.bind_eq_ok.mp hs
  cases hs
  have hacc := h.accounted.resolve hr
  obtain ⟨_, hfresh, hr⟩ := Checked.bind_eq_ok.mp hr
  rw [Checked.ensure_eq_ok] at hfresh
  cases hr
  obtain ⟨routed, hcalls, hcount, hcorrect⟩ := h.routed
  rw [Resolver.resolveHostname] at hacc ⊢
  cases hparse : IPAddress.parse inetPton sa4 sa6 hostname with
  | ok addr =>
    simp only [hparse] at hacc ⊢
    refine ⟨hacc, h.distinct, ?_, ?_, ?_, routed ++ [⟨hostname, handler, .ok [addr]⟩], ?_, ?_, ?_⟩
    · simpa using h.issued
    · simpa using h.waiting
    · simpa using h.named
    · simp [hcalls, Routed.call]
    · intro k
      have := hcount k
      simp only [List.map_append, List.count_append, List.map_cons, List.map_nil, Routed.key]
      omega
    · rw [List.forall_mem_append]
      exact ⟨hcorrect, List.forall_mem_singleton.mpr (.inl ⟨sa4, sa6, addr, hparse, rfl⟩)⟩
  | error e =>
    simp only [hparse] at hacc ⊢
    cases hpush : pushHandler hostname handler s.resolver.requests with
    | some requests =>
      simp only [hpush] at hacc ⊢
      have hreq := (Resolver.held_pushHandler (w := s.resolver.waiting) hpush).2.2
      refine ⟨hacc, hreq ▸ h.distinct, ?_, ?_, ?_, routed, hcalls, ?_, hcorrect⟩
      · simpa using h.issued
      · simpa using h.waiting
      · simp only [if_true]
        intro l hl
        obtain ⟨it, hit, hreq, hname⟩ := h.named l hl
        obtain ⟨it', hit', hreq', hname'⟩ := entry_pushHandler hpush hit
        exact ⟨it', hit', hreq'.trans hreq, hname'.trans hname⟩
      · intro k
        have := hcount k
        have := count_stored_pushHandler (w := s.resolver.waiting) (k := k) hpush
        simp only [List.count_append]
        omega
    | none =>
      have hne : request :: s.resolver.waiting ≠ s.resolver.waiting := by simp
      have hnew : request ∉ s.lookups.map (·.request) := by
        intro hmem
        obtain ⟨l, hl, rfl⟩ := List.mem_map.mp hmem
        exact hfresh (h.accounted.allocated _ (h.waiting l hl))
      simp only [hpush, if_neg hne] at hacc ⊢
      refine ⟨hacc, ?_, ?_, ?_, ?_, routed, hcalls, ?_, hcorrect⟩
      · rw [List.filterMap_append]
        refine List.nodup_append.mpr ⟨h.distinct, List.nodup_singleton _, ?_⟩
        rintro p hp q hq rfl
        rw [List.mem_singleton.mp hq] at hp
        exact hfresh hp
      · exact List.nodup_cons.mpr ⟨hnew, h.issued⟩
      · refine List.forall_mem_cons.mpr ⟨List.mem_cons_self, fun l hl => ?_⟩
        exact List.mem_cons_of_mem _ (h.waiting l hl)
      · refine List.forall_mem_cons.mpr ⟨⟨_, List.mem_append_right _ List.mem_cons_self, rfl, rfl⟩,
          fun l hl => ?_⟩
        obtain ⟨it, hit, hreq, hname⟩ := h.named l hl
        exact ⟨it, List.mem_append_left _ hit, hreq, hname⟩
      · intro k
        have := hcount k
        simp only [stored_new hfresh, List.count_append]
        omega

theorem Kept.notify (h : Kept inetPton s) {lookup : Lookup} {arResult : Option (List Addrinfo)}
    (hs : Routing.step inetPton (.notify lookup arResult) s = .ok s') : Kept inetPton s' := by
  obtain ⟨_, hmem, hs⟩ := Checked.bind_eq_ok.mp hs
  rw [Checked.ensure_eq_ok] at hmem
  obtain ⟨r, hr, hs⟩ := Checked.bind_eq_ok.mp hs
  cases hs
  have hacc := h.accounted.notify hr
  obtain ⟨_, hwait, hr⟩ := Checked.bind_eq_ok.mp hr
  rw [Checked.ensure_eq_ok] at hwait
  cases hr
  obtain ⟨routed, hcalls, hcount, hcorrect⟩ := h.routed
  have hother : ∀ l ∈ s.lookups.erase lookup, l ∈ s.lookups ∧ l.request ≠ lookup.request := by
    intro l hl
    have hl' := (List.Nodup.of_map _ h.issued).mem_erase_iff.mp hl
    exact ⟨hl'.2, fun he => hl'.1 (List.inj_on_of_nodup_map h.issued hl'.2 hmem he)⟩
  refine ⟨hacc, ?_, ?_, ?_, ?_, routed ++ s.resolver.requests.flatMap (routedBy lookup.request arResult),
    ?_, ?_, ?_⟩
  · exact h.distinct.sublist (requests_triggered _ _ _)
  · exact h.issued.sublist (List.erase_sublist.map _)
  · intro l hl
    obtain ⟨hl, hne⟩ := hother l hl
    exact (List.mem_erase_of_ne hne).mpr (h.waiting l hl)
  · intro l hl
    obtain ⟨hl, hne⟩ := hother l hl
    obtain ⟨it, hit, hreq, hname⟩ := h.named l hl
    exact ⟨_, List.mem_map_of_mem hit, Resolver.request_triggered hne hreq,
      (hostname_triggered _ _ it).trans hname⟩
  · simp only [List.map_append, List.map_flatMap, hcalls, Resolver.triggerHostnameResolveCallbacks,
      triggerOne_calls]
  · intro k
    have hk := count_stored_trigger (k := k) hwait h.accounted.nodup arResult s.resolver.requests
    have := hcount k
    simp only [List.map_append, List.count_append, Resolver.triggerHostnameResolveCallbacks]
    omega
  · rw [List.forall_mem_append]
    refine ⟨fun c hc => (hcorrect c hc).mono _, fun c hc => ?_⟩
    obtain ⟨it, hit, hc⟩ := List.mem_flatMap.mp hc
    obtain ⟨hreq, hname, harg⟩ := mem_routedBy hc
    obtain ⟨it', hit', hreq', hname'⟩ := h.named lookup hmem
    obtain rfl := entry_unique h.distinct hit hit' hreq hreq'
    exact .inr ⟨arResult, by simp [hname, hname'], harg⟩

theorem Kept.step {a : Action} (h : Kept inetPton s) (hs : Routing.step inetPton a s = .ok s') :
    Kept inetPton s' := by
  cases a with
  | resolveHostname => exact h.resolve hs
  | grow => exact h.grow hs
  | notify => exact h.notify hs

/-- Every call made in a run can be put down to a handler passed and not called
yet, and is made with an outcome of the hostname it was passed with. -/
theorem answers_routed (hr : Transition.Reaches (step inetPton) Transition.Free initial s) :
    ∃ routed : List Routed, routed.map Routed.call = s.resolver.calls ∧
      (∀ k, (routed.map Routed.key).count k ≤ s.resolver.passed.count k) ∧
      ∀ c ∈ routed, c.Correct inetPton s.answered := by
  have h := hr.invariant (fun _ _ _ hp _ hs => hp.step hs) (initial_kept inetPton)
  obtain ⟨routed, hcalls, hcount, hcorrect⟩ := h.routed
  exact ⟨routed, hcalls, fun k => (Nat.le_add_right _ _).trans (hcount k), hcorrect⟩

private def firstHost : StdString :=
  ⟨['a', '.', 'e', 'x', 'a', 'm', 'p', 'l', 'e'].map chr, by decide⟩

private def secondHost : StdString :=
  ⟨['b', '.', 'e', 'x', 'a', 'm', 'p', 'l', 'e'].map chr, by decide⟩

private def noLiterals : IPAddress.InetPton := ⟨fun _ => none, fun _ => none⟩

private def hostA : Addrinfo := ⟨afInet, fun i => if i = 0 then 2 else 0⟩

/-- The request of the first lookup is freed and given to the second one, and
the lookup that fails leaves its entry where it is. -/
theorem answers_routed_reused : ∃ s : Routing, s.resolver.passed =
      [(firstHost, 1), (firstHost, 2), (secondHost, 3), (secondHost, 4)] ∧
    s.answered.length = 2 ∧ (s.resolver.calls.map Prod.fst) = [2, 4] ∧
    ∃ routed : List Routed, routed.map Routed.call = s.resolver.calls ∧
      ∀ c ∈ routed, c.Correct noLiterals s.answered := by
  obtain ⟨s, hr, hpassed, hanswered, hcalls⟩ := Transition.reaches_of_leads (step noLiterals)
    Transition.Free (fun s => s.resolver.passed =
      [(firstHost, 1), (firstHost, 2), (secondHost, 3), (secondHost, 4)] ∧
        s.answered.length = 2 ∧ (s.resolver.calls.map Prod.fst) = [2, 4])
    [.resolveHostname default default 64 firstHost 1,
      .resolveHostname default default 0 firstHost 2, .notify ⟨64, firstHost⟩ (some [hostA]),
      .resolveHostname default default 64 secondHost 3, .grow,
      .resolveHostname default default 0 secondHost 4, .notify ⟨64, secondHost⟩ none] initial
    (by decide)
  obtain ⟨routed, hmap, _, hcorrect⟩ := answers_routed hr
  exact ⟨s, hpassed, hanswered, hcalls, routed, hmap, hcorrect⟩

end Routing

end Iuring
