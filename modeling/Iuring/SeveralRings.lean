import Mathlib.Data.Fintype.Basic
import Mathlib.Logic.Function.Basic
import Iuring.HostnameRouting

namespace Iuring

open Lib Lib.Hex

/-- The rings of one process, and the global that the notification of a lookup goes to. -/
structure SeveralRings (n : Nat) where
  rings : Fin n → Resolver
  sSelf : Option (Fin n)

namespace SeveralRings

inductive Action (n : Nat)
  | resolveHostname (ring : Fin n) (sa4 : SockaddrIn) (sa6 : SockaddrIn6) (request : RequestPtr)
      (hostname : StdString) (handler : HandlerFn)
  | notify (ptr : RequestPtr) (arResult : Option (List Addrinfo))

variable {n : Nat}

def InUse (s : SeveralRings n) (request : RequestPtr) : Prop :=
  ∃ i, request ∈ (s.rings i).requests.filterMap (·.request)

instance (s : SeveralRings n) (request : RequestPtr) : Decidable (s.InUse request) :=
  inferInstanceAs (Decidable (∃ _, _))

/-- The two parts of resolve_hostname that a call gets to: the global is set only
when the name has to be looked up. -/
def resolveHostname (inetPton : IPAddress.InetPton) (i : Fin n) (sa4 : SockaddrIn)
    (sa6 : SockaddrIn6) (request : RequestPtr) (hostname : StdString) (handler : HandlerFn)
    (s : SeveralRings n) : SeveralRings n where
  rings := Function.update s.rings i
    ((s.rings i).resolveHostname inetPton sa4 sa6 request hostname handler)
  sSelf := match IPAddress.parse inetPton sa4 sa6 hostname with
    | .ok _ => s.sSelf
    | .error _ => some i

def sigNotifierHostnameResolve (ptr : RequestPtr) (arResult : Option (List Addrinfo))
    (s : SeveralRings n) : Result (SeveralRings n) :=
  match s.sSelf with
  | none => .error .assertFailed
  | some i => .ok { s with
      rings := Function.update s.rings i
        ((s.rings i).triggerHostnameResolveCallbacks ptr arResult) }

/-- The handler that a ring is passed. -/
def noteCall (i : Fin n) (hostname : StdString) (handler : HandlerFn) (s : SeveralRings n) :
    SeveralRings n :=
  { s with rings := Function.update s.rings i { s.rings i with
      passed := (s.rings i).passed ++ [(hostname, handler)] } }

/-- The lookup is notified and no more waited for. -/
def noteNotified (ptr : RequestPtr) (s : SeveralRings n) : SeveralRings n :=
  { s with rings := fun i => { s.rings i with waiting := (s.rings i).waiting.erase ptr } }

/-- New memory is none that a ring uses, and each lookup is notified once, whichever ring issued it. -/
def step (inetPton : IPAddress.InetPton) : Action n → SeveralRings n → Result (SeveralRings n)
  | .resolveHostname i sa4 sa6 request hostname handler, s => do
    Checked.ensure .notEnabled (¬s.InUse request)
    return (s.noteCall i hostname handler).resolveHostname inetPton i sa4 sa6 request hostname
      handler
  | .notify ptr arResult, s => do
    Checked.ensure .notEnabled (∃ i, ptr ∈ (s.rings i).waiting)
    (s.noteNotified ptr).sigNotifierHostnameResolve ptr arResult

def initial (n : Nat) : SeveralRings n := ⟨fun _ => .initial, none⟩

/-- The ring that a call makes answer from then on: one whose name has to be looked up. -/
def Action.asker (inetPton : IPAddress.InetPton) : Action n → Option (Fin n)
  | .resolveHostname i _ _ _ hostname _ =>
    if Resolver.IsLiteral inetPton hostname then none else some i
  | .notify _ _ => none

/-- The ring that looked a name up last. -/
def lastAsker (inetPton : IPAddress.InetPton) (as : List (Action n)) : Option (Fin n) :=
  (as.filterMap (Action.asker inetPton)).getLast?

end SeveralRings

namespace Resolver

variable {inetPton : IPAddress.InetPton} {r r' : Resolver} {hostname : StdString} {handler : HandlerFn}
  {p q : RequestPtr} {rs rs' : List RequestInfo}

def pointers (r : Resolver) : List RequestPtr := r.requests.filterMap (·.request)

theorem pushHandler_found (h : pushHandler hostname handler rs = some rs') : ∃ before it after,
    it.hostname = hostname ∧ rs = before ++ it :: after ∧
      rs' = before ++ { it with handlers := it.handlers ++ [handler] } :: after := by
  induction rs generalizing rs' with
  | nil => cases h
  | cons req rest ih =>
    rw [pushHandler] at h
    split at h
    · rename_i hname
      cases h
      exact ⟨[], req, rest, hname, rfl, rfl⟩
    · obtain ⟨more, hmore, rfl⟩ := Option.map_eq_some_iff.mp h
      obtain ⟨before, it, after, hname, rfl, rfl⟩ := ih hmore
      exact ⟨req :: before, it, after, hname, rfl, rfl⟩

theorem pushHandler_missing (h : pushHandler hostname handler rs = none) :
    ∀ it ∈ rs, it.hostname ≠ hostname := by
  induction rs with
  | nil => exact List.forall_mem_nil _
  | cons req rest ih =>
    rw [pushHandler] at h
    split at h
    · cases h
    · rename_i hname
      exact List.forall_mem_cons.mpr ⟨hname, ih (Option.map_eq_none_iff.mp h)⟩

/-- What a call of resolve_hostname can do to its ring. -/
inductive Resolved (inetPton : IPAddress.InetPton) (p : RequestPtr) (hostname : StdString)
    (handler : HandlerFn) (r r' : Resolver) : Prop
  | direct (addr : IPAddress) (hliteral : IsLiteral inetPton hostname)
      (heq : r' = { r with calls := r.calls ++ [(handler, .ok [addr])] })
  | joined (before : List RequestInfo) (it : RequestInfo) (after : List RequestInfo)
      (hliteral : ¬IsLiteral inetPton hostname) (hname : it.hostname = hostname)
      (hrequests : r.requests = before ++ it :: after)
      (heq : r' = { r with
        requests := before ++ { it with handlers := it.handlers ++ [handler] } :: after })
  | issued (hliteral : ¬IsLiteral inetPton hostname)
      (hnew : ∀ it ∈ r.requests, it.hostname ≠ hostname)
      (heq : r' = { r with
        requests := r.requests ++ [⟨hostname, some p, []⟩]
        waiting := p :: r.waiting })

theorem resolveHostname_cases (inetPton : IPAddress.InetPton) (sa4 : SockaddrIn)
    (sa6 : SockaddrIn6) (p : RequestPtr) (hostname : StdString) (handler : HandlerFn) (r : Resolver) :
    Resolved inetPton p hostname handler r
      (r.resolveHostname inetPton sa4 sa6 p hostname handler) := by
  rw [resolveHostname]
  obtain ⟨hliteral, addr, hparse⟩ | ⟨hliteral, e, hparse⟩ := parse_cases inetPton sa4 sa6 hostname
  · rw [hparse]
    exact .direct addr hliteral rfl
  · rw [hparse]
    cases hpush : pushHandler hostname handler r.requests with
    | some requests =>
      obtain ⟨before, it, after, hname, hrequests, rfl⟩ := pushHandler_found hpush
      exact .joined before it after hliteral hname hrequests rfl
    | none => exact .issued hliteral (pushHandler_missing hpush) rfl

/-- Each entry has its own name, which is no literal, and its own request, and holds
handlers that were passed with its name; what is waited for is the request of an entry. -/
structure Tidy (inetPton : IPAddress.InetPton) (r : Resolver) : Prop where
  nodup : r.waiting.Nodup
  allocated : ∀ p ∈ r.waiting, p ∈ r.pointers
  distinct : r.pointers.Nodup
  names : (r.requests.map (·.hostname)).Nodup
  lookedUp : ∀ it ∈ r.requests, ¬IsLiteral inetPton it.hostname
  handed : ∀ it ∈ r.requests, ∀ handler ∈ it.handlers, (it.hostname, handler) ∈ r.passed

theorem initial_tidy (inetPton : IPAddress.InetPton) : Tidy inetPton initial where
  nodup := List.nodup_nil
  allocated := List.forall_mem_nil _
  distinct := List.nodup_nil
  names := List.nodup_nil
  lookedUp := List.forall_mem_nil _
  handed := List.forall_mem_nil _

theorem Tidy.passed (h : Tidy inetPton r) (more : List (StdString × HandlerFn)) :
    Tidy inetPton { r with passed := r.passed ++ more } :=
  ⟨h.nodup, h.allocated, h.distinct, h.names, h.lookedUp,
    fun it hit handler hh => List.mem_append_left _ (h.handed it hit handler hh)⟩

theorem Tidy.notified (h : Tidy inetPton r) (p : RequestPtr) :
    Tidy inetPton { r with waiting := r.waiting.erase p } :=
  ⟨h.nodup.erase _, fun q hq => h.allocated q (List.mem_of_mem_erase hq), h.distinct, h.names,
    h.lookedUp, h.handed⟩

theorem pointers_joined (before after : List RequestInfo) (it : RequestInfo)
    (handlers : List HandlerFn) : (before ++ { it with handlers := handlers } :: after).filterMap
      (·.request) = (before ++ it :: after).filterMap (·.request) := by
  rw [List.filterMap_append, List.filterMap_append, List.filterMap_cons, List.filterMap_cons]

theorem Tidy.resolved (h : Tidy inetPton r) (hp : p ∉ r.pointers)
    (hpassed : (hostname, handler) ∈ r.passed) (hr : Resolved inetPton p hostname handler r r') :
    Tidy inetPton r' := by
  cases hr with
  | direct addr hliteral heq =>
    subst heq
    exact ⟨h.nodup, h.allocated, h.distinct, h.names, h.lookedUp, h.handed⟩
  | joined before it after hliteral hname hrequests heq =>
    subst heq
    have hpointers := pointers_joined before after it (it.handlers ++ [handler])
    have hnames := h.names
    have hlooked := h.lookedUp
    have hhanded := h.handed
    rw [hrequests] at hnames hlooked hhanded
    rw [List.forall_mem_append, List.forall_mem_cons] at hlooked hhanded
    refine ⟨h.nodup, fun q hq => ?_, ?_, ?_, ?_, ?_⟩
    · rw [pointers, hpointers, ← hrequests]
      exact h.allocated q hq
    · rw [pointers, hpointers, ← hrequests]
      exact h.distinct
    · rw [List.map_append, List.map_cons] at hnames ⊢
      exact hnames
    · rw [List.forall_mem_append, List.forall_mem_cons]
      exact hlooked
    · rw [List.forall_mem_append, List.forall_mem_cons, List.forall_mem_append]
      exact ⟨hhanded.1, ⟨hhanded.2.1, List.forall_mem_singleton.mpr (hname ▸ hpassed)⟩, hhanded.2.2⟩
  | issued hliteral hnew heq =>
    subst heq
    have hpointers : (r.requests ++ [(⟨hostname, some p, []⟩ : RequestInfo)]).filterMap
        (·.request) = r.pointers ++ [p] := List.filterMap_append
    refine ⟨List.nodup_cons.mpr ⟨fun hmem => hp (h.allocated p hmem), h.nodup⟩, ?_, ?_, ?_, ?_, ?_⟩
    · rw [pointers, hpointers]
      intro q hq
      obtain rfl | hq := List.mem_cons.mp hq
      · exact List.mem_append_right _ (List.mem_singleton.mpr rfl)
      · exact List.mem_append_left _ (h.allocated q hq)
    · rw [pointers, hpointers]
      refine List.nodup_append.mpr ⟨h.distinct, List.nodup_singleton p, fun q hq q' hq' he => ?_⟩
      rw [he, List.mem_singleton.mp hq'] at hq
      exact hp hq
    · rw [List.map_append]
      refine List.nodup_append.mpr ⟨h.names, List.nodup_singleton hostname, ?_⟩
      intro name hname name' hname' he
      obtain ⟨it, hit, rfl⟩ := List.mem_map.mp hname
      exact hnew it hit (he.trans (List.mem_singleton.mp hname'))
    · rw [List.forall_mem_append]
      exact ⟨h.lookedUp, List.forall_mem_singleton.mpr hliteral⟩
    · rw [List.forall_mem_append]
      exact ⟨h.handed, List.forall_mem_singleton.mpr (List.forall_mem_nil _)⟩

/-- An entry takes part in a notification if it has the request that is notified. -/
theorem triggerOne_eq (p : RequestPtr) (arResult : Option (List Addrinfo)) (it : RequestInfo) :
    triggerOne p arResult it = if it.request = some p then
      ({ it with request := if arResult.isSome then none else it.request },
        it.handlers.map fun handler => (handler, Routing.outcome arResult))
    else (it, []) := by
  unfold triggerOne
  cases hreq : it.request with
  | none => rfl
  | some q =>
    by_cases hq : q = p
    · subst hq
      cases it
      cases hreq
      rw [if_pos rfl]
      cases arResult <;> exact if_neg (not_not.mpr rfl)
    · rw [if_neg fun he => hq (Option.some.inj he)]
      exact if_pos hq

/-- A notification that is for another ring changes nothing and calls nobody. -/
theorem trigger_other (hp : p ∉ r.pointers) (arResult : Option (List Addrinfo)) :
    r.triggerHostnameResolveCallbacks p arResult = r := by
  have hother : ∀ it ∈ r.requests, triggerOne p arResult it = (it, []) := by
    intro it hit
    rw [triggerOne_eq]
    exact if_neg fun hreq => hp (List.mem_filterMap.mpr ⟨it, hit, hreq⟩)
  have hrequests : r.requests.map (fun it => (triggerOne p arResult it).1) = r.requests :=
    (List.map_congr_left fun it hit => congrArg Prod.fst (hother it hit)).trans (List.map_id' _)
  have hcalls : r.requests.flatMap (fun it => (triggerOne p arResult it).2) = [] :=
    List.flatMap_eq_nil_iff.mpr fun it hit => congrArg Prod.snd (hother it hit)
  rw [triggerHostnameResolveCallbacks, hrequests, hcalls, List.append_nil]

/-- A notification calls the handlers of the one entry that it is for. -/
theorem Tidy.calls_triggered (h : Tidy inetPton r) {it : RequestInfo} (hit : it ∈ r.requests)
    (hreq : it.request = some p) (arResult : Option (List Addrinfo)) :
    (r.triggerHostnameResolveCallbacks p arResult).calls =
      r.calls ++ it.handlers.map fun handler => (handler, Routing.outcome arResult) := by
  obtain ⟨before, after, hsplit⟩ := List.append_of_mem hit
  have hnone : ∀ it' ∈ before ++ after, (triggerOne p arResult it').2 = [] := by
    intro it' hit'
    have hd := h.distinct
    rw [pointers, hsplit, List.filterMap_append, List.filterMap_cons_some hreq] at hd
    rw [triggerOne_eq, if_neg]
    intro hreq'
    have hmem : p ∈ before.filterMap (·.request) ++ after.filterMap (·.request) := by
      rw [← List.filterMap_append]
      exact List.mem_filterMap.mpr ⟨it', hit', hreq'⟩
    exact (List.nodup_cons.mp (List.nodup_middle.mp hd)).1 hmem
  rw [List.forall_mem_append] at hnone
  rw [triggerHostnameResolveCallbacks, hsplit, List.flatMap_append, List.flatMap_cons,
    List.flatMap_eq_nil_iff.mpr hnone.1, List.flatMap_eq_nil_iff.mpr hnone.2, triggerOne_eq,
    if_pos hreq, List.append_nil, List.nil_append]

theorem mem_triggered {arResult : Option (List Addrinfo)} {c : HandlerFn × ResolveHostnameArg}
    (hc : c ∈ r.requests.flatMap fun it => (triggerOne p arResult it).2) :
    ∃ it ∈ r.requests, it.request = some p ∧ c.1 ∈ it.handlers := by
  obtain ⟨it, hit, hc⟩ := List.mem_flatMap.mp hc
  rw [triggerOne_eq] at hc
  split at hc
  · rename_i hreq
    obtain ⟨handler, hmem, rfl⟩ := List.mem_map.mp hc
    exact ⟨it, hit, hreq, hmem⟩
  · exact absurd hc List.not_mem_nil

theorem Tidy.triggered (h : Tidy inetPton r) (hp : p ∉ r.waiting)
    (arResult : Option (List Addrinfo)) :
    Tidy inetPton (r.triggerHostnameResolveCallbacks p arResult) := by
  have hnames : ∀ it, (triggerOne p arResult it).1.hostname = it.hostname :=
    Routing.hostname_triggered p arResult
  have hhandlers : ∀ it, (triggerOne p arResult it).1.handlers = it.handlers := by
    intro it
    rw [triggerOne_eq]
    split <;> rfl
  refine ⟨h.nodup, fun q hq => ?_, ?_, ?_, ?_, ?_⟩
  · obtain ⟨it, hit, hreq⟩ := List.mem_filterMap.mp (h.allocated q hq)
    have hne : q ≠ p := fun he => hp (he ▸ hq)
    exact List.mem_filterMap.mpr ⟨_, List.mem_map_of_mem hit, request_triggered hne hreq⟩
  · exact h.distinct.sublist (Routing.requests_triggered p arResult r.requests)
  · rw [triggerHostnameResolveCallbacks, List.map_map]
    exact (congrArg List.Nodup (List.map_congr_left fun it _ => hnames it)).mpr h.names
  · intro it' hit'
    obtain ⟨it, hit, rfl⟩ := List.mem_map.mp hit'
    rw [hnames]
    exact h.lookedUp it hit
  · intro it' hit'
    obtain ⟨it, hit, rfl⟩ := List.mem_map.mp hit'
    rw [hnames, hhandlers]
    exact h.handed it hit

theorem Resolved.pointers (h : Resolved inetPton p hostname handler r r') (hq : q ∈ r'.pointers) :
    q ∈ r.pointers ∨ ¬IsLiteral inetPton hostname ∧ q = p := by
  cases h with
  | direct addr hliteral heq =>
    subst heq
    exact .inl hq
  | joined before it after hliteral hname hrequests heq =>
    subst heq
    rw [Resolver.pointers, pointers_joined, ← hrequests] at hq
    exact .inl hq
  | issued hliteral hnew heq =>
    subst heq
    rw [Resolver.pointers, List.filterMap_append, List.mem_append] at hq
    exact hq.imp_right fun hq => ⟨hliteral, List.mem_singleton.mp hq⟩

end Resolver

namespace SeveralRings

variable {n : Nat} {inetPton : IPAddress.InetPton} {s t u : SeveralRings n} {i : Fin n}
  {p q : RequestPtr} {arResult : Option (List Addrinfo)}

open Resolver (Tidy Resolved IsLiteral)

theorem resolve_ok {sa4 : SockaddrIn} {sa6 : SockaddrIn6} {hostname : StdString} {handler : HandlerFn}
    (hs : step inetPton (.resolveHostname i sa4 sa6 p hostname handler) s = .ok t) :
    (∀ j, p ∉ (s.rings j).pointers) ∧ (∀ j, j ≠ i → t.rings j = s.rings j) ∧
      Resolved inetPton p hostname handler
        { s.rings i with passed := (s.rings i).passed ++ [(hostname, handler)] } (t.rings i) ∧
      t.sSelf = if IsLiteral inetPton hostname then s.sSelf else some i := by
  obtain ⟨_, hfresh, hs⟩ := Checked.bind_eq_ok.mp hs
  rw [Checked.ensure_eq_ok] at hfresh
  cases hs
  refine ⟨fun j hj => hfresh ⟨j, hj⟩, fun j hj => ?_, ?_, ?_⟩
  · simp only [resolveHostname, noteCall, Function.update_of_ne hj]
  · simp only [resolveHostname, noteCall, Function.update_self]
    apply Resolver.resolveHostname_cases
  · rw [resolveHostname, noteCall]
    obtain ⟨hliteral, addr, hparse⟩ | ⟨hliteral, e, hparse⟩ :=
      Resolver.parse_cases inetPton sa4 sa6 hostname
    · rw [hparse, if_pos hliteral]
    · rw [hparse, if_neg hliteral]

theorem notify_ok (hs : step inetPton (.notify p arResult) s = .ok t) :
    (∃ i, p ∈ (s.rings i).waiting) ∧ t.sSelf = s.sSelf ∧ ∃ k, s.sSelf = some k ∧
      t.rings k = ((s.noteNotified p).rings k).triggerHostnameResolveCallbacks p arResult ∧
      ∀ j, j ≠ k → t.rings j = (s.noteNotified p).rings j := by
  obtain ⟨_, hwaiting, hs⟩ := Checked.bind_eq_ok.mp hs
  rw [Checked.ensure_eq_ok] at hwaiting
  cases hself : s.sSelf with
  | none =>
    rw [sigNotifierHostnameResolve, noteNotified, hself] at hs
    cases hs
  | some k =>
    rw [sigNotifierHostnameResolve, noteNotified, hself] at hs
    cases hs
    refine ⟨hwaiting, rfl, k, rfl, Function.update_self k _ _, fun j hj => ?_⟩
    exact Function.update_of_ne hj _ _

/-- The rings keep their requests apart, and once there is one the global is set. -/
structure Apart (inetPton : IPAddress.InetPton) (s : SeveralRings n) : Prop where
  tidy : ∀ i, Tidy inetPton (s.rings i)
  apart : ∀ i j, i ≠ j → ∀ p ∈ (s.rings i).pointers, p ∉ (s.rings j).pointers
  answering : ∀ i, ∀ p ∈ (s.rings i).pointers, s.sSelf ≠ none

theorem initial_apart (inetPton : IPAddress.InetPton) (n : Nat) :
    Apart inetPton (initial n) where
  tidy _ := Resolver.initial_tidy inetPton
  apart _ _ _ := List.forall_mem_nil _
  answering _ := List.forall_mem_nil _

theorem Apart.resolve (h : Apart inetPton s) {sa4 : SockaddrIn} {sa6 : SockaddrIn6}
    {hostname : StdString} {handler : HandlerFn}
    (hs : step inetPton (.resolveHostname i sa4 sa6 p hostname handler) s = .ok t) :
    Apart inetPton t := by
  obtain ⟨hfresh, hothers, hring, hself⟩ := resolve_ok hs
  have hpointers : ∀ j, ∀ q ∈ (t.rings j).pointers,
      q ∈ (s.rings j).pointers ∨ (¬IsLiteral inetPton hostname ∧ q = p) ∧ j = i := by
    intro j q hq
    by_cases hj : j = i
    · subst hj
      exact (hring.pointers hq).imp_right fun hnew => ⟨hnew, rfl⟩
    · exact .inl (hothers j hj ▸ hq)
  refine ⟨fun j => ?_, fun j k hjk q hq hq' => ?_, fun j q hq => ?_⟩
  · by_cases hj : j = i
    · subst hj
      refine ((h.tidy j).passed _).resolved (hfresh j) ?_ hring
      exact List.mem_append_right _ (List.mem_singleton.mpr rfl)
    · rw [hothers j hj]
      exact h.tidy j
  · obtain hq | ⟨⟨_, hqp⟩, hji⟩ := hpointers j q hq <;>
      obtain hq' | ⟨⟨_, hqp'⟩, hki⟩ := hpointers k q hq'
    · exact h.apart j k hjk q hq hq'
    · exact hfresh j (hqp' ▸ hq)
    · exact hfresh k (hqp ▸ hq')
    · exact hjk (hji.trans hki.symm)
  · rw [hself]
    obtain hq | ⟨⟨hliteral, _⟩, _⟩ := hpointers j q hq
    · split
      · exact h.answering j q hq
      · exact Option.some_ne_none i
    · rw [if_neg hliteral]
      exact Option.some_ne_none i

theorem Apart.notified (h : Apart inetPton s) (hp : p ∈ (s.rings i).waiting) (j : Fin n) :
    p ∉ ((s.noteNotified p).rings j).waiting := by
  by_cases hj : j = i
  · exact (h.tidy j).nodup.not_mem_erase
  · intro hmem
    have hother := (h.tidy j).allocated p (List.mem_of_mem_erase hmem)
    exact h.apart j i hj p hother ((h.tidy i).allocated p hp)

theorem Apart.notify (h : Apart inetPton s) (hs : step inetPton (.notify p arResult) s = .ok t) :
    Apart inetPton t := by
  obtain ⟨⟨i, hp⟩, hself, k, _, hring, hothers⟩ := notify_ok hs
  have hpointers : ∀ j, ∀ q ∈ (t.rings j).pointers, q ∈ (s.rings j).pointers := by
    intro j q hq
    by_cases hj : j = k
    · subst hj
      rw [hring] at hq
      exact (Routing.requests_triggered p arResult (s.rings j).requests).subset hq
    · rw [hothers j hj] at hq
      exact hq
  refine ⟨fun j => ?_, fun j j' hne q hq hq' => ?_, fun j q hq => ?_⟩
  · by_cases hj : j = k
    · rw [hj, hring]
      exact ((h.tidy k).notified p).triggered (h.notified hp k) arResult
    · rw [hothers j hj]
      exact (h.tidy j).notified p
  · exact h.apart j j' hne q (hpointers j q hq) (hpointers j' q hq')
  · rw [hself]
    exact h.answering j q (hpointers j q hq)

theorem Apart.step {a : Action n} (h : Apart inetPton s)
    (hs : SeveralRings.step inetPton a s = .ok t) : Apart inetPton t := by
  cases a with
  | resolveHostname => exact h.resolve hs
  | notify => exact h.notify hs

theorem apart_reaches {guard : SeveralRings n → Action n → Prop}
    (hr : Transition.Reaches (step inetPton) guard (initial n) s) : Apart inetPton s :=
  hr.invariant (fun _ _ _ h _ hs => h.step hs) (initial_apart inetPton n)

theorem lastAsker_append (as : List (Action n)) (a : Action n) : lastAsker inetPton (as ++ [a]) =
    (a.asker inetPton).or (lastAsker inetPton as) := by
  rw [lastAsker, List.filterMap_append, lastAsker]
  cases ha : a.asker inetPton <;> simp [ha]

theorem asker_step {a : Action n} (hs : step inetPton a s = .ok t) :
    t.sSelf = (a.asker inetPton).or s.sSelf := by
  cases a with
  | resolveHostname i sa4 sa6 p hostname handler =>
    obtain ⟨_, _, _, hself⟩ := resolve_ok hs
    rw [hself, Action.asker]
    split <;> rfl
  | notify p arResult =>
    obtain ⟨_, hself, _⟩ := notify_ok hs
    rw [hself]
    rfl

theorem sSelf_of_runs {as : List (Action n)}
    (hr : Transition.Runs (step inetPton) Transition.Free as (initial n) s) :
    s.sSelf = lastAsker inetPton as := by
  have hinv := hr.invariant (I := fun as u => u.sSelf = lastAsker inetPton as) []
    (fun as u a v hu _ hs => ?_) rfl
  · exact hinv
  · rw [asker_step hs, lastAsker_append, hu]

/-- The notification of a lookup calls the handlers that wait for it if the ring that issued
it is the last that looked a name up, and nobody otherwise. -/
theorem notified_iff_last_asker {as : List (Action n)}
    (hr : Transition.Runs (step inetPton) Transition.Free as (initial n) s)
    (hp : p ∈ (s.rings i).waiting) (arResult : Option (List Addrinfo)) :
    ∃ it ∈ (s.rings i).requests, it.request = some p ∧
      ∃ t, step inetPton (.notify p arResult) s = .ok t ∧
        (t.rings i).calls = (s.rings i).calls ++ (if lastAsker inetPton as = some i then
          it.handlers.map fun handler => (handler, Routing.outcome arResult) else []) ∧
        ∀ j, j ≠ i → (t.rings j).calls = (s.rings j).calls := by
  have h := apart_reaches hr.reaches
  have hpointer := (h.tidy i).allocated p hp
  obtain ⟨it, hit, hreq⟩ := List.mem_filterMap.mp hpointer
  obtain ⟨k, hk⟩ := Option.ne_none_iff_exists'.mp (h.answering i p hpointer)
  have hfinal : ∃ t, step inetPton (.notify p arResult) s = .ok t := by
    rw [step, Checked.ensure, if_pos ⟨i, hp⟩, Checked.bind_ok, sigNotifierHostnameResolve,
      noteNotified, hk]
    exact ⟨_, rfl⟩
  obtain ⟨t, ht⟩ := hfinal
  obtain ⟨_, _, k', hk', hring, hothers⟩ := notify_ok ht
  obtain rfl : k' = k := Option.some.inj (hk'.symm.trans hk)
  have hforeign : ∀ j, j ≠ i → p ∉ ((s.noteNotified p).rings j).pointers :=
    fun j hj hmem => h.apart j i hj p hmem hpointer
  refine ⟨it, hit, hreq, t, ht, ?_, fun j hj => ?_⟩
  · rw [← sSelf_of_runs hr, hk]
    by_cases hki : k' = i
    · subst hki
      have htidy : Tidy inetPton ((s.noteNotified p).rings k') := (h.tidy k').notified p
      rw [hring, if_pos rfl, htidy.calls_triggered hit hreq arResult]
      rfl
    · rw [hothers i (Ne.symm hki), if_neg fun he => hki (Option.some.inj he), List.append_nil]
      rfl
  · by_cases hjk : j = k'
    · subst hjk
      rw [hring, Resolver.trigger_other (hforeign j hj)]
      rfl
    · rw [hothers j hjk]
      rfl

private def nameA : StdString :=
  ⟨['a', '.', 't', 'e', 's', 't'].map chr, by decide⟩

private def nameB : StdString :=
  ⟨['b', '.', 't', 'e', 's', 't'].map chr, by decide⟩

private def onlyNames : IPAddress.InetPton := ⟨fun _ => none, fun _ => none⟩

/-- The first ring looks a name up that two handlers wait for, and then the second ring another. -/
private def twoAskers : List (Action 2) :=
  [.resolveHostname 0 default default 64 nameA 1,
    .resolveHostname 0 default default 0 nameA 2,
    .resolveHostname 1 default default 96 nameB 3]

theorem notified_iff_last_asker_other : ∃ s t : SeveralRings 2, ∃ it ∈ (s.rings 0).requests,
    it.request = some 64 ∧ step onlyNames (.notify 64 none) s = .ok t ∧ (t.rings 0).calls = [] := by
  obtain ⟨s, hr, hp, hcalls⟩ := Transition.runs_of_leads (step onlyNames) Transition.Free
    (fun s : SeveralRings 2 => 64 ∈ (s.rings 0).waiting ∧ (s.rings 0).calls.map Prod.fst = [])
    twoAskers (initial 2) (by decide)
  obtain ⟨it, hit, hreq, t, ht, hring, _⟩ := notified_iff_last_asker hr hp none
  have hlast : lastAsker onlyNames twoAskers ≠ some 0 := by decide
  rw [if_neg hlast, List.append_nil, List.map_eq_nil_iff.mp hcalls] at hring
  exact ⟨s, t, it, hit, hreq, ht, hring⟩

/-- An entry of a ring whose notification went to another one. -/
structure Lost (i : Fin n) (name : StdString) (p : RequestPtr) (s : SeveralRings n) : Prop where
  entry : ∃ it ∈ (s.rings i).requests, it.hostname = name ∧ it.request = some p
  unawaited : ∀ j, p ∉ (s.rings j).waiting

theorem Lost.step {name : StdString} {a : Action n} (h : Lost i name p s)
    (hs : SeveralRings.step inetPton a s = .ok t) : Lost i name p t := by
  obtain ⟨⟨it, hit, hname, hreq⟩, hwait⟩ := h
  have hpointer : p ∈ (s.rings i).pointers := List.mem_filterMap.mpr ⟨it, hit, hreq⟩
  cases a with
  | resolveHostname j sa4 sa6 q hostname handler =>
    obtain ⟨hfresh, hothers, hring, _⟩ := resolve_ok hs
    have hne : p ≠ q := fun he => hfresh i (he ▸ hpointer)
    refine ⟨?_, fun k => ?_⟩
    · by_cases hij : i = j
      · subst hij
        cases hring with
        | direct addr _ heq =>
          rw [heq]
          exact ⟨it, hit, hname, hreq⟩
        | joined before it' after _ _ hrequests heq =>
          rw [heq]
          have hit : it ∈ before ++ it' :: after := hrequests ▸ hit
          obtain hit | hit := List.mem_append.mp hit
          · exact ⟨it, List.mem_append_left _ hit, hname, hreq⟩
          · obtain rfl | hit := List.mem_cons.mp hit
            · exact ⟨_, List.mem_append_right _ List.mem_cons_self, hname, hreq⟩
            · exact ⟨it, List.mem_append_right _ (List.mem_cons_of_mem _ hit), hname, hreq⟩
        | issued _ _ heq =>
          rw [heq]
          exact ⟨it, List.mem_append_left _ hit, hname, hreq⟩
      · rw [hothers i hij]
        exact ⟨it, hit, hname, hreq⟩
    · by_cases hkj : k = j
      · subst hkj
        cases hring with
        | direct _ _ heq | joined _ _ _ _ _ _ heq =>
          rw [heq]
          exact hwait k
        | issued _ _ heq =>
          rw [heq]
          exact List.not_mem_cons_of_ne_of_not_mem hne (hwait k)
      · rw [hothers k hkj]
        exact hwait k
  | notify q arResult =>
    obtain ⟨⟨j, hq⟩, _, k, _, hring, hothers⟩ := notify_ok hs
    have hne : p ≠ q := fun he => hwait j (he ▸ hq)
    refine ⟨?_, fun l hmem => ?_⟩
    · by_cases hik : i = k
      · rw [hik, hring]
        exact ⟨_, List.mem_map_of_mem (hik ▸ hit), (Routing.hostname_triggered q arResult it).trans hname,
          Resolver.request_triggered hne hreq⟩
      · rw [hothers i hik]
        exact ⟨it, hit, hname, hreq⟩
    · by_cases hlk : l = k
      · rw [hlk, hring] at hmem
        exact hwait k (List.mem_of_mem_erase hmem)
      · rw [hothers l hlk] at hmem
        exact hwait l (List.mem_of_mem_erase hmem)

/-- The calls of one handler. -/
def callsOf (i : Fin n) (handler : HandlerFn) (s : SeveralRings n) :
    List (HandlerFn × ResolveHostnameArg) :=
  (s.rings i).calls.filter fun call => call.1 = handler

/-- The handler is passed to the ring with one name only. -/
def OnlyFor (i : Fin n) (handler : HandlerFn) (name : StdString) (s : SeveralRings n) : Prop :=
  ∀ q ∈ (s.rings i).passed, q.2 = handler → q.1 = name

theorem passed_step {a : Action n} (hs : step inetPton a s = .ok t) (i : Fin n) :
    (s.rings i).passed ⊆ (t.rings i).passed := by
  cases a with
  | resolveHostname j sa4 sa6 q hostname handler =>
    obtain ⟨_, hothers, hring, _⟩ := resolve_ok hs
    by_cases hij : i = j
    · subst hij
      have hpassed : (t.rings i).passed = (s.rings i).passed ++ [(hostname, handler)] := by
        cases hring with
        | direct _ _ heq | joined _ _ _ _ _ _ heq | issued _ _ heq => rw [heq]
      rw [hpassed]
      exact List.subset_append_left _ _
    · rw [hothers i hij]
      exact List.Subset.refl _
  | notify q arResult =>
    obtain ⟨_, _, k, _, hring, hothers⟩ := notify_ok hs
    by_cases hik : i = k
    · rw [hik, hring]
      exact List.Subset.refl _
    · rw [hothers i hik]
      exact List.Subset.refl _

theorem Lost.silent {name : StdString} {a : Action n} {handler : HandlerFn} (h : Lost i name p s)
    (ha : Apart inetPton s) (hs : SeveralRings.step inetPton a s = .ok t)
    (honly : t.OnlyFor i handler name) : t.callsOf i handler = s.callsOf i handler := by
  obtain ⟨⟨it, hit, hname, hreq⟩, hwait⟩ := h
  cases a with
  | resolveHostname j sa4 sa6 q hostname called =>
    obtain ⟨_, hothers, hring, _⟩ := resolve_ok hs
    by_cases hij : i = j
    · subst hij
      rw [callsOf, callsOf]
      cases hring with
      | direct addr hliteral heq =>
        have hother : called ≠ handler := by
          intro he
          have hsame := honly (hostname, called)
            (heq ▸ List.mem_append_right _ (List.mem_singleton.mpr rfl)) he
          exact (ha.tidy i).lookedUp it hit (hname ▸ hsame ▸ hliteral)
        rw [heq, List.filter_append, List.filter_singleton]
        simp [hother]
      | joined _ _ _ _ _ _ heq | issued _ _ heq => rw [heq]
    · rw [callsOf, hothers i hij, callsOf]
  | notify q arResult =>
    obtain ⟨⟨j, hq⟩, _, k, _, hring, hothers⟩ := notify_ok hs
    by_cases hik : i = k
    · subst hik
      have hnone : ∀ c ∈ (s.rings i).requests.flatMap
          fun it => (Resolver.triggerOne q arResult it).2, c.1 ≠ handler := by
        rintro c hc rfl
        obtain ⟨it', hit', hreq', hmem⟩ := Resolver.mem_triggered hc
        have hpassed := passed_step hs i ((ha.tidy i).handed it' hit' c.1 hmem)
        have hsame : it' = it := List.inj_on_of_nodup_map (ha.tidy i).names hit' hit
          ((honly _ hpassed rfl).trans hname.symm)
        rw [hsame, hreq] at hreq'
        exact hwait j (Option.some.inj hreq' ▸ hq)
      have hcalls : (t.rings i).calls = (s.rings i).calls ++ (s.rings i).requests.flatMap
          fun it => (Resolver.triggerOne q arResult it).2 := congrArg Resolver.calls hring
      have hfilter : ((s.rings i).requests.flatMap
          fun it => (Resolver.triggerOne q arResult it).2).filter (fun c => c.1 = handler) = [] := by
        apply List.filter_eq_nil_iff.mpr
        intro c hc
        simpa using hnone c hc
      rw [callsOf, hcalls, List.filter_append, hfilter, List.append_nil, callsOf]
    · rw [callsOf, hothers i hik, callsOf]
      rfl

/-- Once the notification of a lookup has gone to another ring, the ring that asked never calls
the handlers passed to it for that name alone, however often the name is asked for. -/
theorem lookup_lost_forever (hr : Transition.Reaches (step inetPton) Transition.Free (initial n) s)
    (hp : p ∈ (s.rings i).waiting) {it : RequestInfo} (hit : it ∈ (s.rings i).requests)
    (hreq : it.request = some p) (hself : s.sSelf ≠ some i)
    (hs : step inetPton (.notify p arResult) s = .ok t)
    (ht : Transition.Reaches (step inetPton) Transition.Free t u) {handler : HandlerFn}
    (honly : u.OnlyFor i handler it.hostname) : u.callsOf i handler = s.callsOf i handler := by
  have ha := apart_reaches hr
  obtain ⟨_, _, k, hk, hring, hothers⟩ := notify_ok hs
  have hik : i ≠ k := fun he => hself (he ▸ hk)
  have hstill : t.rings i = (s.noteNotified p).rings i := hothers i hik
  have hlost : Lost i it.hostname p t := by
    refine ⟨⟨it, hstill ▸ hit, rfl, hreq⟩, fun j => ?_⟩
    by_cases hj : j = k
    · rw [hj, hring]
      exact ha.notified hp k
    · rw [hothers j hj]
      exact ha.notified hp j
  have hsame : t.callsOf i handler = s.callsOf i handler := by
    rw [callsOf, hstill, callsOf]
    rfl
  rw [← hsame]
  have hinv := ht.invariant (I := fun v => Lost i it.hostname p v ∧ Apart inetPton v ∧
      (v.OnlyFor i handler it.hostname → v.callsOf i handler = t.callsOf i handler))
    (fun v a w hv _ hstep => ?_) ⟨hlost, ha.step hs, fun _ => rfl⟩
  · exact hinv.2.2 honly
  · obtain ⟨hl, hap, hcalls⟩ := hv
    refine ⟨hl.step hstep, hap.step hstep, fun hw => ?_⟩
    rw [hl.silent hap hstep hw]
    exact hcalls fun q hq => hw q (passed_step hstep i hq)

/-- The first ring is asked for its name once more, and notified of nothing. -/
theorem lookup_lost_forever_asked_again : ∃ u : SeveralRings 2,
    (u.rings 0).passed = [(nameA, 1), (nameA, 2), (nameA, 4)] ∧
      u.callsOf 0 2 = [] := by
  obtain ⟨s, hr, ⟨hp, hit, hself, hcalls⟩, hleads⟩ := Transition.reaches_of_leads (step onlyNames)
    Transition.Free (fun s : SeveralRings 2 => (64 ∈ (s.rings 0).waiting ∧
      ⟨nameA, some 64, [2]⟩ ∈ (s.rings 0).requests ∧ s.sSelf ≠ some 0 ∧
        (s.callsOf 0 2).map Prod.fst = []) ∧
      Transition.Leads (step onlyNames) Transition.Free
        (Transition.Leads (step onlyNames) Transition.Free
          (fun u => (u.rings 0).passed = [(nameA, 1), (nameA, 2), (nameA, 4)])
          [.resolveHostname 0 default default 0 nameA 4])
        [.notify 64 none] s) twoAskers (initial 2) (by decide)
  obtain ⟨_, t, ht, hmore⟩ := Transition.leads_single.mp hleads
  obtain ⟨u, hu, hpassed⟩ := Transition.reaches_of_leads _ _ _ _ _ hmore
  have honly : u.OnlyFor 0 2 nameA := by
    rw [OnlyFor, hpassed]
    decide
  refine ⟨u, hpassed, ?_⟩
  rw [lookup_lost_forever hr hp hit rfl hself ht hu honly]
  exact List.map_eq_nil_iff.mp hcalls

/-- What one ring sees of the process. -/
def Action.view (i : Fin n) : Action n → Option Resolver.Action
  | .resolveHostname j sa4 sa6 request hostname handler =>
    if j = i then some (.resolveHostname sa4 sa6 request hostname handler) else none
  | .notify ptr arResult => some (.notify ptr arResult)

/-- No ring but the given one looks names up. -/
def OnlyAsker (inetPton : IPAddress.InetPton) (i : Fin n) (_ : SeveralRings n) (a : Action n) :
    Prop := ∀ j ∈ a.asker inetPton, j = i

instance (inetPton : IPAddress.InetPton) (i : Fin n) (s : SeveralRings n) (a : Action n) :
    Decidable (OnlyAsker inetPton i s a) := inferInstanceAs (Decidable (∀ j ∈ _, j = i))

theorem view_resolve {sa4 : SockaddrIn} {sa6 : SockaddrIn6} {hostname : StdString}
    {handler : HandlerFn} (hs : step inetPton (.resolveHostname i sa4 sa6 p hostname handler) s = .ok t) :
    Resolver.step inetPton (.resolveHostname sa4 sa6 p hostname handler) (s.rings i) =
      .ok (t.rings i) := by
  have hfresh : p ∉ (s.rings i).requests.filterMap (·.request) := (resolve_ok hs).1 i
  obtain ⟨_, _, hs⟩ := Checked.bind_eq_ok.mp hs
  cases hs
  rw [Resolver.step, Checked.ensure, if_pos hfresh, Checked.bind_ok]
  simp only [resolveHostname, noteCall, Function.update_self]
  rfl

theorem view_notify (hp : p ∈ (s.rings i).waiting) (hself : s.sSelf = some i)
    (hs : step inetPton (.notify p arResult) s = .ok t) :
    Resolver.step inetPton (.notify p arResult) (s.rings i) = .ok (t.rings i) := by
  obtain ⟨_, _, k, hk, hring, _⟩ := notify_ok hs
  obtain rfl : i = k := Option.some.inj (hself.symm.trans hk)
  rw [Resolver.step, Checked.ensure, if_pos hp, Checked.bind_ok, hring]
  rfl

/-- With one ring that looks names up, the process with its global does what that ring alone
would do: each run of the one is a run of the other. -/
theorem one_ring_refines {as : List (Action n)}
    (hr : Transition.Runs (step inetPton) (OnlyAsker inetPton i) as (initial n) s) :
    Transition.Runs (Resolver.step inetPton) Transition.Free (as.filterMap (Action.view i)) .initial
      (s.rings i) := by
  have hinv := hr.invariant (I := fun as u => Apart inetPton u ∧
      (∀ j, j ≠ i → (u.rings j).pointers = []) ∧ (∀ k ∈ u.sSelf, k = i) ∧
        Transition.Runs (Resolver.step inetPton) Transition.Free (as.filterMap (Action.view i))
          .initial (u.rings i)) []
    (fun as u a v hu hg hs => ?_)
    ⟨initial_apart inetPton n, fun _ _ => rfl, nofun, Transition.Runs.nil⟩
  · exact hinv.2.2.2
  · obtain ⟨ha, hempty, hself, hruns⟩ := hu
    have hself' : ∀ k ∈ v.sSelf, k = i := by
      rw [asker_step hs]
      intro k hk
      obtain hk | ⟨_, hk⟩ := Option.or_eq_some_iff.mp hk
      · exact hg k hk
      · exact hself k hk
    refine ⟨ha.step hs, fun j hj => ?_, hself', ?_⟩
    · cases a with
      | resolveHostname l sa4 sa6 q hostname handler =>
        obtain ⟨_, hothers, hring, _⟩ := resolve_ok hs
        by_cases hjl : j = l
        · subst hjl
          apply List.eq_nil_iff_forall_not_mem.mpr
          intro q' hq'
          obtain hold | ⟨hliteral, _⟩ := hring.pointers hq'
          · have hold : q' ∈ (u.rings j).pointers := hold
            rw [hempty j hj] at hold
            exact List.not_mem_nil hold
          · exact hj (hg j (by rw [Action.asker, if_neg hliteral]; rfl))
        · rw [hothers j hjl]
          exact hempty j hj
      | notify q arResult =>
        obtain ⟨_, _, k, hk, _, hothers⟩ := notify_ok hs
        rw [hothers j fun he => hj (he.trans (hself k hk))]
        exact hempty j hj
    · cases a with
      | resolveHostname l sa4 sa6 q hostname handler =>
        by_cases hl : l = i
        · subst hl
          have hview : Action.view l (.resolveHostname l sa4 sa6 q hostname handler) =
              some (.resolveHostname sa4 sa6 q hostname handler) := if_pos rfl
          rw [List.filterMap_append, List.filterMap_cons_some hview]
          exact hruns.append (.single trivial (view_resolve hs))
        · have hview : Action.view i (.resolveHostname l sa4 sa6 q hostname handler) = none :=
            if_neg hl
          rw [List.filterMap_append, List.filterMap_cons_none hview, List.filterMap_nil,
            List.append_nil, (resolve_ok hs).2.1 i (Ne.symm hl)]
          exact hruns
      | notify q arResult =>
        obtain ⟨⟨j, hq⟩, _, k, hk, _⟩ := notify_ok hs
        have hji : j = i := by
          by_contra hj
          have hmem := (ha.tidy j).allocated q hq
          rw [hempty j hj] at hmem
          exact List.not_mem_nil hmem
        have hone := view_notify (hji ▸ hq) (hself k hk ▸ hk) hs
        rw [List.filterMap_append]
        exact hruns.append (.single trivial hone)

/-- The second ring of two is the only one that looks a name up. -/
theorem one_ring_refines_second : ∃ r : Resolver, r.calls.map Prod.fst = [2] ∧
    Transition.Runs (Resolver.step onlyNames) Transition.Free
      [.resolveHostname default default 64 nameA 1,
        .resolveHostname default default 0 nameA 2, .notify 64 (some [])] .initial r := by
  obtain ⟨s, hr, hcalls⟩ := Transition.runs_of_leads (step onlyNames) (OnlyAsker onlyNames 1)
    (fun s : SeveralRings 2 => (s.rings 1).calls.map Prod.fst = [2])
    [.resolveHostname 1 default default 64 nameA 1,
      .resolveHostname 1 default default 0 nameA 2, .notify 64 (some [])] (initial 2)
    (by decide)
  exact ⟨s.rings 1, hcalls, one_ring_refines hr⟩

end SeveralRings

end Iuring
