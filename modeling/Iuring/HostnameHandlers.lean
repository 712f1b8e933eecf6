import Iuring.Lib.Hex
import Iuring.Resolver

namespace Iuring

open Lib Lib.Hex

namespace Resolver

variable {inetPton : IPAddress.InetPton} {r r' : Resolver} {w : List RequestPtr}
  {rs rs' : List RequestInfo}

/-- What inet_pton sees of the string is an address of one of the two families. -/
def IsLiteral (inetPton : IPAddress.InetPton) (hostname : StdString) : Prop :=
  (inetPton.ipv4 (cStr hostname.bytes)).isSome = true ∨
    (inetPton.ipv6 (cStr hostname.bytes)).isSome = true

instance (inetPton : IPAddress.InetPton) (hostname : StdString) :
    Decidable (IsLiteral inetPton hostname) := inferInstanceAs (Decidable (_ ∨ _))

theorem parse_cases (inetPton : IPAddress.InetPton) (sa4 : SockaddrIn) (sa6 : SockaddrIn6)
    (hostname : StdString) :
    IsLiteral inetPton hostname ∧ (∃ addr, IPAddress.parse inetPton sa4 sa6 hostname = .ok addr) ∨
      ¬IsLiteral inetPton hostname ∧
        ∃ e, IPAddress.parse inetPton sa4 sa6 hostname = .error e := by
  rw [IsLiteral, IPAddress.parse]
  cases h4 : inetPton.ipv4 (cStr hostname.bytes) with
  | some addr => exact .inl ⟨.inl rfl, _, rfl⟩
  | none =>
    cases h6 : inetPton.ipv6 (cStr hostname.bytes) with
    | some addr => exact .inl ⟨.inr rfl, _, rfl⟩
    | none => exact .inr ⟨by simp, _, rfl⟩

/-- The notification of the entry's lookup is still to come. -/
def awaits (w : List RequestPtr) (it : RequestInfo) : Bool := it.request.any (fun p => p ∈ w)

/-- The handlers that a notification still to come will call. -/
def held (w : List RequestPtr) (rs : List RequestInfo) : List HandlerFn :=
  (rs.filter (awaits w)).flatMap (·.handlers)

theorem held_cons (it : RequestInfo) : held w (it :: rs) =
    (if awaits w it then it.handlers else []) ++ held w rs := by
  rw [held]
  rw [List.filter_cons]
  split <;> rfl

theorem held_append (rs rs' : List RequestInfo) : held w (rs ++ rs') = held w rs ++ held w rs' := by
  simp [held]

theorem pushHandler_eq_some {hostname : StdString} {handler : HandlerFn}
    (h : pushHandler hostname handler rs = some rs') : ∃ before it after,
      rs = before ++ it :: after ∧
        rs' = before ++ { it with handlers := it.handlers ++ [handler] } :: after := by
  induction rs generalizing rs' with
  | nil => cases h
  | cons req rest ih =>
    rw [pushHandler] at h
    split at h
    · cases h
      exact ⟨[], req, rest, rfl, rfl⟩
    · obtain ⟨more, hmore, rfl⟩ := Option.map_eq_some_iff.mp h
      obtain ⟨before, it, after, rfl, rfl⟩ := ih hmore
      exact ⟨req :: before, it, after, rfl, rfl⟩

theorem held_pushHandler {hostname : StdString} {handler : HandlerFn}
    (h : pushHandler hostname handler rs = some rs') :
    (held w rs').length ≤ (held w rs).length + 1 ∧ rs'.length = rs.length ∧
      rs'.filterMap (·.request) = rs.filterMap (·.request) := by
  obtain ⟨before, it, after, rfl, rfl⟩ := pushHandler_eq_some h
  refine ⟨?_, by simp, by simp [List.filterMap_cons]⟩
  have ha : awaits w { it with handlers := it.handlers ++ [handler] } = awaits w it := rfl
  rw [held_append, held_append, held_cons, held_cons, ha]
  simp only [List.length_append]
  split
  · simp only [List.length_append, List.length_singleton]
    omega
  · omega

theorem awaits_cons_of_mem {p : RequestPtr} (hp : p ∉ rs.filterMap (·.request)) {it : RequestInfo}
    (hm : it ∈ rs) : awaits (p :: w) it = awaits w it := by
  unfold awaits
  cases hreq : it.request with
  | none => rfl
  | some q =>
    have hne : q ≠ p := by
      rintro rfl
      exact hp (List.mem_filterMap.mpr ⟨it, hm, hreq⟩)
    simp [hne]

/-- An entry for a lookup that has just been started holds no handler. -/
theorem held_new {p : RequestPtr} (hp : p ∉ rs.filterMap (·.request)) (hostname : StdString) :
    held (p :: w) (rs ++ [⟨hostname, some p, []⟩]) = held w rs := by
  have hold : held (p :: w) rs = held w rs := by
    rw [held, held, List.filter_congr fun it hm => awaits_cons_of_mem hp hm]
  have hnew : held (p :: w) [⟨hostname, some p, []⟩] = [] := by
    rw [held_cons]
    simp [held]
  rw [held_append, hold, hnew, List.append_nil]

/-- A notification calls the handlers of its lookup, which wait no longer. -/
theorem held_trigger {p : RequestPtr} (hp : p ∈ w) (hw : w.Nodup)
    (arResult : Option (List Addrinfo)) (rs : List RequestInfo) :
    (held (w.erase p) (rs.map (fun it => (triggerOne p arResult it).1))).length +
      (rs.flatMap (fun it => (triggerOne p arResult it).2)).length = (held w rs).length := by
  induction rs with
  | nil => rfl
  | cons it rs ih =>
    have hone : (if awaits (w.erase p) (triggerOne p arResult it).1
        then (triggerOne p arResult it).1.handlers else []).length +
        (triggerOne p arResult it).2.length = (if awaits w it then it.handlers else []).length := by
      cases hreq : it.request with
      | none => simp [triggerOne, awaits, hreq]
      | some q =>
        by_cases hq : q = p
        · subst hq
          have hgone : q ∉ w.erase q := hw.not_mem_erase
          cases arResult <;> simp [triggerOne, awaits, hreq, hp, hgone]
        · have hkept : q ∈ w.erase p ↔ q ∈ w := List.mem_erase_of_ne hq
          simp [triggerOne, awaits, hreq, hq, hkept]
    rw [List.map_cons, List.flatMap_cons, held_cons, held_cons, List.length_append,
      List.length_append, List.length_append]
    omega

theorem request_triggered {p q : RequestPtr} {arResult : Option (List Addrinfo)} {it : RequestInfo}
    (hq : q ≠ p) (hreq : it.request = some q) : (triggerOne p arResult it).1.request = some q := by
  simp [triggerOne, hreq, hq]

/-- No handler is called that is not passed, and each entry of the table has cost one. -/
structure Accounted (inetPton : IPAddress.InetPton) (r : Resolver) : Prop where
  nodup : r.waiting.Nodup
  allocated : ∀ p ∈ r.waiting, p ∈ r.requests.filterMap (·.request)
  bound : r.calls.length + (held r.waiting r.requests).length + r.requests.length ≤ r.passed.length
  direct : r.requests = [] → r.calls.map Prod.fst = r.passed.map Prod.snd
  literal : r.requests = [] ↔ ∀ q ∈ r.passed, IsLiteral inetPton q.1

theorem initial_accounted (inetPton : IPAddress.InetPton) : Accounted inetPton initial where
  nodup := List.nodup_nil
  allocated := List.forall_mem_nil _
  bound := Nat.le_refl 0
  direct _ := rfl
  literal := iff_of_true rfl (List.forall_mem_nil _)

theorem Accounted.resolve (h : Accounted inetPton r) {sa4 : SockaddrIn} {sa6 : SockaddrIn6}
    {request : RequestPtr} {hostname : StdString} {handler : HandlerFn}
    (hs : step inetPton (.resolveHostname sa4 sa6 request hostname handler) r = .ok r') :
    Accounted inetPton r' := by
  obtain ⟨_, hfresh, hs⟩ := Checked.bind_eq_ok.mp hs
  rw [Checked.ensure_eq_ok] at hfresh
  cases hs
  have hb := h.bound
  rw [resolveHostname]
  obtain ⟨hlit, addr, hparse⟩ | ⟨hlit, e, hparse⟩ := parse_cases inetPton sa4 sa6 hostname
  · simp only [hparse]
    refine ⟨h.nodup, h.allocated, ?_, fun hnil => ?_, ?_⟩
    · simp only [List.length_append, List.length_singleton]
      omega
    · simp [h.direct hnil]
    · rw [h.literal, List.forall_mem_append]
      simp [hlit]
  · have hnever : ¬∀ q ∈ r.passed ++ [(hostname, handler)], IsLiteral inetPton q.1 :=
      fun hall => hlit (hall (hostname, handler) (by simp))
    simp only [hparse]
    cases hpush : pushHandler hostname handler r.requests with
    | some requests =>
      obtain ⟨hheld, hlen, hreq⟩ := held_pushHandler (w := r.waiting) hpush
      have hne : requests ≠ [] := by
        obtain ⟨_, _, _, _, rfl⟩ := pushHandler_eq_some hpush
        simp
      refine ⟨h.nodup, fun p hp => ?_, ?_, fun hnil => absurd hnil hne, iff_of_false hne hnever⟩
      · exact hreq ▸ h.allocated p hp
      · simp only [List.length_append, List.length_singleton]
        omega
    | none =>
      have hne : r.requests ++ [⟨hostname, some request, []⟩] ≠ [] := by simp
      refine ⟨List.nodup_cons.mpr ⟨fun hp => hfresh (h.allocated _ hp), h.nodup⟩, fun p hp => ?_, ?_,
        fun hnil => absurd hnil hne, iff_of_false hne hnever⟩
      · rw [List.filterMap_append]
        obtain rfl | hp := List.mem_cons.mp hp
        · exact List.mem_append_right _ (by simp)
        · exact List.mem_append_left _ (h.allocated p hp)
      · simp only [held_new hfresh, List.length_append, List.length_singleton]
        omega

theorem Accounted.notify (h : Accounted inetPton r) {ptr : RequestPtr}
    {arResult : Option (List Addrinfo)} (hs : step inetPton (.notify ptr arResult) r = .ok r') :
    Accounted inetPton r' := by
  obtain ⟨_, hmem, hs⟩ := Checked.bind_eq_ok.mp hs
  rw [Checked.ensure_eq_ok] at hmem
  cases hs
  have hb := h.bound
  have ht := held_trigger hmem h.nodup arResult r.requests
  have hnil : r.requests.map (fun it => (triggerOne ptr arResult it).1) = [] ↔ r.requests = [] :=
    List.map_eq_nil_iff
  refine ⟨h.nodup.erase _, fun p hp => ?_, ?_, fun he => ?_, hnil.trans h.literal⟩
  · have hne : p ≠ ptr := fun he => h.nodup.not_mem_erase (he ▸ hp)
    obtain ⟨it, hit, hreq⟩ := List.mem_filterMap.mp (h.allocated p (List.mem_of_mem_erase hp))
    exact List.mem_filterMap.mpr
      ⟨_, List.mem_map_of_mem hit, request_triggered hne hreq⟩
  · simp only [triggerHostnameResolveCallbacks, List.length_append, List.length_map] at ht ⊢
    omega
  · have hr := hnil.mp he
    simp only [triggerHostnameResolveCallbacks, hr, List.flatMap_nil, List.append_nil]
    exact h.direct hr

theorem Accounted.step {a : Action} (h : Accounted inetPton r)
    (hs : Resolver.step inetPton a r = .ok r') : Accounted inetPton r' := by
  cases a with
  | resolveHostname => exact h.resolve hs
  | notify => exact h.notify hs

/-- Each handler has been called as often as it was passed exactly if no lookup was ever needed. -/
theorem handlers_called_once_iff
    (hr : Transition.Reaches (step inetPton) Transition.Free initial r) :
    (∀ handler, (r.calls.map Prod.fst).count handler = (r.passed.map Prod.snd).count handler) ↔
      ∀ q ∈ r.passed, IsLiteral inetPton q.1 := by
  have h := hr.invariant (fun _ _ _ hp _ hs => hp.step hs) (initial_accounted inetPton)
  rw [← h.literal]
  constructor
  · intro hcount
    have hlen := (List.perm_iff_count.mpr hcount).length_eq
    have hb := h.bound
    simp only [List.length_map] at hlen
    exact List.length_eq_zero_iff.mp (by omega)
  · intro hnil handler
    rw [h.direct hnil]

private def loopbackName : StdString :=
  ⟨['1', '2', '7', '.', '0', '.', '0', '.', '2'].map chr, by decide⟩

private def localhost : StdString :=
  ⟨['l', 'o', 'c', 'a', 'l', 'h', 'o', 's', 't'].map chr, by decide⟩

private def loopbackOnly : IPAddress.InetPton where
  ipv4 text := if text = loopbackName.bytes then some 0x0200007f else none
  ipv6 _ := none

theorem handlers_called_once_iff_loopback : ∃ r : Resolver,
    r.passed = [(loopbackName, 7)] ∧ (r.calls.map Prod.fst).count 7 = 1 := by
  obtain ⟨r, hr, hpassed⟩ := Transition.reaches_of_leads (step loopbackOnly) Transition.Free
    (fun r => r.passed = [(loopbackName, 7)])
    [.resolveHostname default default 0 loopbackName 7] initial (by decide)
  refine ⟨r, hpassed, ?_⟩
  have hliteral : IsLiteral loopbackOnly loopbackName := by decide
  have hall := (handlers_called_once_iff hr).mpr (by simp [hpassed, hliteral])
  rw [hall 7, hpassed]
  rfl

/-- The handler whose call started the lookup is not called when the lookup is notified. -/
theorem first_handler_never_called : ∃ r,
    Transition.Reaches (step loopbackOnly) Transition.Free initial r ∧ r.waiting = [] ∧
      (localhost, 7) ∈ r.passed ∧ (r.calls.map Prod.fst).count 7 = 0 :=
  Transition.reaches_of_leads (step loopbackOnly) Transition.Free _
    [.resolveHostname default default 0 localhost 7,
      .notify 0 (some [⟨afInet, fun _ => 0⟩])] initial (by decide)

end Resolver

end Iuring
