import Iuring.ReceivedBytes

namespace Iuring

open Lib Lib.Memory

namespace Event

/-- The item that a poll found for the entry that it dispatched. -/
def finds : Event → Option (Option Nat)
  | .dispatched _ found => some found
  | .submitted _ | .called _ _ | .released _ => none

/-- The bytes that a call hands to the receiving item. -/
def receives (o : Nat) : Event → Option (List Byte)
  | .called o' ⟨_, .recv payload⟩ => if o' = o then some payload.data else none
  | _ => none

end Event

/-- As many bytes as the kernel reported, and among them each that it wrote, at its place. -/
structure Carries (payload : List Byte) (k : IOUring.Outcome) : Prop where
  length : payload.length = k.res.toNat
  bytes : ∀ i < payload.length, ∀ b ∈ k.data i, payload[i]? = some b

namespace IOUring

variable {s s' : IOUring} {a : Action} {queueSize mapped : Nat} {memory : Nat → Byte}
  {ks : List Outcome}

/-- What the calls of the item's callback were given, in their order. -/
def deliveries (o : Nat) (s : IOUring) : List (List Byte) := s.trace.filterMap (Event.receives o)

/-- The successful ones among the kernel's decisions that a poll dispatched to the item. -/
def arrivals (o : Nat) (ks : List Outcome) (s : IOUring) : List Outcome :=
  ((s.trace.filterMap Event.finds).zip ks).filterMap fun p =>
    if p.1 = some o ∧ 0 ≤ p.2.res then some p.2 else none

/-- Each receiver of a stream has been given what arrived for it. -/
structure Relayed (ks : List Outcome) (s : IOUring) : Prop where
  count : (s.trace.filterMap Event.finds).length = s.cqHead + s.frames.length
  fresh : ∀ o, s.pool.nextObj ≤ o → s.deliveries o = [] ∧ s.arrivals o ks = []
  carried : ∀ o < s.pool.nextObj, s.kind o = .recv → (s.item o).isStream = true →
    List.Forall₂ Carries (s.deliveries o) (s.arrivals o ks)

theorem zip_concat {α β : Type} {xs : List α} {ys : List β} {x : α} {y : β}
    (h : ys[xs.length]? = some y) : (xs ++ [x]).zip ys = xs.zip ys ++ [(x, y)] := by
  induction xs generalizing ys with
  | nil =>
    cases ys with
    | nil => cases h
    | cons z ys =>
      cases h
      rfl
  | cons w xs ih =>
    cases ys with
    | nil => cases h
    | cons z ys => exact congrArg (List.cons (w, z)) (ih h)

theorem zip_append_of_le {α β : Type} {xs : List α} {ys : List β} (h : xs.length ≤ ys.length)
    (zs : List β) : xs.zip (ys ++ zs) = xs.zip ys := by
  induction xs generalizing ys with
  | nil => rfl
  | cons w xs ih =>
    cases ys with
    | nil => cases h
    | cons y ys => exact congrArg (List.cons (w, y)) (ih (Nat.le_of_succ_le_succ h))

theorem receiving_before {o : Nat} (he : s.pool.Extends s'.pool) (ho : o < s.pool.nextObj)
    (hk : s'.kind o = .recv) (hstream : (s'.item o).isStream = true) :
    s.kind o = .recv ∧ (s.item o).isStream = true := by
  have hev := he.evolves o ho
  refine ⟨?_, ?_⟩
  · obtain h | ⟨_, h⟩ := hev.type
    · exact h.symm.trans hk
    · have hk' : (s'.pool.objs o).workType = .recv := hk
      rw [hk'] at h
      cases h
  · have hsocket : (s'.item o).socket = (s.item o).socket := hev.socket
    rwa [WorkItem.isStream, ← hsocket]

/-- A step that adds events, with what arrives for each item by it. -/
theorem Relayed.extend (h : s.Relayed ks) (he : s.pool.Extends s'.pool) {es : List Event}
    (ht : s'.trace = s.trace ++ es)
    (hcount : s.cqHead + s.frames.length + (es.filterMap Event.finds).length =
      s'.cqHead + s'.frames.length) {more : Nat → List Outcome}
    (harrivals : ∀ o, s'.arrivals o ks = s.arrivals o ks ++ more o)
    (hfresh : ∀ o, s.pool.nextObj ≤ o → es.filterMap (Event.receives o) = [] ∧ more o = [])
    (hmore : ∀ o, s.kind o = .recv → (s.item o).isStream = true →
      List.Forall₂ Carries (es.filterMap (Event.receives o)) (more o)) : s'.Relayed ks := by
  have hdeliveries : ∀ o, s'.deliveries o = s.deliveries o ++ es.filterMap (Event.receives o) := by
    intro o
    rw [deliveries, ht, List.filterMap_append, deliveries]
  have hnone : ∀ o, s.pool.nextObj ≤ o → s'.deliveries o = [] ∧ s'.arrivals o ks = [] := by
    intro o ho
    obtain ⟨hd, ha⟩ := h.fresh o ho
    obtain ⟨hr, hm⟩ := hfresh o ho
    rw [hdeliveries, harrivals, hd, ha, hr, hm]
    exact ⟨rfl, rfl⟩
  refine ⟨?_, fun o ho => hnone o (he.next.trans ho), fun o ho hk hstream => ?_⟩
  · rw [ht, List.filterMap_append, List.length_append, h.count, hcount]
  · obtain hlt | hge := Nat.lt_or_ge o s.pool.nextObj
    · obtain ⟨hk, hstream⟩ := receiving_before he hlt hk hstream
      rw [hdeliveries, harrivals]
      exact List.rel_append (h.carried o hlt hk hstream) (hmore o hk hstream)
    · obtain ⟨hd, ha⟩ := hnone o hge
      rw [hd, ha]
      exact .nil

/-- A step that neither dispatches nor calls. -/
theorem Relayed.silent (h : s.Relayed ks) (he : s.pool.Extends s'.pool) (es : List Event)
    (ht : s'.trace = s.trace ++ es) (hf : es.filterMap Event.finds = [])
    (hr : ∀ o, es.filterMap (Event.receives o) = [])
    (hcount : s'.cqHead + s'.frames.length = s.cqHead + s.frames.length) : s'.Relayed ks := by
  refine h.extend he ht (by rw [hf, hcount]; rfl) (fun o => ?_) (fun o _ => ⟨hr o, rfl⟩)
    (fun o _ _ => by rw [hr o]; exact .nil)
  rw [arrivals, ht, List.filterMap_append, hf, List.append_nil, arrivals, List.append_nil]

/-- A step that dispatches the entry at the head. -/
theorem Relayed.dispatch (h : s.Relayed ks) (he : s.pool.Extends s'.pool) (hframes : s.frames = [])
    {es : List Event} (ht : s'.trace = s.trace ++ es) {found : Option Nat}
    (hf : es.filterMap Event.finds = [found]) {k : Outcome} (hk : ks[s.cqHead]? = some k)
    (hcount : s'.cqHead + s'.frames.length = s.cqHead + 1)
    (hold : ∀ o, s.pool.nextObj ≤ o → es.filterMap (Event.receives o) = [] ∧ found ≠ some o)
    (hcarries : ∀ o, s.kind o = .recv → (s.item o).isStream = true →
      List.Forall₂ Carries (es.filterMap (Event.receives o))
        (if found = some o ∧ 0 ≤ k.res then [k] else [])) : s'.Relayed ks := by
  have hlen : (s.trace.filterMap Event.finds).length = s.cqHead := by
    rw [h.count, hframes]
    rfl
  refine h.extend he ht ?_ (fun o => ?_) (fun o ho => ?_) hcarries
  · rw [hf, hcount, hframes]
    rfl
  · rw [arrivals, ht, List.filterMap_append, hf, zip_concat (by rwa [hlen]), List.filterMap_append,
      arrivals]
    by_cases hc : found = some o ∧ 0 ≤ k.res
    · simp only [List.filterMap_cons, List.filterMap_nil, if_pos hc]
    · simp only [List.filterMap_cons, List.filterMap_nil, if_neg hc]
  · obtain ⟨hr, hne⟩ := hold o ho
    exact ⟨hr, if_neg fun hc => hne hc.1⟩

/-- A completion of a stream's receiver is handed over as it lies in the buffer. -/
theorem stream_called {item : WorkItem} {cqe : Completion} {call : Call}
    (ht : item.workType = .recv) (hstream : item.isStream = true)
    (h : s.callHandler item cqe = .ok (.called call)) : 0 ≤ cqe.res ∧ ∃ fn, call =
      ⟨fn, .recv ⟨read (fun i => s.memory (s.buffers.getBuffer cqe.idx + i)) 0 cqe.res.toNat, {}⟩⟩ := by
  rw [callHandler, ht] at h
  simp only [callRecvCallback, hstream, if_true] at h
  split at h
  · split at h <;> cases h
  · rename_i hres
    refine ⟨Int.not_lt.mp hres, ?_⟩
    rw [callRecvHandlerStream] at h
    obtain ⟨c, hc, he⟩ := Checked.bind_eq_ok.mp h
    cases he
    rw [WorkItem.callRecvCallback] at hc
    split at hc <;> cases hc
    exact ⟨_, rfl⟩

theorem stream_returned {item : WorkItem} {cqe : Completion} {ret : ReceivePostAction}
    {recycle : Bool} (ht : item.workType = .recv) (hstream : item.isStream = true)
    (h : s.callHandler item cqe = .ok (.returned ret recycle)) : cqe.res < 0 := by
  rw [callHandler, ht] at h
  simp only [callRecvCallback, hstream, if_true] at h
  split at h
  · assumption
  · rw [callRecvHandlerStream] at h
    obtain ⟨c, _, he⟩ := Checked.bind_eq_ok.mp h
    cases he

theorem receives_of_ne {call : Call} {o o' : Nat} (h : o' ≠ o) :
    Event.receives o (.called o' call) = none := by
  obtain ⟨fn, result⟩ := call
  cases result with
  | recv payload => exact if_neg h
  | connect | accept | send | close => rfl

theorem receives_entered {cqe : Completion} {call : Call} {o o' : Nat} (h : o' ≠ o) :
    [Event.dispatched cqe (some o'), .called o' call].filterMap (Event.receives o) = [] := by
  rw [List.filterMap_cons_none rfl, List.filterMap_cons_none (receives_of_ne h)]
  rfl

variable {log : List (Completion × Outcome)}

/-- The buffer still holds, when the callback is called, what the kernel put there. -/
theorem Intact.carries (h : s.Intact log) (hc : s.Confined mapped) (hf : s.frames = [])
    {cqe : Completion} {rest : List Completion} {k : Outcome} (hp : s.pending = cqe :: rest)
    (hk : log[s.cqHead]? = some (cqe, k)) (hfilled : cqe.consumedBuffer = true) :
    Carries (read (fun i => s.memory (s.buffers.getBuffer cqe.idx + i)) 0 cqe.res.toNat) k := by
  have hmem : (cqe, k) ∈ log.drop (s.cqHead + s.frames.length) := by
    rw [hf]
    exact mem_drop_of_getElem? hk
  have hdata := h.unread (cqe, k) hmem hfilled
  have hres : cqe.res = k.res := (h.agrees (cqe, k) (List.mem_of_getElem? hk)).1
  have hposted : cqe ∈ s.posted := by
    have hm : cqe ∈ s.pending := hp ▸ List.mem_cons_self
    exact List.mem_of_mem_drop hm
  have hsize := (hc.posted cqe hposted).2
  refine ⟨by rw [length_read, hres], fun i hi b hb => ?_⟩
  rw [length_read] at hi
  have hlt : i < s.buffers.bufferSize := by
    rw [hc.buffers.bufferSize]
    omega
  rw [Memory.read, List.getElem?_map, List.getElem?_range hi, Option.map_some, Nat.zero_add,
    hdata i hlt b hb]

/-- The end of a dispatch, with the event that it adds. -/
theorem Relayed.ended (h : s.Relayed ks) (hd : Dispatching s) (he : s.pool.Extends s'.pool)
    {cqe : Completion} {rest : List Completion} {o : Nat} {type : WorkType}
    {ret : ReceivePostAction} {events : List Event}
    (hend : s.Ending cqe rest o type ret events a) {k : Outcome} (hk : ks[s.cqHead]? = some k)
    (hres : cqe.res = k.res) {e : Event} (hfinds : e.finds = none)
    (hreceives : ∀ o, e.receives o = none) (ht : s'.trace = s.trace ++ events ++ [e])
    (hhead : s'.cqHead = s.cqHead + 1) (hframes : s'.frames = []) : s'.Relayed ks := by
  rw [List.append_assoc] at ht
  obtain ⟨_, hf, _, rfl, recycle, hcall⟩ | ⟨_, rfl, frame, hf, _⟩ := hend.source
  · have hlt := (hd.sound.pool.live _ _ hend.holds).1
    have hfound : ([Event.dispatched cqe (some o)] ++ [e]).filterMap Event.finds = [some o] := by
      have hfirst : Event.finds (.dispatched cqe (some o)) = some (some o) := rfl
      rw [List.singleton_append, List.filterMap_cons_some hfirst, List.filterMap_cons_none hfinds]
      rfl
    have hnone : ∀ o', ([Event.dispatched cqe (some o)] ++ [e]).filterMap (Event.receives o') = [] := by
      intro o'
      rw [List.singleton_append, List.filterMap_cons_none rfl,
        List.filterMap_cons_none (hreceives o')]
      rfl
    refine h.dispatch he hf ht hfound hk (by rw [hhead, hframes]; rfl)
      (fun o' ho => ⟨hnone o', ?_⟩) (fun o' hkind hstream => ?_)
    · rintro ⟨⟩
      exact absurd hlt (Nat.not_lt.mpr ho)
    · rw [hnone, if_neg]
      · exact .nil
      · rintro ⟨⟨⟩, hle⟩
        have hneg := stream_returned hkind hstream hcall
        omega
  · rw [List.nil_append] at ht
    refine h.silent he _ ht ?_ (fun o' => ?_) ?_
    · rw [List.filterMap_cons_none hfinds]
      rfl
    · rw [List.filterMap_cons_none (hreceives o')]
      rfl
    · rw [hhead, hframes, hf]
      rfl

theorem Relayed.tracked (h : s.Relayed ks) (hd : Dispatching s) (hi : s.Intact log)
    (hks : log.map Prod.snd = ks) (hc : s.Confined mapped) (hg : s.Recycling a)
    (he : s.pool.Extends s'.pool) (ha : a.outcome = none) (ht : Tracked s s' a) : s'.Relayed ks := by
  have hhead : ∀ {cqe rest}, s.pending = cqe :: rest → ∃ k, log[s.cqHead]? = some (cqe, k) ∧
      ks[s.cqHead]? = some k ∧ cqe.res = k.res := by
    intro cqe rest hp
    obtain ⟨k, hk⟩ := hi.head hp
    refine ⟨k, hk, ?_, (hi.agrees _ (List.mem_of_getElem? hk)).1⟩
    rw [← hks, List.getElem?_map, hk]
    rfl
  cases ht with
  | opened _ req _ _ _ heq =>
    exact h.silent he _ (congrArg Ledger.trace heq) rfl (fun _ => rfl)
      (congrArg (fun l => l.cqHead + l.frames.length) heq)
  | submitted req _ _ _ _ heq =>
    exact h.silent he _ (congrArg Ledger.trace heq) rfl (fun _ => rfl)
      (congrArg (fun l => l.cqHead + l.frames.length) heq)
  | acquired _ _ _ _ _ _ heq | edited _ _ heq | idle heq =>
    exact h.silent he [] ((congrArg Ledger.trace heq).trans (List.append_nil _).symm) rfl
      (fun _ => rfl) (congrArg (fun l => l.cqHead + l.frames.length) heq)
  | missed cqe rest hf hp hat heq =>
    obtain ⟨k, _, hk, _⟩ := hhead hp
    exact h.dispatch he hf (congrArg Ledger.trace heq) rfl hk
      (congrArg (fun l => l.cqHead + l.frames.length) heq) (fun o _ => ⟨rfl, nofun⟩)
      (fun o _ _ => .nil)
  | exhausted cqe rest o hf hp hat hres heq =>
    obtain ⟨k, _, hk, hkres⟩ := hhead hp
    have hlt := (hd.sound.pool.live _ _ hat).1
    refine h.dispatch he hf (congrArg Ledger.trace heq) rfl hk
      (congrArg (fun l => l.cqHead + l.frames.length) heq) (fun o' ho => ⟨rfl, ?_⟩)
      (fun o' _ _ => ?_)
    · rintro ⟨⟩
      exact absurd hlt (Nat.not_lt.mpr ho)
    · have hneg : ¬0 ≤ k.res := by
        rw [← hkres, hres]
        decide
      rw [if_neg fun hc => hneg hc.2]
      exact .nil
  | entered cqe rest o call hf hp hat hres hcall heq =>
    obtain ⟨k, hlog, hk, hkres⟩ := hhead hp
    have hlt := (hd.sound.pool.live _ _ hat).1
    refine h.dispatch he hf (congrArg Ledger.trace heq) rfl hk
      (congrArg (fun l => l.cqHead + l.frames.length) heq) (fun o' ho => ⟨?_, ?_⟩)
      (fun o' hkind hstream => ?_)
    · have hne : o ≠ o' := by omega
      exact receives_entered hne
    · rintro ⟨⟩
      exact absurd hlt (Nat.not_lt.mpr ho)
    · by_cases hne : o = o'
      · subst hne
        obtain ⟨hnonneg, fn, rfl⟩ := stream_called hkind hstream hcall
        have hfilled : cqe.consumedBuffer = true :=
          (hg.2 rfl cqe (by rw [hp]; rfl)).mpr ⟨o, hat, hkind, hnonneg⟩
        rw [if_pos ⟨rfl, hkres ▸ hnonneg⟩]
        simp only [List.filterMap_cons, Event.receives, if_true, List.filterMap_nil]
        exact .cons (hi.carries hc hf hp hlog hfilled) .nil
      · rw [if_neg fun hc => hne (Option.some.inj hc.1), receives_entered hne]
        exact .nil
  | rearmed cqe rest o type ret events req hend _ _ _ _ heq =>
    obtain ⟨k, _, hk, hkres⟩ := hhead hend.pending
    exact h.ended hd he hend hk hkres rfl (fun _ => rfl) (congrArg Ledger.trace heq)
      (congrArg Ledger.cqHead heq) (congrArg Ledger.frames heq)
  | freed cqe rest o type ret events hend _ heq =>
    obtain ⟨k, _, hk, hkres⟩ := hhead hend.pending
    exact h.ended hd he hend hk hkres rfl (fun _ => rfl) (congrArg Ledger.trace heq)
      (congrArg Ledger.cqHead heq) (congrArg Ledger.frames heq)
  | completed => cases ha

/-- What the kernel decides later arrives only when it is dispatched. -/
theorem Relayed.completed (h : s.Relayed ks) (he : s.pool.Extends s'.pool)
    (hle : s.cqHead + s.frames.length ≤ ks.length) (ht : s'.trace = s.trace)
    (hhead : s'.cqHead = s.cqHead) (hf : s'.frames = s.frames) (more : List Outcome) :
    s'.Relayed (ks ++ more) := by
  have h' : s'.Relayed ks := by
    refine h.silent he [] (ht.trans (List.append_nil _).symm) rfl (fun _ => rfl) ?_
    rw [hhead, hf]
  have harrivals : ∀ o, s'.arrivals o (ks ++ more) = s'.arrivals o ks := by
    intro o
    rw [arrivals, arrivals, zip_append_of_le]
    rwa [h'.count, hhead, hf]
  refine ⟨h'.count, fun o ho => ?_, fun o ho hk hstream => ?_⟩
  · rw [harrivals]
    exact h'.fresh o ho
  · rw [harrivals]
    exact h'.carried o ho hk hstream

theorem initial_relayed (queueSize mapped : Nat) (memory : Nat → Byte) :
    (initial queueSize mapped memory).Relayed [] where
  count := rfl
  fresh _ _ := ⟨rfl, rfl⟩
  carried o ho := absurd ho (Nat.not_lt_zero o)

/-- The runs without nested polls in which buffers come back as they went out and the
kernel keeps to the buffers. -/
def Relaying (s : IOUring) (a : Action) : Prop := s.Recycling a ∧ s.KeepsBounds a

instance (s : IOUring) (a : Action) : Decidable (s.Relaying a) :=
  inferInstanceAs (Decidable (_ ∧ _))

theorem Relayed.step (h : s.Relayed ks) (hd : Dispatching s) (hi : s.Intact log)
    (hks : log.map Prod.snd = ks) (hc : s.Confined mapped) (hg : s.Relaying a)
    (hs : IOUring.step a s = .ok s') : s'.Relayed (ks ++ a.outcome.toList) := by
  have hst := step_ok hd.sound.sq hs
  have he := hst.extends hd.sound
  cases ha : a.outcome with
  | none =>
    have ht := (hd.step hg.1.1 hs).1
    exact (List.append_nil ks).symm ▸ h.tracked hd hi hks hc hg.1 he ha ht
  | some k =>
    cases a with
    | complete i outcome =>
      obtain ⟨req, t, _, _, hdeliver, heq⟩ := complete_ok hs
      obtain ⟨_, _, _, hhead, hf, _, ht⟩ := hdeliver.frame
      have hle := hd.passed_le
      rw [hi.posted, List.length_map, ← List.length_map (f := Prod.snd), hks] at hle
      exact h.completed he hle (heq ▸ ht) (heq ▸ hhead) (heq ▸ hf) _
    | submitAccept | submitConnect | submitRecv | submitClose | ackuireSendWorkitem | getSendPacket
    | append | submitStreamData | submitPacket | send | pollCompletionQueues | callbackReturns =>
      cases ha

/-- A receiver of a stream is given the bytes that arrived for it: none is lost,
overwritten, given twice or out of order, in whatever order the buffers are used. -/
theorem stream_relayed {as : List Action}
    (hr : Transition.Runs step Relaying as (initial queueSize mapped memory) s) {o : Nat}
    (ho : o < s.pool.nextObj) (hk : s.kind o = .recv) (hstream : (s.item o).isStream = true) :
    List.Forall₂ Carries (s.deliveries o) (s.arrivals o (outcomes as)) := by
  have hinv := hr.invariant (I := fun as u => (Dispatching u ∧ u.BuffersOwned ∧
      u.Confined mapped) ∧ ∃ log, log.map Prod.snd = outcomes as ∧ u.Intact log ∧
        u.Relayed (outcomes as)) []
    (fun as u a v hu hg hs => ?_) ⟨⟨initial_dispatching queueSize mapped memory,
      initial_owned queueSize mapped memory, initial_confined queueSize mapped memory⟩, [], rfl,
      initial_intact queueSize mapped memory, initial_relayed queueSize mapped memory⟩
  · obtain ⟨_, log, _, _, h⟩ := hinv
    exact h.carried o ho hk hstream
  · obtain ⟨⟨hd, ho, hc⟩, log, hlog, hi, h⟩ := hu
    have hst := step_ok hd.sound.sq hs
    obtain ⟨more, hmore, hi'⟩ := hi.step ho hd hg.1 hs
    have houtcomes : outcomes (as ++ [a]) = outcomes as ++ a.outcome.toList := by
      rw [outcomes, List.filterMap_append, outcomes]
      cases hao : a.outcome <;> simp [hao]
    refine ⟨⟨(hd.step hg.1.1 hs).2, ho.stepped hd hg.1 hst, hc.stepped hd.sound hg.2 hst⟩,
      log ++ more, ?_, hi', ?_⟩
    · rw [List.map_append, hlog, hmore, houtcomes]
    · rw [houtcomes]
      exact h.step hd hi hlog hc hg hs

private def streamReader : Socket := ⟨.ipv4Tcp, 0, .unicastClientSocket, 3⟩

private def text (bytes : List Byte) (bid : BitVec 32) : Outcome :=
  ⟨bytes.length, bid <<< 16 ||| 1, default, fun i => bytes[i]?⟩

private def reception : List Action :=
  [.submitRecv streamReader 7 default, .complete 0 (text [72, 105] 0), .pollCompletionQueues,
    .callbackReturns .reSubmit, .complete 0 (text [33] 1), .pollCompletionQueues]

/-- Two messages for one receiver, in two buffers. -/
theorem stream_relayed_twice : ∃ s,
    Transition.Runs step Relaying reception (initial 256 0 fun _ => 0) s ∧
      s.deliveries 0 = [[72, 105], [33]] ∧
      List.Forall₂ Carries (s.deliveries 0) (s.arrivals 0 (outcomes reception)) := by
  obtain ⟨s, hr, ho, hk, hstream, hd⟩ := Transition.runs_of_leads step Relaying
    (fun s => 0 < s.pool.nextObj ∧ s.kind 0 = .recv ∧ (s.item 0).isStream = true ∧
      s.deliveries 0 = [[72, 105], [33]])
    reception (initial 256 0 fun _ => 0) (by decide +kernel)
  exact ⟨s, hr, hd, stream_relayed hr ho hk hstream⟩

end IOUring

end Iuring
