import Iuring.Lib.Concat
import Iuring.StreamSend

namespace Iuring

open Lib Lib.Memory

/-- What the execution of a request does to the stream of its socket. -/
inductive Effect
  | sent (bytes : List Byte)
  | closed
deriving DecidableEq

namespace Effect

def bytes : Effect → List Byte
  | .sent bytes => bytes
  | .closed => []

/-- The stream is the words one after the other, and nothing is sent after the close. -/
def InOrder (words : List (List Byte)) (effects : List Effect) : Prop :=
  effects.flatMap bytes = words.flatten ∧
    effects.Pairwise (fun e e' => e = .closed → e' = .closed)

theorem flatMap_sent (words : List (List Byte)) :
    (words.map sent).flatMap bytes = words.flatten := by
  rw [List.flatMap_map]
  exact List.flatMap_id'

theorem inOrder_sent {words vs : List (List Byte)} (h : vs.flatten = words.flatten) :
    InOrder words (vs.map sent) := by
  refine ⟨(flatMap_sent vs).trans h, List.pairwise_map.mpr (List.pairwise_of_forall ?_)⟩
  intro _ _ he
  cases he

/-- Every order of the effects is the right one exactly when it does not matter. -/
theorem inOrder_perm_iff (words : List (List Byte)) (closes : List Effect)
    (hc : ∀ e ∈ closes, e = .closed) :
    (∀ es : List Effect, es.Perm (words.map sent ++ closes) → InOrder words es) ↔
      words.Pairwise Concat.Commutes ∧ (closes ≠ [] → words = []) := by
  have hquiet : closes.flatMap bytes = [] :=
    List.flatMap_eq_nil_iff.mpr fun e he => hc e he ▸ rfl
  constructor
  · intro h
    refine ⟨(Concat.flatten_perm_iff words).mp fun vs hp => ?_, fun hne => ?_⟩
    · obtain ⟨he, _⟩ := h (vs.map sent ++ closes) ((hp.map sent).append_right closes)
      rw [List.flatMap_append, hquiet, List.append_nil, flatMap_sent] at he
      exact he
    · cases closes with
      | nil => exact absurd rfl hne
      | cons c cs =>
        obtain ⟨_, hp⟩ := h (c :: cs ++ words.map sent) List.perm_append_comm
        cases words with
        | nil => rfl
        | cons w ws =>
          have hbad := (List.pairwise_append.mp hp).2.2 c List.mem_cons_self (.sent w)
            List.mem_cons_self (hc c List.mem_cons_self)
          cases hbad
  · rintro ⟨hcomm, hlast⟩ es hp
    by_cases hne : closes = []
    · rw [hne, List.append_nil] at hp
      obtain ⟨vs, rfl, hvs⟩ := Concat.exists_map_of_perm hp
      exact inOrder_sent ((Concat.flatten_perm_iff words).mpr hcomm vs hvs)
    · have hw := hlast hne
      subst hw
      have hall : ∀ e ∈ es, e = .closed := fun e he => hc e (by simpa using hp.mem_iff.mp he)
      refine ⟨List.flatMap_eq_nil_iff.mpr fun e he => hall e he ▸ rfl, ?_⟩
      exact List.pairwise_of_forall_mem_list fun _ _ e he _ => hall e he

end Effect

/-- A call of SocketImpl::send. -/
structure SendCall where
  msg : StdString
  cb : CallbackFn
  mem : Uninitialized

/-- The sends on a socket, made one after the other, and perhaps a close of the socket. -/
def calls (socket : Socket) (sends : List SendCall) (close : Option (CallbackFn × Uninitialized)) :
    List Action :=
  sends.map (fun c => .send socket c.msg c.cb c.mem) ++
    close.toList.map (fun c => .submitClose socket c.1 c.2)

/-- What the execution of the request of a call should do. -/
def Action.effect : Action → Option Effect
  | .send _ msg _ _ => some (.sent msg.bytes)
  | .submitClose _ _ _ => some .closed
  | _ => none

theorem Action.effect_of_finishes {a : Action} (h : a.finishes.isSome = true) : a.effect = none := by
  cases a <;> first | rfl | cases h

theorem effect_isSome_of_mem_calls {socket : Socket} {sends : List SendCall}
    {close : Option (CallbackFn × Uninitialized)} {a : Action} (h : a ∈ calls socket sends close) :
    a.effect.isSome = true ∧ a.finishes.isNone = true := by
  obtain h | h := List.mem_append.mp h <;> obtain ⟨c, _, rfl⟩ := List.mem_map.mp h <;>
    exact ⟨rfl, rfl⟩

theorem filterMap_effect_calls (socket : Socket) (sends : List SendCall)
    (close : Option (CallbackFn × Uninitialized)) :
    (calls socket sends close).filterMap Action.effect =
      (sends.map (·.msg.bytes)).map .sent ++ close.toList.map (fun _ => .closed) := by
  simp only [calls, List.filterMap_append, List.filterMap_map, List.map_map]
  congr 1 <;> exact congrFun List.filterMap_eq_map' _

def Completion.effect (cqe : Completion) : Effect :=
  match cqe.req.sqe.op with
  | .send _ _ => .sent cqe.accepted
  | _ => .closed

def Op.isPlain : Op → Bool
  | .send _ _ | .close _ => true
  | _ => false

theorem Op.eq_close {op : Op} (h : op.workType = .close) : op = .close op.fd := by
  cases op <;> simp [Op.workType] at h
  rfl

namespace IOUring

variable {s s' t s₀ : IOUring} {a : Action} {n : Nat} {effects : List Effect}

/-- What the execution of the request would do now, if it were accepted in full. -/
def payload (s : IOUring) (req : Request) : Effect :=
  match req.sqe.op with
  | .send _ len => .sent ((s.item req.owner).sendPacket.data len)
  | _ => .closed

/-- The armed requests from the n-th submission on. -/
def armedFrom (n : Nat) (s : IOUring) : List Request := s.armed.filter (fun req => n ≤ req.seq)

/-- What the requests from the n-th submission on have done, in the order of their execution. -/
def executedFrom (n : Nat) (s : IOUring) : List Effect :=
  (s.posted.filter (fun cqe => n ≤ cqe.req.seq)).map Completion.effect

/-- The kernel accepts all the bytes that a stream send is given. -/
def AcceptsAll (s : IOUring) (a : Action) : Prop :=
  ∀ p ∈ a.finishes, ∀ req ∈ s.armed[p.1]?, ∀ len ∈ req.sqe.op.sendLength, p.2.res = len

instance (s : IOUring) (a : Action) : Decidable (s.AcceptsAll a) :=
  inferInstanceAs (Decidable (∀ _ ∈ _, _))

/-- The calls made since the n-th submission have the effects, each done or still to be done. -/
structure InFlight (n : Nat) (effects : List Effect) (s : IOUring) : Prop where
  sound : Sound s
  since : n ≤ s.consumed.length
  plain : ∀ req ∈ s.armedFrom n, req.sqe.op.isPlain = true
  perm : ((s.armedFrom n).map s.payload ++ s.executedFrom n).Perm effects

theorem Sound.opened_of_close (h : Sound s) {socket : Socket} {cb : CallbackFn}
    {mem : Uninitialized} (hs : IOUring.step (.submitClose socket cb mem) s = .ok s') :
    ∃ item req, Opened s s' item req ∧ ∃ fd, req.sqe.op = .close fd := by
  obtain ⟨id, item, req, hset, ho⟩ := h.opened_of_alloc hs
  cases hset
  exact ⟨_, req, ho, _, Op.eq_close (ho.describes.type.trans rfl)⟩

theorem Sound.opened_of_effect (h : Sound s) {e : Effect} (he : a.effect = some e)
    (hs : IOUring.step a s = .ok s') : ∃ item req, Opened s s' item req ∧
      req.sqe.op.isPlain = true ∧ s'.payload req = e := by
  cases a with
  | send socket msg cb mem =>
    cases he
    obtain ⟨item, req, ho, _, hpacket, fd, hop⟩ := h.opened_of_send hs
    exact ⟨item, req, ho, by rw [hop]; rfl, by simp only [payload, hop, ho.packet, hpacket]⟩
  | submitClose socket cb mem =>
    cases he
    obtain ⟨item, req, ho, fd, hop⟩ := h.opened_of_close hs
    exact ⟨item, req, ho, by rw [hop]; rfl, by rw [payload, hop]⟩
  | submitAccept | submitConnect | submitRecv | ackuireSendWorkitem | getSendPacket | append
  | submitStreamData | submitPacket | pollCompletionQueues | callbackReturns | complete =>
    cases he

theorem payload_eq {req : Request}
    (h : (s'.item req.owner).sendPacket = (s.item req.owner).sendPacket) :
    s'.payload req = s.payload req := by
  unfold payload
  rw [h]

/-- A call adds its effect to those that are still to be done. -/
theorem InFlight.call (h : InFlight n effects s) {e : Effect} (he : a.effect = some e)
    (hs : IOUring.step a s = .ok s') : InFlight n (effects ++ [e]) s' := by
  obtain ⟨item, req, ho, hplain, hpay⟩ := h.sound.opened_of_effect he hs
  have harmed : s'.armedFrom n = s.armedFrom n ++ [req] := by
    have hseq : n ≤ req.seq := ho.seq ▸ h.since
    rw [armedFrom, ho.armed, List.filter_append]
    simp [armedFrom, hseq]
  have hkeep : (s.armedFrom n).map s'.payload = (s.armedFrom n).map s.payload := by
    refine List.map_congr_left fun r hr => payload_eq ?_
    rw [ho.others _ (h.sound.owned r (h.sound.armed r (List.mem_of_mem_filter hr))).lt]
  refine ⟨h.sound.step hs, ?_, fun r hr => ?_, ?_⟩
  · rw [ho.consumed, List.length_append]
    exact h.since.trans (Nat.le_add_right _ _)
  · rw [harmed] at hr
    obtain hr | hr := List.mem_append.mp hr
    · exact h.plain r hr
    · rw [List.mem_singleton.mp hr]
      exact hplain
  · rw [harmed, List.map_append, hkeep, executedFrom, ho.posted, List.map_singleton, hpay,
      List.append_assoc]
    exact (List.perm_append_comm.append_left _).trans
      (by rw [← List.append_assoc]; exact h.perm.append_right [e])

theorem packet_of_completed {i : Nat} {k : Outcome}
    (hs : IOUring.step (.complete i k) s = .ok s') (o : Nat) :
    (s'.item o).sendPacket = (s.item o).sendPacket := by
  obtain ⟨req, t, _, _, hdeliver, heq⟩ := complete_ok hs
  subst heq
  cases hdeliver with
  | nothing _ _ heq | buffer _ _ _ _ _ _ heq => exact heq ▸ rfl
  | peer _ _ heq =>
    subst heq
    change ((s.setItem _ _).item o).sendPacket = _
    rw [item_setItem]
    split
    · rename_i ho
      subst ho
      rfl
    · rfl

/-- The execution of a request in full does what the request was to do. -/
theorem effect_of_completed {i : Nat} {k : Outcome} {req : Request} (hg : s.AcceptsAll (.complete i k))
    (hreq : s.armed[i]? = some req) : (s.completion req k).effect = s.payload req := by
  rw [Completion.effect, payload]
  cases hop : req.sqe.op with
  | send fd len =>
    have hres : k.res = len := hg (i, k) rfl req hreq len (by rw [hop]; rfl)
    simp [completion, IOUring.accepted, hop, hres, SendPacket.data]
  | close | accept | connect | recv | recvmsgMultishot | sendmsg => simp [completion, hop]

theorem executedFrom_completed {i : Nat} {k : Outcome} {req : Request}
    (hg : s.AcceptsAll (.complete i k)) (hreq : s.armed[i]? = some req)
    (hposted : s'.posted = s.posted ++ [s.completion req k]) : s'.executedFrom n =
      s.executedFrom n ++ if n ≤ req.seq then [s.payload req] else [] := by
  rw [executedFrom, executedFrom, hposted]
  by_cases hn : n ≤ req.seq
  · simp [completion, hn, ← effect_of_completed hg hreq]
  · simp [completion, hn]

theorem payload_of_completed {i : Nat} {k : Outcome}
    (hs : IOUring.step (.complete i k) s = .ok s') : s'.payload = s.payload :=
  funext fun _ => payload_eq (packet_of_completed hs _)

theorem armedFrom_erased {i : Nat} {req : Request} (hreq : s.armed[i]? = some req)
    (harmed : s'.armed = s.armed.eraseIdx i) :
    (if n ≤ req.seq then req :: s'.armedFrom n else s'.armedFrom n).Perm (s.armedFrom n) := by
  obtain ⟨hi, rfl⟩ := List.getElem?_eq_some_iff.mp hreq
  have hp := (List.getElem_cons_eraseIdx_perm hi).filter (fun req => n ≤ req.seq)
  rw [List.filter_cons] at hp
  simpa only [armedFrom, harmed, decide_eq_true_eq] using hp

theorem Op.isPlain_not_multishot {op : Op} (h : op.isPlain = true) : op.isMultishot = false := by
  cases op <;> simp_all [Op.isPlain, Op.isMultishot]

/-- An execution moves one effect from those still to be done to those done. -/
theorem InFlight.complete (h : InFlight n effects s) {i : Nat} {k : Outcome}
    (hg : s.AcceptsAll (.complete i k)) (hs : IOUring.step (.complete i k) s = .ok s') :
    InFlight n effects s' := by
  obtain ⟨req, t, hreq, _, hdeliver, heq⟩ := complete_ok hs
  have hconsumed : s'.consumed = s.consumed := by
    rw [heq]
    exact hdeliver.frame.1
  have hexec := executedFrom_completed (n := n) hg hreq (congrArg IOUring.posted heq)
  have hpay := payload_of_completed hs
  have hwhole : ((s'.armedFrom n).map s.payload ++ s'.executedFrom n).Perm
      ((s.armedFrom n).map s.payload ++ s.executedFrom n) ∧
      ∀ r ∈ s'.armedFrom n, r ∈ s.armedFrom n := by
    rw [hexec]
    by_cases hn : n ≤ req.seq
    · have hm : req ∈ s.armedFrom n := List.mem_filter.mpr ⟨List.mem_of_getElem? hreq, by simpa⟩
      have hone := Op.isPlain_not_multishot (h.plain req hm)
      have harmed : s'.armed = s.armed.eraseIdx i := by rw [heq]; simp [hone]
      have hp := armedFrom_erased (n := n) hreq harmed
      rw [if_pos hn] at hp ⊢
      refine ⟨?_, fun r hr => hp.mem_iff.mp (List.mem_cons_of_mem _ hr)⟩
      refine List.Perm.trans ?_ ((hp.map s.payload).append_right _)
      rw [List.map_cons, ← List.append_assoc]
      exact List.perm_append_singleton _ _
    · rw [if_neg hn, List.append_nil]
      by_cases hmore : req.sqe.op.isMultishot ∧ (s.completion req k).hasMore
      · have he : s'.armedFrom n = s.armedFrom n := by
          rw [armedFrom, heq]
          simp only [if_pos hmore]
          rfl
        rw [he]
        exact ⟨.refl _, fun _ => id⟩
      · have harmed : s'.armed = s.armed.eraseIdx i := by rw [heq]; exact if_neg hmore
        have hp := armedFrom_erased (n := n) hreq harmed
        rw [if_neg hn] at hp
        exact ⟨(hp.map s.payload).append_right _, fun r => hp.mem_iff.mp⟩
  refine ⟨h.sound.step hs, hconsumed ▸ h.since, fun r hr => h.plain r (hwhole.2 r hr), ?_⟩
  rw [hpay]
  exact hwhole.1.trans h.perm

/-- A run of calls and executions has the effects of the calls, done or to be done. -/
theorem InFlight.run {as : List Action} (h : InFlight n effects s)
    (has : ∀ a ∈ as, a.effect.isSome = true ∨ a.finishes.isSome = true)
    (hr : Transition.Runs IOUring.step AcceptsAll as s t) :
    InFlight n (effects ++ as.filterMap Action.effect) t := by
  induction as generalizing s effects with
  | nil =>
    obtain rfl := Transition.runs_nil.mp hr
    simpa using h
  | cons a as ih =>
    obtain ⟨hg, u, hs, hrun⟩ := Transition.runs_cons.mp hr
    have hrest := fun a ha => has a (List.mem_cons_of_mem _ ha)
    cases he : a.effect with
    | some e =>
      have hu := ih (h.call he hs) hrest hrun
      rwa [List.append_assoc, List.singleton_append, ← List.filterMap_cons_some he] at hu
    | none =>
      rw [List.filterMap_cons_none he]
      cases a with
      | complete i k => exact ih (h.complete hg hs) hrest hrun
      | _ => simp [he, Action.finishes] at has

/-- The outcome of a request that the kernel executes in full. -/
def inFull (req : Request) : Outcome := ⟨req.sqe.op.sendLength.getD 0, 0, default, fun _ => none⟩

/-- The kernel can execute any armed send or close next. -/
theorem Sound.execute (h : Sound s) {i : Nat} {req : Request} (hreq : s.armed[i]? = some req)
    (hplain : req.sqe.op.isPlain = true) : s.AcceptsAll (.complete i (inFull req)) ∧
      ∃ s', IOUring.step (.complete i (inFull req)) s = .ok s' ∧
        s'.armed = s.armed.eraseIdx i ∧ s'.posted = s.posted ++ [s.completion req (inFull req)] := by
  have hone := Op.isPlain_not_multishot hplain
  have hdeliver : s.deliver req (inFull req) = .ok s := by
    rw [deliver]
    cases hop : req.sqe.op <;> simp_all [Op.isPlain, pure, Except.pure]
  refine ⟨?_, { s with
    armed := s.armed.eraseIdx i
    posted := s.posted ++ [s.completion req (inFull req)] }, ?_, rfl, rfl⟩
  · rintro p hp r hr len hlen
    cases hp
    cases hreq.symm.trans hr
    simp only [inFull, Option.mem_def.mp hlen, Option.getD_some]
  · simp [IOUring.step, flushedStep, IOUring.complete, hreq, h.not_blocked, hdeliver, hone, Checked.ensure,
      bind, Except.bind, pure, Except.pure]

/-- The kernel can execute the armed requests in any order. -/
theorem InFlight.exists_execution {rs : List Request} (h : InFlight n effects s)
    (hrs : rs.Perm (s.armedFrom n)) : ∃ as t, (∀ a ∈ as, a.finishes.isSome = true) ∧
      Transition.Runs IOUring.step AcceptsAll as s t ∧ t.armedFrom n = [] ∧
      t.executedFrom n = s.executedFrom n ++ rs.map s.payload := by
  induction rs generalizing s with
  | nil => exact ⟨[], s, List.forall_mem_nil _, .nil, hrs.nil_eq.symm, (List.append_nil _).symm⟩
  | cons r rs ih =>
    have hm : r ∈ s.armedFrom n := hrs.mem_iff.mp List.mem_cons_self
    obtain ⟨hm', hn⟩ := List.mem_filter.mp hm
    simp only [decide_eq_true_eq] at hn
    obtain ⟨i, hi⟩ := List.mem_iff_getElem?.mp hm'
    obtain ⟨hg, s', hs, harmed, hposted⟩ := h.sound.execute hi (h.plain r hm)
    have hp := armedFrom_erased (n := n) hi harmed
    rw [if_pos hn] at hp
    obtain ⟨as, t, has, hrun, hnone, hexec⟩ := ih (h.complete hg hs) (hrs.trans hp.symm).cons_inv
    refine ⟨.complete i (inFull r) :: as, t, ?_, Transition.runs_cons.mpr ⟨hg, _, hs, hrun⟩, hnone, ?_⟩
    · exact List.forall_mem_cons.mpr ⟨rfl, has⟩
    · rw [hexec, executedFrom_completed hg hi hposted, if_pos hn, payload_of_completed hs,
        List.append_assoc]
      rfl

/-- Every submission gets the next number. -/
def Numbered (s : IOUring) : Prop := ∀ req ∈ s.consumed, req.seq < s.consumed.length

theorem Numbered.flow (h : s.Numbered) (hf : Flow s s' a) : s'.Numbered := by
  intro r hr
  cases hf with
  | still _ _ hconsumed | answered _ _ _ _ _ _ _ hconsumed =>
    rw [hconsumed] at hr ⊢
    exact h r hr
  | issued req hseq _ _ _ hconsumed =>
    rw [hconsumed] at hr
    rw [hconsumed, List.length_append, List.length_singleton]
    obtain hr | hr := List.mem_append.mp hr
    · exact (h r hr).trans (Nat.lt_succ_self _)
    · rw [List.mem_singleton.mp hr, hseq]
      exact Nat.lt_succ_self _

/-- Before the calls none of their requests exists. -/
theorem Numbered.inFlight (h : s.Numbered) (hs : Sound s) :
    InFlight s.consumed.length [] s ∧ s.executedFrom s.consumed.length = [] := by
  have harmed : s.armedFrom s.consumed.length = [] :=
    List.filter_eq_nil_iff.mpr fun r hr => by simpa using h r (hs.armed r hr)
  have hexec : s.executedFrom s.consumed.length = [] := by
    rw [executedFrom, List.map_eq_nil_iff]
    exact List.filter_eq_nil_iff.mpr fun c hc => by simpa using h c.req (hs.posted c hc)
  exact ⟨⟨hs, Nat.le_refl _, by simp [harmed], by simp [harmed, hexec]⟩, hexec⟩

theorem posted_of_calls {as : List Action} (h : Sound s)
    (has : ∀ a ∈ as, a.effect.isSome = true)
    (hr : Transition.Runs IOUring.step AcceptsAll as s t) : t.posted = s.posted := by
  induction as generalizing s with
  | nil => rw [Transition.runs_nil.mp hr]
  | cons a as ih =>
    obtain ⟨_, u, hs, hrun⟩ := Transition.runs_cons.mp hr
    obtain ⟨e, he⟩ := Option.isSome_iff_exists.mp (has a List.mem_cons_self)
    obtain ⟨_, _, ho, _⟩ := h.opened_of_effect he hs
    rw [ih (h.step hs) (fun a ha => has a (List.mem_cons_of_mem _ ha)) hrun, ho.posted]

/-- However the calls and the executions follow each other, once every request
of the calls is executed the stream is their messages in order, and nothing
was sent after the close. -/
def StreamOrdered (socket : Socket) (sends : List SendCall)
    (close : Option (CallbackFn × Uninitialized)) (s₀ : IOUring) : Prop :=
  ∀ as t, as.filter (fun a => a.finishes.isNone) = calls socket sends close →
    Transition.Runs IOUring.step AcceptsAll as s₀ t → t.armedFrom s₀.consumed.length = [] →
    Effect.InOrder (sends.map (·.msg.bytes)) (t.executedFrom s₀.consumed.length)

/-- The possible orders of execution are all orders of the calls. -/
theorem streamOrdered_iff_perm {socket : Socket} {sends : List SendCall}
    {close : Option (CallbackFn × Uninitialized)} (h : Sound s₀) (hn : s₀.Numbered)
    (hcalls : ∃ s₁, Transition.Runs IOUring.step AcceptsAll (calls socket sends close) s₀ s₁) :
    s₀.StreamOrdered socket sends close ↔
      ∀ es : List Effect, es.Perm ((sends.map (·.msg.bytes)).map .sent ++
        close.toList.map (fun _ => .closed)) → Effect.InOrder (sends.map (·.msg.bytes)) es := by
  obtain ⟨h₀, hexec₀⟩ := hn.inFlight h
  rw [← filterMap_effect_calls socket]
  constructor
  · intro hord es hes
    obtain ⟨s₁, hrun₁⟩ := hcalls
    have h₁ := h₀.run (fun a ha => .inl (effect_isSome_of_mem_calls ha).1) hrun₁
    have hexec₁ : s₁.executedFrom s₀.consumed.length = [] := by
      rw [executedFrom, posted_of_calls h (fun a ha => (effect_isSome_of_mem_calls ha).1) hrun₁]
      exact hexec₀
    have hperm := h₁.perm
    rw [hexec₁, List.append_nil, List.nil_append] at hperm
    obtain ⟨rs, rfl, hrs⟩ := Concat.exists_map_of_perm (hes.trans hperm.symm)
    obtain ⟨as, t, has, hrun, hnone, hexec⟩ := h₁.exists_execution hrs
    rw [hexec₁, List.nil_append] at hexec
    rw [← hexec]
    refine hord _ t ?_ (hrun₁.append hrun) hnone
    rw [List.filter_append, List.filter_eq_self.mpr fun a ha => (effect_isSome_of_mem_calls ha).2,
      List.filter_eq_nil_iff.mpr fun a ha => by
        simpa using Option.isSome_iff_ne_none.mp (has a ha), List.append_nil]
  · intro hall as t hfilter hrun hnone
    have has : ∀ a ∈ as, a.effect.isSome = true ∨ a.finishes.isSome = true := by
      intro a ha
      cases hf : a.finishes with
      | some _ => exact .inr rfl
      | none =>
        have hm : a ∈ as.filter (fun a => a.finishes.isNone) :=
          List.mem_filter.mpr ⟨ha, by rw [hf]; rfl⟩
        rw [hfilter] at hm
        exact .inl (effect_isSome_of_mem_calls hm).1
    have ht := (h₀.run has hrun).perm
    rw [hnone, List.map_nil, List.nil_append, List.nil_append] at ht
    refine hall _ (ht.trans (.of_eq ?_))
    rw [← hfilter, List.filterMap_filter]
    apply List.filterMap_congr
    intro a _
    cases hf : a.finishes with
    | none => rfl
    | some _ => exact Action.effect_of_finishes (by rw [hf]; rfl)

/-- The stream is in order whatever the kernel does exactly when the messages
commute, and a close takes effect last exactly when there is nothing before it. -/
theorem stream_ordered_iff {queueSize mapped : Nat} {memory : Nat → Byte} {socket : Socket}
    {sends : List SendCall} {close : Option (CallbackFn × Uninitialized)}
    (hr : Transition.Reaches IOUring.step Transition.Free (initial queueSize mapped memory) s₀)
    (hcalls : ∃ s₁, Transition.Runs IOUring.step AcceptsAll (calls socket sends close) s₀ s₁) :
    s₀.StreamOrdered socket sends close ↔
      (sends.map (·.msg.bytes)).Pairwise Concat.Commutes ∧ (close ≠ none → sends = []) := by
  have hp := hr.invariant (I := fun s => Sound s ∧ s.Numbered) (fun _ _ _ hp _ hs =>
      ⟨hp.1.step hs, hp.2.flow (hp.1.flow (step_ok hp.1.sq hs))⟩)
    ⟨initial_sound queueSize mapped memory, List.forall_mem_nil _⟩
  rw [streamOrdered_iff_perm hp.1 hp.2 hcalls, Effect.inOrder_perm_iff _ _ (by simp)]
  cases close <;> simp

private def dialler : Socket := ⟨.ipv4Tcp, 0, .unicastClientSocket, 3⟩

private def letter (b : Byte) : SendCall := ⟨⟨[b], by simp⟩, 9, default⟩

theorem stream_ordered_iff_repeated :
    (initial 256 0 fun _ => 0).StreamOrdered dialler [letter 97, letter 97] none := by
  obtain ⟨s₁, hrun, _⟩ := Transition.runs_of_leads IOUring.step AcceptsAll (fun _ => True)
    (calls dialler [letter 97, letter 97] none) (initial 256 0 fun _ => 0) (by decide +kernel)
  refine (stream_ordered_iff .refl ⟨s₁, hrun⟩).mpr ⟨?_, fun hc => absurd rfl hc⟩
  simp [letter, Concat.Commutes]

/-- The kernel may close the socket first and send the second message before the first. -/
theorem sends_overtaken_by_close :
    ¬(initial 256 0 fun _ => 0).StreamOrdered dialler [letter 97, letter 98] (some (8, default)) := by
  intro hord
  obtain ⟨t, hrun, hnone, hexec⟩ := Transition.runs_of_leads IOUring.step AcceptsAll
    (fun t => t.armedFrom 0 = [] ∧ t.executedFrom 0 = [.closed, .sent [98], .sent [97]])
    (calls dialler [letter 97, letter 98] (some (8, default)) ++
      [.complete 2 ⟨0, 0, default, fun _ => none⟩, .complete 1 ⟨1, 0, default, fun _ => none⟩,
        .complete 0 ⟨1, 0, default, fun _ => none⟩])
    (initial 256 0 fun _ => 0) (by decide +kernel)
  obtain ⟨hstream, _⟩ := hord _ t rfl hrun hnone
  rw [show t.executedFrom (initial 256 0 fun _ => 0).consumed.length = _ from hexec] at hstream
  simp [letter, Effect.bytes] at hstream

end IOUring

end Iuring
