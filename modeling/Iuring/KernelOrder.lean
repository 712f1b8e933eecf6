import Iuring.Lib.Deferral
import Iuring.Progress
import Iuring.SentDatagram
import Iuring.StreamOrder

namespace Iuring

open Lib Lib.Memory

namespace Action

/-- The calls that a user makes outside the dispatch of completions. -/
def isCall : Action → Bool
  | .pollCompletionQueues | .callbackReturns _ | .complete _ _ => false
  | _ => true

/-- An answer of the kernel. -/
def isAnswer : Action → Bool
  | .complete _ _ => true
  | _ => false

/-- The held item that a call is about. -/
def target : Action → Option Nat
  | .getSendPacket o | .append o _ | .submitStreamData o _ | .submitPacket o _ _ => some o
  | _ => none

end Action

namespace IOUring

variable {s s' t u v : IOUring} {a : Action} {o : Nat}

/-- What a user's call does: it writes one item, may put it into a slot, and adds
requests. -/
structure Effect where
  owner : Nat
  item : WorkItem
  workItems : List (Option Nat)
  freeIds : List Nat
  nextObj : Nat
  reqs : List Request
  handles : List Nat
  events : List Event

def Effect.apply (e : Effect) (s : IOUring) : IOUring :=
  { s with
    pool := ⟨Function.update s.pool.objs e.owner e.item, e.nextObj, e.workItems, e.freeIds⟩
    consumed := s.consumed ++ e.reqs
    armed := s.armed ++ e.reqs
    handles := e.handles
    trace := s.trace ++ e.events }

/-- What a user's call reads: the pool's slots, the item that it is about, the number of the
next request and the size of a buffer. -/
structure SameView (target : Option Nat) (s t : IOUring) : Prop where
  workItems : t.pool.workItems = s.pool.workItems
  freeIds : t.pool.freeIds = s.pool.freeIds
  nextObj : t.pool.nextObj = s.pool.nextObj
  bufferSize : t.buffers.bufferSize = s.buffers.bufferSize
  seq : t.consumed.length = s.consumed.length
  handles : t.handles = s.handles
  item : ∀ o ∈ target, t.item o = s.item o

/-- The call has the same effect in every state that it cannot tell from this one. -/
structure Local (a : Action) (s s' : IOUring) (e : Effect) : Prop where
  here : s' = e.apply s
  there : ∀ t, Ready t → SameView a.target s t → step a t = .ok (e.apply t)
  owner : a.target = some e.owner ∨ e.owner = s.pool.nextObj

/-- Allocation reads the slots only. -/
theorem alloc_view {pool pool' : WorkPool} (hitems : pool'.workItems = pool.workItems)
    (hfree : pool'.freeIds = pool.freeIds) (hnext : pool'.nextObj = pool.nextObj)
    {socket : Socket} {descr : String} {mem : Uninitialized} {p : WorkPool}
    (h : pool.internalAllocWorkItem socket descr mem = (o, p)) :
    pool'.internalAllocWorkItem socket descr mem =
      (o, ⟨Function.update pool'.objs o (p.objs o), p.nextObj, p.workItems, p.freeIds⟩) := by
  rw [WorkPool.internalAllocWorkItem] at h ⊢
  rw [hfree, hitems, hnext]
  cases hf : pool.freeIds with
  | nil =>
    rw [hf] at h
    cases h
    simp only [Function.update_self]
  | cons id rest =>
    rw [hf] at h
    cases h
    simp only [Function.update_self]

/-- The effect of writing an item that sits where it sat. -/
def edit (s : IOUring) (o : Nat) (item : WorkItem) (reqs : List Request) (events : List Event) :
    Effect :=
  ⟨o, item, s.pool.workItems, s.pool.freeIds, s.pool.nextObj, reqs, s.handles, events⟩

/-- The effect of a new item in the pool that the allocation leaves. -/
def placed (pool : WorkPool) (o : Nat) (item : WorkItem) (reqs : List Request)
    (handles : List Nat) (events : List Event) : Effect :=
  ⟨o, item, pool.workItems, pool.freeIds, pool.nextObj, reqs, handles, events⟩

theorem local_alloc (hs : Ready s) {socket : Socket} {descr : String} {mem : Uninitialized}
    {set : WorkItem → Result WorkItem} (h : s.allocWorkItem socket descr mem set = .ok s') :
    ∃ e : Effect, s' = e.apply s ∧ e.owner = s.pool.nextObj ∧ ∀ t, Ready t → SameView none s t →
      t.allocWorkItem socket descr mem set = .ok (e.apply t) := by
  obtain ⟨o, pool, item₀, item, sqe, halloc, hset, hprep, rfl⟩ := allocWorkItem_ok hs.sound.sq h
  obtain ⟨ho, _, _, _, hobjs, _⟩ := WorkPool.internalAlloc_spec hs.sound.pool halloc
  refine ⟨placed pool o item [⟨s.consumed.length, o, sqe⟩] s.handles
    [.submitted ⟨s.consumed.length, o, sqe⟩], ?_, ho, fun t ht hv => ?_⟩
  · simp only [arm, Effect.apply, placed, WorkPool.setItem, hobjs, Function.update_idem]
  · have halloc' := alloc_view hv.workItems hv.freeIds hv.nextObj halloc
    have hitem : Function.update t.pool.objs o (pool.objs o) o = pool.objs o :=
      Function.update_self _ _ _
    rw [ht.allocWorkItem_eq socket descr mem set halloc']
    simp only [hitem, hset, Checked.bind_ok, hv.bufferSize, hprep, Except.map, arm, Effect.apply,
      placed, WorkPool.setItem, Function.update_idem, hv.seq, hv.handles]

theorem local_submitItem (hs : Ready s) {set : WorkItem → Result WorkItem}
    (h : s.submitItem o set = .ok s') :
    ∃ e : Effect, s' = e.apply s ∧ e.owner = o ∧ ∀ t, Ready t → SameView (some o) s t →
      t.submitItem o set = .ok (e.apply t) := by
  obtain ⟨item₀, item, sqe, hset, hprep, rfl⟩ := submitItem_ok hs.sound.sq h
  refine ⟨s.edit o item [⟨s.consumed.length, o, sqe⟩] [.submitted ⟨s.consumed.length, o, sqe⟩],
    rfl, rfl, fun t ht hv => ?_⟩
  rw [ht.submitItem_eq, hv.item o rfl, hset, Checked.bind_ok, hv.bufferSize, hprep]
  simp only [Except.map, arm, Effect.apply, edit, WorkPool.setItem, hv.seq, hv.handles,
    hv.workItems, hv.freeIds, hv.nextObj]

theorem ackuire_eq (hinit : s.initialized = true) {socket : Socket} {mem : Uninitialized}
    {pool : WorkPool}
    (halloc : s.pool.internalAllocWorkItem socket "write-from-socket" mem = (o, pool)) :
    step (.ackuireSendWorkitem socket mem) s =
      .ok { s with pool := pool, handles := o :: s.handles } := by
  have hassert : assert (s.initialized = true) = .ok () := (assert_eq_ok _ _).mpr hinit
  rw [step, flushedStep, ackuireSendWorkitem, hassert, Checked.bind_ok, halloc]
  rfl

/-- Writing the packet of a held item. -/
theorem local_edit {f : WorkItem → Result WorkItem} {item : WorkItem}
    (hf : f (s.item o) = .ok item) (hheld : o ∈ s.handles) (hv : SameView (some o) s t) :
    t.onHandle o (fun u => do
      let item ← f (u.item o)
      return u.setItem o item) = .ok ((s.edit o item [] []).apply t) := by
  have hensure : Checked.ensure Fault.notEnabled (o ∈ t.handles) = .ok () :=
    (Checked.ensure_eq_ok _ _ _).mpr (hv.handles ▸ hheld)
  rw [onHandle, hensure, Checked.bind_ok, hv.item o rfl, hf, Checked.bind_ok]
  simp only [pure, Except.pure, Effect.apply, edit, setItem, WorkPool.setItem, List.append_nil,
    hv.handles, hv.workItems, hv.freeIds, hv.nextObj]

/-- Every call of a user acts on its own part of the state. -/
theorem call_local (hs : Ready s) (ha : a.isCall = true) (h : step a s = .ok s') :
    ∃ e, Local a s s' e := by
  cases a with
  | submitAccept socket handler mem =>
    obtain ⟨_, hkind, hcall⟩ := Checked.bind_eq_ok.mp h
    obtain ⟨e, here, howner, hthere⟩ := local_alloc hs hcall
    exact ⟨e, here, fun t ht hv => Checked.bind_eq_ok.mpr ⟨(), hkind, hthere t ht hv⟩, .inr howner⟩
  | submitConnect socket target handler mem =>
    obtain ⟨e, here, howner, hthere⟩ := local_alloc hs h
    exact ⟨e, here, hthere, .inr howner⟩
  | submitRecv socket handler mem =>
    obtain ⟨e, here, howner, hthere⟩ := local_alloc hs h
    exact ⟨e, here, hthere, .inr howner⟩
  | submitClose socket handler mem =>
    obtain ⟨e, here, howner, hthere⟩ := local_alloc hs h
    exact ⟨e, here, hthere, .inr howner⟩
  | send socket msg cb mem =>
    obtain ⟨e, here, howner, hthere⟩ := local_alloc hs ((send_eq socket msg cb mem s).symm.trans h)
    exact ⟨e, here, fun t ht hv => (send_eq socket msg cb mem t).trans (hthere t ht hv), .inr howner⟩
  | ackuireSendWorkitem socket mem =>
    obtain ⟨o, pool, halloc⟩ : ∃ o pool,
      s.pool.internalAllocWorkItem socket "write-from-socket" mem = (o, pool) := ⟨_, _, rfl⟩
    obtain ⟨ho, _, _, _, hobjs, _⟩ := WorkPool.internalAlloc_spec hs.sound.pool halloc
    have heq : s' = { s with pool := pool, handles := o :: s.handles } := by
      rw [ackuire_eq hs.initialized halloc] at h
      exact (Except.ok.inj h).symm
    refine ⟨placed pool o (pool.objs o) [] (o :: s.handles) [], ?_, fun t ht hv => ?_, .inr ho⟩
    · obtain ⟨objs, nextObj, workItems, freeIds⟩ := pool
      obtain rfl : objs = Function.update s.pool.objs o _ := hobjs
      simp only [heq, Effect.apply, placed, Function.update_self, List.append_nil]
    · rw [ackuire_eq ht.initialized (alloc_view hv.workItems hv.freeIds hv.nextObj halloc)]
      simp only [Effect.apply, placed, List.append_nil, hv.handles]
  | getSendPacket o =>
    have hheld : o ∈ s.handles := by
      simp only [step, flushedStep] at h
      exact (onHandle_ok h).1
    refine ⟨s.edit o (s.item o).getSendPacket [] [], ?_, fun t _ hv => ?_, .inl rfl⟩
    · rw [getSendPacket_ok h]
      simp only [Effect.apply, edit, setItem, WorkPool.setItem, List.append_nil]
    · exact local_edit (f := fun item => .ok item.getSendPacket) rfl hheld hv
  | append o data =>
    have hheld : o ∈ s.handles := by
      simp only [step, flushedStep] at h
      exact (onHandle_ok h).1
    obtain ⟨packet, happend, rfl⟩ := append_ok h
    refine ⟨s.edit o { s.item o with sendPacket := packet } [] [], ?_, fun t _ hv => ?_, .inl rfl⟩
    · simp only [Effect.apply, edit, setItem, WorkPool.setItem, List.append_nil]
    · refine local_edit (f := fun item => item.append data) ?_ hheld hv
      exact Checked.bind_eq_ok.mpr ⟨packet, happend, rfl⟩
  | submitStreamData o cb =>
    simp only [IOUring.step, flushedStep] at h
    obtain ⟨hheld, hf⟩ := onHandle_ok h
    obtain ⟨e, here, howner, hthere⟩ := local_submitItem hs hf
    refine ⟨e, here, fun t ht hv => ?_, .inl (congrArg some howner.symm)⟩
    exact Checked.bind_eq_ok.mpr ⟨(), (Checked.ensure_eq_ok _ _ _).mpr (hv.handles ▸ hheld), hthere t ht hv⟩
  | submitPacket o params cb =>
    simp only [IOUring.step, flushedStep] at h
    obtain ⟨hheld, hf⟩ := onHandle_ok h
    obtain ⟨e, here, howner, hthere⟩ := local_submitItem hs hf
    refine ⟨e, here, fun t ht hv => ?_, .inl (congrArg some howner.symm)⟩
    exact Checked.bind_eq_ok.mpr ⟨(), (Checked.ensure_eq_ok _ _ _).mpr (hv.handles ▸ hheld), hthere t ht hv⟩
  | pollCompletionQueues | callbackReturns | complete => cases ha

section Answer

variable {e : Effect} {req : Request} {k : Outcome} {i : Nat}

theorem Effect.item_other (hne : o ≠ e.owner) (s : IOUring) : (e.apply s).item o = s.item o :=
  Function.update_of_ne hne _ _

theorem completion_apply (hne : req.owner ≠ e.owner) (s : IOUring) :
    (e.apply s).completion req k = s.completion req k := by
  simp only [completion, accepted, e.item_other hne]

/-- What an answer does to memory it does whether or not the call came before it. -/
theorem deliver_apply (hne : req.owner ≠ e.owner) (h : s.deliver req k = .ok t) :
    (e.apply s).deliver req k = .ok (e.apply t) := by
  rw [deliver] at h ⊢
  cases hop : req.sqe.op with
  | accept fd =>
    simp only [hop] at h ⊢
    by_cases hres : 0 ≤ k.res
    · rw [if_pos hres] at h ⊢
      cases h
      rw [e.item_other hne]
      simp only [Effect.apply, setItem, WorkPool.setItem, pure, Except.pure,
        Function.update_comm hne]
    · rw [if_neg hres] at h ⊢
      cases h
      rfl
  | recv fd len | recvmsgMultishot fd =>
    simp only [hop] at h ⊢
    by_cases hflag : k.flags &&& Completion.cqeFBuffer ≠ 0
    · rw [if_pos hflag] at h ⊢
      rw [receive] at h ⊢
      have hbuffers : (e.apply s).buffers = s.buffers := rfl
      rw [hbuffers]
      cases hpick : s.buffers.bufRing.pick with
      | none =>
        rw [hpick] at h
        cases h
      | some p =>
        obtain ⟨buf, ring⟩ := p
        simp only [hpick] at h
        obtain ⟨_, hid, h⟩ := Checked.bind_eq_ok.mp h
        cases h
        exact Checked.bind_eq_ok.mpr ⟨(), hid, rfl⟩
    · rw [if_neg hflag] at h ⊢
      cases h
      rfl
  | close | connect | send | sendmsg =>
    simp only [hop] at h ⊢
    cases h
    rfl

/-- An answer comes out the same before and after the call. -/
theorem complete_apply (hblocked : (e.apply s).blocked req = false)
    (harmed : s.armed[i]? = some req) (hne : req.owner ≠ e.owner) (h : s.complete i k = .ok t) :
    (e.apply s).complete i k = .ok (e.apply t) := by
  obtain ⟨hlt, _⟩ := List.getElem?_eq_some_iff.mp harmed
  have harmed' : (e.apply s).armed[i]? = some req :=
    (List.getElem?_append_left hlt).trans harmed
  rw [complete] at h ⊢
  simp only [harmed] at h
  obtain ⟨_, _, h⟩ := Checked.bind_eq_ok.mp h
  obtain ⟨u, hu, h⟩ := Checked.bind_eq_ok.mp h
  cases h
  simp only [harmed']
  refine Checked.bind_eq_ok.mpr ⟨(), (Checked.ensure_eq_ok _ _ _).mpr hblocked,
    Checked.bind_eq_ok.mpr ⟨e.apply u, deliver_apply hne hu, ?_⟩⟩
  have harmedu : u.armed = s.armed := (deliver_ok hu).frame.2.1
  have herase : (u.armed ++ e.reqs).eraseIdx i = u.armed.eraseIdx i ++ e.reqs :=
    List.eraseIdx_append_of_lt_length (harmedu ▸ hlt) _
  rw [completion_apply hne]
  simp only [Effect.apply, pure, Except.pure, herase]
  split <;> rfl

/-- An answer changes nothing that a call about another item reads. -/
theorem view_of_answer (harmed : s.armed[i]? = some req) (h : s.complete i k = .ok t) :
    t.kind = s.kind ∧ ∀ target : Option Nat, (∀ o ∈ target, o ≠ req.owner) →
      SameView target t s := by
  obtain ⟨r, u, hr, _, hdeliver, rfl⟩ := complete_ok h
  obtain rfl : r = req := Option.some.inj (hr.symm.trans harmed)
  cases hdeliver with
  | nothing _ _ heq | buffer _ _ _ _ _ _ heq =>
    subst heq
    exact ⟨rfl, fun _ _ => ⟨rfl, rfl, rfl, rfl, rfl, rfl, fun _ _ => rfl⟩⟩
  | peer _ _ heq =>
    subst heq
    refine ⟨(kind_setItem _ _).trans (Function.update_eq_self _ _), fun target hne =>
      ⟨rfl, rfl, rfl, rfl, rfl, rfl, fun o ho => ?_⟩⟩
    exact (Function.update_of_ne (hne o ho) _ _).symm

end Answer

/-- A held item is called upon only before its submission. -/
def BeforeSubmission (s : IOUring) (a : Action) : Prop := ∀ o ∈ a.target, s.kind o = .unknown

instance (s : IOUring) (a : Action) : Decidable (s.BeforeSubmission a) :=
  inferInstanceAs (Decidable (∀ _ ∈ _, _))

/-- A call that follows an answer can as well come before it. -/
theorem swap_answer (hs : Ready s) {i : Nat} {k : Outcome} (hanswer : step (.complete i k) s = .ok t)
    (ha : a.isCall = true) (hg : t.BeforeSubmission a) (hcall : step a t = .ok u) :
    s.BeforeSubmission a ∧ ∃ v, step a s = .ok v ∧ step (.complete i k) v = .ok u := by
  obtain ⟨req, _, harmed, _⟩ := complete_ok hanswer
  obtain ⟨hkind, hview⟩ := view_of_answer harmed hanswer
  have hone : Transition.Reaches step Transition.Free s t :=
    Transition.Reaches.refl.tail trivial hanswer
  have ht : Ready t := hs.reaches hone
  have howned := hs.sound.owned req (hs.sound.armed req (List.mem_of_getElem? harmed))
  have hbefore : s.BeforeSubmission a := fun o ho => hkind ▸ hg o ho
  have hother : ∀ o ∈ a.target, o ≠ req.owner := by
    rintro o ho rfl
    exact howned.type.known req.sqe.op.workType_ne_unknown (hbefore _ ho)
  obtain ⟨e, rfl, hthere, howner⟩ := call_local ht ha hcall
  have hv := hthere s hs (hview _ hother)
  have hne : req.owner ≠ e.owner := by
    obtain howner | howner := howner
    · exact (hother _ howner).symm
    · have hnext : s.pool.nextObj = t.pool.nextObj := (hview none nofun).nextObj
      have hlt := howned.lt
      omega
  refine ⟨hbefore, e.apply s, hv, ?_⟩
  exact complete_apply ((hs.sound.step hv).not_blocked req) harmed hne hanswer

theorem answers_swap : Transition.Swaps step BeforeSubmission
    (fun a : Action => a.isAnswer = true) (fun a => a.isCall = true) Ready where
  kept _ _ _ hI hg hs := hI.reaches (Transition.Reaches.refl.tail hg hs)
  disjoint a ha hl := by
    cases a with
    | complete => cases ha
    | _ => cases hl
  swap s a t b u hI ha hb _ hs hg hs' := by
    cases a with
    | complete i k =>
      obtain ⟨hgb, v, hv, hu⟩ := swap_answer hI hs hb hg hs'
      exact ⟨hgb, v, hv, nofun, hu⟩
    | _ => cases ha

/-- Between two dispatches it makes no difference when the kernel answers: each run has the same
end as one in which the user's calls come in the same order, the kernel's answers come in
the same order, and no answer comes right before a call. -/
theorem answers_can_wait {queueSize mapped : Nat} {memory : Nat → Byte} (hroom : 0 < queueSize)
    {as : List Action}
    (hr : Transition.Runs step BeforeSubmission as (initial queueSize mapped memory) s) :
    ∃ bs, Transition.Runs step BeforeSubmission bs (initial queueSize mapped memory) s ∧
      bs.IsChain (fun a b => ¬(a.isAnswer = true ∧ b.isCall = true)) ∧ bs.Perm as ∧
        bs.filter (fun a => a.isAnswer = true) = as.filter (fun a => a.isAnswer = true) ∧
          bs.filter (fun a => ¬a.isAnswer = true) = as.filter (fun a => ¬a.isAnswer = true) := by
  obtain ⟨bs, hbs, hd, hre⟩ := answers_swap.defer (initial_ready hroom mapped memory) hr
  exact ⟨bs, hbs, hd, hre.perm, hre.late_same, hre.others_same⟩

private def hangUp : Socket := ⟨.ipv4Tcp, 0, .unicastClientSocket, 3⟩

private def closedWith (res : Int) : Outcome := ⟨res, 0, default, fun _ => none⟩

/-- A close is answered, and then a second one called for and answered, before a poll. -/
private def earlyAnswers : List Action :=
  [.submitClose hangUp 7 default, .complete 0 (closedWith 0), .submitClose hangUp 8 default,
    .complete 0 (closedWith (-9)), .pollCompletionQueues]

theorem answers_can_wait_closes : ∃ (s : IOUring) (bs : List Action),
    Transition.Runs step BeforeSubmission bs (initial 256 0 fun _ => 0) s ∧ s.posted.length = 2 ∧
      bs.IsChain (fun a b => ¬(a.isAnswer = true ∧ b.isCall = true)) ∧ bs.Perm earlyAnswers := by
  obtain ⟨s, hr, hlength⟩ := Transition.runs_of_leads step BeforeSubmission
    (fun s => s.posted.length = 2) earlyAnswers (initial 256 0 fun _ => 0) (by decide +kernel)
  obtain ⟨bs, hbs, hchain, hperm, _⟩ := answers_can_wait (by decide) hr
  exact ⟨s, bs, hbs, hlength, hchain, hperm⟩

end IOUring

end Iuring
