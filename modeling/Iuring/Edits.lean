import Iuring.Items

namespace Iuring

open Lib

namespace WorkItem

open IOUring

/-- The fields that the submission of a new item sets before IOUring::submit. -/
inductive FirstSet (item : WorkItem) : WorkItem → Prop
  | accept (handler : CallbackFn) : FirstSet item (item.submitAccept handler)
  | connect (target : IPAddress) (handler : CallbackFn) (item₀ : WorkItem)
      (hset : item.submitConnect target handler = .ok item₀) : FirstSet item item₀
  | recv (handler : CallbackFn) : FirstSet item (item.submitRecv handler)
  | close (handler : CallbackFn) : FirstSet item (item.submitClose handler)
  | send (packet : SendPacket) (cb : CallbackFn) :
      FirstSet item (WorkItem.submitStreamData cb { item with sendPacket := packet })

/-- An item as the step that makes it leaves it. -/
inductive Born : WorkItem → Prop
  | acquired (id : Nat) (descr : String) (socket : Socket) (mem : Uninitialized) :
      Born (.create id descr socket mem)
  | opened (id : Nat) (descr : String) (socket : Socket) (mem : Uninitialized)
      (item₀ item : WorkItem) (n : Nat) (sqe : Sqe)
      (hset : FirstSet (.create id descr socket mem) item₀)
      (hprep : prepare n item₀ = .ok (item, sqe)) : Born item

/-- A send item before or between its submissions. -/
def Sendable (item : WorkItem) : Prop := item.workType = .unknown ∨ item.workType.isSend = true

/-- One change of an item that exists. -/
inductive Edit (item : WorkItem) : WorkItem → Prop
  | packet (packet : SendPacket) (hkind : item.Sendable) :
      Edit item { item with sendPacket := packet }
  | streamData (cb : CallbackFn) (item' : WorkItem) (n : Nat) (sqe : Sqe) (hkind : item.Sendable)
      (hprep : prepare n (item.submitStreamData cb) = .ok (item', sqe)) : Edit item item'
  | workpacket (params : DatagramSendParameters) (cb : CallbackFn) (item' : WorkItem) (n : Nat)
      (sqe : Sqe) (hkind : item.Sendable)
      (hprep : prepare n (item.submitPacket params cb) = .ok (item', sqe)) : Edit item item'
  | rearmed (item' : WorkItem) (n : Nat) (sqe : Sqe)
      (hkind : item.workType = .accept ∨ item.workType = .recv)
      (hprep : prepare n item = .ok (item', sqe)) : Edit item item'
  | freed : Edit item { item with state := .free }
  | answered (peer : Peer) (hkind : item.workType = .accept) : Edit item (acceptPeer peer item)

abbrev Edits : WorkItem → WorkItem → Prop := Relation.ReflTransGen Edit

/-- What holds of an item when it is made and through every edit. -/
structure Lasting (I : WorkItem → Prop) : Prop where
  born : ∀ item, Born item → I item
  edit : ∀ item item', I item → Edit item item' → I item'

theorem Lasting.edits {I : WorkItem → Prop} (hI : Lasting I) {item item' : WorkItem} (hi : I item)
    (he : Edits item item') : I item' := by
  induction he with
  | refl => exact hi
  | tail _ hlast ih => exact hI.edit _ _ ih hlast

end WorkItem

namespace IOUring

open WorkItem

variable {s s' t : IOUring} {a : Action}

theorem edits_of_eq {item item' : WorkItem} (h : item' = item) : Edits item item' := h ▸ .refl

theorem edits_of_settled {frame : Frame} {ret : ReceivePostAction} (hs : Settled frame ret t s')
    (hkind : frame.type.Becomes (t.item frame.workItem).workType) (o : Nat) :
    Edits (t.item o) (s'.item o) := by
  obtain heq | ⟨rfl, htype, n, sqe, hprep⟩ | heq := item_of_settled hs o
  · exact edits_of_eq heq
  · have ht : (t.item frame.workItem).workType = .accept ∨
        (t.item frame.workItem).workType = .recv := by
      obtain h | h := htype <;> rw [h] at hkind
      · exact .inl (hkind.eq_of (by simp) rfl)
      · exact .inr (hkind.eq_of (by simp) rfl)
    exact .single (.rearmed _ n sqe ht hprep)
  · exact heq ▸ .single .freed

/-- Only the two submissions of a held item are left out. -/
theorem Sound.edits_of_stepped (h : Sound s) (hs : Stepped s s' a) (hsubmits : a.submits = none)
    {o : Nat} (ho : o < s.pool.nextObj) : Edits (s.item o) (s'.item o) := by
  cases hs with
  | opened socket descr mem o' pool item₀ item sqe _ halloc _ _ heq =>
    obtain ⟨hne, hobj⟩ := WorkPool.internalAlloc_objs h.pool halloc ho
    subst heq
    apply edits_of_eq
    rw [item_arm, if_neg hne]
    exact hobj
  | acquired socket mem o' pool halloc heq =>
    subst heq
    exact edits_of_eq (WorkPool.internalAlloc_objs h.pool halloc ho).2
  | edited o' packet hheld _ _ heq =>
    subst heq
    rw [item_setItem]
    by_cases he : o = o'
    · subst he
      rw [if_pos rfl]
      exact .single (.packet packet (h.handles o hheld).2)
    · rw [if_neg he]
  | submitted o' item₀ item sqe hsub => rw [hsubmits] at hsub; cases hsub
  | polled _ hpoll =>
    cases hpoll with
    | idle _ heq | missed _ _ _ _ heq | exhausted _ _ _ _ _ _ heq | entered _ _ _ _ _ _ _ _ heq =>
      exact edits_of_eq (heq ▸ rfl)
    | returned cqe rest o' ret recycle _ _ _ _ hafter =>
      obtain ⟨buffers, hst, _⟩ := settled_of_returned h.sq hafter
      exact edits_of_settled hst (.refl _) o
  | returned ret frame frames hframes hafter =>
    have hst := afterHandler_ok (h.leaveCallback hframes).sq hafter
    have hkind := (h.frames frame (hframes ▸ List.mem_cons_self)).2.2
    have hkept : ((s.leaveCallback frame frames).item frame.workItem).workType =
        (s.item frame.workItem).workType := by
      obtain hi | ⟨_, _, hi⟩ := item_leaveCallback (s := s) frame frames frame.workItem <;> rw [hi]
      rfl
    have hsettled := edits_of_settled hst (hkept ▸ hkind) o
    obtain hi | ⟨ho', ht, hi⟩ := item_leaveCallback (s := s) frame frames o
    · exact hi ▸ hsettled
    · subst ho'
      have hsend : (s.item frame.workItem).Sendable := by
        obtain hk | ⟨_, hk⟩ := hkind
        · exact .inr (hk ▸ ht)
        · exact .inr hk
      rw [hi] at hsettled
      exact .head (.packet _ hsend) hsettled
  | completed i k req t harmed _ hdeliver heq =>
    subst heq
    cases hdeliver with
    | nothing _ _ heq | buffer _ _ _ _ _ _ heq => exact edits_of_eq (heq ▸ rfl)
    | peer _ hop heq =>
      subst heq
      by_cases he : o = req.owner
      · subst he
        have hown := (h.owned req (h.armed req (List.mem_of_getElem? harmed))).type
        rw [hop] at hown
        have hi : Function.update s.pool.objs req.owner (acceptPeer k.peer (s.item req.owner))
            req.owner = acceptPeer k.peer (s.item req.owner) := Function.update_self _ _ _
        have hkind : (s.item req.owner).workType = .accept := hown.eq_of (by simp) rfl
        exact (congrArg (Edits (s.item req.owner)) hi).mpr (.single (.answered k.peer hkind))
      · exact edits_of_eq (Function.update_of_ne he _ _)

/-- Whatever a step does to an item that exists is a sequence of edits. -/
theorem Sound.edits (h : Sound s) (hs : IOUring.step a s = .ok s') {o : Nat}
    (ho : o < s.pool.nextObj) : Edits (s.item o) (s'.item o) := by
  cases a with
  | submitStreamData o' cb =>
    simp only [IOUring.step, flushedStep] at hs
    obtain ⟨hheld, hf⟩ := onHandle_ok hs
    obtain ⟨item₀, item, sqe, hset, hprep, rfl⟩ := submitItem_ok h.sq hf
    cases hset
    rw [item_arm]
    by_cases he : o = o'
    · subst he
      rw [if_pos rfl]
      exact .single (.streamData cb item _ sqe (h.handles o hheld).2 hprep)
    · rw [if_neg he]
  | submitPacket o' params cb =>
    simp only [IOUring.step, flushedStep] at hs
    obtain ⟨hheld, hf⟩ := onHandle_ok hs
    obtain ⟨item₀, item, sqe, hset, hprep, rfl⟩ := submitItem_ok h.sq hf
    cases hset
    rw [item_arm]
    by_cases he : o = o'
    · subst he
      rw [if_pos rfl]
      exact .single (.workpacket params cb item _ sqe (h.handles o hheld).2 hprep)
    · rw [if_neg he]
  | submitAccept | submitConnect | submitRecv | submitClose | ackuireSendWorkitem | getSendPacket
  | append | send | pollCompletionQueues | callbackReturns | complete =>
    exact h.edits_of_stepped (step_ok h.sq hs) rfl ho

theorem born_of_alloc (h : Sound s) {socket : Socket} {descr : String} {mem : Uninitialized}
    {set : WorkItem → Result WorkItem} (hset : ∀ item item₀, set item = .ok item₀ →
      FirstSet item item₀) (hs : s.allocWorkItem socket descr mem set = .ok s') {o : Nat}
    (hge : s.pool.nextObj ≤ o) (hlt : o < s'.pool.nextObj) : Born (s'.item o) := by
  obtain ⟨o', pool, item₀, item, sqe, halloc, hs₀, hprep, rfl⟩ := allocWorkItem_ok h.sq hs
  obtain ⟨ho, hn, id, _, hobjs, _⟩ := WorkPool.internalAlloc_spec h.pool halloc
  have he : o = o' := by
    have hn' : o < pool.nextObj := hlt
    omega
  subst he
  rw [hobjs, Function.update_self] at hs₀
  rw [item_arm, if_pos rfl]
  exact .opened id descr socket mem item₀ item _ sqe (hset _ _ hs₀) hprep

theorem Sound.born (h : Sound s) (hs : IOUring.step a s = .ok s') {o : Nat}
    (hge : s.pool.nextObj ≤ o) (hlt : o < s'.pool.nextObj) : Born (s'.item o) := by
  cases a with
  | submitAccept socket handler mem =>
    obtain ⟨_, _, ha⟩ := Checked.bind_eq_ok.mp hs
    refine born_of_alloc h (fun item item₀ he => ?_) ha hge hlt
    cases he
    exact .accept handler
  | submitConnect socket target handler mem =>
    exact born_of_alloc h (fun item item₀ he => .connect target handler item₀ he) hs hge hlt
  | submitRecv socket handler mem =>
    refine born_of_alloc h (fun item item₀ he => ?_) hs hge hlt
    cases he
    exact .recv handler
  | submitClose socket handler mem =>
    refine born_of_alloc h (fun item item₀ he => ?_) hs hge hlt
    cases he
    exact .close handler
  | send socket msg cb mem =>
    refine born_of_alloc h (fun item item₀ he => ?_) ((send_eq socket msg cb mem s).symm.trans hs)
      hge hlt
    obtain ⟨item₁, h1, h2⟩ := Checked.bind_eq_ok.mp he
    obtain ⟨packet, _, h3⟩ := Checked.bind_eq_ok.mp h1
    cases h3
    cases h2
    exact .send packet cb
  | ackuireSendWorkitem socket mem =>
    cases step_ok h.sq hs with
    | acquired _ _ o' pool halloc heq =>
      obtain ⟨ho, hn, id, _, hobjs, _⟩ := WorkPool.internalAlloc_spec h.pool halloc
      subst heq
      have he : o = o' := by
        have hn' : o < pool.nextObj := hlt
        omega
      subst he
      have hi : pool.objs o = .create id "write-from-socket" socket mem := by
        rw [hobjs, Function.update_self]
      exact (congrArg Born hi).mpr (.acquired id _ socket mem)
    | opened _ _ _ _ _ _ _ _ ho => cases ho
    | edited _ _ _ _ _ heq | submitted _ _ _ _ _ _ _ _ _ heq =>
      subst heq
      exact absurd hlt (Nat.not_lt.mpr hge)
  | getSendPacket | append | submitStreamData | submitPacket | pollCompletionQueues
  | callbackReturns | complete =>
    have hnext := h.next_of_stepped (step_ok h.sq hs) rfl
    omega

/-- A lasting property holds of every item in every state of every run. -/
theorem lasting_reaches {I : WorkItem → Prop} (hI : Lasting I) {queueSize mapped : Nat}
    {memory : Nat → Memory.Byte} {guard : IOUring → Action → Prop}
    (hr : Transition.Reaches IOUring.step guard (initial queueSize mapped memory) s) {o : Nat}
    (ho : o < s.pool.nextObj) : I (s.item o) := by
  have hinv := hr.invariant (I := fun u => Sound u ∧ ∀ o < u.pool.nextObj, I (u.item o))
    (fun u a v hu _ hs => ⟨hu.1.step hs, fun o ho => ?_⟩)
    ⟨initial_sound queueSize mapped memory, fun o ho => absurd ho (Nat.not_lt_zero o)⟩
  · exact hinv.2 o ho
  · obtain hlt | hge := Nat.lt_or_ge o u.pool.nextObj
    · exact hI.edits (hu.2 o hlt) (hu.1.edits hs hlt)
    · exact hI.born _ (hu.1.born hs hge ho)

end IOUring

end Iuring
