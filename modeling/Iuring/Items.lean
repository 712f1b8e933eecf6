import Iuring.Sound

namespace Iuring

open Lib

/-- The calls that make a work item. -/
def Action.allocates : Action → Bool
  | .submitAccept _ _ _ | .submitConnect _ _ _ _ | .submitRecv _ _ _ | .submitClose _ _ _
  | .ackuireSendWorkitem _ _ | .send _ _ _ _ => true
  | _ => false

theorem Action.allocates_of_opens {a : Action} {socket : Socket} (h : a.opens = some socket) :
    a.allocates = true := by
  cases a with
  | submitAccept | submitConnect | submitRecv | submitClose | send => rfl
  | ackuireSendWorkitem | getSendPacket | append | submitStreamData | submitPacket
  | pollCompletionQueues | callbackReturns | complete => cases h

namespace IOUring

variable {s s' t : IOUring} {a : Action}

theorem item_setItem (o o' : Nat) (item : WorkItem) :
    (s.setItem o item).item o' = if o' = o then item else s.item o' := by
  simp only [IOUring.item, setItem, WorkPool.setItem, Function.update_apply]

theorem item_arm (o o' : Nat) (item : WorkItem) (sqe : Sqe) :
    (s.arm o item sqe).item o' = if o' = o then item else s.item o' := item_setItem o o' item

/-- Everything that one step can do to an item that exists. -/
inductive Touched (s s' : IOUring) (a : Action) (o : Nat) : Prop
  | untouched (heq : s'.item o = s.item o)
  | held (hheld : o ∈ s.handles)
  | rearmed (hprep : Prepared (s.item o) (s'.item o))
  | freed (heq : s'.item o = { s.item o with state := .free })
  | cleaned (frame : Frame) (state : State) (hframe : frame ∈ s.frames)
      (howner : frame.workItem = o) (hgone : s'.pool.at? frame.id = none)
      (heq : s'.item o = { (s.item o).cleanSendPacket with state := state })
  | answered (i : Nat) (k : Outcome) (req : Request) (haction : a = .complete i k)
      (hreq : s.armed[i]? = some req) (howner : req.owner = o)
      (hop : req.sqe.op.workType = .accept) (heq : s'.item o = acceptPeer k.peer (s.item o))

/-- What the end of a dispatch does to an item: nothing, or it prepares it again, or frees it. -/
theorem item_of_settled {frame : Frame} {ret : ReceivePostAction} (hs : Settled frame ret t s')
    (o : Nat) : s'.item o = t.item o ∨
      (o = frame.workItem ∧ (frame.type = .accept ∨ frame.type = .recv) ∧
        ∃ n sqe, prepare n (t.item o) = .ok (s'.item o, sqe)) ∨
      s'.item o = { t.item o with state := .free } := by
  cases hs with
  | rearmed item sqe htype hprep heq =>
    have hi : s'.item o = if o = frame.workItem then item else t.item o :=
      heq ▸ item_arm frame.workItem o item sqe
    by_cases ho : o = frame.workItem
    · subst ho
      rw [if_pos rfl] at hi
      exact .inr (.inl ⟨rfl, htype.imp_right And.left, _, sqe, hi ▸ hprep⟩)
    · rw [if_neg ho] at hi
      exact .inl hi
  | freed o' pool _ _ hfree heq =>
    obtain ⟨o'', _, rfl⟩ := WorkPool.freeWorkItem_ok hfree
    subst heq
    by_cases ho : o = o''
    · subst ho
      exact .inr (.inr (Function.update_self _ _ _))
    · exact .inl (Function.update_of_ne ho _ _)

theorem item_settled {frame : Frame} {ret : ReceivePostAction} (hs : Settled frame ret t s')
    (o : Nat) : s'.item o = t.item o ∨
      frame.type.isSend = false ∧ Prepared (t.item o) (s'.item o) ∨
      s'.item o = { t.item o with state := .free } := by
  obtain heq | ⟨_, htype, n, sqe, hprep⟩ | heq := item_of_settled hs o
  · exact .inl heq
  · have ht : frame.type.isSend = false := by
      obtain h | h := htype <;> rw [h] <;> rfl
    exact .inr (.inl ⟨ht, (prepare_ok hprep).1⟩)
  · exact .inr (.inr heq)

theorem item_leaveCallback (frame : Frame) (frames : List Frame) (o : Nat) :
    (s.leaveCallback frame frames).item o = s.item o ∨ o = frame.workItem ∧
      frame.type.isSend = true ∧ (s.leaveCallback frame frames).item o = (s.item o).cleanSendPacket := by
  rw [leaveCallback]
  cases ht : frame.type with
  | sendStreamData | sendWorkpacket =>
    simp only [item_setItem]
    by_cases ho : o = frame.workItem
    · subst ho
      exact .inr ⟨rfl, rfl, if_pos rfl⟩
    · exact .inl (if_neg ho)
  | recv | unknown | accept | connect | close => exact .inl rfl

theorem gone_of_settled {frame : Frame} {ret : ReceivePostAction} (hs : Settled frame ret t s')
    (ht : frame.type.isSend = true) : s'.pool.at? frame.id = none := by
  cases hs with
  | rearmed item sqe htype _ _ =>
    obtain h | ⟨h, _⟩ := htype <;> rw [h] at ht <;> cases ht
  | freed o pool _ _ hfree heq =>
    have hat := WorkPool.freeWorkItem_at? hfree frame.id
    rw [if_pos rfl] at hat
    exact heq ▸ hat

theorem touched_of_settled {frame : Frame} {ret : ReceivePostAction} {o : Nat}
    (hi : t.item o = s.item o) (hs : Settled frame ret t s') : Touched s s' a o := by
  obtain heq | ⟨_, hprep⟩ | heq := item_settled hs o
  · exact .untouched (heq.trans hi)
  · exact .rearmed (hi ▸ hprep)
  · exact .freed (hi ▸ heq)

theorem Sound.touched (h : Sound s) (hs : Stepped s s' a) {o : Nat} (ho : o < s.pool.nextObj) :
    Touched s s' a o := by
  cases hs with
  | opened socket descr mem o' pool item₀ item sqe _ halloc _ _ heq =>
    obtain ⟨hne, hobj⟩ := WorkPool.internalAlloc_objs h.pool halloc ho
    subst heq
    refine .untouched ?_
    rw [item_arm, if_neg hne]
    exact hobj
  | acquired socket mem o' pool halloc heq =>
    subst heq
    exact .untouched (WorkPool.internalAlloc_objs h.pool halloc ho).2
  | edited o' packet hheld _ _ heq =>
    subst heq
    by_cases he : o = o'
    · exact .held (he ▸ hheld)
    · exact .untouched (by rw [item_setItem, if_neg he])
  | submitted o' item₀ item sqe _ hheld _ _ _ heq =>
    subst heq
    by_cases he : o = o'
    · exact .held (he ▸ hheld)
    · exact .untouched (by rw [item_arm, if_neg he])
  | polled _ hpoll =>
    cases hpoll with
    | idle _ heq | missed _ _ _ _ heq | exhausted _ _ _ _ _ _ heq | entered _ _ _ _ _ _ _ _ heq =>
      exact .untouched (heq ▸ rfl)
    | returned cqe rest o' ret recycle _ _ _ _ hafter =>
      obtain ⟨buffers, hst, _⟩ := settled_of_returned h.sq hafter
      have hi : ({ s.emit (.dispatched cqe (some o')) with buffers := buffers } : IOUring).item o =
          s.item o := rfl
      exact touched_of_settled hi hst
  | returned ret frame frames hframes hafter =>
    have hst := afterHandler_ok (h.leaveCallback hframes).sq hafter
    obtain hi | ⟨ho', ht, hi⟩ := item_leaveCallback (s := s) frame frames o
    · exact touched_of_settled hi hst
    · have hgone := gone_of_settled hst ht
      have hm : frame ∈ s.frames := hframes ▸ List.mem_cons_self
      obtain heq | ⟨hn, _⟩ | heq := item_settled hst o
      · exact .cleaned frame (s.item o).state hm ho'.symm hgone (heq.trans hi)
      · rw [ht] at hn
        cases hn
      · exact .cleaned frame .free hm ho'.symm hgone (by rw [heq, hi])
  | completed i k req t harmed _ hdeliver heq =>
    subst heq
    cases hdeliver with
    | nothing _ _ heq | buffer _ _ _ _ _ _ heq => exact .untouched (heq ▸ rfl)
    | peer _ hop heq =>
      subst heq
      by_cases he : o = req.owner
      · refine .answered i k req rfl harmed he.symm hop ?_
        subst he
        exact Function.update_self _ _ _
      · exact .untouched (Function.update_of_ne he _ _)

theorem slot_of_settled {frame : Frame} {ret : ReceivePostAction} {i o : Nat}
    (hs : Settled frame ret t s') (hi : s'.pool.at? i = some o) : t.pool.at? i = some o := by
  cases hs with
  | rearmed item sqe _ _ heq =>
    subst heq
    exact hi
  | freed o' pool _ _ hfree heq =>
    subst heq
    have hat := WorkPool.freeWorkItem_at? hfree i
    rw [show pool.at? i = some o from hi] at hat
    split at hat
    · cases hat
    · exact hat.symm

/-- An item that exists is put into no slot. -/
theorem Sound.slot_back (h : Sound s) (hs : Stepped s s' a) {i o : Nat} (ho : o < s.pool.nextObj)
    (hi : s'.pool.at? i = some o) : s.pool.at? i = some o := by
  have halloc : ∀ {socket : Socket} {descr : String} {mem : Uninitialized} {o' : Nat}
      {pool : WorkPool}, s.pool.internalAllocWorkItem socket descr mem = (o', pool) →
      pool.at? i = some o → s.pool.at? i = some o := by
    intro socket descr mem o' pool ha hp
    obtain ⟨ho', _, id, _, _, hat⟩ := WorkPool.internalAlloc_spec h.pool ha
    rw [hat] at hp
    split at hp
    · cases hp
      omega
    · exact hp
  cases hs with
  | opened _ _ _ _ _ _ _ _ _ ha _ _ heq =>
    subst heq
    exact halloc ha hi
  | acquired _ _ _ _ ha heq =>
    subst heq
    exact halloc ha hi
  | edited _ _ _ _ _ heq | submitted _ _ _ _ _ _ _ _ _ heq =>
    subst heq
    exact hi
  | polled _ hpoll =>
    cases hpoll with
    | idle _ heq | missed _ _ _ _ heq | exhausted _ _ _ _ _ _ heq | entered _ _ _ _ _ _ _ _ heq =>
      subst heq
      exact hi
    | returned cqe rest o' ret recycle _ _ _ _ hafter =>
      obtain ⟨buffers, hst, _⟩ := settled_of_returned h.sq hafter
      have hs := slot_of_settled hst hi
      exact hs
  | returned ret frame frames hframes hafter =>
    have hs := slot_of_settled (afterHandler_ok (h.leaveCallback hframes).sq hafter) hi
    rw [IOUring.leaveCallback] at hs
    cases ht : frame.type <;> simp only [ht] at hs <;> exact hs
  | completed _ k req t _ _ hdeliver heq =>
    subst heq
    cases hdeliver with
    | nothing _ _ heq | peer _ _ heq | buffer _ _ _ _ _ _ heq =>
      subst heq
      exact hi

theorem frames_of_settled {frame : Frame} {ret : ReceivePostAction} (hs : Settled frame ret t s') :
    s'.frames = t.frames := by
  cases hs with
  | rearmed _ _ _ _ heq | freed _ _ _ _ _ heq => exact heq ▸ rfl

/-- A dispatch waits for a callback only after it found its item in the slot. -/
theorem Sound.frames_back (h : Sound s) (hs : Stepped s s' a) {frame : Frame}
    (hm : frame ∈ s'.frames) : frame ∈ s.frames ∨ s.pool.at? frame.id = some frame.workItem := by
  cases hs with
  | opened _ _ _ _ _ _ _ _ _ _ _ _ heq | acquired _ _ _ _ _ heq | edited _ _ _ _ _ heq
  | submitted _ _ _ _ _ _ _ _ _ heq =>
    subst heq
    exact .inl hm
  | polled _ hpoll =>
    cases hpoll with
    | idle _ heq | missed _ _ _ _ heq | exhausted _ _ _ _ _ _ heq =>
      subst heq
      exact .inl hm
    | entered cqe rest o call _ hat _ _ heq =>
      subst heq
      obtain rfl | hm := List.mem_cons.mp hm
      · exact .inr hat
      · exact .inl hm
    | returned cqe rest o ret recycle _ _ _ _ hafter =>
      obtain ⟨buffers, hst, _⟩ := settled_of_returned h.sq hafter
      rw [frames_of_settled hst] at hm
      exact .inl hm
  | returned ret fr frames hframes hafter =>
    rw [frames_of_settled (afterHandler_ok (h.leaveCallback hframes).sq hafter)] at hm
    refine .inl (hframes ▸ List.mem_cons_of_mem _ ?_)
    rw [IOUring.leaveCallback] at hm
    cases ht : fr.type <;> simp only [ht] at hm <;> exact hm
  | completed _ k req t _ _ hdeliver heq =>
    obtain ⟨_, _, _, _, hf, _⟩ := hdeliver.frame
    subst heq
    exact .inl (hf ▸ hm)

/-- A dispatch in progress is about the slot that its item is numbered for. -/
theorem Sound.frame_named (h : Sound s) (hs : Stepped s s' a) {frame : Frame}
    (hm : frame ∈ s'.frames)
    (hn : frame ∈ s.frames → frame.id = (s.item frame.workItem).id) :
    frame.id = (s'.item frame.workItem).id := by
  have hext := hs.extends h
  obtain hm | hat := h.frames_back hs hm
  · exact (hn hm).trans (hext.evolves _ (h.frames frame hm).1).id.symm
  · obtain ⟨hlt, hid, _⟩ := h.pool.live _ _ hat
    exact hid.symm.trans (hext.evolves _ hlt).id.symm

theorem handles_of_settled {frame : Frame} {ret : ReceivePostAction} (hs : Settled frame ret t s') :
    s'.handles = t.handles := by
  cases hs with
  | rearmed _ _ _ _ heq | freed _ _ _ _ _ heq => exact heq ▸ rfl

/-- The user is handed no item that exists already. -/
theorem Sound.handles_back (h : Sound s) (hs : Stepped s s' a) {o : Nat} (ho : o < s.pool.nextObj)
    (hm : o ∈ s'.handles) : o ∈ s.handles := by
  cases hs with
  | opened _ _ _ _ _ _ _ _ _ _ _ _ heq | edited _ _ _ _ _ heq
  | submitted _ _ _ _ _ _ _ _ _ heq =>
    subst heq
    exact hm
  | acquired _ _ o' _ ha heq =>
    have ho' := (WorkPool.internalAlloc_spec h.pool ha).1
    subst heq
    obtain rfl | hm := List.mem_cons.mp hm
    · omega
    · exact hm
  | polled _ hpoll =>
    cases hpoll with
    | idle _ heq | missed _ _ _ _ heq | exhausted _ _ _ _ _ _ heq | entered _ _ _ _ _ _ _ _ heq =>
      subst heq
      exact hm
    | returned cqe rest o ret recycle _ _ _ _ hafter =>
      obtain ⟨buffers, hst, _⟩ := settled_of_returned h.sq hafter
      rwa [handles_of_settled hst] at hm
  | returned ret fr frames hframes hafter =>
    rw [handles_of_settled (afterHandler_ok (h.leaveCallback hframes).sq hafter)] at hm
    rw [IOUring.leaveCallback] at hm
    cases ht : fr.type <;> simp only [ht] at hm <;> exact hm
  | completed _ k req t _ _ hdeliver heq =>
    obtain ⟨_, _, _, _, _, hh, _⟩ := hdeliver.frame
    subst heq
    exact hh ▸ hm

/-- An item that no user holds keeps its type, and its packet until a callback of it returns. -/
theorem Touched.unheld {o : Nat} (ht : Touched s s' a o) (hu : o ∉ s.handles) :
    (s'.item o).workType = (s.item o).workType ∧
      ((s'.item o).sendPacket = (s.item o).sendPacket ∨
        ∃ frame ∈ s.frames, frame.workItem = o ∧ s'.pool.at? frame.id = none) := by
  cases ht with
  | untouched heq | freed heq => exact ⟨heq ▸ rfl, .inl (heq ▸ rfl)⟩
  | held hheld => exact absurd hheld hu
  | rearmed hprep => exact ⟨hprep.type, .inl hprep.packet⟩
  | cleaned frame _ hframe howner hgone heq => exact ⟨heq ▸ rfl, .inr ⟨frame, hframe, howner, hgone⟩⟩
  | answered _ _ _ _ _ _ _ heq => exact ⟨heq ▸ rfl, .inl (heq ▸ rfl)⟩

/-- A new item has been submitted with the request, and nothing else was done. -/
structure Opened (s s' : IOUring) (item : WorkItem) (req : Request) : Prop where
  owner : req.owner = s.pool.nextObj
  seq : req.seq = s.consumed.length
  describes : Describes item req.sqe
  packet : (s'.item req.owner).sendPacket = item.sendPacket
  kind : (s'.item req.owner).workType = item.workType
  next : s'.pool.nextObj = s.pool.nextObj + 1
  others : ∀ o < s.pool.nextObj, s'.item o = s.item o
  consumed : s'.consumed = s.consumed ++ [req]
  armed : s'.armed = s.armed ++ [req]
  posted : s'.posted = s.posted
  frames : s'.frames = s.frames
  handles : s'.handles = s.handles

theorem Sound.opened_of_alloc (h : Sound s) {socket : Socket} {descr : String} {mem : Uninitialized}
    {set : WorkItem → Result WorkItem} (hs : s.allocWorkItem socket descr mem set = .ok s') :
    ∃ id item req, set (.create id descr socket mem) = .ok item ∧ Opened s s' item req := by
  obtain ⟨o, pool, item₀, item, sqe, halloc, hset, hprep, heq⟩ := allocWorkItem_ok h.sq hs
  obtain ⟨ho, hn, id, _, hobjs, _⟩ := WorkPool.internalAlloc_spec h.pool halloc
  obtain ⟨hp, hd⟩ := prepare_ok hprep
  have hitem : s'.item o = item := by rw [heq, item_arm, if_pos rfl]
  rw [hobjs, Function.update_self] at hset
  refine ⟨id, item₀, ⟨s.consumed.length, o, sqe⟩, hset, ho, rfl, hd, ?_, ?_, ?_, fun o' ho' => ?_,
    heq ▸ rfl, heq ▸ rfl, heq ▸ rfl, heq ▸ rfl, heq ▸ rfl⟩
  · rw [hitem, hp.packet]
  · rw [hitem, hp.type]
  · rw [heq, ← ho]
    exact hn
  · obtain ⟨hne, hobj⟩ := WorkPool.internalAlloc_objs h.pool halloc ho'
    rw [heq, item_arm, if_neg hne]
    exact hobj

theorem next_of_settled {frame : Frame} {ret : ReceivePostAction} (hs : Settled frame ret t s') :
    s'.pool.nextObj = t.pool.nextObj := by
  cases hs with
  | rearmed _ _ _ _ heq => exact heq ▸ rfl
  | freed _ _ _ _ hfree heq =>
    obtain ⟨_, _, rfl⟩ := WorkPool.freeWorkItem_ok hfree
    exact heq ▸ rfl

/-- Only an allocation makes a new item, and it sits in a slot. -/
theorem Sound.allocated_or_next (h : Sound s) (hs : Stepped s s' a) :
    (a.allocates = true ∧ s'.pool.nextObj = s.pool.nextObj + 1 ∧
      ∃ id, s'.pool.at? id = some s.pool.nextObj) ∨ s'.pool.nextObj = s.pool.nextObj := by
  cases hs with
  | opened _ _ _ _ _ _ _ _ hopens halloc _ _ heq =>
    obtain ⟨rfl, hn, id, _, _, hat⟩ := WorkPool.internalAlloc_spec h.pool halloc
    have hslot := hat id
    rw [if_pos rfl] at hslot
    subst heq
    exact .inl ⟨Action.allocates_of_opens hopens, hn, id, hslot⟩
  | acquired _ _ _ _ halloc heq =>
    obtain ⟨rfl, hn, id, _, _, hat⟩ := WorkPool.internalAlloc_spec h.pool halloc
    have hslot := hat id
    rw [if_pos rfl] at hslot
    subst heq
    exact .inl ⟨rfl, hn, id, hslot⟩
  | edited _ _ _ _ _ heq | submitted _ _ _ _ _ _ _ _ _ heq => exact .inr (heq ▸ rfl)
  | polled _ hpoll =>
    cases hpoll with
    | idle _ heq | missed _ _ _ _ heq | exhausted _ _ _ _ _ _ heq | entered _ _ _ _ _ _ _ _ heq =>
      exact .inr (heq ▸ rfl)
    | returned _ _ _ _ _ _ _ _ _ hafter =>
      obtain ⟨_, hst, _⟩ := settled_of_returned h.sq hafter
      have hnext := next_of_settled hst
      exact .inr hnext
  | returned ret frame frames hframes hafter =>
    have hst := afterHandler_ok (h.leaveCallback hframes).sq hafter
    exact .inr ((next_of_settled hst).trans (leaveCallback_nextObj frame frames))
  | completed _ _ _ _ _ _ hdeliver heq =>
    subst heq
    cases hdeliver with
    | nothing _ _ heq | peer _ _ heq | buffer _ _ _ _ _ _ heq => exact .inr (heq ▸ rfl)

theorem Sound.next_of_stepped (h : Sound s) (hs : Stepped s s' a) (ha : a.allocates = false) :
    s'.pool.nextObj = s.pool.nextObj := by
  obtain ⟨htrue, _⟩ | hnext := h.allocated_or_next hs
  · rw [ha] at htrue
    cases htrue
  · exact hnext

/-- A new item sits in a slot. -/
theorem Sound.seated_of_stepped (h : Sound s) (hs : Stepped s s' a) {o : Nat}
    (hge : s.pool.nextObj ≤ o) (hlt : o < s'.pool.nextObj) : ∃ id, s'.pool.at? id = some o := by
  obtain ⟨_, hnext, id, hat⟩ | hnext := h.allocated_or_next hs
  · have ho : o = s.pool.nextObj := by omega
    exact ⟨id, ho ▸ hat⟩
  · omega

end IOUring

end Iuring
