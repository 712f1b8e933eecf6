import Iuring.Handlers

namespace Iuring

open Lib

namespace WorkType

/-- An item changes its type only by becoming a send item of one or the other kind. -/
def Becomes (a b : WorkType) : Prop := b = a ∨ (a = .unknown ∨ a.isSend = true) ∧ b.isSend = true

theorem Becomes.refl (a : WorkType) : Becomes a a := .inl rfl

theorem Becomes.trans {a b c : WorkType} (h : Becomes a b) (h' : Becomes b c) : Becomes a c := by
  obtain rfl | ⟨ha, hb⟩ := h
  · exact h'
  · obtain rfl | ⟨_, hc⟩ := h'
    · exact .inr ⟨ha, hb⟩
    · exact .inr ⟨ha, hc⟩

/-- A type that is neither unknown nor a send stays as it is. -/
theorem Becomes.eq_of {a b : WorkType} (h : Becomes a b) (hu : a ≠ .unknown)
    (hs : a.isSend = false) : b = a := by
  obtain h | ⟨h | h, _⟩ := h
  · exact h
  · exact absurd h hu
  · rw [hs] at h
    cases h

theorem Becomes.known {a b : WorkType} (h : Becomes a b) (hu : a ≠ .unknown) : b ≠ .unknown := by
  obtain rfl | ⟨_, h⟩ := h
  · exact hu
  · rintro rfl
    cases h

end WorkType

/-- How an object may change over time. -/
structure Evolves (item item' : WorkItem) : Prop where
  id : item'.id = item.id
  socket : item'.socket = item.socket
  link : item'.linkToNextRequest = item.linkToNextRequest
  type : item.workType.Becomes item'.workType

theorem Evolves.refl (item : WorkItem) : Evolves item item := ⟨rfl, rfl, rfl, .refl _⟩

theorem Evolves.trans {a b c : WorkItem} (h : Evolves a b) (h' : Evolves b c) : Evolves a c :=
  ⟨h'.id.trans h.id, h'.socket.trans h.socket, h'.link.trans h.link, h.type.trans h'.type⟩

theorem SameIdentity.evolves {item item' : WorkItem} (h : SameIdentity item item')
    (ht : item.workType.Becomes item'.workType) : Evolves item item' :=
  ⟨h.id, h.socket, h.link, ht⟩

namespace WorkPool

/-- No object is lost and each one that exists only evolves. -/
structure Extends (pool pool' : WorkPool) : Prop where
  next : pool.nextObj ≤ pool'.nextObj
  evolves : ∀ o < pool.nextObj, Evolves (pool.objs o) (pool'.objs o)

theorem Extends.refl (pool : WorkPool) : pool.Extends pool := ⟨le_refl _, fun _ _ => .refl _⟩

theorem Extends.trans {a b c : WorkPool} (h : a.Extends b) (h' : b.Extends c) : a.Extends c :=
  ⟨h.next.trans h'.next,
    fun o ho => (h.evolves o ho).trans (h'.evolves o (ho.trans_le h.next))⟩

theorem setItem_extends {pool : WorkPool} {o : Nat} {item : WorkItem}
    (h : Evolves (pool.objs o) item) : pool.Extends (pool.setItem o item) := by
  refine ⟨le_refl _, fun o' _ => ?_⟩
  by_cases he : o' = o
  · subst o'
    simpa [setItem] using h
  · simpa [setItem, Function.update_of_ne he] using Evolves.refl _

theorem freeWorkItem_extends {pool pool' : WorkPool} {id : Nat}
    (h : pool.freeWorkItem id = .ok pool') : pool.Extends pool' := by
  obtain ⟨o, _, rfl⟩ := freeWorkItem_ok h
  have he : pool.Extends (pool.setItem o { pool.objs o with state := .free }) :=
    setItem_extends ⟨rfl, rfl, rfl, .refl _⟩
  exact ⟨he.next, he.evolves⟩

/-- An object that did not exist before may be written freely. -/
theorem Extends.setItem_fresh {pool pool' : WorkPool} (h : pool.Extends pool') {o : Nat}
    (ho : pool.nextObj ≤ o) (item : WorkItem) : pool.Extends (pool'.setItem o item) := by
  refine ⟨h.next, fun o' ho' => ?_⟩
  have hne : o' ≠ o := by omega
  simpa [setItem, Function.update_of_ne hne] using h.evolves o' ho'

theorem internalAlloc_extends {pool pool' : WorkPool} {socket : Socket} {descr : String}
    {mem : Uninitialized} {o : Nat} (hw : pool.WellFormed)
    (h : pool.internalAllocWorkItem socket descr mem = (o, pool')) : pool.Extends pool' := by
  obtain ⟨ho, hn, _⟩ := internalAlloc_spec hw h
  refine ⟨by omega, fun o' ho' => ?_⟩
  rw [(internalAlloc_objs hw h ho').2]
  exact .refl _

end WorkPool

/-- What a request says of its owner, at its submission and ever after. -/
structure Owned (pool : WorkPool) (req : Request) : Prop where
  lt : req.owner < pool.nextObj
  userData : req.sqe.userData = (pool.objs req.owner).id
  fd : req.sqe.op.fd = (pool.objs req.owner).socket.fd
  type : req.sqe.op.workType.Becomes (pool.objs req.owner).workType
  multishot : req.sqe.op.isMultishot = true → (pool.objs req.owner).isStream = false
  link : req.sqe.ioLink = true → (pool.objs req.owner).linkToNextRequest = true

theorem Owned.extends {pool pool' : WorkPool} {req : Request} (h : Owned pool req)
    (he : pool.Extends pool') : Owned pool' req := by
  have hev := he.evolves req.owner h.lt
  refine ⟨h.lt.trans_le he.next, h.userData.trans hev.id.symm, ?_, h.type.trans hev.type, ?_, ?_⟩
  · rw [hev.socket]
    exact h.fd
  · intro hm
    simpa [WorkItem.isStream, hev.socket] using h.multishot hm
  · intro hl
    exact hev.link.trans (h.link hl)

theorem Op.workType_ne_unknown (op : Op) : op.workType ≠ .unknown := by
  cases op <;> simp [Op.workType]

namespace IOUring

/-- What holds in every state of every run. -/
structure Sound (s : IOUring) : Prop where
  sq : s.sq = []
  pool : s.pool.WellFormed
  owned : ∀ req ∈ s.consumed, Owned s.pool req
  armed : ∀ req ∈ s.armed, req ∈ s.consumed
  posted : ∀ cqe ∈ s.posted, cqe.req ∈ s.consumed
  handles : ∀ o ∈ s.handles, o < s.pool.nextObj ∧
    ((s.item o).workType = .unknown ∨ (s.item o).workType.isSend = true)
  frames : ∀ frame ∈ s.frames, frame.workItem < s.pool.nextObj ∧
    frame.type ≠ .unknown ∧ frame.type.Becomes (s.item frame.workItem).workType
  link : ∀ o < s.pool.nextObj, (s.item o).linkToNextRequest = false

theorem initial_sound (queueSize mapped : Nat) (memory : Nat → Memory.Byte) :
    Sound (initial queueSize mapped memory) where
  sq := rfl
  pool := WorkPool.empty_wellFormed
  owned := List.forall_mem_nil _
  armed := List.forall_mem_nil _
  posted := List.forall_mem_nil _
  handles := List.forall_mem_nil _
  frames := List.forall_mem_nil _
  link o ho := absurd ho (Nat.not_lt_zero o)

variable {s s' : IOUring}

/-- No request waits for another, since no item has its link set. -/
theorem Sound.not_blocked (h : Sound s) (req : Request) : s.blocked req = false := by
  rw [blocked]
  rw [List.any_eq_false]
  intro p hp
  have ho := h.owned p (h.armed p hp)
  have hl : p.sqe.ioLink ≠ true := by
    intro hl
    cases (ho.link hl).symm.trans (h.link p.owner ho.lt)
  simp [hl]

/-- A step on the library's side that keeps the other parts keeps soundness
when it extends the pool and submits nothing. -/
theorem Sound.frame (h : Sound s) (he : s.pool.Extends s'.pool) (hw : s'.pool.WellFormed)
    (hsq : s'.sq = s.sq) (hc : s'.consumed = s.consumed) (ha : s'.armed ⊆ s.armed)
    (hp : ∀ cqe ∈ s'.posted, cqe ∈ s.posted ∨ cqe.req ∈ s.armed)
    (hh : ∀ o ∈ s'.handles, o ∈ s.handles ∨ o < s'.pool.nextObj ∧ (s'.item o).workType = .unknown)
    (hf : ∀ frame ∈ s'.frames, frame ∈ s.frames ∨ frame.workItem < s'.pool.nextObj ∧
      frame.type ≠ .unknown ∧ frame.type.Becomes (s'.item frame.workItem).workType)
    (hl : ∀ o, s.pool.nextObj ≤ o → o < s'.pool.nextObj → (s'.item o).linkToNextRequest = false) :
    Sound s' where
  sq := hsq.trans h.sq
  pool := hw
  owned req hr := (h.owned req (hc ▸ hr)).extends he
  armed req hr := hc ▸ h.armed req (ha hr)
  posted cqe hm := by
    rw [hc]
    obtain hq | hq := hp cqe hm
    · exact h.posted cqe hq
    · exact h.armed _ hq
  handles o ho := by
    obtain hq | ⟨hlt, hu⟩ := hh o ho
    · obtain ⟨hlt, ht⟩ := h.handles o hq
      refine ⟨hlt.trans_le he.next, ?_⟩
      obtain hb | ⟨_, hb⟩ := (he.evolves o hlt).type
      · exact hb ▸ ht
      · exact .inr hb
    · exact ⟨hlt, .inl hu⟩
  frames frame hm := by
    obtain hq | hq := hf frame hm
    · obtain ⟨hlt, hu, ht⟩ := h.frames frame hq
      exact ⟨hlt.trans_le he.next, hu, ht.trans (he.evolves _ hlt).type⟩
    · exact hq
  link o ho := by
    obtain hlt | hge := Nat.lt_or_ge o s.pool.nextObj
    · exact (he.evolves o hlt).link.trans (h.link o hlt)
    · exact hl o hge ho

/-- An object may be written as far as its identity allows. -/
theorem Sound.written (h : Sound s) {o : Nat} {item : WorkItem} (hev : Evolves (s.item o) item)
    (hstate : item.state = (s.item o).state) : Sound (s.setItem o item) := by
  have hw : (s.pool.setItem o item).WellFormed :=
    WorkPool.setItem_wellFormed h.pool hev.id hstate
  refine h.frame (WorkPool.setItem_extends hev) hw rfl rfl (List.Subset.refl _) (fun _ => .inl)
    (fun _ => .inl) (fun _ => .inl) (fun o' hge hlt => ?_)
  exact absurd hlt (Nat.not_lt.mpr hge)

/-- The entry of an item that has been prepared belongs to that item. -/
theorem Sound.push {o n : Nat} {item₀ item : WorkItem} {sqe : Sqe} (hb : Sound (s.setItem o item))
    (ho : o < s.pool.nextObj) (hp : prepare n item₀ = .ok (item, sqe)) :
    Sound (s.arm o item sqe) := by
  obtain ⟨hprep, hdesc⟩ := prepare_ok hp
  have hnew : Owned (s.pool.setItem o item) ⟨s.consumed.length, o, sqe⟩ := by
    have hobj : (s.pool.setItem o item).objs o = item := by simp [WorkPool.setItem]
    refine ⟨ho, ?_, ?_, ?_, ?_, ?_⟩ <;> simp only [hobj]
    · exact hdesc.userData.trans hprep.same.id.symm
    · rw [hprep.same.socket]
      exact hdesc.fd
    · rw [hprep.type, hdesc.type]
      exact .refl _
    · intro hm
      simpa [WorkItem.isStream, hprep.same.socket] using hdesc.multishot hm
    · intro hl
      exact hprep.same.link.trans (hdesc.link hl)
  refine { hb with owned := ?_, armed := ?_, posted := ?_ }
  · intro req hr
    obtain hr | hr := List.mem_append.mp hr
    · exact hb.owned req hr
    · rw [List.mem_singleton.mp hr]
      exact hnew
  · intro req hr
    obtain hr | hr := List.mem_append.mp hr
    · exact List.mem_append_left _ (hb.armed req hr)
    · exact List.mem_append_right _ hr
  · intro cqe hm
    exact List.mem_append_left _ (hb.posted cqe hm)

/-- Submitting an item that exists keeps soundness, whatever fields were set before. -/
theorem Sound.arm (h : Sound s) {o n : Nat} {item₀ item : WorkItem} {sqe : Sqe}
    (ho : o < s.pool.nextObj) (hs : SameIdentity (s.item o) item₀)
    (ht : (s.item o).workType.Becomes item₀.workType) (hp : prepare n item₀ = .ok (item, sqe)) :
    Sound (s.arm o item sqe) := by
  have hprep := (prepare_ok hp).1
  have hsame := hs.trans hprep.same
  have hev : Evolves (s.item o) item := hsame.evolves (hprep.type ▸ ht)
  have hb : Sound (s.setItem o item) := h.written hev hsame.state
  exact hb.push ho hp

theorem Sound.release (h : Sound s) {id : Nat} {pool : WorkPool} (e : Event)
    (hf : s.pool.freeWorkItem id = .ok pool) :
    Sound { s with pool := pool, trace := s.trace ++ [e] } := by
  have he := WorkPool.freeWorkItem_extends hf
  have hn : pool.nextObj = s.pool.nextObj := by
    obtain ⟨_, _, rfl⟩ := WorkPool.freeWorkItem_ok hf
    rfl
  refine h.frame he (WorkPool.freeWorkItem_wellFormed h.pool hf) rfl rfl (List.Subset.refl _)
    (fun _ => .inl) (fun _ => .inl) (fun _ => .inl) (fun o hge hlt => ?_)
  exact absurd (hn ▸ hlt) (Nat.not_lt.mpr hge)

theorem Sound.settled (h : Sound s) {frame : Frame} {ret : ReceivePostAction}
    (hlt : frame.workItem < s.pool.nextObj) (hs : Settled frame ret s s') : Sound s' := by
  cases hs with
  | rearmed item sqe _ hprep heq =>
    have ha := h.arm hlt (.refl _) (.refl _) hprep
    exact heq ▸ { ha with }
  | freed o pool _ _ hfree heq =>
    have hr := h.release (.released o) hfree
    exact heq ▸ { hr with }

/-- Writing a packet into an object changes nothing else. -/
theorem Sound.setPacket (h : Sound s) (o : Nat) (packet : SendPacket) :
    Sound (s.setItem o { s.item o with sendPacket := packet }) :=
  h.written ⟨rfl, rfl, rfl, .refl _⟩ rfl

theorem Sound.leaveCallback (h : Sound s) {frame : Frame} {frames : List Frame}
    (hf : s.frames = frame :: frames) : Sound (s.leaveCallback frame frames) := by
  have hbase : Sound { s with frames := frames } :=
    { h with frames := fun fr hm => h.frames fr (hf ▸ List.mem_cons_of_mem _ hm) }
  rw [IOUring.leaveCallback]
  cases frame.type with
  | sendStreamData | sendWorkpacket => exact hbase.setPacket _ _
  | recv | unknown | accept | connect | close => exact { hbase with }

theorem leaveCallback_nextObj (frame : Frame) (frames : List Frame) :
    (s.leaveCallback frame frames).pool.nextObj = s.pool.nextObj := by
  rw [IOUring.leaveCallback]
  cases frame.type <;> rfl

theorem Sound.polled (h : Sound s) (hp : Polled s s') : Sound s' := by
  cases hp with
  | idle _ heq => exact heq ▸ h
  | missed _ _ _ _ heq | exhausted _ _ _ _ _ _ heq => exact heq ▸ { h with }
  | entered cqe rest o call _ hat _ hcall heq =>
    subst heq
    have hlt := (h.pool.live _ _ hat).1
    have hu : (s.item o).workType ≠ .unknown := fun hu => by simp [callHandler, hu] at hcall
    refine { h with frames := fun frame hm => ?_ }
    obtain rfl | hm := List.mem_cons.mp hm
    · exact ⟨hlt, hu, .refl _⟩
    · exact h.frames frame hm
  | returned cqe rest o ret recycle _ hat _ _ hafter =>
    obtain ⟨buffers, hst, _⟩ := settled_of_returned h.sq hafter
    have hb : Sound { s.emit (.dispatched cqe (some o)) with buffers := buffers } := { h with }
    exact hb.settled (h.pool.live _ _ hat).1 hst

theorem Sound.delivered (h : Sound s) {req : Request} {k : Outcome}
    (hd : Delivered req k s s') : Sound s' := by
  cases hd with
  | nothing _ _ heq => exact heq ▸ h
  | buffer _ _ _ _ _ _ heq => exact heq ▸ { h with }
  | peer _ _ heq =>
    subst heq
    exact h.written ⟨rfl, rfl, rfl, .refl _⟩ rfl

theorem Delivered.frame {req : Request} {k : Outcome} (hd : Delivered req k s s') :
    s'.consumed = s.consumed ∧ s'.armed = s.armed ∧ s'.posted = s.posted ∧
      s'.cqHead = s.cqHead ∧ s'.frames = s.frames ∧ s'.handles = s.handles ∧ s'.trace = s.trace := by
  cases hd with
  | nothing _ _ heq | peer _ _ heq | buffer _ _ _ _ _ _ heq =>
    exact heq ▸ ⟨rfl, rfl, rfl, rfl, rfl, rfl, rfl⟩

theorem Sound.allocated (h : Sound s) {socket : Socket} {descr : String} {mem : Uninitialized}
    {o : Nat} {pool : WorkPool}
    (halloc : s.pool.internalAllocWorkItem socket descr mem = (o, pool)) :
    Sound { s with pool := pool } := by
  obtain ⟨ho, hn, id, _, hobjs, _⟩ := WorkPool.internalAlloc_spec h.pool halloc
  refine h.frame (WorkPool.internalAlloc_extends h.pool halloc)
    (WorkPool.internalAlloc_wellFormed h.pool halloc) rfl rfl (List.Subset.refl _)
    (fun _ => .inl) (fun _ => .inl) (fun _ => .inl) (fun o' hge hlt => ?_)
  have he : o' = o := by
    simp only at hlt
    omega
  subst o'
  simp [IOUring.item, hobjs, WorkItem.create]

/-- A new item that is submitted at once may take any type. -/
theorem Sound.opened (h : Sound s) {socket : Socket} {descr : String} {mem : Uninitialized}
    {o n : Nat} {pool : WorkPool} {item₀ item : WorkItem} {sqe : Sqe}
    (halloc : s.pool.internalAllocWorkItem socket descr mem = (o, pool))
    (hs : SameIdentity (pool.objs o) item₀) (hp : prepare n item₀ = .ok (item, sqe)) :
    Sound ({ s with pool := pool }.arm o item sqe) := by
  obtain ⟨ho, hn, id, _, hobjs, _⟩ := WorkPool.internalAlloc_spec h.pool halloc
  have hsame := hs.trans (prepare_ok hp).1.same
  have hext := WorkPool.internalAlloc_extends h.pool halloc
  have hw := WorkPool.internalAlloc_wellFormed h.pool halloc
  have hb : Sound (setItem o item { s with pool := pool }) := by
    refine h.frame (hext.setItem_fresh (by omega) item)
      (WorkPool.setItem_wellFormed hw hsame.id hsame.state) rfl rfl (List.Subset.refl _)
      (fun _ => .inl) (fun _ => .inl) (fun _ => .inl) (fun o' hge hlt => ?_)
    have he : o' = o := by
      simp only [setItem, WorkPool.setItem] at hlt
      omega
    subst o'
    have hl : (pool.objs o).linkToNextRequest = false := by simp [hobjs, WorkItem.create]
    simpa [IOUring.item, setItem, WorkPool.setItem] using hsame.link.trans hl
  refine hb.push ?_ hp
  simp only
  omega

theorem Sound.stepped (h : Sound s) {a : Action} (hs : Stepped s s' a) : Sound s' := by
  cases hs with
  | opened socket descr mem o pool item₀ item sqe _ halloc hsame hprep heq =>
    exact heq ▸ h.opened halloc hsame hprep
  | acquired socket mem o pool halloc heq =>
    subst heq
    have hb := h.allocated halloc
    obtain ⟨ho, hn, id, _, hobjs, _⟩ := WorkPool.internalAlloc_spec h.pool halloc
    refine { hb with handles := fun o' hm => ?_ }
    obtain rfl | hm := List.mem_cons.mp hm
    · exact ⟨by simp only; omega, .inl (by simp [IOUring.item, hobjs, WorkItem.create])⟩
    · exact hb.handles o' hm
  | edited o packet _ _ _ heq => exact heq ▸ h.setPacket o packet
  | submitted o item₀ item sqe _ hheld hsame htype hprep heq =>
    obtain ⟨hlt, ht⟩ := h.handles o hheld
    exact heq ▸ h.arm hlt hsame (.inr ⟨ht, by rcases htype with h | h <;> rw [h] <;> rfl⟩) hprep
  | polled _ hpoll => exact h.polled hpoll
  | returned ret frame frames hframes hafter =>
    have hb := h.leaveCallback hframes
    have hlt := (h.frames frame (hframes ▸ List.mem_cons_self)).1
    exact hb.settled (by rwa [leaveCallback_nextObj]) (afterHandler_ok hb.sq hafter)
  | completed i k req t harmed _ hdeliver heq =>
    have hb := h.delivered hdeliver
    obtain ⟨hc, ha, hp, hhd, hf, hh, ht⟩ := hdeliver.frame
    have hmem : req ∈ s.armed := List.mem_of_getElem? harmed
    subst heq
    refine hb.frame (.refl _) hb.pool rfl rfl ?_ ?_ (fun _ => .inl) (fun _ => .inl)
      (fun o hge hlt => absurd hlt (Nat.not_lt.mpr hge))
    · simp only [ha]
      split
      · exact List.Subset.refl _
      · exact List.eraseIdx_subset
    · intro cqe hm
      obtain hm | hm := List.mem_append.mp hm
      · exact .inl (hp ▸ hm)
      · rw [List.mem_singleton.mp hm]
        exact .inr (ha ▸ hmem)

theorem Sound.step (h : Sound s) {a : Action} (hs : IOUring.step a s = .ok s') : Sound s' :=
  h.stepped (step_ok h.sq hs)

theorem Settled.extends {frame : Frame} {ret : ReceivePostAction} (hs : Settled frame ret s s') :
    s.pool.Extends s'.pool := by
  cases hs with
  | rearmed item sqe _ hprep heq =>
    obtain ⟨hp, _⟩ := prepare_ok hprep
    have hev : Evolves (s.item frame.workItem) item := hp.same.evolves (hp.type ▸ .refl _)
    exact heq ▸ WorkPool.setItem_extends hev
  | freed o pool _ _ hfree heq => exact heq ▸ WorkPool.freeWorkItem_extends hfree

theorem leaveCallback_extends (frame : Frame) (frames : List Frame) :
    s.pool.Extends (s.leaveCallback frame frames).pool := by
  rw [IOUring.leaveCallback]
  cases frame.type with
  | sendStreamData | sendWorkpacket => exact WorkPool.setItem_extends ⟨rfl, rfl, rfl, .refl _⟩
  | recv | unknown | accept | connect | close => exact .refl _

theorem Polled.extends (h : Sound s) (hp : Polled s s') : s.pool.Extends s'.pool := by
  cases hp with
  | idle _ heq | missed _ _ _ _ heq | exhausted _ _ _ _ _ _ heq | entered _ _ _ _ _ _ _ _ heq =>
    exact heq ▸ .refl _
  | returned cqe rest o ret recycle _ _ _ _ hafter =>
    obtain ⟨buffers, hst, _⟩ := settled_of_returned h.sq hafter
    exact hst.extends

/-- Every step extends the pool. -/
theorem Stepped.extends (h : Sound s) {a : Action} (hs : Stepped s s' a) :
    s.pool.Extends s'.pool := by
  cases hs with
  | opened socket descr mem o pool item₀ item sqe _ halloc _ _ heq =>
    have hn := (WorkPool.internalAlloc_spec h.pool halloc).1
    subst heq
    exact (WorkPool.internalAlloc_extends h.pool halloc).setItem_fresh (by omega) item
  | acquired socket mem o pool halloc heq =>
    exact heq ▸ WorkPool.internalAlloc_extends h.pool halloc
  | edited o packet _ _ _ heq =>
    exact heq ▸ WorkPool.setItem_extends ⟨rfl, rfl, rfl, .refl _⟩
  | submitted o item₀ item sqe _ hheld hsame htype hprep heq =>
    obtain ⟨hp, _⟩ := prepare_ok hprep
    have ht : (s.item o).workType.Becomes item₀.workType :=
      .inr ⟨(h.handles o hheld).2, by rcases htype with ht | ht <;> rw [ht] <;> rfl⟩
    have hev : Evolves (s.item o) item := (hsame.trans hp.same).evolves (hp.type ▸ ht)
    exact heq ▸ WorkPool.setItem_extends hev
  | polled _ hpoll => exact hpoll.extends h
  | returned ret frame frames hframes hafter =>
    exact (leaveCallback_extends frame frames).trans
      (afterHandler_ok (h.leaveCallback hframes).sq hafter).extends
  | completed i k req t _ _ hdeliver heq =>
    subst heq
    cases hdeliver with
    | nothing _ _ heq | buffer _ _ _ _ _ _ heq => exact heq ▸ .refl _
    | peer _ _ heq => exact heq ▸ WorkPool.setItem_extends ⟨rfl, rfl, rfl, .refl _⟩

/-- Soundness needs no assumption on what the user and the kernel do. -/
theorem Sound.reaches (h : Sound s) {guard : IOUring → Action → Prop}
    (hr : Transition.Reaches IOUring.step guard s s') : Sound s' :=
  hr.invariant (fun _ _ _ hs _ ht => hs.step ht) h

end IOUring

end Iuring
