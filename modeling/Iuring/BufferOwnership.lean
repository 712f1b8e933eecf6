import Iuring.Dispatch

namespace Iuring

open Lib

/-- A receive completion with IORING_CQE_F_BUFFER has taken a buffer from the ring. -/
def Completion.consumedBuffer (cqe : Completion) : Bool := cqe.req.sqe.op.isRecv && cqe.hasBuffer

def Completion.consumed (cqe : Completion) : List Nat := if cqe.consumedBuffer then [cqe.idx] else []

/-- The buffer that the callback of the dispatch reads. -/
def Frame.reading (frame : Frame) : List Nat := if frame.type = .recv then [frame.idx] else []

namespace IOUring

variable {s s' t : IOUring} {a : Action}

/-- The completions that no poll has come to yet. -/
def undispatched (s : IOUring) : List Completion := s.posted.drop (s.cqHead + s.frames.length)

def published (s : IOUring) : List Nat := s.buffers.bufRing.published.map (·.bid)

/-- Every place in which a buffer can be, with the buffer that is there. -/
def places (s : IOUring) : List Nat :=
  s.published ++ s.undispatched.flatMap Completion.consumed ++ s.frames.flatMap Frame.reading

/-- Each buffer that the set-up published is in exactly one place, and no other is in any. -/
def BuffersOwned (s : IOUring) : Prop := s.places.Perm (List.range (BufferPool.BUFFERS / 2))

theorem BuffersOwned.of_perm (h : s.BuffersOwned) (hp : s'.places.Perm s.places) :
    s'.BuffersOwned := List.Perm.trans hp h

theorem BuffersOwned.length_published_le (h : s.BuffersOwned) :
    s.buffers.bufRing.published.length ≤ BufferPool.BUFFERS / 2 := by
  have hl := h.length_eq
  simp only [places, published, List.length_append, List.length_map, List.length_range] at hl
  omega

/-- The polled completion took a buffer exactly when it is dispatched to a
receiving item as a successful one. -/
def PollsFilled (s : IOUring) (a : Action) : Prop :=
  a.polls = true → ∀ cqe ∈ s.pending.head?,
    cqe.consumedBuffer = true ↔ ∃ o ∈ s.pool.at? cqe.userData, s.kind o = .recv ∧ 0 ≤ cqe.res

instance (s : IOUring) (a : Action) : Decidable (s.PollsFilled a) :=
  inferInstanceAs (Decidable (_ → _))

/-- The runs in which no callback polls and every buffer that a poll recycles was consumed. -/
def Recycling (s : IOUring) (a : Action) : Prop :=
  s.Unnested a ∧ s.PollsFilled a

instance (s : IOUring) (a : Action) : Decidable (s.Recycling a) :=
  inferInstanceAs (Decidable (_ ∧ _))

theorem Settled.rest {frame : Frame} {ret : ReceivePostAction} (hs : Settled frame ret s s') :
    s'.buffers = s.buffers ∧ s'.posted = s.posted ∧ s'.cqHead = s.cqHead + 1 ∧
      s'.frames = s.frames := by
  cases hs with
  | rearmed _ _ _ _ heq | freed _ _ _ _ _ heq => exact heq ▸ ⟨rfl, rfl, rfl, rfl⟩

theorem undispatched_of_idle (hf : s.frames = []) : s.undispatched = s.pending := by
  simp [undispatched, pending, hf]

theorem pending_tail {cqe : Completion} {rest : List Completion} (hp : s.pending = cqe :: rest) :
    s.posted.drop (s.cqHead + 1) = rest := by
  have ht := congrArg List.tail hp
  simpa only [pending, List.tail_drop, List.tail_cons] using ht

/-- The places before a poll that finds a completion. -/
theorem places_of_idle {cqe : Completion} {rest : List Completion} (hf : s.frames = [])
    (hp : s.pending = cqe :: rest) : s.places =
      s.published ++ cqe.consumed ++ rest.flatMap Completion.consumed := by
  simp [places, undispatched_of_idle hf, hf, hp]

/-- The places after the end of a dispatch. -/
theorem places_of_ended {cqe : Completion} {rest : List Completion} (hp : s.pending = cqe :: rest)
    (hposted : s'.posted = s.posted) (hhead : s'.cqHead = s.cqHead + 1) (hf : s'.frames = []) :
    s'.places = s'.published ++ rest.flatMap Completion.consumed := by
  simp [places, undispatched, hf, hposted, hhead, pending_tail hp]

theorem published_eq (hb : s'.buffers = s.buffers) : s'.published = s.published := by
  rw [published, hb, published]

theorem BuffersOwned.published_recycled (h : s.BuffersOwned) {idx : Nat}
    (hb : s'.buffers = s.buffers.recycleBuffer idx) : s'.published = s.published ++ [idx] := by
  have hroom : s.buffers.bufRing.published.length < BufRing.entries :=
    h.length_published_le.trans_lt (by decide)
  rw [published, hb, BufferPool.published_recycleBuffer idx _ hroom, List.map_append]
  rfl

theorem PollsFilled.consumed_eq (hg : s.PollsFilled .pollCompletionQueues) {cqe : Completion}
    {rest : List Completion} {o : Nat} (hp : s.pending = cqe :: rest)
    (hat : s.pool.at? cqe.userData = some o) :
    cqe.consumed = if s.kind o = .recv ∧ 0 ≤ cqe.res then [cqe.idx] else [] := by
  have hiff := hg rfl cqe (by rw [hp]; rfl)
  simp only [hat, Option.mem_def, Option.some.injEq, exists_eq_left'] at hiff
  simp only [Completion.consumed, hiff]

/-- A dispatch may end without a recycling when its completion took no buffer. -/
theorem BuffersOwned.passed (h : s.BuffersOwned) {cqe : Completion} {rest : List Completion}
    (hf : s.frames = []) (hp : s.pending = cqe :: rest) (hc : cqe.consumed = [])
    (hb : s'.buffers = s.buffers) (hposted : s'.posted = s.posted)
    (hhead : s'.cqHead = s.cqHead + 1) (hframes : s'.frames = s.frames) : s'.BuffersOwned := by
  refine h.of_perm (.of_eq ?_)
  rw [places_of_ended hp hposted hhead (hframes.trans hf), places_of_idle hf hp, hc,
    List.append_nil, published_eq hb]

theorem BuffersOwned.polled (h : s.BuffersOwned) (hq : s.sq = []) (hf : s.frames = [])
    (hg : s.PollsFilled .pollCompletionQueues) (hp : Polled s s') : s'.BuffersOwned := by
  cases hp with
  | idle _ heq => exact heq ▸ h
  | missed cqe rest hp hat heq =>
    have hc : cqe.consumed = [] := by
      have hiff := hg rfl cqe (by rw [hp]; rfl)
      simp only [hat, Option.mem_def, reduceCtorEq, false_and, exists_false, iff_false,
        Bool.not_eq_true] at hiff
      simp [Completion.consumed, hiff]
    exact h.passed hf hp hc (heq ▸ rfl) (heq ▸ rfl) (heq ▸ rfl) (heq ▸ rfl)
  | exhausted cqe rest o hp hat hres heq =>
    have hc : cqe.consumed = [] := by
      rw [hg.consumed_eq hp hat, if_neg]
      rintro ⟨_, hle⟩
      rw [hres] at hle
      cases hle
    exact h.passed hf hp hc (heq ▸ rfl) (heq ▸ rfl) (heq ▸ rfl) (heq ▸ rfl)
  | entered cqe rest o call hp hat hres hcall heq =>
    have hc : cqe.consumed = (s.frameOf cqe o).reading := by
      rw [hg.consumed_eq hp hat]
      refine if_congr ⟨And.left, fun hk => ⟨hk, ?_⟩⟩ rfl rfl
      cases callHandler_ok hcall with
      | received _ _ _ hres | sent _ _ hres | connected _ _ hres | accepted _ _ _ hres _ => exact hres
      | closed _ ht =>
        cases ht.symm.trans hk
    apply h.of_perm
    have hpl : s'.places = s.published ++ rest.flatMap Completion.consumed ++
        (s.frameOf cqe o).reading := by
      subst heq
      simp only [places, undispatched, enterCallback, emit, hf, List.length_singleton,
        pending_tail hp, List.flatMap_cons, List.flatMap_nil, List.append_nil]
      rfl
    rw [hpl, places_of_idle hf hp, hc, List.append_assoc, List.append_assoc]
    exact List.perm_append_comm.append_left _
  | returned cqe rest o ret recycle hp hat hres hcall hafter =>
    obtain ⟨buffers, hst, hb⟩ := settled_of_returned hq hafter
    obtain ⟨hbuf, hposted, hhead, hframes⟩ := hst.rest
    cases callHandler_ok hcall with
    | rejected ht hres =>
      refine h.of_perm (.of_eq ?_)
      rw [places_of_ended hp hposted hhead (hframes.trans hf), places_of_idle hf hp,
        hg.consumed_eq hp hat, if_pos ⟨ht, hres⟩, h.published_recycled (hbuf.trans hb)]
    | interrupted ht hres =>
      refine h.passed hf hp ?_ (hbuf.trans hb) hposted hhead hframes
      rw [hg.consumed_eq hp hat, if_neg]
      rintro ⟨_, hle⟩
      rw [hres] at hle
      cases hle
    | failed _ hres =>
      refine h.passed hf hp ?_ (hbuf.trans hb) hposted hhead hframes
      rw [hg.consumed_eq hp hat, if_neg (fun hle => absurd hres (Int.not_lt.mpr hle.2))]

theorem BuffersOwned.published_left (h : s.BuffersOwned) (frame : Frame) (frames : List Frame) :
    (s.leaveCallback frame frames).published = s.published ++ frame.reading := by
  unfold leaveCallback Frame.reading
  cases frame.type with
  | recv =>
    rw [if_pos rfl]
    exact h.published_recycled rfl
  | sendStreamData | sendWorkpacket | unknown | accept | connect | close =>
    rw [if_neg nofun, List.append_nil]
    exact published_eq rfl

/-- The callback's return puts back the buffer that the callback was reading. -/
theorem BuffersOwned.returned (h : s.BuffersOwned) (hd : Dispatching s) {frame : Frame}
    {cqe : Completion} {rest : List Completion} {ret : ReceivePostAction}
    (hf : s.frames = [frame]) (hp : s.pending = cqe :: rest)
    (ha : afterHandler frame ret (s.leaveCallback frame []) = .ok s') : s'.BuffersOwned := by
  have hst := afterHandler_ok (hd.sound.leaveCallback hf).sq ha
  obtain ⟨hbuf, hposted, hhead, hframes⟩ := hst.rest
  have hl := ledger_leaveCallback (s := s) frame []
  have hplaces : s.places = s.published ++ rest.flatMap Completion.consumed ++ frame.reading := by
    simp [places, undispatched, hf, pending_tail hp]
  apply h.of_perm
  rw [places_of_ended hp (hposted.trans (congrArg Ledger.posted hl))
    (hhead.trans (congrArg (·.cqHead + 1) hl)) (hframes.trans (congrArg Ledger.frames hl)),
    published_eq hbuf, h.published_left, hplaces, List.append_assoc, List.append_assoc]
  exact List.perm_append_comm.append_left _

theorem undispatched_completed (hd : Dispatching s) {cqe : Completion}
    (hposted : s'.posted = s.posted ++ [cqe]) (hhead : s'.cqHead = s.cqHead)
    (hf : s'.frames = s.frames) : s'.undispatched = s.undispatched ++ [cqe] := by
  have hle : s.cqHead + s.frames.length ≤ s.posted.length := by
    obtain hn | ⟨frame, c, rest, hn, hp, _⟩ := hd.frames
    · rw [hn]
      exact hd.head
    · rw [hn]
      exact head_lt hp
  rw [undispatched, hposted, hhead, hf, List.drop_append_of_le_length hle, undispatched]

/-- The kernel moves the buffer at the head of the ring into the completion it posts. -/
theorem BuffersOwned.completed (h : s.BuffersOwned) (hd : Dispatching s) {k : Outcome}
    {req : Request} (hdeliver : Delivered req k s t) (hb : s'.buffers = t.buffers)
    (hposted : s'.posted = s.posted ++ [s.completion req k]) (hhead : s'.cqHead = s.cqHead)
    (hf : s'.frames = s.frames) : s'.BuffersOwned := by
  have hplaces : s'.places = s'.published ++ (s.undispatched.flatMap Completion.consumed ++
      (s.completion req k).consumed) ++ s.frames.flatMap Frame.reading := by
    simp [places, undispatched_completed hd hposted hhead hf, hf]
  have hsame : t.buffers = s.buffers → (s.completion req k).consumed = [] → s'.BuffersOwned := by
    intro ht hc
    refine h.of_perm (.of_eq ?_)
    rw [hplaces, hc, List.append_nil, published_eq (hb.trans ht)]
    rfl
  cases hdeliver with
  | nothing hop _ heq =>
    apply hsame (heq ▸ rfl)
    by_cases hr : req.sqe.op.isRecv = true
    · simp [Completion.consumed, Completion.consumedBuffer, Completion.hasBuffer, completion, hop hr]
    · simp [Completion.consumed, Completion.consumedBuffer, completion, hr]
  | peer _ hop heq =>
    apply hsame (heq ▸ rfl)
    cases hreq : req.sqe.op <;>
      simp [hreq, Op.workType, Completion.consumed, Completion.consumedBuffer, completion,
        Op.isRecv] at hop ⊢
  | buffer buf ring hop hflag hpick hid heq =>
    have hc : (s.completion req k).consumed = [buf.bid] := by
      have hfull : (s.completion req k).hasBuffer = true := decide_eq_true hflag
      rw [Completion.consumed, Completion.consumedBuffer, hfull, Bool.and_true,
        if_pos (show (s.completion req k).req.sqe.op.isRecv = true from hop), ← hid]
      rfl
    have hpub : s.published = buf.bid :: s'.published := by
      rw [published, published, hb, heq, BufRing.published_of_pick hpick]
      rfl
    apply h.of_perm
    rw [hplaces, places, hpub, hc, ← List.append_assoc s'.published, List.append_assoc _ [buf.bid]]
    exact List.perm_middle

theorem BuffersOwned.stepped (h : s.BuffersOwned) (hd : Dispatching s) (hg : s.Recycling a)
    (hs : Stepped s s' a) : s'.BuffersOwned := by
  have hquiet : s'.buffers = s.buffers → s'.posted = s.posted → s'.cqHead = s.cqHead →
      s'.frames = s.frames → s'.BuffersOwned := by
    intro hb hp hh hf
    refine h.of_perm (.of_eq ?_)
    simp only [places, undispatched, published_eq hb, hp, hh, hf]
  cases hs with
  | opened _ _ _ _ _ _ _ _ _ _ _ _ heq | acquired _ _ _ _ _ heq | edited _ _ _ _ _ heq
  | submitted _ _ _ _ _ _ _ _ _ heq =>
    exact hquiet (heq ▸ rfl) (heq ▸ rfl) (heq ▸ rfl) (heq ▸ rfl)
  | polled _ hpoll => exact h.polled hd.sound.sq (hg.1 rfl) hg.2 hpoll
  | returned ret frame frames hframes hafter =>
    obtain hf | ⟨frame', cqe, rest, hf, hp, _⟩ := hd.frames
    · rw [hf] at hframes
      cases hframes
    · rw [hf] at hframes
      cases hframes
      exact h.returned hd hf hp hafter
  | completed i k req t _ _ hdeliver heq =>
    obtain ⟨_, _, _, hhead, hf, _⟩ := hdeliver.frame
    exact h.completed hd hdeliver (heq ▸ rfl) (heq ▸ rfl) (heq ▸ hhead) (heq ▸ hf)

theorem initial_owned (queueSize mapped : Nat) (memory : Nat → Memory.Byte) :
    (initial queueSize mapped memory).BuffersOwned := by
  have hp := BufferPool.published_setup mapped .create
  refine .of_eq ?_
  simp only [places, published, undispatched, initial, init, create, hp, List.map_map,
    List.drop_nil, List.flatMap_nil, List.append_nil]
  exact List.map_id _

/-- No buffer is lost, published twice, or published while a callback reads it. -/
theorem buffer_in_one_place {queueSize mapped : Nat} {memory : Nat → Memory.Byte}
    (hr : Transition.Reaches IOUring.step Recycling (initial queueSize mapped memory) s) :
    s.BuffersOwned := by
  have hp := hr.invariant (I := fun s => Dispatching s ∧ s.BuffersOwned)
    (fun _ _ _ hp hg hs => ⟨(hp.1.step hg.1 hs).2,
      hp.2.stepped hp.1 hg (step_ok hp.1.sound.sq hs)⟩)
    ⟨initial_dispatching queueSize mapped memory, initial_owned queueSize mapped memory⟩
  exact hp.2

private def byteStream : Socket := ⟨.ipv4Tcp, 0, .unicastClientSocket, 3⟩

private def arrived (res : Int) (flags : BitVec 32) : Outcome := ⟨res, flags, default, fun _ => none⟩

theorem buffer_in_one_place_stream : ∃ t,
    Transition.Reaches IOUring.step Recycling (initial 256 0 fun _ => 0) t ∧
      t.frames.flatMap Frame.reading = [0] ∧ t.BuffersOwned := by
  obtain ⟨t, hr, hf⟩ := Transition.reaches_of_leads IOUring.step Recycling
    (fun t => t.frames.flatMap Frame.reading = [0])
    [.submitRecv byteStream 7 default, .complete 0 (arrived 5 1), .pollCompletionQueues]
    (initial 256 0 fun _ => 0) (by decide +kernel)
  exact ⟨t, hr, hf, buffer_in_one_place hr⟩

/-- At the end of a stream no buffer was consumed, and one more than there are is published. -/
theorem unconsumed_buffer_published : ∃ t,
    Transition.Reaches IOUring.step Unnested (initial 256 0 fun _ => 0) t ∧
      t.published.length = BufferPool.BUFFERS / 2 + 1 ∧ ¬t.BuffersOwned := by
  obtain ⟨t, hr, hn⟩ := Transition.reaches_of_leads IOUring.step Unnested
    (fun t => t.buffers.bufRing.tail - t.buffers.bufRing.head = 513)
    [.submitRecv byteStream 7 default, .complete 0 (arrived 0 0), .pollCompletionQueues,
      .callbackReturns .reSubmit]
    (initial 256 0 fun _ => 0) (by decide +kernel)
  have hl : t.buffers.bufRing.published.length = BufferPool.BUFFERS / 2 + 1 := by
    rw [BufRing.length_published, hn]
    rfl
  refine ⟨t, hr, by rw [published, List.length_map, hl], fun ho => ?_⟩
  have hle := ho.length_published_le
  omega

end IOUring

end Iuring
