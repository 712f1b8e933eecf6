import Iuring.BufferOwnership
import Iuring.DispatchOnce
import Iuring.ReceiveMemory

namespace Iuring

open Lib Lib.Memory

namespace BufferPool

/-- Two buffers have no byte in common. -/
theorem getBuffer_disjoint (pool : BufferPool) {idx idx' i j : Nat} (hi : i < pool.bufferSize)
    (hj : j < pool.bufferSize) (h : pool.getBuffer idx + i = pool.getBuffer idx' + j) :
    idx = idx' := by
  rw [bufferSize, Nat.shiftLeft_eq, Nat.one_mul] at hi hj
  rw [getBuffer, getBuffer, Nat.shiftLeft_eq, Nat.shiftLeft_eq] at h
  have hsum : i + idx * 2 ^ pool.bufShift = j + idx' * 2 ^ pool.bufShift := by omega
  have hdiv := congrArg (· / 2 ^ pool.bufShift) hsum
  simp only [Nat.add_mul_div_right _ _ (Nat.two_pow_pos _), Nat.div_eq_of_lt hi,
    Nat.div_eq_of_lt hj, Nat.zero_add] at hdiv
  exact hdiv

end BufferPool

namespace IOUring

open BufferPool

variable {s s' t : IOUring} {a : Action} {queueSize mapped : Nat} {memory : Nat → Byte}

/-- Every byte that the kernel wrote into a buffer for the request is still there. -/
def HoldsData (s : IOUring) (idx : Nat) (k : Outcome) : Prop :=
  ∀ i < s.buffers.bufferSize, ∀ b ∈ k.data i, s.memory (s.buffers.getBuffer idx + i) = b

/-- The completions beside what the kernel decided about them, with the data of every
completion in its buffer until the callback that reads it has returned. -/
structure Intact (log : List (Completion × Outcome)) (s : IOUring) : Prop where
  posted : s.posted = log.map Prod.fst
  agrees : ∀ p ∈ log, p.1.res = p.2.res ∧ p.1.flags = p.2.flags
  labelled : ∀ buf ∈ s.buffers.bufRing.published, buf = s.buffers.entry buf.bid
  unread : ∀ p ∈ log.drop (s.cqHead + s.frames.length), p.1.consumedBuffer = true →
    s.HoldsData p.1.idx p.2
  reading : ∀ frame ∈ s.frames, frame.type = .recv →
    ∃ p, log[s.cqHead]? = some p ∧ frame.idx = p.1.idx ∧ s.HoldsData frame.idx p.2

variable {log : List (Completion × Outcome)}

theorem HoldsData.congr {idx : Nat} {k : Outcome} (h : s.HoldsData idx k)
    (hb : s'.buffers.getBuffer = s.buffers.getBuffer)
    (hsize : s'.buffers.bufferSize = s.buffers.bufferSize)
    (hm : ∀ i < s.buffers.bufferSize, s'.memory (s.buffers.getBuffer idx + i) =
      s.memory (s.buffers.getBuffer idx + i)) : s'.HoldsData idx k := by
  intro i hi b hdata
  rw [hsize] at hi
  rw [hb, hm i hi]
  exact h i hi b hdata

/-- The completion at the head of the queue with the decision behind it. -/
theorem Intact.head (h : s.Intact log) {cqe : Completion} {rest : List Completion}
    (hp : s.pending = cqe :: rest) : ∃ k, log[s.cqHead]? = some (cqe, k) := by
  have hh := congrArg List.head? hp
  rw [pending, List.head?_drop, h.posted, List.getElem?_map] at hh
  obtain ⟨⟨c, k⟩, hlog, hc⟩ := Option.map_eq_some_iff.mp hh
  obtain rfl : c = cqe := Option.some.inj (congrArg some hc)
  exact ⟨k, hlog⟩

/-- A step that keeps the memory and does not go back in the queue. -/
theorem Intact.kept (h : s.Intact log) (hposted : s'.posted = s.posted)
    (hm : s'.memory = s.memory) (hb : s'.buffers.getBuffer = s.buffers.getBuffer)
    (hsize : s'.buffers.bufferSize = s.buffers.bufferSize)
    (hlabelled : ∀ buf ∈ s'.buffers.bufRing.published, buf = s'.buffers.entry buf.bid)
    (hhead : s.cqHead + s.frames.length ≤ s'.cqHead + s'.frames.length)
    (hreading : ∀ frame ∈ s'.frames, frame.type = .recv →
      ∃ p, log[s'.cqHead]? = some p ∧ frame.idx = p.1.idx ∧ s.HoldsData frame.idx p.2) :
    s'.Intact log := by
  have hdata : ∀ {idx k}, s.HoldsData idx k → s'.HoldsData idx k :=
    fun hd => hd.congr hb hsize fun _ _ => congrFun hm _
  refine ⟨hposted.trans h.posted, h.agrees, hlabelled, fun p hp hc => ?_, fun frame hf ht => ?_⟩
  · exact hdata (h.unread p (List.drop_subset_drop_left log hhead hp) hc)
  · obtain ⟨p, hp, hidx, hd⟩ := hreading frame hf ht
    exact ⟨p, hp, hidx, hdata hd⟩

theorem mem_drop_of_getElem? {n : Nat} {p : Completion × Outcome} (h : log[n]? = some p) :
    p ∈ log.drop n := by
  have hzero : (log.drop n)[0]? = some p := by rwa [List.getElem?_drop, Nat.add_zero]
  exact List.mem_of_getElem? hzero

theorem Intact.labelled_recycled (h : s.Intact log) (ho : s.BuffersOwned) (idx : Nat) :
    ∀ buf ∈ (s.buffers.recycleBuffer idx).bufRing.published,
      buf = (s.buffers.recycleBuffer idx).entry buf.bid := by
  have hroom : s.buffers.bufRing.published.length < BufRing.entries :=
    ho.length_published_le.trans_lt (by decide)
  intro buf hm
  rw [published_recycleBuffer idx _ hroom] at hm
  obtain hm | hm := List.mem_append.mp hm
  · exact h.labelled buf hm
  · rw [List.mem_singleton.mp hm]
    rfl

/-- The end of a dispatch, with the buffer put back or not. -/
theorem Intact.ended (h : s.Intact log) (ho : s.BuffersOwned) {frame : Frame}
    {ret : ReceivePostAction} (hs : Settled frame ret t s') (idx : Nat)
    (hb : t.buffers = s.buffers ∨ t.buffers = s.buffers.recycleBuffer idx)
    (hm : t.memory = s.memory) (hposted : t.posted = s.posted) (hhead : t.cqHead = s.cqHead)
    (hf : t.frames = []) (hle : s.frames.length ≤ 1) : s'.Intact log := by
  obtain ⟨hbuf, hp, hh, hframes⟩ := hs.rest
  have hmem := (memory_of_settled hs).trans hm
  have hnone : ∀ frame ∈ s'.frames, frame.type = .recv →
      ∃ p, log[s'.cqHead]? = some p ∧ frame.idx = p.1.idx ∧ s.HoldsData frame.idx p.2 := by
    rw [hframes, hf]
    exact List.forall_mem_nil _
  have hnext : s.cqHead + s.frames.length ≤ s'.cqHead + s'.frames.length := by
    rw [hh, hhead]
    omega
  obtain hb | hb := hb
  · refine h.kept (hp.trans hposted) hmem ?_ ?_ ?_ hnext hnone <;> rw [hbuf, hb]
    exact h.labelled
  · refine h.kept (hp.trans hposted) hmem ?_ ?_ ?_ hnext hnone <;> rw [hbuf, hb]
    · rfl
    · rfl
    · exact h.labelled_recycled ho idx

theorem Intact.polled (h : s.Intact log) (ho : s.BuffersOwned) (hq : s.sq = [])
    (hf : s.frames = []) (hg : s.PollsFilled .pollCompletionQueues) (hp : Polled s s') :
    s'.Intact log := by
  cases hp with
  | idle _ heq => exact heq ▸ h
  | missed _ _ _ _ heq | exhausted _ _ _ _ _ _ heq =>
    subst heq
    refine h.kept rfl rfl rfl rfl h.labelled (Nat.add_le_add_right (Nat.le_succ _) _) ?_
    intro frame hm _
    have hm' : frame ∈ s.frames := hm
    rw [hf] at hm'
    exact absurd hm' List.not_mem_nil
  | entered cqe rest o call hp hat hres hcall heq =>
    subst heq
    refine h.kept rfl rfl rfl rfl h.labelled ?_ fun frame hm ht => ?_
    · simp only [hf, enterCallback, emit, List.length_cons]
      omega
    · simp only [enterCallback, emit, hf, List.mem_singleton] at hm
      subst hm
      obtain ⟨k, hk⟩ := h.head hp
      have hnonneg : 0 ≤ cqe.res := by
        cases callHandler_ok hcall with
        | received _ _ _ hres | sent _ _ hres | connected _ _ hres | accepted _ _ _ hres _ => exact hres
        | closed _ htype => cases htype.symm.trans ht
      have hfilled : cqe.consumedBuffer = true :=
        (hg rfl cqe (by rw [hp]; rfl)).mpr ⟨o, hat, ht, hnonneg⟩
      have hmem : (cqe, k) ∈ log.drop (s.cqHead + s.frames.length) := by
        rw [hf]
        exact mem_drop_of_getElem? hk
      exact ⟨(cqe, k), hk, rfl, h.unread (cqe, k) hmem hfilled⟩
  | returned cqe rest o ret recycle hp hat hres hcall hafter =>
    obtain ⟨buffers, hst, hb⟩ := settled_of_returned hq hafter
    refine h.ended ho hst cqe.idx ?_ rfl rfl rfl hf (by rw [hf]; exact Nat.zero_le 1)
    cases recycle with
    | false => exact .inl hb
    | true => exact .inr hb

theorem Intact.returned (h : s.Intact log) (ho : s.BuffersOwned) (hd : Dispatching s)
    {frame : Frame} {ret : ReceivePostAction} (hf : s.frames = [frame])
    (ha : afterHandler frame ret (s.leaveCallback frame []) = .ok s') : s'.Intact log := by
  have hst := afterHandler_ok (hd.sound.leaveCallback hf).sq ha
  have hle : s.frames.length ≤ 1 := by rw [hf]; exact le_refl 1
  refine h.ended ho hst frame.idx ?_ ?_ ?_ ?_ ?_ hle <;> rw [leaveCallback] <;>
    cases frame.type
  all_goals first | rfl | exact .inl rfl | exact .inr rfl

theorem BuffersOwned.not_published (h : s.BuffersOwned) {bid : Nat} (hbid : bid ∈ s.published) :
    bid ∉ s.undispatched.flatMap Completion.consumed ∧ bid ∉ s.frames.flatMap Frame.reading := by
  have hnodup : s.places.Nodup := h.nodup_iff.mpr List.nodup_range
  rw [places] at hnodup
  obtain ⟨hleft, _, hright⟩ := List.nodup_append.mp hnodup
  obtain ⟨_, _, hmid⟩ := List.nodup_append.mp hleft
  exact ⟨fun hm => hmid bid hbid bid hm rfl,
    fun hm => hright bid (List.mem_append_left _ hbid) bid hm rfl⟩

/-- Only a completion for which the kernel picked a buffer counts as one that took one. -/
theorem Delivered.of_consumed {req : Request} {k : Outcome} (hd : Delivered req k s t)
    (hc : (s.completion req k).consumedBuffer = true) : ∃ buf ring,
      s.buffers.bufRing.pick = some (buf, ring) ∧ (s.completion req k).idx = buf.bid ∧ t = { s with
        buffers := { s.buffers with bufRing := ring }
        memory := overlay s.memory buf.addr buf.len k.data } := by
  obtain ⟨hrecv, hflag⟩ := Bool.and_eq_true_iff.mp hc
  have hop : req.sqe.op.isRecv = true := hrecv
  cases hd with
  | nothing hno _ _ =>
    have hflag' : k.flags &&& Completion.cqeFBuffer ≠ 0 := of_decide_eq_true hflag
    exact absurd (hno hop) hflag'
  | peer _ haccept _ =>
    cases hreq : req.sqe.op with
    | accept fd =>
      rw [hreq] at hop
      cases hop
    | close | connect | recv | recvmsgMultishot | send | sendmsg =>
      rw [hreq] at haccept
      cases haccept
  | buffer buf ring _ _ hpick hid heq => exact ⟨buf, ring, hpick, hid, heq⟩

/-- Data that arrives in one buffer leaves the others as they are. -/
theorem HoldsData.arrived {idx : Nat} {k k' : Outcome} (h : s.HoldsData idx k) {buf : Buf}
    (ring : BufRing) (hbuf : buf = s.buffers.entry buf.bid) (hne : idx ≠ buf.bid) :
    HoldsData { s with
      buffers := { s.buffers with bufRing := ring }
      memory := overlay s.memory buf.addr buf.len k'.data } idx k := by
  refine h.congr rfl rfl fun i hi => if_neg fun hin => ?_
  have haddr : buf.addr = s.buffers.getBuffer buf.bid := congrArg Buf.addr hbuf
  have hlen : buf.len = s.buffers.bufferSize := congrArg Buf.len hbuf
  rw [haddr, hlen] at hin
  obtain ⟨j, hj⟩ := Nat.exists_eq_add_of_le hin.1
  have hlt : j < s.buffers.bufferSize := by omega
  exact hne (s.buffers.getBuffer_disjoint hi hlt hj)

/-- A completion joins the queue, and the data of those before it has been left alone. -/
theorem Intact.posted_one (h : s.Intact log) (hd : Dispatching s) {cqe : Completion} {k : Outcome}
    (hcqe : cqe.res = k.res ∧ cqe.flags = k.flags) (hposted : s'.posted = s.posted ++ [cqe])
    (hhead : s'.cqHead = s.cqHead) (hf : s'.frames = s.frames)
    (hlabelled : ∀ buf ∈ s'.buffers.bufRing.published, buf = s'.buffers.entry buf.bid)
    (hold : ∀ idx ∈ s.undispatched.flatMap Completion.consumed ++ s.frames.flatMap Frame.reading,
      ∀ k', s.HoldsData idx k' → s'.HoldsData idx k')
    (hnew : cqe.consumedBuffer = true → s'.HoldsData cqe.idx k) : s'.Intact (log ++ [(cqe, k)]) := by
  have hlen : s.cqHead + s.frames.length ≤ log.length := by
    have hle := hd.passed_le
    rwa [h.posted, List.length_map] at hle
  refine ⟨?_, ?_, hlabelled, fun p hp hpc => ?_, fun frame hm ht => ?_⟩
  · rw [hposted, h.posted, List.map_append]
    rfl
  · refine List.forall_mem_append.mpr ⟨h.agrees, fun p hp => ?_⟩
    rw [List.mem_singleton.mp hp]
    exact hcqe
  · rw [hhead, hf, List.drop_append_of_le_length hlen] at hp
    obtain hp | hp := List.mem_append.mp hp
    · refine hold _ (List.mem_append_left _ (List.mem_flatMap.mpr ⟨p.1, ?_, ?_⟩)) _
        (h.unread p hp hpc)
      · rw [undispatched, h.posted, ← List.map_drop]
        exact List.mem_map_of_mem hp
      · rw [Completion.consumed, if_pos hpc]
        exact List.mem_singleton_self _
    · cases List.mem_singleton.mp hp
      exact hnew hpc
  · rw [hf] at hm
    obtain ⟨p, hp, hpi, hdata⟩ := h.reading frame hm ht
    refine ⟨p, ?_, hpi, hold _ (List.mem_append_right _ ?_) _ hdata⟩
    · rw [hhead]
      exact (List.getElem?_append_left (List.getElem?_eq_some_iff.mp hp).1).trans hp
    · refine List.mem_flatMap.mpr ⟨frame, hm, ?_⟩
      rw [Frame.reading, if_pos ht]
      exact List.mem_singleton_self _

theorem Intact.completed (h : s.Intact log) (ho : s.BuffersOwned) (hd : Dispatching s)
    {req : Request} {k : Outcome} (hdeliver : Delivered req k s t) (armed : List Request) :
    Intact (log ++ [(s.completion req k, k)]) { t with
      armed := armed
      posted := s.posted ++ [s.completion req k] } := by
  obtain ⟨_, _, _, hhead, hf, _⟩ := hdeliver.frame
  by_cases hc : (s.completion req k).consumedBuffer = true
  · obtain ⟨buf, ring, hpick, hidx, rfl⟩ := hdeliver.of_consumed hc
    have hpub := BufRing.published_of_pick hpick
    have hbuf : buf = s.buffers.entry buf.bid := h.labelled buf (hpub ▸ List.mem_cons_self)
    have hbid : buf.bid ∈ s.published := by
      rw [published, hpub]
      exact List.mem_cons_self
    obtain ⟨hun, hread⟩ := ho.not_published hbid
    refine h.posted_one hd ⟨rfl, rfl⟩ rfl rfl rfl
      (fun b hb => h.labelled b (hpub ▸ List.mem_cons_of_mem _ hb)) (fun idx hm k' hdata => ?_)
      (fun _ i hi b hb => ?_)
    · have hne : idx ≠ buf.bid := by
        rintro rfl
        obtain hm | hm := List.mem_append.mp hm
        · exact hun hm
        · exact hread hm
      exact hdata.arrived ring hbuf hne
    · have haddr : buf.addr = s.buffers.getBuffer buf.bid := congrArg Buf.addr hbuf
      have hlen : buf.len = s.buffers.bufferSize := congrArg Buf.len hbuf
      have hoff : s.buffers.getBuffer buf.bid + i - s.buffers.getBuffer buf.bid = i := by omega
      rw [hidx]
      refine (if_pos ?_).trans ?_
      · rw [haddr, hlen]
        exact ⟨Nat.le_add_right _ _, Nat.add_lt_add_left hi _⟩
      · rw [haddr]
        exact (congrArg (fun n => (k.data n).getD _) hoff).trans (by rw [Option.mem_def.mp hb]; rfl)
  · have hsame : t.memory = s.memory ∧ t.buffers = s.buffers := by
      cases hdeliver with
      | nothing _ _ heq | peer _ _ heq => exact heq ▸ ⟨rfl, rfl⟩
      | buffer _ _ hop hflag _ _ _ =>
        exact absurd (Bool.and_eq_true_iff.mpr ⟨hop, decide_eq_true hflag⟩) hc
    obtain ⟨hm, hb⟩ := hsame
    refine h.posted_one hd ⟨rfl, rfl⟩ rfl hhead hf ?_ (fun idx _ k' hdata => ?_)
      (fun hc' => absurd hc' hc)
    · simp only [hb]
      exact h.labelled
    · exact hdata.congr (congrArg getBuffer hb) (congrArg BufferPool.bufferSize hb)
        fun _ _ => congrFun hm _

theorem initial_intact (queueSize mapped : Nat) (memory : Nat → Byte) :
    (initial queueSize mapped memory).Intact [] where
  posted := rfl
  agrees := List.forall_mem_nil _
  labelled buf hm := by
    have hpub : (initial queueSize mapped memory).buffers.bufRing.published =
        (List.range (BUFFERS / 2)).map (initial queueSize mapped memory).buffers.entry :=
      published_setup mapped .create
    rw [hpub] at hm
    obtain ⟨bid, _, rfl⟩ := List.mem_map.mp hm
    rfl
  unread := List.forall_mem_nil _
  reading := List.forall_mem_nil _

theorem Intact.stepped (h : s.Intact log) (ho : s.BuffersOwned) (hd : Dispatching s)
    (hg : s.Recycling a) (ha : a.outcome = none) (hs : Stepped s s' a) : s'.Intact log := by
  cases hs with
  | opened _ _ _ _ _ _ _ _ _ _ _ _ heq | acquired _ _ _ _ _ heq | edited _ _ _ _ _ heq
  | submitted _ _ _ _ _ _ _ _ _ heq => exact heq ▸ { h with }
  | polled _ hpoll => exact h.polled ho hd.sound.sq (hg.1 rfl) hg.2 hpoll
  | returned ret frame frames hframes hafter =>
    obtain hf | ⟨frame', cqe, rest, hf, _⟩ := hd.frames
    · rw [hf] at hframes
      cases hframes
    · rw [hf] at hframes
      cases hframes
      exact h.returned ho hd hf hafter
  | completed => cases ha

/-- Every step keeps the data that has not been read, and records what the kernel decides. -/
theorem Intact.step (h : s.Intact log) (ho : s.BuffersOwned) (hd : Dispatching s)
    (hg : s.Recycling a) (hs : IOUring.step a s = .ok s') :
    ∃ more, more.map Prod.snd = a.outcome.toList ∧ s'.Intact (log ++ more) := by
  cases ha : a.outcome with
  | none =>
    refine ⟨[], rfl, ?_⟩
    rw [List.append_nil]
    exact h.stepped ho hd hg ha (step_ok hd.sound.sq hs)
  | some k =>
    cases a with
    | complete i outcome =>
      cases ha
      obtain ⟨req, t, _, _, hdeliver, heq⟩ := complete_ok hs
      exact ⟨[(s.completion req k, k)], rfl, heq ▸ h.completed ho hd hdeliver _⟩
    | submitAccept | submitConnect | submitRecv | submitClose | ackuireSendWorkitem | getSendPacket
    | append | submitStreamData | submitPacket | send | pollCompletionQueues | callbackReturns =>
      cases ha

/-- What the kernel decided in the run, in order. -/
def outcomes (as : List Action) : List Outcome := as.filterMap Action.outcome

end IOUring

end Iuring
