import Iuring.StaleBytes

namespace Iuring

open Lib Lib.Memory

namespace BufferPool

/-- The addresses of the receive buffers, behind the entries of the ring in the mapping. -/
def InBuffers (mapped addr : Nat) : Prop :=
  mapped + sizeofIoUringBuf * BUFFERS ≤ addr ∧
    addr < mapped + (sizeofIoUringBuf + 1 <<< bufShiftDefault) * BUFFERS

instance (mapped addr : Nat) : Decidable (InBuffers mapped addr) :=
  inferInstanceAs (Decidable (_ ∧ _))

/-- Set up over the mapping, with one of its buffers named in every cell of the ring. -/
structure Mapped (mapped : Nat) (pool : BufferPool) : Prop where
  shift : pool.bufShift = bufShiftDefault
  base : pool.bufferBase = mapped + sizeofIoUringBuf * BUFFERS
  cells : ∀ c < BufRing.entries, ∃ bid < BUFFERS, pool.bufRing.bufs c = pool.entry bid

variable {mapped idx : Nat} {pool : BufferPool}

theorem Mapped.bufferSize (h : pool.Mapped mapped) : pool.bufferSize = 1 <<< bufShiftDefault := by
  rw [BufferPool.bufferSize, h.shift]

theorem Mapped.inBuffers (h : pool.Mapped mapped) (hidx : idx < BUFFERS) {i : Nat}
    (hi : i < pool.bufferSize) : InBuffers mapped (pool.getBuffer idx + i) := by
  rw [h.bufferSize] at hi
  rw [getBuffer, h.base, h.shift]
  simp only [InBuffers, bufShiftDefault, sizeofIoUringBuf, BUFFERS, CQES, QD, Nat.shiftLeft_eq] at *
  omega

theorem mem_cell (n : Nat) : n &&& BufRing.mask < BufRing.entries := by
  rw [BufRing.and_mask]
  exact Nat.mod_lt n (by decide)

theorem Mapped.recycleBuffer (h : pool.Mapped mapped) (hidx : idx < BUFFERS) :
    (pool.recycleBuffer idx).Mapped mapped := by
  refine ⟨h.shift, h.base, fun c hc => ?_⟩
  by_cases hcell : c = (pool.bufRing.tail.toNat + 0) &&& BufRing.mask
  · refine ⟨idx, hidx, ?_⟩
    rw [hcell]
    exact Function.update_self _ _ _
  · obtain ⟨bid, hbid, hbuf⟩ := h.cells c hc
    refine ⟨bid, hbid, ?_⟩
    exact (Function.update_of_ne hcell _ _).trans hbuf

theorem Mapped.pick (h : pool.Mapped mapped) {buf : Buf} {ring : BufRing}
    (hpick : pool.bufRing.pick = some (buf, ring)) :
    (∃ bid < BUFFERS, buf = pool.entry bid) ∧ Mapped mapped { pool with bufRing := ring } := by
  rw [BufRing.pick] at hpick
  split at hpick
  · cases hpick
  · cases hpick
    exact ⟨h.cells _ (mem_cell _), h.shift, h.base, h.cells⟩

/-- Every buffer is added to the ring, also those that are not published at first. -/
theorem mapped_addBuffers (hshift : pool.bufShift = bufShiftDefault)
    (hbase : pool.bufferBase = mapped + sizeofIoUringBuf * BUFFERS) (htail : pool.bufRing.tail = 0)
    (count : Nat) (ids : List Nat) : Mapped mapped { pool with
      bufRing := (pool.addBuffers BUFFERS).advance count
      freeSendIds := ids } := by
  refine ⟨hshift, hbase, fun c hc => ⟨c, hc, ?_⟩⟩
  have hbufs := (addBuffers_bufs pool htail (Nat.le_refl BUFFERS)).2.2 c hc
  simp only [BufRing.advance, hbufs, entry, getBuffer, BufferPool.bufferSize]

theorem mapped_setup (mapped : Nat) : (create.setupBufferPool ⟨some mapped, 0⟩).2.Mapped mapped := by
  simp only [setupBufferPool, ne_eq, not_true_eq_false, if_false]
  exact mapped_addBuffers rfl rfl rfl _ _

end BufferPool

/-- What the kernel decided about the request that the step finishes. -/
def Action.outcome : Action → Option IOUring.Outcome
  | .complete _ k => some k
  | _ => none

namespace IOUring

open BufferPool

variable {s s' t : IOUring} {a : Action} {queueSize mapped : Nat} {memory memory' : Nat → Byte}

/-- The kernel names only buffers that there are, and reports no more bytes than one holds. -/
def KeepsBounds (_ : IOUring) (a : Action) : Prop :=
  ∀ k ∈ a.outcome, (k.flags >>> 16).toNat < BUFFERS ∧ k.res.toNat ≤ 1 <<< bufShiftDefault

instance (s : IOUring) (a : Action) : Decidable (s.KeepsBounds a) :=
  inferInstanceAs (Decidable (∀ k ∈ a.outcome, _))

/-- What keeps every access to received data inside the receive buffers. -/
structure Confined (mapped : Nat) (s : IOUring) : Prop where
  buffers : s.buffers.Mapped mapped
  posted : ∀ cqe ∈ s.posted, cqe.idx < BUFFERS ∧ cqe.res.toNat ≤ 1 <<< bufShiftDefault
  frames : ∀ frame ∈ s.frames, frame.idx < BUFFERS

theorem initial_confined (queueSize mapped : Nat) (memory : Nat → Byte) :
    (initial queueSize mapped memory).Confined mapped where
  buffers := mapped_setup mapped
  posted := List.forall_mem_nil _
  frames := List.forall_mem_nil _

theorem Confined.settled (h : t.Confined mapped) {frame : Frame} {ret : ReceivePostAction}
    (hs : Settled frame ret t s') : s'.Confined mapped := by
  cases hs with
  | rearmed _ _ _ _ heq | freed _ _ _ _ _ heq => exact heq ▸ { h with }

theorem Confined.recycled (h : s.Confined mapped) {idx : Nat} (hidx : idx < BUFFERS) :
    (s.recycleBuffer idx).Confined mapped :=
  { h with buffers := h.buffers.recycleBuffer hidx }

theorem Confined.leaveCallback (h : s.Confined mapped) {frame : Frame} {frames : List Frame}
    (hf : s.frames = frame :: frames) : (s.leaveCallback frame frames).Confined mapped := by
  have hidx : frame.idx < BUFFERS := h.frames frame (hf ▸ List.mem_cons_self)
  have hbase : ({ s with frames := frames } : IOUring).Confined mapped :=
    { h with frames := fun fr hm => h.frames fr (hf ▸ List.mem_cons_of_mem _ hm) }
  rw [IOUring.leaveCallback]
  cases frame.type with
  | recv => exact hbase.recycled hidx
  | sendStreamData | sendWorkpacket | unknown | accept | connect | close => exact { hbase with }

theorem Confined.polled (h : s.Confined mapped) (hq : s.sq = []) (hp : Polled s s') :
    s'.Confined mapped := by
  have hidx : ∀ {cqe rest}, s.pending = cqe :: rest → cqe.idx < BUFFERS := by
    intro cqe rest hp
    have hm : cqe ∈ s.pending := hp ▸ List.mem_cons_self
    exact (h.posted cqe (List.mem_of_mem_drop hm)).1
  cases hp with
  | idle _ heq => exact heq ▸ h
  | missed _ _ _ _ heq | exhausted _ _ _ _ _ _ heq => exact heq ▸ { h with }
  | entered cqe rest o call hp _ _ _ heq =>
    subst heq
    refine { h with frames := fun frame hm => ?_ }
    obtain rfl | hm := List.mem_cons.mp hm
    · exact hidx hp
    · exact h.frames frame hm
  | returned cqe rest o ret recycle hp _ _ _ hafter =>
    have hbase : (s.emit (.dispatched cqe (some o))).Confined mapped := { h with }
    cases recycle with
    | false => exact hbase.settled (afterHandler_ok hq hafter)
    | true => exact (hbase.recycled (hidx hp)).settled (afterHandler_ok hq hafter)

theorem Confined.delivered (h : s.Confined mapped) {req : Request} {k : Outcome}
    (hd : Delivered req k s t) : t.Confined mapped := by
  cases hd with
  | nothing _ _ heq => exact heq ▸ h
  | peer _ _ heq => exact heq ▸ { h with }
  | buffer buf ring _ _ hpick _ heq =>
    obtain ⟨_, hmapped⟩ := h.buffers.pick hpick
    subst heq
    exact ⟨hmapped, h.posted, h.frames⟩

theorem Confined.stepped (h : s.Confined mapped) (hsound : Sound s) (hg : s.KeepsBounds a)
    (hs : Stepped s s' a) : s'.Confined mapped := by
  cases hs with
  | opened _ _ _ _ _ _ _ _ _ _ _ _ heq | acquired _ _ _ _ _ heq | edited _ _ _ _ _ heq
  | submitted _ _ _ _ _ _ _ _ _ heq => exact heq ▸ { h with }
  | polled _ hpoll => exact h.polled hsound.sq hpoll
  | returned ret frame frames hframes hafter =>
    have hleft := h.leaveCallback hframes
    exact hleft.settled (afterHandler_ok (hsound.leaveCallback hframes).sq hafter)
  | completed i k req t _ _ hdeliver heq =>
    have ht := h.delivered hdeliver
    subst heq
    refine { ht with posted := fun cqe hm => ?_ }
    obtain hm | hm := List.mem_append.mp hm
    · exact h.posted cqe hm
    · rw [List.mem_singleton.mp hm]
      exact hg k rfl

theorem confined_reaches (hr : Transition.Reaches step KeepsBounds
    (initial queueSize mapped memory) s) : s.Confined mapped := by
  have hinv := hr.invariant (I := fun u => Sound u ∧ u.Confined mapped)
    (fun u a v hu hg hs => ⟨hu.1.step hs, hu.2.stepped hu.1 hg (step_ok hu.1.sq hs)⟩)
    ⟨initial_sound queueSize mapped memory, initial_confined queueSize mapped memory⟩
  exact hinv.2

/-- The step is an answer of the kernel, which stores its data in one whole receive buffer. -/
def StoresInBuffer (mapped : Nat) (s t : IOUring) (a : Action) : Prop :=
  ∃ i k bid, a = .complete i k ∧ bid < BUFFERS ∧
    t.memory = overlay s.memory (s.buffers.getBuffer bid) s.buffers.bufferSize k.data ∧
      ∀ j < s.buffers.bufferSize, InBuffers mapped (s.buffers.getBuffer bid + j)

theorem memory_of_settled {frame : Frame} {ret : ReceivePostAction} (hs : Settled frame ret t s') :
    s'.memory = t.memory := by
  cases hs with
  | rearmed _ _ _ _ heq | freed _ _ _ _ _ heq => exact heq ▸ rfl

theorem memory_leaveCallback (frame : Frame) (frames : List Frame) :
    (s.leaveCallback frame frames).memory = s.memory := by
  rw [IOUring.leaveCallback]
  cases frame.type <;> rfl

theorem memory_of_polled (hq : s.sq = []) (hp : Polled s s') : s'.memory = s.memory := by
  cases hp with
  | idle _ heq | missed _ _ _ _ heq | exhausted _ _ _ _ _ _ heq | entered _ _ _ _ _ _ _ _ heq =>
    exact heq ▸ rfl
  | returned cqe rest o ret recycle _ _ _ _ hafter =>
    cases recycle with
    | false =>
      have hmem := memory_of_settled (afterHandler_ok (s := s.emit (.dispatched cqe (some o))) hq
        hafter)
      exact hmem
    | true =>
      have hmem := memory_of_settled (afterHandler_ok
        (s := (s.emit (.dispatched cqe (some o))).recycleBuffer cqe.idx) hq hafter)
      exact hmem

/-- Received data goes into the buffer that the kernel picked and nowhere else. -/
theorem Confined.stored (h : s.Confined mapped) (hsound : Sound s) (hs : Stepped s t a) :
    t.memory = s.memory ∨ s.StoresInBuffer mapped t a := by
  cases hs with
  | opened _ _ _ _ _ _ _ _ _ _ _ _ heq | acquired _ _ _ _ _ heq | edited _ _ _ _ _ heq
  | submitted _ _ _ _ _ _ _ _ _ heq => exact .inl (heq ▸ rfl)
  | polled _ hpoll => exact .inl (memory_of_polled hsound.sq hpoll)
  | returned ret frame frames hframes hafter =>
    have hst := afterHandler_ok (hsound.leaveCallback hframes).sq hafter
    exact .inl ((memory_of_settled hst).trans (memory_leaveCallback frame frames))
  | completed i k req u _ _ hdeliver heq =>
    subst heq
    cases hdeliver with
    | nothing _ _ heq | peer _ _ heq => exact .inl (heq ▸ rfl)
    | buffer buf ring _ _ hpick _ heq =>
      obtain ⟨⟨bid, hbid, rfl⟩, _⟩ := h.buffers.pick hpick
      subst heq
      exact .inr ⟨i, k, bid, rfl, hbid, rfl, fun j hj => h.buffers.inBuffers hbid hj⟩

section Reads

variable {buffer buffer' : Nat → Byte} {item : WorkItem} {cqe : Completion}

theorem callRecvHandlerDatagram_congr (h : Agree buffer buffer' 0 (1 <<< bufShiftDefault))
    (hres : cqe.res.toNat ≤ 1 <<< bufShiftDefault) :
    callRecvHandlerDatagram buffer item cqe = callRecvHandlerDatagram buffer' item cqe := by
  have hheader : RecvMsg.load buffer = RecvMsg.load buffer' :=
    RecvMsg.load_congr (h.sub (le_refl 0) (by decide))
  have hname4 : SockaddrIn.load buffer RecvMsg.nameOffset =
      SockaddrIn.load buffer' RecvMsg.nameOffset :=
    SockaddrIn.load_congr (h.sub (Nat.zero_le _) (by decide))
  have hname6 : SockaddrIn6.load buffer RecvMsg.nameOffset =
      SockaddrIn6.load buffer' RecvMsg.nameOffset :=
    SockaddrIn6.load_congr (h.sub (Nat.zero_le _) (by decide))
  have hpayload : ∀ namelen controllen, read buffer (RecvMsg.payloadOffset namelen controllen)
      (RecvMsg.payloadLength cqe.res.toNat namelen controllen) =
        read buffer' (RecvMsg.payloadOffset namelen controllen)
          (RecvMsg.payloadLength cqe.res.toNat namelen controllen) := by
    intro namelen controllen
    have hagree : Agree buffer buffer' (RecvMsg.payloadOffset namelen controllen)
        (RecvMsg.payloadLength cqe.res.toNat namelen controllen) := by
      intro i hge hi
      rw [RecvMsg.payloadLength] at hi
      exact h i (Nat.zero_le i) (by omega)
    exact hagree.read
  simp only [callRecvHandlerDatagram, RecvMsg.validate, sourceAddress, hheader, hname4, hname6,
    hpayload]

/-- A recv handler reads nothing behind the buffer of its completion. -/
theorem callRecvCallback_congr (h : Agree buffer buffer' 0 (1 <<< bufShiftDefault))
    (hres : cqe.res.toNat ≤ 1 <<< bufShiftDefault) :
    callRecvCallback buffer item cqe = callRecvCallback buffer' item cqe := by
  have hstream : read buffer 0 cqe.res.toNat = read buffer' 0 cqe.res.toNat :=
    (h.sub (le_refl 0) (by omega)).read
  rw [callRecvCallback, callRecvCallback]
  simp only [callRecvHandlerStream, hstream, callRecvHandlerDatagram_congr h hres]

end Reads

/-- The same ring over another memory. -/
def withMemory (memory : Nat → Byte) (s : IOUring) : IOUring := { s with memory := memory }

theorem getSqe_withMemory (flush : Flush) :
    (s.withMemory memory).getSqe flush = (s.getSqe flush).map (withMemory memory) := by
  have hflush : (s.withMemory memory).submitAllRequests flush =
      (s.submitAllRequests flush).withMemory memory := by
    cases flush <;> rfl
  rw [getSqe, getSqe]
  rw [hflush]
  by_cases hroom : s.sq.length < s.queueSize
  · exact (if_pos hroom).trans (by rw [if_pos hroom]; rfl)
  · refine (if_neg hroom).trans ?_
    rw [if_neg hroom]
    by_cases hagain : (s.submitAllRequests flush).sq.length < (s.submitAllRequests flush).queueSize
    · exact (if_pos hagain).trans (by rw [if_pos hagain]; rfl)
    · exact (if_neg hagain).trans (by rw [if_neg hagain]; rfl)

theorem submit_withMemory (retry final : Flush) (o : Nat) :
    (s.withMemory memory).submit retry final o = (s.submit retry final o).map (withMemory memory) := by
  rw [submit, submit]
  rw [getSqe_withMemory]
  cases hget : s.getSqe retry with
  | error e => rfl
  | ok t =>
    simp only [Except.map, Checked.bind_ok]
    have hitem : prepare (t.withMemory memory).buffers.bufferSize ((t.withMemory memory).item o) =
        prepare t.buffers.bufferSize (t.item o) := rfl
    rw [hitem]
    cases prepare t.buffers.bufferSize (t.item o) with
    | error e => rfl
    | ok p => cases final <;> rfl

theorem freeWorkItem_withMemory (id : Nat) :
    (s.withMemory memory).freeWorkItem id = (s.freeWorkItem id).map (withMemory memory) := by
  rw [freeWorkItem, freeWorkItem]
  have hpool : (s.withMemory memory).pool = s.pool := rfl
  rw [hpool]
  cases s.pool.freeWorkItem id with
  | error e => rfl
  | ok pool => cases hat : s.pool.at? id <;> simp only [Checked.bind_ok] <;> rfl

theorem afterHandler_withMemory (memory : Nat → Byte) (frame : Frame) (ret : ReceivePostAction) :
    afterHandler frame ret (s.withMemory memory) =
      (afterHandler frame ret s).map (withMemory memory) := by
  have hsettle : (s.withMemory memory).settle frame ret =
      (s.settle frame ret).map (withMemory memory) := by
    unfold settle
    cases frame.type with
    | unknown => rfl
    | accept => exact submit_withMemory _ _ _
    | recv =>
      cases ret with
      | none => exact freeWorkItem_withMemory _
      | reSubmit => exact submit_withMemory _ _ _
    | close | connect | sendStreamData | sendWorkpacket => exact freeWorkItem_withMemory _
  rw [afterHandler, afterHandler]
  rw [hsettle]
  cases s.settle frame ret <;> rfl

theorem Confined.callHandler_withMemory (h : s.Confined mapped)
    (hm : ∀ addr, InBuffers mapped addr → memory' addr = s.memory addr) {cqe : Completion}
    (hposted : cqe ∈ s.posted) (item : WorkItem) :
    (s.withMemory memory').callHandler item cqe = s.callHandler item cqe := by
  obtain ⟨hidx, hres⟩ := h.posted cqe hposted
  rw [callHandler, callHandler]
  cases item.workType with
  | recv =>
    refine callRecvCallback_congr (fun i _ hi => ?_) hres
    have hlt : i < s.buffers.bufferSize := by
      rw [h.buffers.bufferSize]
      omega
    exact hm _ (h.buffers.inBuffers hidx hlt)
  | accept | close | connect | sendStreamData | sendWorkpacket | unknown => rfl

theorem Confined.dispatch_withMemory (h : s.Confined mapped)
    (hm : ∀ addr, InBuffers mapped addr → memory' addr = s.memory addr) {cqe : Completion}
    (hposted : cqe ∈ s.posted) :
    (s.withMemory memory').callCallbackAndFreeWorkItemId cqe =
      (s.callCallbackAndFreeWorkItemId cqe).map (withMemory memory') := by
  unfold callCallbackAndFreeWorkItemId
  have hpool : (s.withMemory memory').pool = s.pool := rfl
  rw [hpool]
  cases s.pool.getWorkItem cqe.userData with
  | error e => rfl
  | ok found =>
    simp only [Checked.bind_ok]
    cases found with
    | none => rfl
    | some o =>
      have hbase : (s.emit (.dispatched cqe (some o))).Confined mapped := { h with }
      have hcall := hbase.callHandler_withMemory hm hposted (s.item o)
      simp only
      split
      · rfl
      · have hcall' : ((s.withMemory memory').emit (.dispatched cqe (some o))).callHandler
            (((s.withMemory memory').emit (.dispatched cqe (some o))).item o) cqe =
              (s.emit (.dispatched cqe (some o))).callHandler
                ((s.emit (.dispatched cqe (some o))).item o) cqe := hcall
        rw [hcall']
        cases (s.emit (.dispatched cqe (some o))).callHandler
            ((s.emit (.dispatched cqe (some o))).item o) cqe with
        | error e => rfl
        | ok handled =>
          cases handled with
          | called call => rfl
          | returned ret recycle =>
            simp only [Checked.bind_ok]
            cases recycle with
            | false =>
              have hafter := afterHandler_withMemory (s := s.emit (.dispatched cqe (some o)))
                memory' (s.frameOf cqe o) ret
              exact hafter
            | true =>
              have hafter := afterHandler_withMemory
                (s := (s.emit (.dispatched cqe (some o))).recycleBuffer cqe.idx)
                memory' (s.frameOf cqe o) ret
              exact hafter

/-- A poll takes no notice of any byte that is not in a receive buffer. -/
theorem Confined.poll_withMemory (h : s.Confined mapped)
    (hm : ∀ addr, InBuffers mapped addr → memory' addr = s.memory addr) :
    (s.withMemory memory').pollCompletionQueues =
      s.pollCompletionQueues.map (withMemory memory') := by
  rw [pollCompletionQueues, pollCompletionQueues]
  have hhead : (s.withMemory memory').posted.length < (s.withMemory memory').cqHead ↔
      s.posted.length < s.cqHead := Iff.rfl
  have hpending : (s.withMemory memory').pending = s.pending := rfl
  simp only [hhead, hpending]
  split
  · rfl
  · cases hp : s.pending with
    | nil => rfl
    | cons cqe rest =>
      have hmem : cqe ∈ s.pending := hp ▸ List.mem_cons_self
      exact h.dispatch_withMemory hm (List.mem_of_mem_drop hmem)

/-- Whatever callbacks do and in whatever order requests finish, data is received into the
buffers of the pool only, and what else the memory holds has no say in what a poll does. -/
theorem confined_to_buffers (hr : Transition.Reaches step KeepsBounds
    (initial queueSize mapped memory) s) :
    (∀ a t, step a s = .ok t → t.memory = s.memory ∨ s.StoresInBuffer mapped t a) ∧
      ∀ memory', (∀ addr, InBuffers mapped addr → memory' addr = s.memory addr) →
        (s.withMemory memory').pollCompletionQueues =
          s.pollCompletionQueues.map (withMemory memory') := by
  have h := confined_reaches hr
  have hsound := (initial_sound queueSize mapped memory).reaches hr
  constructor
  · intro a t hs
    exact h.stored hsound (step_ok hsound.sq hs)
  · intro memory' hm
    exact h.poll_withMemory hm

private def receiver : Socket := ⟨.ipv4Tcp, 0, .unicastClientSocket, 3⟩

private def twoBytes : Outcome := ⟨2, 1, default, fun i => some (if i = 0 then 72 else 105)⟩

/-- Two bytes arrive in the first buffer of a mapping at address 4096. -/
theorem confined_to_buffers_stream : ∃ s t,
    Transition.Reaches step KeepsBounds (initial 256 4096 fun _ => 0) s ∧
      step (.complete 0 twoBytes) s = .ok t ∧ s.memory 20480 = 0 ∧ t.memory 20480 = 72 ∧
        s.StoresInBuffer 4096 t (.complete 0 twoBytes) := by
  obtain ⟨s, hr, hfresh, hdone⟩ := Transition.reaches_of_leads step KeepsBounds
    (fun s => s.memory 20480 = 0 ∧
      (step (.complete 0 twoBytes) s).map (fun t => t.memory 20480) = .ok 72)
    [.submitRecv receiver 7 default] (initial 256 4096 fun _ => 0) (by decide +kernel)
  cases hs : step (.complete 0 twoBytes) s with
  | error e =>
    rw [hs] at hdone
    cases hdone
  | ok t =>
    rw [hs] at hdone
    have hnew : t.memory 20480 = 72 := Except.ok.inj hdone
    refine ⟨s, t, hr, hs, hfresh, hnew, ?_⟩
    obtain hsame | hstored := (confined_to_buffers hr).1 _ t hs
    · rw [hsame, hfresh] at hnew
      cases hnew
    · exact hstored

end IOUring

end Iuring
