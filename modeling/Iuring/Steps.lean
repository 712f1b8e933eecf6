import Iuring.Machine

namespace Iuring

open Lib

def WorkType.isSend : WorkType → Bool
  | .sendStreamData | .sendWorkpacket => true
  | _ => false

/-- The operation that each type of item is turned into. -/
def Op.workType : Op → WorkType
  | .close _ => .close
  | .accept _ => .accept
  | .connect _ _ => .connect
  | .recv _ _ | .recvmsgMultishot _ => .recv
  | .send _ _ => .sendStreamData
  | .sendmsg _ => .sendWorkpacket

/-- The fields that nothing but the constructor and free_work_item writes. -/
structure SameIdentity (item item' : WorkItem) : Prop where
  id : item'.id = item.id
  state : item'.state = item.state
  socket : item'.socket = item.socket
  link : item'.linkToNextRequest = item.linkToNextRequest

theorem SameIdentity.refl (item : WorkItem) : SameIdentity item item := ⟨rfl, rfl, rfl, rfl⟩

theorem SameIdentity.trans {a b c : WorkItem} (h : SameIdentity a b) (h' : SameIdentity b c) :
    SameIdentity a c :=
  ⟨h'.id.trans h.id, h'.state.trans h.state, h'.socket.trans h.socket, h'.link.trans h.link⟩

/-- What the entry says about the item it was prepared from. -/
structure Describes (item : WorkItem) (sqe : Sqe) : Prop where
  userData : sqe.userData = item.id
  fd : sqe.op.fd = item.socket.fd
  type : sqe.op.workType = item.workType
  multishot : sqe.op.isMultishot = true → item.isStream = false
  link : sqe.ioLink = true → item.linkToNextRequest = true
  length : ∀ fd len, sqe.op = .send fd len → len = item.sendPacket.size

/-- An item as its submission leaves it: only these fields may have changed. -/
structure Prepared (item item' : WorkItem) : Prop where
  same : SameIdentity item item'
  type : item'.workType = item.workType
  callback : item'.callback = item.callback
  packet : item'.sendPacket = item.sendPacket
  known : item.workType ≠ .unknown
  acceptLen : item.workType = .accept → item'.acceptSockLen = 0

namespace IOUring

theorem prepare_ok {n : Nat} {item item' : WorkItem} {sqe : Sqe}
    (h : prepare n item = .ok (item', sqe)) : Prepared item item' ∧ Describes item sqe := by
  rw [prepare] at h
  cases ht : item.workType with
  | unknown => simp [ht, abort] at h
  | close =>
    simp only [ht, Checked.pure_eq_ok] at h
    cases h
    exact ⟨⟨.refl _, rfl, rfl, rfl, by simp [ht], by simp [ht]⟩,
      ⟨rfl, rfl, ht.symm, by simp [Op.isMultishot], by simp, by simp⟩⟩
  | accept =>
    simp only [ht, Checked.pure_eq_ok] at h
    cases h
    exact ⟨⟨⟨rfl, rfl, rfl, rfl⟩, ht.symm, rfl, rfl, by simp [ht], fun _ => rfl⟩,
      ⟨rfl, rfl, ht.symm, by simp [Op.isMultishot], by simp, by simp⟩⟩
  | connect =>
    simp only [ht, Checked.bind_eq_ok, Checked.pure_eq_ok] at h
    obtain ⟨_, _, _, _, h⟩ := h
    cases h
    exact ⟨⟨.refl _, rfl, rfl, rfl, by simp [ht], by simp [ht]⟩,
      ⟨rfl, rfl, ht.symm, by simp [Op.isMultishot], id, by simp⟩⟩
  | recv =>
    simp only [ht] at h
    split at h
    · cases h
      exact ⟨⟨.refl _, rfl, rfl, rfl, by simp [ht], by simp [ht]⟩,
        ⟨rfl, rfl, ht.symm, by simp [Op.isMultishot], by simp, by simp⟩⟩
    · rename_i hs
      cases h
      exact ⟨⟨⟨rfl, rfl, rfl, rfl⟩, ht.symm, rfl, rfl, by simp [ht], by simp [ht]⟩,
        ⟨rfl, rfl, ht.symm, fun _ => by simpa using hs, by simp, by simp⟩⟩
  | sendStreamData =>
    simp only [ht, Checked.bind_eq_ok, Checked.pure_eq_ok] at h
    obtain ⟨_, _, h⟩ := h
    cases h
    exact ⟨⟨.refl _, rfl, rfl, rfl, by simp [ht], by simp [ht]⟩,
      ⟨rfl, rfl, ht.symm, by simp [Op.isMultishot], id, fun _ _ he => by cases he; rfl⟩⟩
  | sendWorkpacket =>
    simp only [ht, Checked.bind_eq_ok, Checked.pure_eq_ok] at h
    obtain ⟨_, _, m, hm, h⟩ := h
    obtain ⟨iov, control, sa, msg, rfl⟩ := WorkItem.initSendMsg_frame hm
    cases h
    exact ⟨⟨⟨rfl, rfl, rfl, rfl⟩, rfl, rfl, rfl, by simp [ht], by simp [ht]⟩,
      ⟨rfl, rfl, ht.symm, by simp [Op.isMultishot], id, by simp⟩⟩

/-- The ring after the submission of an item when the kernel takes the entry. -/
def arm (o : Nat) (item : WorkItem) (sqe : Sqe) (s : IOUring) : IOUring :=
  let req : Request := ⟨s.consumed.length, o, sqe⟩
  { s with
    pool := s.pool.setItem o item
    consumed := s.consumed ++ [req]
    armed := s.armed ++ [req]
    trace := s.trace ++ [.submitted req] }

theorem submit_ok {o : Nat} {s s' : IOUring} (hq : s.sq = []) (h : s.submit .all .all o = .ok s') :
    ∃ item sqe, prepare s.buffers.bufferSize (s.item o) = .ok (item, sqe) ∧
      s' = s.arm o item sqe := by
  obtain ⟨t, ht, hr⟩ := Checked.bind_eq_ok.mp h
  obtain ⟨⟨item, sqe⟩, hp, he⟩ := Checked.bind_eq_ok.mp hr
  have hst : t = s := by
    have hall : s.submitAllRequests .all = s := by
      cases s
      cases hq
      simp [submitAllRequests]
    rw [getSqe] at ht
    simp only [hall] at ht
    split at ht
    · exact (Except.ok.inj ht).symm
    · simp [abort] at ht
  rw [hst] at hp he
  refine ⟨item, sqe, hp, ?_⟩
  simp only [Checked.pure_eq_ok] at he
  simp [← he, submitAllRequests, arm, setItem, emit, hq]

theorem freeWorkItem_ok {id : Nat} {s s' : IOUring} (h : s.freeWorkItem id = .ok s') :
    ∃ o pool, s.pool.at? id = some o ∧ s.pool.freeWorkItem id = .ok pool ∧
      s' = { s with pool := pool, trace := s.trace ++ [.released o] } := by
  obtain ⟨pool, hp, h⟩ := Checked.bind_eq_ok.mp h
  obtain ⟨o, ho, _⟩ := WorkPool.freeWorkItem_ok hp
  simp only [ho, Checked.pure_eq_ok] at h
  exact ⟨o, pool, ho, hp, h.symm⟩

/-- How a dispatch ends: the item is armed again or its slot is freed. -/
inductive Settled (frame : Frame) (ret : ReceivePostAction) (s s' : IOUring) : Prop
  | rearmed (item : WorkItem) (sqe : Sqe)
      (htype : frame.type = .accept ∨ frame.type = .recv ∧ ret = .reSubmit)
      (hprep : prepare s.buffers.bufferSize (s.item frame.workItem) = .ok (item, sqe))
      (heq : s' = (s.arm frame.workItem item sqe).cqAdvance)
  | freed (o : Nat) (pool : WorkPool)
      (htype : frame.type ≠ .accept ∧ frame.type ≠ .unknown ∧ (frame.type = .recv → ret = .none))
      (hat : s.pool.at? frame.id = some o) (hfree : s.pool.freeWorkItem frame.id = .ok pool)
      (heq : s' = cqAdvance { s with pool := pool, trace := s.trace ++ [.released o] })

theorem afterHandler_ok {frame : Frame} {ret : ReceivePostAction} {s s' : IOUring}
    (hq : s.sq = []) (h : afterHandler frame ret s = .ok s') : Settled frame ret s s' := by
  obtain ⟨t, ht, he⟩ := Checked.bind_eq_ok.mp h
  cases he
  unfold settle at ht
  have hrearm : frame.type = .accept ∨ frame.type = .recv ∧ ret = .reSubmit →
      s.submit .all .all frame.workItem = .ok t → Settled frame ret s t.cqAdvance := by
    intro htype hs
    obtain ⟨item, sqe, hp, rfl⟩ := submit_ok hq hs
    exact .rearmed item sqe htype hp rfl
  have hfree : frame.type ≠ .accept ∧ frame.type ≠ .unknown ∧ (frame.type = .recv → ret = .none) →
      s.freeWorkItem frame.id = .ok t → Settled frame ret s t.cqAdvance := by
    intro htype hs
    obtain ⟨o, pool, hat, hf, rfl⟩ := freeWorkItem_ok hs
    exact .freed o pool htype hat hf rfl
  cases hft : frame.type with
  | unknown => simp [hft] at ht
  | accept => exact hrearm (.inl hft) (by simpa only [hft] using ht)
  | recv =>
    cases ret with
    | none => exact hfree (by simp [hft]) (by simpa only [hft] using ht)
    | reSubmit => exact hrearm (.inr ⟨hft, rfl⟩) (by simpa only [hft] using ht)
  | close | connect | sendStreamData | sendWorkpacket =>
    exact hfree (by simp [hft]) (by simpa only [hft] using ht)

/-- The frame of the dispatch of this completion to this item. -/
def frameOf (s : IOUring) (cqe : Completion) (o : Nat) : Frame :=
  ⟨o, cqe.userData, (s.item o).workType, cqe.idx⟩

/-- Everything that one poll can do. -/
inductive Polled (s s' : IOUring) : Prop
  | idle (hpending : s.pending = []) (heq : s' = s)
  | missed (cqe : Completion) (rest : List Completion) (hpending : s.pending = cqe :: rest)
      (hat : s.pool.at? cqe.userData = none)
      (heq : s' = (s.emit (.dispatched cqe none)).cqAdvance)
  | exhausted (cqe : Completion) (rest : List Completion) (o : Nat)
      (hpending : s.pending = cqe :: rest) (hat : s.pool.at? cqe.userData = some o)
      (hres : cqe.res = -enobufs) (heq : s' = (s.emit (.dispatched cqe (some o))).cqAdvance)
  | entered (cqe : Completion) (rest : List Completion) (o : Nat) (call : Call)
      (hpending : s.pending = cqe :: rest) (hat : s.pool.at? cqe.userData = some o)
      (hres : cqe.res ≠ -enobufs) (hcall : s.callHandler (s.item o) cqe = .ok (.called call))
      (heq : s' = (s.emit (.dispatched cqe (some o))).enterCallback (s.frameOf cqe o) call)
  | returned (cqe : Completion) (rest : List Completion) (o : Nat) (ret : ReceivePostAction)
      (recycle : Bool) (hpending : s.pending = cqe :: rest)
      (hat : s.pool.at? cqe.userData = some o) (hres : cqe.res ≠ -enobufs)
      (hcall : s.callHandler (s.item o) cqe = .ok (.returned ret recycle))
      (hafter : afterHandler (s.frameOf cqe o) ret
        (if recycle then (s.emit (.dispatched cqe (some o))).recycleBuffer cqe.idx
          else s.emit (.dispatched cqe (some o))) = .ok s')

theorem pollCompletionQueues_ok {s s' : IOUring} (h : s.pollCompletionQueues = .ok s') :
    s.cqHead ≤ s.posted.length ∧ Polled s s' := by
  rw [pollCompletionQueues] at h
  split at h
  · cases h
  · rename_i hle
    refine ⟨Nat.le_of_not_lt hle, ?_⟩
    split at h
    · rename_i hp
      cases h
      exact .idle hp rfl
    · rename_i cqe rest hp
      obtain ⟨found, hf, h⟩ := Checked.bind_eq_ok.mp h
      have hat := WorkPool.getWorkItem_ok hf
      cases found with
      | none =>
        cases h
        exact .missed cqe rest hp hat rfl
      | some o =>
        dsimp only at h
        split at h
        · rename_i hres
          cases h
          exact .exhausted cqe rest o hp hat hres rfl
        · rename_i hres
          obtain ⟨handled, hc, h⟩ := Checked.bind_eq_ok.mp h
          cases handled with
          | called call =>
            cases h
            exact .entered cqe rest o call hp hat hres hc rfl
          | returned ret recycle => exact .returned cqe rest o ret recycle hp hat hres hc h

/-- A dispatch without a callback ends from a state that differs in trace and buffers only. -/
theorem settled_of_returned {cqe : Completion} {o : Nat} {ret : ReceivePostAction} {recycle : Bool}
    {s s' : IOUring} (hq : s.sq = []) (h : afterHandler (s.frameOf cqe o) ret
      (if recycle then (s.emit (.dispatched cqe (some o))).recycleBuffer cqe.idx
        else s.emit (.dispatched cqe (some o))) = .ok s') :
    ∃ buffers, Settled (s.frameOf cqe o) ret
      { s.emit (.dispatched cqe (some o)) with buffers := buffers } s' ∧
      buffers = if recycle then s.buffers.recycleBuffer cqe.idx else s.buffers := by
  cases recycle with
  | false => exact ⟨_, afterHandler_ok hq h, rfl⟩
  | true => exact ⟨_, afterHandler_ok hq h, rfl⟩

/-- The state in which a dispatch goes on after the user's callback. -/
def leaveCallback (frame : Frame) (frames : List Frame) (s : IOUring) : IOUring :=
  let s := { s with frames := frames }
  match frame.type with
  | .sendStreamData | .sendWorkpacket =>
    s.setItem frame.workItem (s.item frame.workItem).cleanSendPacket
  | .recv => s.recycleBuffer frame.idx
  | .unknown | .accept | .connect | .close => s

theorem callbackReturns_ok {ret : ReceivePostAction} {s s' : IOUring}
    (h : s.callbackReturns ret = .ok s') : ∃ frame frames, s.frames = frame :: frames ∧
      afterHandler frame ret (s.leaveCallback frame frames) = .ok s' := by
  rw [callbackReturns] at h
  split at h
  · cases h
  · rename_i frame frames hf
    refine ⟨frame, frames, hf, ?_⟩
    rw [leaveCallback]
    cases ht : frame.type <;> simpa only [ht] using h

theorem submitItem_ok {o : Nat} {set : WorkItem → Result WorkItem} {s s' : IOUring}
    (hq : s.sq = []) (h : s.submitItem o set = .ok s') : ∃ item₀ item sqe,
      set (s.item o) = .ok item₀ ∧ prepare s.buffers.bufferSize item₀ = .ok (item, sqe) ∧
      s' = s.arm o item sqe := by
  obtain ⟨item₀, hset, hs⟩ := Checked.bind_eq_ok.mp h
  obtain ⟨item, sqe, hp, rfl⟩ := submit_ok (s := s.setItem o item₀) hq hs
  refine ⟨item₀, item, sqe, hset, by simpa [IOUring.item, setItem, WorkPool.setItem] using hp, ?_⟩
  simp [arm, setItem, WorkPool.setItem]

theorem allocWorkItem_ok {socket : Socket} {descr : String} {mem : Uninitialized}
    {set : WorkItem → Result WorkItem} {s s' : IOUring} (hq : s.sq = [])
    (h : s.allocWorkItem socket descr mem set = .ok s') : ∃ o pool item₀ item sqe,
      s.pool.internalAllocWorkItem socket descr mem = (o, pool) ∧
      set (pool.objs o) = .ok item₀ ∧ prepare s.buffers.bufferSize item₀ = .ok (item, sqe) ∧
      s' = { s with pool := pool }.arm o item sqe := by
  obtain ⟨_, _, hs⟩ := Checked.bind_eq_ok.mp h
  obtain ⟨item₀, item, sqe, hset, hp, rfl⟩ := submitItem_ok
    (s := { s with pool := (s.pool.internalAllocWorkItem socket descr mem).2 }) hq hs
  exact ⟨_, _, item₀, item, sqe, rfl, hset, hp, rfl⟩

/-- A stream send allocates and submits as the submit functions do. -/
theorem send_eq (socket : Socket) (msg : StdString) (cb : CallbackFn) (mem : Uninitialized)
    (s : IOUring) (retry final : Flush := .all) : s.send socket msg cb mem retry final =
      s.allocWorkItem socket "write-from-socket" mem (fun item => do
        let item ← item.getSendPacket.append msg.bytes
        return item.submitStreamData cb) retry final := by
  rw [send, ackuireSendWorkitem, allocWorkItem]
  by_cases hi : s.initialized = true <;> simp [hi, assert, Checked.ensure, bind, Except.bind, pure,
    Except.pure]

/-- What a finished request leaves in memory. -/
inductive Delivered (req : Request) (k : Outcome) (s t : IOUring) : Prop
  | nothing (hop : req.sqe.op.isRecv = true → k.flags &&& Completion.cqeFBuffer = 0)
      (hpeer : req.sqe.op.workType = .accept → k.res < 0) (heq : t = s)
  | peer (hres : 0 ≤ k.res) (hop : req.sqe.op.workType = .accept)
      (heq : t = s.setItem req.owner (acceptPeer k.peer (s.item req.owner)))
  | buffer (buf : Buf) (ring : BufRing) (hop : req.sqe.op.isRecv = true)
      (hflag : k.flags &&& Completion.cqeFBuffer ≠ 0)
      (hpick : s.buffers.bufRing.pick = some (buf, ring)) (hid : (k.flags >>> 16).toNat = buf.bid)
      (heq : t = { s with
        buffers := { s.buffers with bufRing := ring }
        memory := Memory.overlay s.memory buf.addr buf.len k.data })

theorem receive_ok {req : Request} {k : Outcome} {s t : IOUring} (hop : req.sqe.op.isRecv = true)
    (hflag : k.flags &&& Completion.cqeFBuffer ≠ 0) (h : s.receive k = .ok t) :
    Delivered req k s t := by
  rw [receive] at h
  split at h
  · cases h
  · rename_i buf ring hp
    obtain ⟨_, hid, he⟩ := Checked.bind_eq_ok.mp h
    cases he
    exact .buffer buf ring hop hflag hp (by simpa using hid) rfl

theorem deliver_ok {req : Request} {k : Outcome} {s t : IOUring} (h : s.deliver req k = .ok t) :
    Delivered req k s t := by
  rw [deliver] at h
  cases hop : req.sqe.op with
  | accept fd =>
    simp only [hop] at h
    split at h
    · rename_i hr
      cases h
      exact .peer hr (by simp [hop, Op.workType]) rfl
    · rename_i hr
      cases h
      exact .nothing (by simp [hop, Op.isRecv]) (fun _ => Int.lt_of_not_ge hr) rfl
  | recv _ _ | recvmsgMultishot _ =>
    simp only [hop] at h
    split at h
    · rename_i hf
      exact receive_ok (by simp [hop, Op.isRecv]) hf h
    · rename_i hf
      cases h
      exact .nothing (fun _ => by simpa using hf) (by simp [hop, Op.workType]) rfl
  | close _ | connect _ _ | send _ _ | sendmsg _ =>
    simp only [hop] at h
    cases h
    exact .nothing (by simp [hop, Op.isRecv]) (by simp [hop, Op.workType]) rfl

end IOUring

namespace Action

/-- The socket for which a call makes a new item and submits it. -/
def opens : Action → Option Socket
  | .submitAccept socket _ _ | .submitConnect socket _ _ _ | .submitRecv socket _ _
  | .submitClose socket _ _ | .send socket _ _ _ => some socket
  | _ => none

/-- The held item that a call submits. -/
def submits : Action → Option Nat
  | .submitStreamData o _ | .submitPacket o _ _ => some o
  | _ => none

def polls : Action → Bool
  | .pollCompletionQueues => true
  | _ => false

def returns : Action → Option ReceivePostAction
  | .callbackReturns ret => some ret
  | _ => none

end Action

namespace IOUring

/-- Everything that one step can do. -/
inductive Stepped (s s' : IOUring) : Action → Prop
  | opened {a : Action} (socket : Socket) (descr : String) (mem : Uninitialized) (o : Nat)
      (pool : WorkPool) (item₀ item : WorkItem) (sqe : Sqe) (hopens : a.opens = some socket)
      (halloc : s.pool.internalAllocWorkItem socket descr mem = (o, pool))
      (hsame : SameIdentity (pool.objs o) item₀)
      (hprep : prepare s.buffers.bufferSize item₀ = .ok (item, sqe))
      (heq : s' = { s with pool := pool }.arm o item sqe) : Stepped s s' a
  | acquired (socket : Socket) (mem : Uninitialized) (o : Nat) (pool : WorkPool)
      (halloc : s.pool.internalAllocWorkItem socket "write-from-socket" mem = (o, pool))
      (heq : s' = { s with pool := pool, handles := o :: s.handles }) :
      Stepped s s' (.ackuireSendWorkitem socket mem)
  | edited {a : Action} (o : Nat) (packet : SendPacket) (hheld : o ∈ s.handles)
      (hopens : a.opens = none) (hsubmits : a.submits = none)
      (heq : s' = s.setItem o { s.item o with sendPacket := packet }) : Stepped s s' a
  | submitted {a : Action} (o : Nat) (item₀ item : WorkItem) (sqe : Sqe)
      (hsubmits : a.submits = some o) (hheld : o ∈ s.handles)
      (hsame : SameIdentity (s.item o) item₀)
      (htype : item₀.workType = .sendStreamData ∨ item₀.workType = .sendWorkpacket)
      (hprep : prepare s.buffers.bufferSize item₀ = .ok (item, sqe))
      (heq : s' = s.arm o item sqe) : Stepped s s' a
  | polled (hhead : s.cqHead ≤ s.posted.length) (hpoll : Polled s s') :
      Stepped s s' .pollCompletionQueues
  | returned (ret : ReceivePostAction) (frame : Frame) (frames : List Frame)
      (hframes : s.frames = frame :: frames)
      (hafter : afterHandler frame ret (s.leaveCallback frame frames) = .ok s') :
      Stepped s s' (.callbackReturns ret)
  | completed (i : Nat) (k : Outcome) (req : Request) (t : IOUring)
      (harmed : s.armed[i]? = some req) (hfree : s.blocked req = false)
      (hdeliver : Delivered req k s t)
      (heq : s' = { t with
        armed := if req.sqe.op.isMultishot ∧ (s.completion req k).hasMore then s.armed
          else s.armed.eraseIdx i
        posted := s.posted ++ [s.completion req k] }) : Stepped s s' (.complete i k)

theorem stepped_of_alloc {a : Action} {socket : Socket} {descr : String} {mem : Uninitialized}
    {set : WorkItem → Result WorkItem} {s s' : IOUring} (hq : s.sq = [])
    (hopens : a.opens = some socket)
    (hset : ∀ item item', set item = .ok item' → SameIdentity item item')
    (h : s.allocWorkItem socket descr mem set = .ok s') : Stepped s s' a := by
  obtain ⟨o, pool, item₀, item, sqe, ha, hs, hp, he⟩ := allocWorkItem_ok hq h
  exact .opened socket descr mem o pool item₀ item sqe hopens ha (hset _ _ hs) hp he

theorem onHandle_ok {o : Nat} {f : IOUring → Result IOUring} {s s' : IOUring}
    (h : s.onHandle o f = .ok s') : o ∈ s.handles ∧ f s = .ok s' := by
  obtain ⟨_, hm, hf⟩ := Checked.bind_eq_ok.mp h
  exact ⟨by simpa using hm, hf⟩

theorem complete_ok {i : Nat} {k : Outcome} {s s' : IOUring} (h : s.complete i k = .ok s') :
    ∃ req t, s.armed[i]? = some req ∧ s.blocked req = false ∧ Delivered req k s t ∧ s' = { t with
      armed := if req.sqe.op.isMultishot ∧ (s.completion req k).hasMore then s.armed
        else s.armed.eraseIdx i
      posted := s.posted ++ [s.completion req k] } := by
  rw [complete] at h
  split at h
  · cases h
  · rename_i req hr
    obtain ⟨_, hb, h1⟩ := Checked.bind_eq_ok.mp h
    obtain ⟨t, ht, h2⟩ := Checked.bind_eq_ok.mp h1
    simp only [Checked.pure_eq_ok] at h2
    have hd := deliver_ok ht
    have harmed : t.armed = s.armed ∧ t.posted = s.posted := by
      cases hd with
      | nothing _ _ heq | peer _ _ heq | buffer _ _ _ _ _ _ heq => exact heq ▸ ⟨rfl, rfl⟩
    rw [harmed.1, harmed.2] at h2
    exact ⟨req, t, hr, by simpa using hb, hd, h2.symm⟩

theorem step_ok {a : Action} {s s' : IOUring} (hq : s.sq = []) (h : step a s = .ok s') :
    Stepped s s' a := by
  cases a with
  | submitAccept socket handler mem =>
    obtain ⟨_, _, hs⟩ := Checked.bind_eq_ok.mp h
    exact stepped_of_alloc hq rfl (fun _ _ he => by cases he; exact ⟨rfl, rfl, rfl, rfl⟩) hs
  | submitConnect socket target handler mem =>
    refine stepped_of_alloc hq rfl (fun item item' he => ?_) h
    obtain ⟨_, _, h1⟩ := Checked.bind_eq_ok.mp he
    obtain ⟨_, _, h2⟩ := Checked.bind_eq_ok.mp h1
    obtain ⟨_, _, h3⟩ := Checked.bind_eq_ok.mp h2
    cases h3
    exact ⟨rfl, rfl, rfl, rfl⟩
  | submitRecv socket handler mem =>
    exact stepped_of_alloc hq rfl (fun _ _ he => by cases he; exact ⟨rfl, rfl, rfl, rfl⟩) h
  | submitClose socket handler mem =>
    exact stepped_of_alloc hq rfl (fun _ _ he => by cases he; exact ⟨rfl, rfl, rfl, rfl⟩) h
  | send socket msg cb mem =>
    refine stepped_of_alloc hq rfl (fun item item' he => ?_) ((send_eq socket msg cb mem s).symm.trans h)
    obtain ⟨_, h1, h2⟩ := Checked.bind_eq_ok.mp he
    obtain ⟨_, _, h3⟩ := Checked.bind_eq_ok.mp h1
    cases h3
    cases h2
    exact ⟨rfl, rfl, rfl, rfl⟩
  | ackuireSendWorkitem socket mem =>
    obtain ⟨⟨o, t⟩, ha, ht⟩ := Checked.bind_eq_ok.mp h
    obtain ⟨_, _, ha'⟩ := Checked.bind_eq_ok.mp ha
    cases ha'
    cases ht
    exact .acquired socket mem _ _ rfl rfl
  | getSendPacket o =>
    simp only [step, flushedStep] at h
    obtain ⟨hm, hf⟩ := onHandle_ok h
    cases hf
    exact .edited o (s.item o).sendPacket.reset hm rfl rfl rfl
  | append o data =>
    simp only [step, flushedStep] at h
    obtain ⟨hm, hf⟩ := onHandle_ok h
    obtain ⟨item, hi, ht⟩ := Checked.bind_eq_ok.mp hf
    obtain ⟨packet, _, hp⟩ := Checked.bind_eq_ok.mp hi
    cases hp
    cases ht
    exact .edited o packet hm rfl rfl rfl
  | submitStreamData o cb =>
    simp only [step, flushedStep] at h
    obtain ⟨hm, hf⟩ := onHandle_ok h
    obtain ⟨item₀, item, sqe, hs, hp, he⟩ := submitItem_ok hq hf
    cases hs
    exact .submitted o ((s.item o).submitStreamData cb) item sqe rfl hm ⟨rfl, rfl, rfl, rfl⟩
      (.inl rfl) hp he
  | submitPacket o params cb =>
    simp only [step, flushedStep] at h
    obtain ⟨hm, hf⟩ := onHandle_ok h
    obtain ⟨item₀, item, sqe, hs, hp, he⟩ := submitItem_ok hq hf
    cases hs
    exact .submitted o ((s.item o).submitPacket params cb) item sqe rfl hm ⟨rfl, rfl, rfl, rfl⟩
      (.inr rfl) hp he
  | pollCompletionQueues =>
    obtain ⟨hle, hp⟩ := pollCompletionQueues_ok h
    exact .polled hle hp
  | callbackReturns ret =>
    obtain ⟨frame, frames, hf, ha⟩ := callbackReturns_ok h
    exact .returned ret frame frames hf ha
  | complete i outcome =>
    obtain ⟨req, t, hr, hb, hd, he⟩ := complete_ok h
    exact .completed i outcome req t hr hb hd he

end IOUring

end Iuring
