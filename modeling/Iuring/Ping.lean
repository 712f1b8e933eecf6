import Iuring.Client

namespace Iuring

open Lib

namespace Ping

def onConnect : CallbackFn := 0

def onSent : CallbackFn := 1

def onReceived : CallbackFn := 2

def onClosed : CallbackFn := 3

def submitConnect (socket : Socket) (pingAddr : IPAddress) : Line where
  act mem _ := .submitConnect socket pingAddr onConnect mem
  isCall _ _ := rfl

def ackuireSendWorkitem (socket : Socket) : Line where
  act mem _ := .ackuireSendWorkitem socket mem
  isCall _ _ := rfl

/-- The item that was acquired last. -/
def wi (s : IOUring) : Nat := s.handles.headD 0

def getSendPacket : Line where
  act _ s := .getSendPacket (wi s)
  isCall _ _ := rfl

/-- The characters of a literal of the program. -/
def utf8 (str : String) : List Memory.Byte := str.toByteArray.toList.map UInt8.toBitVec

def append (text : String) : Line where
  act _ s := .append (wi s) (utf8 text)
  isCall _ _ := rfl

def submitStreamData : Line where
  act _ s := .submitStreamData (wi s) onSent
  isCall _ _ := rfl

def submitRecv (socket : Socket) : Line where
  act mem _ := .submitRecv socket onReceived mem
  isCall _ _ := rfl

def submitClose (socket : Socket) : Line where
  act mem _ := .submitClose socket onClosed mem
  isCall _ _ := rfl

/-- The packet is written before its item is submitted. -/
def writes : List Line :=
  [getSendPacket, append "GET /posts/1 HTTP/1.1\r\n", append "Host: example.com\r\n",
    append "Accept: application/json\r\n", append "\r\n"]

def handleNewConnection (socket : Socket) : List Line :=
  ackuireSendWorkitem socket :: (writes ++ [submitStreamData])

def handlePacketSent (socket : Socket) : List Line := [submitRecv socket]

/-- The callback of close sets connection_has_been_closed, which ends the loop. -/
def connectionHasBeenClosed : Event → Bool
  | .called _ ⟨_, .close _⟩ => true
  | _ => false

def doHttpPing (socket : Socket) (pingAddr : IPAddress) : Client where
  start := [submitConnect socket pingAddr]
  body call :=
    match call.result with
    | .connect res => do
      assert (res.status = 0)
      return (handleNewConnection socket, .none)
    | .send _ => return (handlePacketSent socket, .none)
    | .recv _ => return ([submitClose socket], .none)
    | .close res => do
      assert (res.status = 0)
      return ([], .none)
    | .accept _ => return ([], .none)
  polls events := !events.any connectionHasBeenClosed

end Ping

/-- The item whose callback is called. -/
def Event.callee : Event → Option Nat
  | .called o _ => some o
  | .submitted _ | .dispatched _ _ | .released _ => none

theorem Event.callee_of_callback {e : Event} (h : e.callback = none) : e.callee = none := by
  cases e with
  | called => cases h
  | submitted | dispatched | released => rfl

namespace IOUring

variable {s t : IOUring} {a : Action} {kinds : List WorkType} {gone called out : Nat}

def callees (s : IOUring) : List Nat := s.trace.filterMap Event.callee

/-- Each call of a callback has a result of the item's kind. -/
def Answers (kinds : List WorkType) (trace : List Event) : Prop :=
  ∀ o call, .called o call ∈ trace → ∃ type cqe, kinds[o]? = some type ∧ call.result.Fits type cqe

theorem Answers.append {trace events : List Event} (h : Answers kinds trace)
    (hquiet : events.findSome? Event.callback = none) : Answers kinds (trace ++ events) := by
  intro o call hm
  obtain hm | hm := List.mem_append.mp hm
  · exact h o call hm
  · cases List.findSome?_eq_none_iff.mp hquiet _ hm

/-- A longer list of kinds, and one in which an item that was not submitted yet has its kind. -/
theorem Answers.mono {trace : List Event} (h : Answers kinds trace) {kinds' : List WorkType}
    (hkinds : ∀ (o : Nat) (type : WorkType),
      kinds[o]? = some type → type ≠ .unknown → kinds'[o]? = some type) :
    Answers kinds' trace := by
  intro o call hm
  obtain ⟨type, cqe, htype, hfits⟩ := h o call hm
  refine ⟨type, cqe, hkinds o type htype ?_, hfits⟩
  rintro rfl
  cases hresult : call.result <;> rw [hresult] at hfits <;> cases hfits.1

/-- The kinds of all items, how many of the first ones have left the pool, how many had their
callbacks called, each once and in order, and a bound on the requests that are out. -/
structure Standing (s : IOUring) (kinds : List WorkType) (gone called out : Nat) : Prop where
  dispatching : Dispatching s
  listed : (List.range s.pool.nextObj).map s.kind = kinds
  stream : ∀ o < s.pool.nextObj, (s.item o).isStream = true
  seats : ∀ o, s.Seated o → gone ≤ o
  callees : s.callees = List.range called
  answers : Answers kinds s.trace
  out : s.desk.outstanding.length ≤ out

theorem Standing.next (h : Standing s kinds gone called out) : s.pool.nextObj = kinds.length := by
  rw [← h.listed, List.length_map, List.length_range]

theorem Standing.kind (h : Standing s kinds gone called out) {o : Nat} (ho : o < kinds.length) :
    s.kind o = kinds[o] := by
  have hlt : o < s.pool.nextObj := h.next ▸ ho
  simp only [← h.listed, List.getElem_map, List.getElem_range]

theorem stream_extends (he : s.pool.Extends t.pool) (h : ∀ o < s.pool.nextObj,
    (s.item o).isStream = true) : ∀ o < s.pool.nextObj, (t.item o).isStream = true := by
  intro o ho
  have hsocket : (t.item o).socket = (s.item o).socket := (he.evolves o ho).socket
  rw [WorkItem.isStream, hsocket]
  exact h o ho

theorem Standing.single_shot (h : Standing s kinds gone called out) {req : Request}
    (hr : req ∈ s.desk.outstanding) : req.sqe.op.isMultishot = false := by
  have ho := h.dispatching.sound.outstanding hr
  by_contra hm
  have hstream : (s.item req.owner).isStream = false := ho.multishot (Bool.not_eq_false _ ▸ hm)
  rw [h.stream req.owner ho.lt] at hstream
  cases hstream

theorem callees_append {events : List Event} (htrace : t.trace = s.trace ++ events)
    (hquiet : events.findSome? Event.callback = none) : t.callees = s.callees := by
  rw [List.findSome?_eq_none_iff] at hquiet
  have hnone : events.filterMap Event.callee = [] :=
    List.filterMap_eq_nil_iff.mpr fun e hm => Event.callee_of_callback (hquiet e hm)
  rw [IOUring.callees, htrace, List.filterMap_append, hnone, List.append_nil, IOUring.callees]

/-- A step that makes no item and calls no callback. -/
theorem Standing.of_ledger (h : Standing s kinds gone called out) (hd : Dispatching t)
    (he : s.pool.Extends t.pool) (hnext : t.pool.nextObj = s.pool.nextObj)
    (hkind : t.kind = s.kind) {events : List Event} (htrace : t.trace = s.trace ++ events)
    (hquiet : events.findSome? Event.callback = none) {gone' out' : Nat}
    (hseats : ∀ o, t.Seated o → gone' ≤ o) (hout : t.desk.outstanding.length ≤ out') :
    Standing t kinds gone' called out' := by
  refine ⟨hd, ?_, ?_, hseats, (callees_append htrace hquiet).trans h.callees,
    htrace ▸ h.answers.append hquiet, hout⟩
  · rw [hnext, hkind]
    exact h.listed
  · rw [hnext]
    exact stream_extends he h.stream

theorem outstanding_settle_length {cqe : Completion} {rest : List Completion}
    (h : s.pending = cqe :: rest) :
    s.desk.settle.outstanding.length + 1 = s.desk.outstanding.length := by
  rw [(Desk.outstanding_settle (answers_eq h)).length_eq, List.length_cons]

/-- A step that is no call and enters no callback. -/
theorem Standing.kept (h : Standing s kinds gone called out) (hcall : a.isCall = false)
    (hun : s.Unnested a) (hs : IOUring.step a s = .ok t) (hquiet : Client.entered s t = none) :
    Standing t kinds gone called out := by
  obtain ⟨ht, hd⟩ := h.dispatching.step hun hs
  have he := (step_ok h.dispatching.sound.sq hs).extends h.dispatching.sound
  have hsame : ∀ {events : List Event} {d : Desk Nat Nat Request}, t.trace = s.trace ++ events →
      t.pool.nextObj = s.pool.nextObj → t.kind = s.kind → t.desk = d →
      (∀ i o, d.holder i = some o → s.desk.holder i = some o) →
      d.outstanding.length ≤ s.desk.outstanding.length → Standing t kinds gone called out := by
    rintro events d htrace hnext hkind rfl hslot hout
    exact h.of_ledger hd he hnext hkind htrace ((Client.entered_eq htrace).symm.trans hquiet)
      (fun o ⟨i, hi⟩ => h.seats o ⟨i, hslot i o hi⟩) (hout.trans h.out)
  cases ht with
  | opened _ _ hopens => rw [Action.isCall_of_opens hopens] at hcall; cases hcall
  | submitted _ hsubmits => rw [Action.isCall_of_submits hsubmits] at hcall; cases hcall
  | acquired => cases hcall
  | edited _ _ heq | idle heq =>
    exact hsame ((congrArg Ledger.trace heq).trans (List.append_nil _).symm)
      (congrArg Ledger.next heq) (congrArg Ledger.kind heq) (congrArg Ledger.desk heq)
      (fun _ _ hi => hi) le_rfl
  | missed cqe rest _ hp _ heq | exhausted cqe rest _ _ hp _ _ heq =>
    have hlen := outstanding_settle_length hp
    exact hsame (congrArg Ledger.trace heq) (congrArg Ledger.next heq) (congrArg Ledger.kind heq)
      (congrArg Ledger.desk heq) (fun _ _ hi => hi) (Nat.le_of_succ_le hlen.le)
  | entered cqe rest o call _ _ _ _ _ heq =>
    rw [Client.entered_eq (congrArg Ledger.trace heq)] at hquiet
    cases hquiet
  | rearmed cqe rest o type ret events req hend _ _ _ _ heq =>
    have hlen := outstanding_settle_length hend.pending
    refine hsame ((congrArg Ledger.trace heq).trans (List.append_assoc _ _ _))
      (congrArg Ledger.next heq) (congrArg Ledger.kind heq) (congrArg Ledger.desk heq)
      (fun _ _ hi => hi) ?_
    rw [Desk.outstanding_issue.length_eq, List.length_cons]
    exact hlen.le
  | freed cqe rest o type ret events hend htype heq =>
    have hlen := outstanding_settle_length hend.pending
    exact hsame ((congrArg Ledger.trace heq).trans (List.append_assoc _ _ _))
      (congrArg Ledger.next heq) (congrArg Ledger.kind heq) (congrArg Ledger.desk heq)
      (fun _ _ hi => (Desk.holder_of_vacate hi).2)
      (Nat.le_of_succ_le hlen.le)
  | completed i k req harmed heq =>
    have hreq : req ∈ s.desk.outstanding := List.mem_append_left _ (List.mem_of_getElem? harmed)
    refine hsame ((congrArg Ledger.trace heq).trans (List.append_nil _).symm)
      (congrArg Ledger.next heq) (congrArg Ledger.kind heq) (congrArg Ledger.desk heq)
      (fun _ _ hi => hi) ?_
    rw [h.single_shot hreq, Bool.false_and]
    exact (Desk.outstanding_answer (d := s.desk) harmed).length_eq.le

/-- The callback of the last item in the pool returns, and lets go of it. -/
theorem Standing.returned (h : Standing s kinds gone called (out + 1)) {frame : Frame}
    (hframes : s.frames = [frame]) (hitem : frame.workItem = gone) (htype : frame.type ≠ .accept)
    (hs : IOUring.step (.callbackReturns .none) s = .ok t) (hin : t.frames = []) :
    Standing t kinds (gone + 1) called out := by
  obtain ⟨ht, hd⟩ := h.dispatching.step (fun hp => (by cases hp)) hs
  have he := (step_ok h.dispatching.sound.sq hs).extends h.dispatching.sound
  have hsource : ∀ {cqe : Completion} {rest : List Completion} {o : Nat} {type : WorkType}
      {ret : ReceivePostAction} {events : List Event},
      s.Ending cqe rest o type ret events (.callbackReturns .none) →
        ret = .none ∧ events = [] ∧ gone = o ∧ frame.type = type := by
    intro cqe rest o type ret events hend
    obtain ⟨ha, _⟩ | ⟨ha, hevents, frame', hf, ho, hty⟩ := hend.source
    · cases ha
    · obtain rfl := (List.cons_eq_cons.mp (hframes.symm.trans hf)).1
      cases ha
      exact ⟨rfl, hevents, hitem.symm.trans ho, hty⟩
  cases ht with
  | opened _ _ hopens => cases hopens
  | submitted _ hsubmits => cases hsubmits
  | edited _ _ heq =>
    have hframes' : t.frames = s.frames := congrArg Ledger.frames heq
    rw [hin, hframes] at hframes'
    cases hframes'
  | rearmed cqe rest o type ret events req hend hre _ _ _ heq =>
    obtain ⟨rfl, _, _, hty⟩ := hsource hend
    obtain rfl | ⟨_, hret⟩ := hre
    · exact absurd hty htype
    · cases hret
  | freed cqe rest o type ret events hend _ heq =>
    obtain ⟨_, rfl, rfl, _⟩ := hsource hend
    have hlen := outstanding_settle_length hend.pending
    have hslot : t.pool.at? = (s.desk.vacate cqe.userData).holder :=
      congrArg (fun l => l.desk.holder) heq
    have hgone : ¬t.Seated gone := h.dispatching.sound.unseated_vacate hslot hend.holds
    have hout : t.desk.outstanding.length ≤ out := by
      have hdesk : t.desk = s.desk.settle.vacate cqe.userData := congrArg Ledger.desk heq
      have hle : s.desk.settle.outstanding.length ≤ out := by
        have := h.out
        omega
      rw [hdesk]
      exact hle
    refine h.of_ledger hd he (congrArg Ledger.next heq) (congrArg Ledger.kind heq)
      ((congrArg Ledger.trace heq).trans (List.append_assoc _ _ _)) rfl (fun o ho => ?_) hout
    have hback : s.Seated o := by
      obtain ⟨i, hi⟩ := ho
      rw [hslot] at hi
      exact ⟨i, (Desk.holder_of_vacate (d := s.desk) hi).2⟩
    have hne : o ≠ gone := fun heq => hgone (heq ▸ ho)
    have hge := h.seats o hback
    omega

theorem Standing.entered (h : Standing s kinds gone called out)
    (hs : IOUring.step .pollCompletionQueues s = .ok t) (hframes : s.frames = []) {cqe : Completion}
    {o : Nat} {call : Call} (hat : s.pool.at? cqe.userData = some o)
    (hcall : s.callHandler (s.item o) cqe = .ok (.called call))
    (hledger : t.ledger = { s.ledger with
      frames := [s.frameOf cqe o]
      trace := s.trace ++ [.dispatched cqe (some o), .called o call] })
    (ho : o = called) : Standing t kinds gone (called + 1) out := by
  have hd := (h.dispatching.step (fun _ => hframes) hs).2
  have he := (step_ok h.dispatching.sound.sq hs).extends h.dispatching.sound
  have hnext : t.pool.nextObj = s.pool.nextObj := congrArg Ledger.next hledger
  have hkind : t.kind = s.kind := congrArg Ledger.kind hledger
  have htrace : t.trace = s.trace ++ [.dispatched cqe (some o), .called o call] :=
    congrArg Ledger.trace hledger
  have hdesk : t.desk = s.desk := congrArg Ledger.desk hledger
  refine ⟨hd, ?_, ?_, fun o' ⟨i, hi⟩ => ?_, ?_, fun o' call' hm => ?_, ?_⟩
  · rw [hnext, hkind]
    exact h.listed
  · rw [hnext]
    exact stream_extends he h.stream
  · have hslot : t.pool.at? = s.pool.at? := congrArg Desk.holder hdesk
    exact h.seats o' ⟨i, hslot ▸ hi⟩
  · rw [IOUring.callees, htrace, List.filterMap_append, List.range_succ, ← ho]
    exact congrArg (fun cs => cs ++ [o]) (ho ▸ h.callees)
  · rw [htrace] at hm
    obtain hm | hm := List.mem_append.mp hm
    · exact h.answers o' call' hm
    · simp only [List.mem_cons, reduceCtorEq, Event.called.injEq, List.not_mem_nil, or_false,
        false_or] at hm
      obtain ⟨rfl, rfl⟩ := hm
      have hlt : o' < kinds.length := h.next ▸ (h.dispatching.sound.pool.live _ _ hat).1
      exact ⟨s.kind o', cqe, h.kind hlt ▸ List.getElem?_eq_getElem hlt, fits_of_called hcall⟩
  · rw [hdesk]
    exact h.out

/-- The new item of a call is for the socket that the call names. -/
theorem Sound.socket_of_opens (h : Sound s) {socket : Socket} (hopens : a.opens = some socket)
    (hs : Stepped s t a) : (t.item s.pool.nextObj).socket = socket := by
  cases hs with
  | opened socket' _ _ o _ item₀ item _ hopens' halloc hsame hprep heq =>
    obtain ⟨rfl, _, id, _, hobjs, _⟩ := WorkPool.internalAlloc_spec h.pool halloc
    have hitem : t.item s.pool.nextObj = item := by rw [heq, item_arm, if_pos rfl]
    rw [hobjs, Function.update_self] at hsame
    rw [hitem, (prepare_ok hprep).1.same.socket, hsame.socket]
    exact Option.some.inj (hopens'.symm.trans hopens)
  | acquired | polled | returned | completed => cases hopens
  | edited _ _ _ hnone => cases hnone.symm.trans hopens
  | submitted _ _ _ _ hsubmits =>
    cases a with
    | submitStreamData | submitPacket => cases hopens
    | submitAccept | submitConnect | submitRecv | submitClose | send | ackuireSendWorkitem
    | getSendPacket | append | pollCompletionQueues | callbackReturns | complete => cases hsubmits

/-- A step that makes one item, for a stream, and calls no callback. -/
theorem Standing.grown (h : Standing s kinds gone called out) (hgone : gone ≤ kinds.length)
    (hcall : a.isCall = true) (hs : IOUring.step a s = .ok t) {kind : WorkType}
    (hnext : t.pool.nextObj = s.pool.nextObj + 1)
    (hkind : t.kind = Function.update s.kind s.pool.nextObj kind)
    (hstream : (t.item s.pool.nextObj).isStream = true) {events : List Event}
    (htrace : t.trace = s.trace ++ events) (hquiet : events.findSome? Event.callback = none)
    {out' : Nat} (hout : t.desk.outstanding.length ≤ out') :
    Standing t (kinds ++ [kind]) gone called out' := by
  have hd := (h.dispatching.step (unnested_of_isCall hcall) hs).2
  have he := (step_ok h.dispatching.sound.sq hs).extends h.dispatching.sound
  have hanswers : Answers (kinds ++ [kind]) t.trace := by
    rw [htrace]
    refine (h.answers.mono fun o type htype _ => ?_).append hquiet
    rw [List.getElem?_append_left (List.getElem?_eq_some_iff.mp htype).1]
    exact htype
  refine ⟨hd, ?_, fun o ho => ?_, fun o ho => ?_, (callees_append htrace hquiet).trans h.callees,
    hanswers, hout⟩
  · rw [hnext, List.range_succ, List.map_append, hkind, ← h.listed]
    refine congrArg₂ _ (List.map_congr_left fun o ho => ?_) ?_
    · exact Function.update_of_ne (List.mem_range.mp ho).ne _ _
    · rw [List.map_singleton, Function.update_self]
  · rw [hnext] at ho
    obtain ho | rfl := Nat.lt_succ_iff_lt_or_eq.mp ho
    · exact stream_extends he h.stream o ho
    · exact hstream
  · obtain ho | rfl := h.dispatching.seated_of_call hcall hs ho
    · exact h.seats o ho
    · rw [h.next]
      exact hgone

/-- A call that makes an item for a stream and submits it. -/
theorem Standing.opened (h : Standing s kinds gone called out) (hgone : gone ≤ kinds.length)
    {socket : Socket} (hopens : a.opens = some socket) (hstream : socket.isStream = true)
    (hs : IOUring.step a s = .ok t) {item : WorkItem} {req : Request} (ho : Opened s t item req) :
    Standing t (kinds ++ [item.workType]) gone called (out + 1) := by
  have hcall := Action.isCall_of_opens hopens
  have hst := step_ok h.dispatching.sound.sq hs
  obtain ⟨req', hfresh, heq⟩ := h.dispatching.ledger_of_opens hopens hs
  have hkind : t.kind = Function.update s.kind s.pool.nextObj req'.sqe.op.workType :=
    hfresh ▸ congrArg Ledger.kind heq
  have htype : item.workType = req'.sqe.op.workType := by
    have hnew : t.kind s.pool.nextObj = item.workType := ho.owner ▸ ho.kind
    rw [← hnew, hkind, Function.update_self]
  have htrace : t.trace = s.trace ++ [.submitted req'] := congrArg Ledger.trace heq
  refine h.grown hgone hcall hs ho.next (htype ▸ hkind) ?_ htrace rfl ?_
  · rw [WorkItem.isStream, h.dispatching.sound.socket_of_opens hopens hst]
    exact hstream
  · have hdesk : t.desk = (s.desk.assign req'.id req'.owner).issue req' := congrArg Ledger.desk heq
    rw [hdesk, Desk.outstanding_issue.length_eq]
    exact Nat.succ_le_succ h.out

theorem acquired_ok {socket : Socket} {mem : Uninitialized}
    (hs : IOUring.step (.ackuireSendWorkitem socket mem) s = .ok t) : ∃ o pool,
    s.pool.internalAllocWorkItem socket "write-from-socket" mem = (o, pool) ∧
      t = { s with pool := pool, handles := o :: s.handles } := by
  obtain ⟨⟨o, t'⟩, hacquire, hheld⟩ := Checked.bind_eq_ok.mp hs
  obtain ⟨_, _, halloc⟩ := Checked.bind_eq_ok.mp hacquire
  cases halloc
  cases hheld
  exact ⟨_, _, rfl, rfl⟩

/-- A call that makes an item for a stream, to be written and submitted later. -/
theorem Standing.acquired (h : Standing s kinds gone called out) (hgone : gone ≤ kinds.length)
    {socket : Socket} (hstream : socket.isStream = true) {mem : Uninitialized}
    (hs : IOUring.step (.ackuireSendWorkitem socket mem) s = .ok t) :
    Standing t (kinds ++ [.unknown]) gone called out ∧ t.handles = kinds.length :: s.handles ∧
      t.frames = s.frames := by
  have hstep := hs
  obtain ⟨o, pool, halloc, rfl⟩ := acquired_ok hs
  obtain ⟨rfl, hnext, id, _, hobjs, _⟩ :=
    WorkPool.internalAlloc_spec h.dispatching.sound.pool halloc
  refine ⟨h.grown hgone rfl hstep hnext (funext fun o' => ?_) ?_ (List.append_nil _).symm rfl h.out,
    ?_, rfl⟩
  · simp only [IOUring.kind, IOUring.item, hobjs, Function.update_apply]
    split <;> rfl
  · simp only [IOUring.item, hobjs, Function.update_self]
    exact hstream
  · rw [h.next]

/-- A call that writes to the item it holds. -/
theorem Standing.edited (h : Standing s kinds gone called out) (hcall : a.isCall = true)
    (hquiet : a.allocates = false ∧ a.submits = none) (hs : IOUring.step a s = .ok t) :
    Standing t kinds gone called out ∧ t.handles = s.handles ∧ t.frames = s.frames := by
  obtain ⟨ht, hd⟩ := h.dispatching.step (unnested_of_isCall hcall) hs
  have he := (step_ok h.dispatching.sound.sq hs).extends h.dispatching.sound
  cases ht with
  | edited _ _ heq =>
    have hdesk : t.desk = s.desk := congrArg Ledger.desk heq
    have hslot : t.pool.at? = s.pool.at? := congrArg Desk.holder hdesk
    refine ⟨h.of_ledger hd he (congrArg Ledger.next heq) (congrArg Ledger.kind heq)
      ((congrArg Ledger.trace heq).trans (List.append_nil _).symm) rfl (fun o ⟨i, hi⟩ => ?_) ?_,
      congrArg Ledger.handles heq, congrArg Ledger.frames heq⟩
    · exact h.seats o ⟨i, hslot ▸ hi⟩
    · rw [hdesk]
      exact h.out
  | opened _ _ hopens => rw [Action.allocates_of_opens hopens] at hquiet; cases hquiet.1
  | acquired => cases hquiet.1
  | submitted _ hsubmits => rw [hsubmits] at hquiet; cases hquiet.2
  | idle | missed | exhausted | entered | completed => cases hcall
  | rearmed _ _ _ _ _ _ _ hend | freed _ _ _ _ _ _ hend =>
    obtain ⟨rfl, _⟩ | ⟨rfl, _⟩ := hend.source <;> cases hcall

theorem Standing.submitted (h : Standing s (kinds ++ [.unknown]) gone called out) {cb : CallbackFn}
    (hs : IOUring.step (.submitStreamData kinds.length cb) s = .ok t) :
    Standing t (kinds ++ [.sendStreamData]) gone called (out + 1) ∧ t.frames = s.frames := by
  have hd := (h.dispatching.step (unnested_of_isCall rfl) hs).2
  have he := (step_ok h.dispatching.sound.sq hs).extends h.dispatching.sound
  simp only [IOUring.step, flushedStep] at hs
  obtain ⟨_, hsubmit⟩ := onHandle_ok hs
  obtain ⟨item₀, item, sqe, hset, hprep, heq⟩ := submitItem_ok h.dispatching.sound.sq hsubmit
  cases hset
  have hkind : ∀ o, t.kind o = if o = kinds.length then .sendStreamData else s.kind o := by
    intro o
    rw [IOUring.kind, heq, item_arm]
    split
    · exact (prepare_ok hprep).1.type
    · rfl
  have hsplit : (List.range kinds.length).map s.kind = kinds ∧
      s.pool.nextObj = kinds.length + 1 := by
    have hnext := h.next
    have hkinds := h.listed
    rw [List.length_append, List.length_singleton] at hnext
    rw [hnext, List.range_succ, List.map_append] at hkinds
    exact ⟨(List.append_inj' hkinds rfl).1, hnext⟩
  have hnext : t.pool.nextObj = s.pool.nextObj := heq ▸ rfl
  have htrace : t.trace = s.trace ++ [.submitted ⟨s.consumed.length, kinds.length, sqe⟩] :=
    heq ▸ rfl
  refine ⟨⟨hd, ?_, ?_, fun o ho => ?_, (callees_append htrace rfl).trans h.callees, ?_, ?_⟩,
    heq ▸ rfl⟩
  · have hold : (List.range kinds.length).map t.kind = kinds := by
      refine (List.map_congr_left fun o ho => ?_).trans hsplit.1
      rw [hkind, if_neg (List.mem_range.mp ho).ne]
    rw [hnext, hsplit.2, List.range_succ, List.map_append, hold, List.map_singleton, hkind,
      if_pos rfl]
  · rw [hnext]
    exact stream_extends he h.stream
  · have hslot : t.pool.at? = s.pool.at? := heq ▸ rfl
    obtain ⟨i, hi⟩ := ho
    exact h.seats o ⟨i, hslot ▸ hi⟩
  · rw [htrace]
    refine (h.answers.mono fun o type htype hknown => ?_).append rfl
    obtain ho | ho := Nat.lt_or_ge o kinds.length
    · rw [List.getElem?_append_left ho] at htype ⊢
      exact htype
    · rw [List.getElem?_append_right ho, List.getElem?_singleton] at htype
      split at htype
      · exact absurd (Option.some.inj htype).symm hknown
      · cases htype
  · have hdesk : t.desk = s.desk.issue ⟨s.consumed.length, kinds.length, sqe⟩ := heq ▸ rfl
    rw [hdesk, Desk.outstanding_issue.length_eq]
    exact Nat.succ_le_succ h.out

end IOUring

namespace Ping

open IOUring

variable {socket : Socket} {pingAddr : IPAddress} {p q : Session} {turn : Turn} {n : Nat}

/-- The items that the client makes one after the other. -/
def script : List WorkType := [.connect, .sendStreamData, .recv, .close]

/-- The client is in the callback of an item, and will let go of it. -/
structure InCallback (p : Session) (n : Nat) : Prop where
  frame : ∃ frame, p.ring.frames = [frame] ∧ frame.workItem = n ∧ frame.type ≠ .accept
  ret : p.ret = .none

inductive Stage (socket : Socket) (pingAddr : IPAddress) (p : Session) : Prop
  | starting (htodo : p.todo = [submitConnect socket pingAddr]) (hframes : p.ring.frames = [])
      (h : Standing p.ring [] 0 0 0)
  | waiting (n : Nat) (hn : n < 4) (htodo : p.todo = []) (hframes : p.ring.frames = [])
      (h : Standing p.ring (script.take (n + 1)) n n 1)
  | greeting (htodo : p.todo = handleNewConnection socket) (hin : InCallback p 0)
      (h : Standing p.ring [.connect] 0 1 1)
  | writing (k : Nat) (htodo : p.todo = writes.drop k ++ [submitStreamData])
      (hheld : wi p.ring = 1) (hin : InCallback p 0)
      (h : Standing p.ring [.connect, .unknown] 0 1 1)
  | receiving (htodo : p.todo = handlePacketSent socket) (hin : InCallback p 1)
      (h : Standing p.ring (script.take 2) 1 2 1)
  | closing (htodo : p.todo = [submitClose socket]) (hin : InCallback p 2)
      (h : Standing p.ring (script.take 3) 2 3 1)
  | returning (n : Nat) (hn : n < 3) (htodo : p.todo = []) (hin : InCallback p n)
      (h : Standing p.ring (script.take (n + 2)) n (n + 1) 2)
  | closed (htodo : p.todo = []) (hin : InCallback p 3) (h : Standing p.ring script 3 4 1)
  | ended (htodo : p.todo = []) (hframes : p.ring.frames = []) (h : Standing p.ring script 4 4 0)

theorem Stage.dispatching (h : Stage socket pingAddr p) : Dispatching p.ring := by
  cases h with
  | starting _ _ h | waiting _ _ _ _ h | greeting _ _ h | writing _ _ _ _ h | receiving _ _ h
  | closing _ _ h | returning _ _ _ _ h | closed _ _ h | ended _ _ h => exact h.dispatching

theorem InCallback.congr (h : InCallback p n) (hframes : q.ring.frames = p.ring.frames)
    (hret : q.ret = p.ret) : InCallback q n :=
  ⟨hframes ▸ h.frame, hret.trans h.ret⟩

theorem Stage.answered (h : Stage socket pingAddr p) {i : Nat} {k : Outcome}
    (hs : IOUring.step (.complete i k) p.ring = .ok q.ring) (htodo : q.todo = p.todo)
    (hret : q.ret = p.ret) : Stage socket pingAddr q := by
  obtain ⟨hframes, htrace, _, hhandles⟩ := h.dispatching.still_of_complete hs
  have hquiet : Client.entered p.ring q.ring = none :=
    Client.entered_eq (htrace.trans (List.append_nil _).symm)
  have hstanding : ∀ {kinds : List WorkType} {gone called out : Nat},
      Standing p.ring kinds gone called out → Standing q.ring kinds gone called out :=
    fun h => h.kept rfl (fun hp => (by cases hp)) hs hquiet
  cases h with
  | starting ht hf h => exact .starting (htodo.trans ht) (hframes.trans hf) (hstanding h)
  | waiting n hn ht hf h => exact .waiting n hn (htodo.trans ht) (hframes.trans hf) (hstanding h)
  | greeting ht hin h => exact .greeting (htodo.trans ht) (hin.congr hframes hret) (hstanding h)
  | writing k ht hw hin h =>
    refine .writing k (htodo.trans ht) ?_ (hin.congr hframes hret) (hstanding h)
    rw [wi, hhandles]
    exact hw
  | receiving ht hin h => exact .receiving (htodo.trans ht) (hin.congr hframes hret) (hstanding h)
  | closing ht hin h => exact .closing (htodo.trans ht) (hin.congr hframes hret) (hstanding h)
  | returning n hn ht hin h =>
    exact .returning n hn (htodo.trans ht) (hin.congr hframes hret) (hstanding h)
  | closed ht hin h => exact .closed (htodo.trans ht) (hin.congr hframes hret) (hstanding h)
  | ended ht hf h => exact .ended (htodo.trans ht) (hframes.trans hf) (hstanding h)

theorem workType_of_submitConnect {cb : CallbackFn} {item item' : WorkItem}
    (h : item.submitConnect pingAddr cb = .ok item') : item'.workType = .connect := by
  obtain ⟨_, _, h⟩ := Checked.bind_eq_ok.mp h
  obtain ⟨_, _, h⟩ := Checked.bind_eq_ok.mp h
  obtain ⟨_, _, h⟩ := Checked.bind_eq_ok.mp h
  cases h
  rfl

theorem edits_of_mem_writes {line : Line} (h : line ∈ writes) (mem : Uninitialized) (s : IOUring) :
    (line.act mem s).allocates = false ∧ (line.act mem s).submits = none := by
  simp only [writes, List.mem_cons, List.not_mem_nil, or_false] at h
  obtain rfl | rfl | rfl | rfl | rfl := h <;> exact ⟨rfl, rfl⟩

theorem Stage.called (h : Stage socket pingAddr p) (hstream : socket.isStream = true)
    {mem : Uninitialized} {line : Line}
    (hs : IOUring.step (line.act mem p.ring) p.ring = .ok q.ring) (htodo : p.todo = line :: q.todo)
    (hret : q.ret = p.ret) : Stage socket pingAddr q := by
  cases h with
  | starting ht hf h =>
    obtain ⟨rfl, hrest⟩ := List.cons_eq_cons.mp (htodo.symm.trans ht)
    obtain ⟨id, item, req, hset, ho⟩ := h.dispatching.sound.opened_of_alloc hs
    have htype : item.workType = .connect := workType_of_submitConnect hset
    have hopened := h.opened le_rfl rfl hstream hs ho
    rw [htype] at hopened
    exact .waiting 0 (by decide) hrest (ho.frames.trans hf) hopened
  | greeting ht hin h =>
    obtain ⟨rfl, hrest⟩ := List.cons_eq_cons.mp (htodo.symm.trans ht)
    obtain ⟨hacquired, hhandles, hframes⟩ := h.acquired (Nat.zero_le _) hstream hs
    refine .writing 0 hrest ?_ (hin.congr hframes hret) hacquired
    rw [wi, hhandles]
    rfl
  | writing k ht hw hin h =>
    by_cases hk : k < writes.length
    · rw [List.drop_eq_getElem_cons hk] at ht
      obtain ⟨rfl, hrest⟩ := List.cons_eq_cons.mp (htodo.symm.trans ht)
      have hedits := edits_of_mem_writes (List.getElem_mem hk) mem p.ring
      obtain ⟨hedited, hhandles, hframes⟩ := h.edited (writes[k].isCall mem p.ring) hedits hs
      refine .writing (k + 1) hrest ?_ (hin.congr hframes hret) hedited
      rw [wi, hhandles]
      exact hw
    · rw [List.drop_eq_nil_of_le (Nat.not_lt.mp hk)] at ht
      obtain ⟨rfl, hrest⟩ := List.cons_eq_cons.mp (htodo.symm.trans ht)
      have hsubmit : IOUring.step (.submitStreamData [WorkType.connect].length onSent) p.ring =
          .ok q.ring := by
        rw [List.length_singleton, ← hw]
        exact hs
      have hlast : Standing p.ring ([.connect] ++ [.unknown]) 0 1 1 := h
      obtain ⟨hsubmitted, hframes⟩ := hlast.submitted hsubmit
      exact .returning 0 (by decide) hrest (hin.congr hframes hret) hsubmitted
  | receiving ht hin h =>
    obtain ⟨rfl, hrest⟩ := List.cons_eq_cons.mp (htodo.symm.trans ht)
    obtain ⟨id, item, req, hset, ho⟩ := h.dispatching.sound.opened_of_alloc hs
    cases hset
    exact .returning 1 (by decide) hrest (hin.congr ho.frames hret)
      (h.opened (by decide) rfl hstream hs ho)
  | closing ht hin h =>
    obtain ⟨rfl, hrest⟩ := List.cons_eq_cons.mp (htodo.symm.trans ht)
    obtain ⟨id, item, req, hset, ho⟩ := h.dispatching.sound.opened_of_alloc hs
    cases hset
    exact .returning 2 (by decide) hrest (hin.congr ho.frames hret)
      (h.opened (by decide) rfl hstream hs ho)
  | waiting _ _ ht | returning _ _ ht | closed ht | ended ht => rw [ht] at htodo; cases htodo

theorem Stage.polled (h : Stage socket pingAddr p)
    (hs : IOUring.step .pollCompletionQueues p.ring = .ok q.ring)
    (hbefore : p.todo = []) (hframes : p.ring.frames = []) (hin : q.ring.frames = [])
    (hquiet : Client.entered p.ring q.ring = none) (htodo : q.todo = []) :
    Stage socket pingAddr q := by
  cases h with
  | waiting n hn _ _ h =>
    exact .waiting n hn htodo hin (h.kept rfl (fun _ => hframes) hs hquiet)
  | ended _ _ h => exact .ended htodo hin (h.kept rfl (fun _ => hframes) hs hquiet)
  | starting ht | receiving ht | closing ht | greeting ht => rw [hbefore] at ht; cases ht
  | writing k ht =>
    rw [hbefore] at ht
    exact absurd ht.symm (List.append_ne_nil_of_right_ne_nil _ (List.cons_ne_nil _ _))
  | returning _ _ _ hin' | closed _ hin' =>
    obtain ⟨frame, hf, _⟩ := hin'.frame
    rw [hframes] at hf
    cases hf

/-- While the client waits, one item is left in the pool. -/
theorem sole (h : Standing p.ring (script.take (n + 1)) n n 1) (hn : n < 4) {id o : Nat}
    (hat : p.ring.pool.at? id = some o) : o = n ∧ some (p.ring.kind o) = script[n]? := by
  have hlength : (script.take (n + 1)).length = n + 1 := by
    rw [List.length_take]
    exact Nat.min_eq_left hn
  have hlt := (h.dispatching.sound.pool.live _ _ hat).1
  rw [h.next, hlength] at hlt
  have hge := h.seats o ⟨_, hat⟩
  have ho : o = n := by omega
  subst ho
  refine ⟨rfl, ?_⟩
  rw [h.kind (by rw [hlength]; exact Nat.lt_succ_self o), List.getElem_take]
  exact (List.getElem?_eq_getElem hn).symm

theorem index_of_script {type : WorkType} (h : some type = script[n]?) : n = script.idxOf type := by
  obtain ⟨hn, rfl⟩ := List.getElem?_eq_some_iff.mp h.symm
  exact (List.Nodup.idxOf_getElem (by decide) n hn).symm

theorem send_of_script {type : WorkType} (h : some type = script[n]?) (hsend : type.isSend = true) :
    type = .sendStreamData := by
  have hmem := List.mem_of_getElem? h.symm
  simp only [script, List.mem_cons, List.not_mem_nil, or_false] at hmem
  obtain rfl | rfl | rfl | rfl := hmem <;> first | rfl | cases hsend

theorem Stage.entered (h : Stage socket pingAddr p)
    (hs : IOUring.step .pollCompletionQueues p.ring = .ok q.ring) (hbefore : p.todo = [])
    (hframes : p.ring.frames = []) {cqe : Completion} {o : Nat} {call : Call}
    (hat : p.ring.pool.at? cqe.userData = some o)
    (hcall : p.ring.callHandler (p.ring.item o) cqe = .ok (.called call))
    (hledger : q.ring.ledger = { p.ring.ledger with
      frames := [p.ring.frameOf cqe o]
      trace := p.ring.trace ++ [.dispatched cqe (some o), .called o call] })
    (hbody : (doHttpPing socket pingAddr).body call = .ok (q.todo, q.ret)) :
    Stage socket pingAddr q := by
  have hlt := (h.dispatching.sound.pool.live _ _ hat).1
  cases h with
  | waiting n hn _ _ h =>
    obtain ⟨ho, hkind⟩ := sole h hn hat
    have hfits := fits_of_called hcall
    have hentered := h.entered hs hframes hat hcall hledger ho
    have hin : p.ring.kind o ≠ .accept → q.ret = .none → InCallback q n := fun hk hret =>
      ⟨⟨p.ring.frameOf cqe o, congrArg Ledger.frames hledger, ho, hk⟩, hret⟩
    obtain ⟨fn, result⟩ := call
    cases result with
    | connect res =>
      obtain ⟨_, _, hbody⟩ := Checked.bind_eq_ok.mp hbody
      obtain ⟨htodo, hret⟩ := Prod.mk.injEq _ _ _ _ ▸ Checked.pure_eq_ok.mp hbody
      rw [hfits.1] at hkind hin
      obtain rfl : n = 0 := index_of_script hkind
      exact .greeting htodo.symm (hin (by decide) hret.symm) hentered
    | send res =>
      obtain ⟨htodo, hret⟩ := Prod.mk.injEq _ _ _ _ ▸ Checked.pure_eq_ok.mp hbody
      have hsend := send_of_script hkind hfits.1
      rw [hsend] at hkind hin
      obtain rfl : n = 1 := index_of_script hkind
      exact .receiving htodo.symm (hin (by decide) hret.symm) hentered
    | recv payload =>
      obtain ⟨htodo, hret⟩ := Prod.mk.injEq _ _ _ _ ▸ Checked.pure_eq_ok.mp hbody
      rw [hfits.1] at hkind hin
      obtain rfl : n = 2 := index_of_script hkind
      exact .closing htodo.symm (hin (by decide) hret.symm) hentered
    | close res =>
      obtain ⟨_, _, hbody⟩ := Checked.bind_eq_ok.mp hbody
      obtain ⟨htodo, hret⟩ := Prod.mk.injEq _ _ _ _ ▸ Checked.pure_eq_ok.mp hbody
      rw [hfits.1] at hkind hin
      obtain rfl : n = 3 := index_of_script hkind
      exact .closed htodo.symm (hin (by decide) hret.symm) hentered
    | accept newConn =>
      rw [hfits.1] at hkind
      exact absurd (List.mem_of_getElem? hkind.symm) (by decide)
  | ended _ _ h =>
    have hge := h.seats o ⟨_, hat⟩
    rw [h.next] at hlt
    exact absurd hlt (Nat.not_lt.mpr hge)
  | starting ht | receiving ht | closing ht | greeting ht => rw [hbefore] at ht; cases ht
  | writing k ht =>
    rw [hbefore] at ht
    exact absurd ht.symm (List.append_ne_nil_of_right_ne_nil _ (List.cons_ne_nil _ _))
  | returning _ _ _ hin' | closed _ hin' =>
    obtain ⟨frame, hf, _⟩ := hin'.frame
    rw [hframes] at hf
    cases hf

theorem Stage.returned (h : Stage socket pingAddr p)
    (hs : IOUring.step (.callbackReturns p.ret) p.ring = .ok q.ring) (hbefore : p.todo = [])
    (hframes : p.ring.frames ≠ []) (hin : q.ring.frames = []) (htodo : q.todo = []) :
    Stage socket pingAddr q := by
  cases h with
  | returning n hn _ hin' h =>
    obtain ⟨frame, hf, ho, htype⟩ := hin'.frame
    rw [hin'.ret] at hs
    exact .waiting (n + 1) (by omega) htodo hin (h.returned hf ho htype hs hin)
  | closed _ hin' h =>
    obtain ⟨frame, hf, ho, htype⟩ := hin'.frame
    rw [hin'.ret] at hs
    exact .ended htodo hin (h.returned hf ho htype hs hin)
  | waiting _ _ _ hf | ended _ hf => exact absurd hf hframes
  | starting ht | receiving ht | closing ht | greeting ht => rw [hbefore] at ht; cases ht
  | writing k ht =>
    rw [hbefore] at ht
    exact absurd ht.symm (List.append_ne_nil_of_right_ne_nil _ (List.cons_ne_nil _ _))

theorem Stage.step (h : Stage socket pingAddr p) (hstream : socket.isStream = true)
    (hs : (doHttpPing socket pingAddr).step turn p = .ok q) : Stage socket pingAddr q := by
  cases Client.advanced h.dispatching hs with
  | answered i k hring htodo hret => exact h.answered hring htodo hret
  | called mem line hring htodo hret => exact h.called hstream hring htodo hret
  | polled hring hbefore hframes hin _ hquiet htodo _ =>
    exact h.polled hring hbefore hframes hin hquiet htodo
  | entered call cqe o hring hbefore hframes _ hat hcall hledger hbody =>
    exact h.entered hring hbefore hframes hat hcall hledger hbody
  | returned hring hbefore hframes hin _ htodo _ => exact h.returned hring hbefore hframes hin htodo

theorem starts (queueSize mapped : Nat) (memory : Nat → Memory.Byte) :
    Stage socket pingAddr
      ((doHttpPing socket pingAddr).begin (initial queueSize mapped memory)) := by
  have hd := initial_dispatching queueSize mapped memory
  refine .starting rfl rfl ⟨hd, rfl, ?_, ?_, rfl, ?_, le_rfl⟩
  · exact fun o ho => absurd ho (Nat.not_lt_zero o)
  · exact fun o _ => Nat.zero_le o
  · exact fun _ _ hm => absurd hm List.not_mem_nil

/-- The callbacks that were called are those of the first items of the script. -/
theorem called_kinds {s : IOUring} {kinds : List WorkType} {gone called out : Nat}
    (h : Standing s kinds gone called out) (hle : called ≤ 4) (hlen : called ≤ kinds.length)
    (hkinds : kinds.take called = script.take called) : ∃ n ≤ 4, callees s = List.range n ∧
      (callees s).map s.kind = script.take n := by
  refine ⟨called, hle, h.callees, ?_⟩
  have htake : List.range called = (List.range s.pool.nextObj).take called := by
    rw [List.take_range, h.next, Nat.min_eq_left hlen]
  rw [h.callees, htake, List.map_take, h.listed]
  exact hkinds

theorem Stage.called_script (h : Stage socket pingAddr p) : ∃ n ≤ 4, callees p.ring = List.range n ∧
    (callees p.ring).map p.ring.kind = script.take n := by
  have hlength : ∀ m ≤ 4, (script.take m).length = m := by decide
  cases h with
  | starting _ _ h => exact called_kinds h (by decide) (by decide) rfl
  | greeting _ _ h | writing _ _ _ _ h | receiving _ _ h | closing _ _ h | closed _ _ h
  | ended _ _ h => exact called_kinds h (by decide) (by decide) rfl
  | waiting n hn _ _ h =>
    refine called_kinds h hn.le ?_ ?_
    · rw [hlength (n + 1) hn]
      exact Nat.le_succ n
    · rw [List.take_take, Nat.min_eq_left (Nat.le_succ n)]
  | returning n hn _ _ h =>
    refine called_kinds h (by omega) ?_ ?_
    · rw [hlength (n + 2) (by omega)]
      exact Nat.le_succ (n + 1)
    · rw [List.take_take, Nat.min_eq_left (Nat.le_succ (n + 1))]

/-- The callback of close is called for the last item. -/
theorem closes_last {s : IOUring} {gone called out : Nat} {kinds : List WorkType}
    (h : Standing s kinds gone called out) (hkinds : ∀ i, kinds[i]? = some .close → i = 3)
    (hclosed : s.trace.any connectionHasBeenClosed = true) : 3 < called := by
  obtain ⟨e, hm, hclose⟩ := List.any_eq_true.mp hclosed
  cases e with
  | submitted | dispatched | released => cases hclose
  | called o call =>
    obtain ⟨type, cqe, htype, hfits⟩ := h.answers o call hm
    obtain ⟨fn, result⟩ := call
    cases result with
    | accept | connect | send | recv => cases hclose
    | close res =>
      obtain ⟨rfl, _⟩ := hfits
      obtain rfl := hkinds o htype
      have hcallee : 3 ∈ callees s := List.mem_filterMap.mpr ⟨_, hm, rfl⟩
      rw [h.callees] at hcallee
      exact List.mem_range.mp hcallee

theorem Stage.ended_of_closed (h : Stage socket pingAddr p) (htodo : p.todo = [])
    (hframes : p.ring.frames = []) (hclosed : p.ring.trace.any connectionHasBeenClosed = true) :
    Standing p.ring script 4 4 0 := by
  cases h with
  | ended _ _ h => exact h
  | waiting n hn _ _ h =>
    refine absurd (closes_last h (fun i hi => ?_) hclosed) (by omega)
    rw [List.getElem?_take] at hi
    split at hi
    · exact (index_of_script hi.symm).trans rfl
    · cases hi
  | starting ht | receiving ht | closing ht | greeting ht => rw [htodo] at ht; cases ht
  | writing k ht =>
    rw [htodo] at ht
    exact absurd ht.symm (List.append_ne_nil_of_right_ne_nil _ (List.cons_ne_nil _ _))
  | returning _ _ _ hin | closed _ hin =>
    obtain ⟨frame, hf, _⟩ := hin.frame
    rw [hframes] at hf
    cases hf

/-- Whatever the kernel answers, the callbacks of the client are called in the order in which it
made their items, each once; and when its loop ends, all four were, no item is left in the pool
and no request is out. -/
theorem ends_with_nothing_left {queueSize mapped : Nat} {memory : Nat → Memory.Byte}
    (hstream : socket.isStream = true)
    (hr : Transition.Reaches (doHttpPing socket pingAddr).step Transition.Free
      ((doHttpPing socket pingAddr).begin (initial queueSize mapped memory)) p) :
    (∃ n ≤ 4, callees p.ring = List.range n ∧ (callees p.ring).map p.ring.kind = script.take n) ∧
      ((doHttpPing socket pingAddr).Ended p → callees p.ring = [0, 1, 2, 3] ∧
        (∀ o, ¬p.ring.Seated o) ∧ p.ring.desk.outstanding = []) := by
  have h : Stage socket pingAddr p := hr.invariant (I := Stage socket pingAddr)
    (fun p turn q h _ hs => h.step hstream hs) (starts queueSize mapped memory)
  refine ⟨h.called_script, fun ⟨htodo, hframes, hpolls⟩ => ?_⟩
  have hclosed : p.ring.trace.any connectionHasBeenClosed = true := by
    rwa [doHttpPing, Bool.not_eq_eq_eq_not] at hpolls
  have hended := h.ended_of_closed htodo hframes hclosed
  refine ⟨hended.callees, fun o ho => ?_, List.eq_nil_of_length_eq_zero (Nat.le_zero.mp hended.out)⟩
  obtain ⟨i, hi⟩ := ho
  have hlt := (hended.dispatching.sound.pool.live i o hi).1
  rw [hended.next] at hlt
  exact absurd hlt (Nat.not_lt.mpr (hended.seats o ⟨i, hi⟩))

private def tcpSocket : Socket := ⟨.ipv4Tcp, 80, .unicastClientSocket, 3⟩

private def webServer : IPAddress := .ofSockaddrIn ⟨afInet, htons 443, 0x0101a8c0, 0⟩

private def answer (res : Int) : Turn := .kernel 0 ⟨res, 0, default, fun _ => some 65⟩

private def clientTurns (n : Nat) : List Turn := List.replicate n (.client default)

private def successfulPing : List Turn :=
  clientTurns 1 ++ [answer 0] ++ clientTurns 10 ++ [answer 70] ++ clientTurns 3 ++ [answer 10] ++
    clientTurns 3 ++ [answer 0] ++ clientTurns 2

theorem ends_with_nothing_left_pinged : ∃ p : Session, callees p.ring = [0, 1, 2, 3] ∧
    (∀ o, ¬p.ring.Seated o) ∧ p.ring.desk.outstanding = [] := by
  obtain ⟨p, hr, hended⟩ := Transition.reaches_of_leads (doHttpPing tcpSocket webServer).step
    Transition.Free (fun p => (doHttpPing tcpSocket webServer).Ended p) successfulPing
    ((doHttpPing tcpSocket webServer).begin (initial 256 0 fun _ => 0)) (by decide +kernel)
  exact ⟨p, (ends_with_nothing_left rfl hr).2 hended⟩

end Ping

end Iuring
