import Iuring.AcceptedSocket
import Iuring.Client

namespace Iuring

open Lib

namespace EchoServer

/-- The lambdas that are passed to submit_accept and submit_recv. -/
def onAccept : CallbackFn := 0

def onReceive : CallbackFn := 1

def submitAccept (socket : Socket) : Line where
  act mem _ := .submitAccept socket onAccept mem
  isCall _ _ := rfl

def submitRecv (socket : Socket) : Line where
  act mem _ := .submitRecv socket onReceive mem
  isCall _ _ := rfl

def handleNewConnection (res : AcceptResult) : Result (List Line × ReceivePostAction) := do
  assert (res.newFd ≠ 0)
  let socket ← SocketImpl.create res
  return ([submitRecv socket], .none)

def doEchoServer (socket : Socket) : Client where
  start := [submitAccept socket]
  body call :=
    match call.result with
    | .accept res => handleNewConnection res
    | .recv _ => return ([], .reSubmit)
    | .connect _ | .send _ | .close _ => return ([], .none)
  polls _ := true

end EchoServer

/-- The descriptor of an accepted connection that the callback is told of. -/
def Event.connection : Event → Option Int
  | .called _ ⟨_, .accept res⟩ => some res.newFd
  | _ => none

namespace EchoServer

open IOUring

variable {socket : Socket} {p q : Session} {turn : Turn} {owed owed' : List Int}

def connections (s : IOUring) : List Int := s.trace.filterMap Event.connection

/-- The descriptors that the items after the first one are for. -/
def receivers (s : IOUring) : List Int :=
  (List.range' 1 (s.pool.nextObj - 1)).map fun o => (s.item o).socket.fd

/-- Where the server is in its code, with the connections that it has no receiver for yet. -/
inductive Stage (socket : Socket) (p : Session) : List Int → Prop
  | starting (htodo : p.todo = [submitAccept socket]) (hnext : p.ring.pool.nextObj = 0) :
    Stage socket p []
  | serving (peer : Socket) (htodo : p.todo = [submitRecv peer]) (hnext : 0 < p.ring.pool.nextObj)
      (htype : ∀ frame ∈ p.ring.frames, frame.type = .accept) : Stage socket p [peer.fd]
  | idle (htodo : p.todo = []) (hnext : 0 < p.ring.pool.nextObj)
      (hret : ∀ frame ∈ p.ring.frames, frame.type = .recv → p.ret = .reSubmit) : Stage socket p []

/-- The first item accepts, the others receive, one for each connection in their order, and all
of them are in the pool. -/
structure Serving (s : IOUring) (owed : List Int) : Prop where
  dispatching : Dispatching s
  kind : ∀ o < s.pool.nextObj, s.kind o = if o = 0 then .accept else .recv
  seated : ∀ o < s.pool.nextObj, s.Seated o
  kept : ∀ o, .released o ∉ s.trace
  served : connections s = receivers s ++ owed

variable {s t : IOUring} {a : Action} {events : List Event}

theorem receivers_extends (he : s.pool.Extends t.pool) (hnext : t.pool.nextObj = s.pool.nextObj) :
    receivers t = receivers s := by
  rw [receivers, receivers, hnext]
  apply List.map_congr_left
  intro o ho
  obtain ⟨hge, hlt⟩ := List.mem_range'_1.mp ho
  have hsocket : (t.item o).socket = (s.item o).socket := (he.evolves o (by omega)).socket
  rw [hsocket]

theorem Serving.still (h : Serving s owed) (hd : Dispatching t) (he : s.pool.Extends t.pool)
    (hnext : t.pool.nextObj = s.pool.nextObj) (hkind : t.kind = s.kind)
    (hslot : t.pool.at? = s.pool.at?) (htrace : t.trace = s.trace ++ events)
    (hkept : ∀ o, .released o ∉ events) :
    Serving t (owed ++ events.filterMap Event.connection) := by
  refine ⟨hd, ?_, ?_, ?_, ?_⟩
  · rw [hnext, hkind]
    exact h.kind
  · intro o ho
    rw [hnext] at ho
    simp only [Seated, hslot]
    exact h.seated o ho
  · intro o hm
    rw [htrace] at hm
    exact (List.mem_append.mp hm).elim (h.kept o) (hkept o)
  · rw [receivers_extends he hnext, ← List.append_assoc, ← h.served, connections, htrace,
      List.filterMap_append, connections]

/-- Nothing that the server's items are told frees them. -/
theorem Serving.not_freed (h : Serving s owed)
    (hret : ∀ frame ∈ s.frames, frame.type = .recv → a ≠ .callbackReturns .none)
    {cqe : Completion} {rest : List Completion} {o : Nat} {type : WorkType}
    {ret : ReceivePostAction} (hend : s.Ending cqe rest o type ret events a)
    (htype : type ≠ .accept ∧ (type = .recv → ret = .none)) : False := by
  obtain hshot | ⟨_, ha, frame, hf, _, hrecv⟩ := hend.freed_kind htype
  · rw [h.kind o (h.dispatching.sound.pool.live _ _ hend.holds).1] at hshot
    split at hshot <;> cases hshot
  · exact hret frame (hf ▸ List.mem_cons_self) hrecv ha

/-- What is not a call keeps the items as they are. -/
theorem Serving.step (h : Serving s owed) (hcall : a.isCall = false) (hun : s.Unnested a)
    (hret : ∀ frame ∈ s.frames, frame.type = .recv → a ≠ .callbackReturns .none)
    (hs : IOUring.step a s = .ok t) :
    ∃ events, t.trace = s.trace ++ events ∧
      Serving t (owed ++ events.filterMap Event.connection) := by
  obtain ⟨ht, hd⟩ := h.dispatching.step hun hs
  have he := (step_ok h.dispatching.sound.sq hs).extends h.dispatching.sound
  have hstill : ∀ events, t.trace = s.trace ++ events → t.pool.nextObj = s.pool.nextObj →
      t.kind = s.kind → t.pool.at? = s.pool.at? → (∀ o, .released o ∉ events) →
      ∃ events, t.trace = s.trace ++ events ∧
        Serving t (owed ++ events.filterMap Event.connection) :=
    fun events htrace hnext hkind hslot hkept =>
      ⟨events, htrace, h.still hd he hnext hkind hslot htrace hkept⟩
  cases ht with
  | opened _ _ hopens => rw [Action.isCall_of_opens hopens] at hcall; cases hcall
  | submitted _ hsubmits => rw [Action.isCall_of_submits hsubmits] at hcall; cases hcall
  | acquired => cases hcall
  | edited _ _ heq | idle heq =>
    exact hstill [] ((congrArg Ledger.trace heq).trans (List.append_nil _).symm)
      (congrArg Ledger.next heq) (congrArg Ledger.kind heq) (congrArg (fun l => l.desk.holder) heq)
      (fun _ => List.not_mem_nil)
  | missed cqe rest _ _ _ heq | exhausted cqe rest _ _ _ _ _ heq
  | entered cqe rest _ _ _ _ _ _ _ heq =>
    refine hstill _ (congrArg Ledger.trace heq) (congrArg Ledger.next heq)
      (congrArg Ledger.kind heq) (congrArg (fun l => l.desk.holder) heq) (fun o hm => ?_)
    simp at hm
  | rearmed cqe rest o type ret events req hend _ _ _ _ heq =>
    refine hstill _ ((congrArg Ledger.trace heq).trans (List.append_assoc _ _ _))
      (congrArg Ledger.next heq) (congrArg Ledger.kind heq)
      (congrArg (fun l => l.desk.holder) heq) (fun o hm => ?_)
    obtain ⟨_, _, _, rfl, _⟩ | ⟨_, rfl, _⟩ := hend.source <;> simp at hm
  | freed cqe rest o type ret events hend htype heq => exact (h.not_freed hret hend htype).elim
  | completed i k req _ heq =>
    exact hstill [] ((congrArg Ledger.trace heq).trans (List.append_nil _).symm)
      (congrArg Ledger.next heq) (congrArg Ledger.kind heq) (congrArg (fun l => l.desk.holder) heq)
      (fun _ => List.not_mem_nil)

/-- A new item is the next receiver, or the acceptor if it is the first. -/
theorem Serving.opened (h : Serving s (owed ++ owed')) {listener : Socket}
    (hopens : a.opens = some listener) (hs : IOUring.step a s = .ok t) {item : WorkItem}
    {req : Request} (ho : Opened s t item req)
    (htype : item.workType = if s.pool.nextObj = 0 then .accept else .recv)
    (howed : owed = if s.pool.nextObj = 0 then [] else [item.socket.fd]) : Serving t owed' := by
  have hcall := Action.isCall_of_opens hopens
  have hst := step_ok h.dispatching.sound.sq hs
  obtain ⟨req', _, hledger⟩ := h.dispatching.ledger_of_opens hopens hs
  have htrace : t.trace = s.trace ++ [.submitted req'] := congrArg Ledger.trace hledger
  have hd := (h.dispatching.step (unnested_of_isCall hcall) hs).2
  have he := hst.extends h.dispatching.sound
  have hfd : (t.item s.pool.nextObj).socket.fd = item.socket.fd := by
    have hreq : req ∈ t.consumed := by
      rw [ho.consumed]
      exact List.mem_append_right _ List.mem_cons_self
    rw [← ho.describes.fd, (hd.sound.owned req hreq).fd, ho.owner]
    rfl
  refine ⟨hd, fun o hlt => ?_, fun o hlt => ?_, fun o hm => ?_, ?_⟩
  · rw [ho.next] at hlt
    obtain hlt | rfl := Nat.lt_succ_iff_lt_or_eq.mp hlt
    · rw [IOUring.kind, ho.others o hlt]
      exact h.kind o hlt
    · rw [IOUring.kind, ← ho.owner, ho.kind, htype, ho.owner]
  · rw [ho.next] at hlt
    obtain hlt | rfl := Nat.lt_succ_iff_lt_or_eq.mp hlt
    · exact h.dispatching.seated_call hcall hs (h.seated o hlt)
    · have hlt : s.pool.nextObj < t.pool.nextObj := ho.next ▸ Nat.lt_succ_self _
      exact h.dispatching.sound.seated_of_stepped hst le_rfl hlt
  · rw [htrace] at hm
    obtain hm | hm := List.mem_append.mp hm
    · exact h.kept o hm
    · cases List.mem_singleton.mp hm
  · have hconnections : connections t = connections s := by
      rw [connections, htrace, List.filterMap_append, connections]
      exact List.append_nil _
    have hreceivers : receivers t = receivers s ++ owed := by
      cases hn : s.pool.nextObj with
      | zero =>
        rw [howed, receivers, receivers, ho.next, hn]
        rfl
      | succ n =>
        rw [howed, receivers, receivers, ho.next, hn, if_neg (Nat.succ_ne_zero n), Nat.add_sub_cancel,
          Nat.add_sub_cancel, List.range'_1_concat, List.map_append]
        rw [hn, Nat.add_comm] at hfd
        refine congrArg₂ _ (List.map_congr_left fun o hm => ?_) (congrArg (fun fd => [fd]) hfd)
        have hlt := (List.mem_range'_1.mp hm).2
        rw [ho.others o (by omega)]
    rw [hconnections, h.served, hreceivers, List.append_assoc]

theorem connection_of_callback {e : Event} (h : e.callback = none) : e.connection = none := by
  cases e with
  | called => cases h
  | submitted | dispatched | released => rfl

/-- A step that is no call and enters no callback. -/
theorem Serving.quiet (h : Serving s owed) (hcall : a.isCall = false) (hun : s.Unnested a)
    (hret : ∀ frame ∈ s.frames, frame.type = .recv → a ≠ .callbackReturns .none)
    (hs : IOUring.step a s = .ok t) (hquiet : Client.entered s t = none) : Serving t owed := by
  obtain ⟨events, htrace, ht⟩ := h.step hcall hun hret hs
  rw [Client.entered_eq htrace, List.findSome?_eq_none_iff] at hquiet
  have hnone : events.filterMap Event.connection = [] :=
    List.filterMap_eq_nil_iff.mpr fun e he => connection_of_callback (hquiet e he)
  rw [hnone, List.append_nil] at ht
  exact ht

theorem Serving.entered (h : Serving s []) (hframes : s.frames = [])
    (hs : IOUring.step .pollCompletionQueues s = .ok t) {cqe : Completion} {o : Nat} {call : Call}
    (htrace : t.trace = s.trace ++ [.dispatched cqe (some o), .called o call]) :
    Serving t ([Event.called o call].filterMap Event.connection) := by
  obtain ⟨events, htrace', ht⟩ := h.step rfl (fun _ => hframes) (fun _ _ _ he => by cases he) hs
  rw [htrace, List.append_cancel_left_eq] at htrace'
  rw [← htrace'] at ht
  exact ht

/-- What the server is in is one of its stages, and its items serve. -/
def Runs (socket : Socket) (p : Session) : Prop := ∃ owed, Stage socket p owed ∧ Serving p.ring owed

theorem Runs.answered (h : Runs socket p) {i : Nat} {k : Outcome}
    (hs : IOUring.step (.complete i k) p.ring = .ok q.ring) (htodo : q.todo = p.todo)
    (hret : q.ret = p.ret) : Runs socket q := by
  obtain ⟨owed, hstage, hserving⟩ := h
  obtain ⟨hframes, htrace, hnext, _⟩ := hserving.dispatching.still_of_complete hs
  have hquiet : Client.entered p.ring q.ring = none :=
    Client.entered_eq (htrace.trans (List.append_nil _).symm)
  refine ⟨owed, ?_,
    hserving.quiet rfl (fun h => (by cases h)) (fun _ _ _ he => by cases he) hs hquiet⟩
  cases hstage with
  | starting ht hn => exact .starting (htodo.trans ht) (hnext.trans hn)
  | serving peer ht hn htype =>
    exact .serving peer (htodo.trans ht) (hnext ▸ hn) (hframes ▸ htype)
  | idle ht hn hr => exact .idle (htodo.trans ht) (hnext ▸ hn) (by rw [hframes, hret]; exact hr)

theorem Runs.called (h : Runs socket p) {mem : Uninitialized} {line : Line}
    (hs : IOUring.step (line.act mem p.ring) p.ring = .ok q.ring)
    (htodo : p.todo = line :: q.todo) :
    Runs socket q := by
  obtain ⟨owed, hstage, hserving⟩ := h
  cases hstage with
  | starting ht hn =>
    obtain ⟨rfl, hrest⟩ := List.cons_eq_cons.mp (htodo.symm.trans ht)
    obtain ⟨_, _, halloc⟩ := Checked.bind_eq_ok.mp hs
    obtain ⟨id, item, req, hset, ho⟩ := hserving.dispatching.sound.opened_of_alloc halloc
    cases hset
    have hnext : 0 < q.ring.pool.nextObj := ho.next ▸ Nat.succ_pos _
    refine ⟨[], .idle hrest hnext fun frame hf => ?_, ?_⟩
    · rw [ho.frames] at hf
      have hlt := (hserving.dispatching.sound.frames frame hf).1
      omega
    · have howed : Serving p.ring ([] ++ []) := hserving
      refine howed.opened rfl hs ho ?_ (if_pos hn).symm
      rw [if_pos hn]
      rfl
  | serving peer ht hn htype =>
    obtain ⟨rfl, hrest⟩ := List.cons_eq_cons.mp (htodo.symm.trans ht)
    obtain ⟨id, item, req, hset, ho⟩ := hserving.dispatching.sound.opened_of_alloc hs
    cases hset
    have hnext : 0 < q.ring.pool.nextObj := ho.next ▸ Nat.succ_pos _
    refine ⟨[], .idle hrest hnext fun frame hf hrecv => ?_, ?_⟩
    · rw [ho.frames] at hf
      rw [htype frame hf] at hrecv
      cases hrecv
    · have howed : Serving p.ring ([peer.fd] ++ []) := hserving
      refine howed.opened rfl hs ho ?_ (if_neg hn.ne').symm
      rw [if_neg hn.ne']
      rfl
  | idle ht => rw [ht] at htodo; cases htodo

theorem Runs.step (h : Runs socket p) (hs : (doEchoServer socket).step turn p = .ok q) :
    Runs socket q := by
  obtain ⟨owed, hstage, hserving⟩ := h
  cases Client.advanced hserving.dispatching hs with
  | answered i k hring htodo hret => exact Runs.answered ⟨owed, hstage, hserving⟩ hring htodo hret
  | called mem line hring htodo _ => exact Runs.called ⟨owed, hstage, hserving⟩ hring htodo
  | polled hring hbefore hframes hin _ hquiet htodo hret =>
    cases hstage with
    | starting ht | serving _ ht => rw [hbefore] at ht; cases ht
    | idle ht hn _ =>
      have hkept := hserving.quiet rfl (fun _ => hframes) (fun _ _ _ he => by cases he) hring hquiet
      refine ⟨[], .idle htodo ?_ ?_, hkept⟩
      · have hst := step_ok hserving.dispatching.sound.sq hring
        rw [hserving.dispatching.sound.next_of_stepped hst rfl]
        exact hn
      · rw [hin]
        exact List.forall_mem_nil _
  | entered call cqe o hring hbefore hframes _ hat hcall hledger hbody =>
    cases hstage with
    | starting ht | serving _ ht => rw [hbefore] at ht; cases ht
    | idle ht hn _ =>
      have hkept := hserving.entered hframes hring (congrArg Ledger.trace hledger)
      have hnext : 0 < q.ring.pool.nextObj := by
        rw [show q.ring.pool.nextObj = p.ring.pool.nextObj from congrArg Ledger.next hledger]
        exact hn
      have hframes' : q.ring.frames = [p.ring.frameOf cqe o] := congrArg Ledger.frames hledger
      have hfits := fits_of_called hcall
      have hkind := hserving.kind o (hserving.dispatching.sound.pool.live _ _ hat).1
      obtain ⟨fn, result⟩ := call
      cases result with
      | accept res =>
        obtain ⟨_, _, hbody⟩ := Checked.bind_eq_ok.mp hbody
        obtain ⟨peer, hpeer, hbody⟩ := Checked.bind_eq_ok.mp hbody
        obtain ⟨_, rfl⟩ := AcceptResult.create_eq_ok.mp hpeer
        obtain ⟨htodo, _⟩ := Prod.mk.injEq _ _ _ _ ▸ Checked.pure_eq_ok.mp hbody
        refine ⟨_, .serving _ htodo.symm hnext ?_, hkept⟩
        rw [hframes']
        exact List.forall_mem_singleton.mpr hfits.1
      | recv payload =>
        obtain ⟨htodo, hret⟩ := Prod.mk.injEq _ _ _ _ ▸ Checked.pure_eq_ok.mp hbody
        exact ⟨_, .idle htodo.symm hnext fun _ _ _ => hret.symm, hkept⟩
      | connect _ | close _ =>
        rw [hfits.1] at hkind
        split at hkind <;> cases hkind
      | send _ =>
        have hsend := hfits.1
        rw [hkind] at hsend
        split at hsend <;> cases hsend
  | returned hring hbefore hframes hin hquiet htodo hret =>
    cases hstage with
    | starting ht | serving _ ht => rw [hbefore] at ht; cases ht
    | idle ht hn hreturns =>
      have hnone : ∀ frame ∈ p.ring.frames, frame.type = .recv →
          Iuring.Action.callbackReturns p.ret ≠ .callbackReturns .none := by
        intro frame hf htype he
        rw [hreturns frame hf htype] at he
        cases he
      refine ⟨[], .idle htodo ?_ ?_, hserving.quiet rfl (fun h => (by cases h)) hnone hring hquiet⟩
      · have hst := step_ok hserving.dispatching.sound.sq hring
        rw [hserving.dispatching.sound.next_of_stepped hst rfl]
        exact hn
      · rw [hin]
        exact List.forall_mem_nil _

theorem runs_begin (queueSize mapped : Nat) (memory : Nat → Memory.Byte) :
    Runs socket ((doEchoServer socket).begin (initial queueSize mapped memory)) := by
  refine ⟨[], .starting rfl rfl, initial_dispatching queueSize mapped memory, ?_, ?_, ?_, rfl⟩
  · exact fun o ho => absurd ho (Nat.not_lt_zero o)
  · exact fun o ho => absurd ho (Nat.not_lt_zero o)
  · exact fun o => List.not_mem_nil

/-- The server never lets go of a connection: whatever the kernel answers, it closes no
descriptor and releases no item, and whenever it is not in a callback it has one receiver for
each connection it ever accepted, in their order, beside the item that accepts. -/
theorem keeps_every_connection {queueSize mapped : Nat} {memory : Nat → Memory.Byte}
    (hr : Transition.Reaches (doEchoServer socket).step Transition.Free
      ((doEchoServer socket).begin (initial queueSize mapped memory)) p) :
    (∀ o, .released o ∉ p.ring.trace) ∧
      (∀ req ∈ p.ring.consumed, req.sqe.op.workType = .accept ∨ req.sqe.op.workType = .recv) ∧
      (∀ o < p.ring.pool.nextObj, p.ring.Seated o) ∧
      (p.todo = [] → connections p.ring = receivers p.ring) := by
  obtain ⟨owed, hstage, hserving⟩ := hr.invariant (I := Runs socket)
    (fun p turn q h _ hs => h.step hs) (runs_begin queueSize mapped memory)
  refine ⟨hserving.kept, fun req hreq => ?_, hserving.seated, fun htodo => ?_⟩
  · have howned := hserving.dispatching.sound.owned req hreq
    have hkind : p.ring.kind req.owner = .accept ∨ p.ring.kind req.owner = .recv := by
      rw [hserving.kind req.owner howned.lt]
      split
      · exact .inl rfl
      · exact .inr rfl
    obtain htype | ⟨_, hsend⟩ := howned.type
    · rw [← htype]
      exact hkind
    · obtain hkind | hkind := hkind
      · cases hsend.symm.trans (congrArg WorkType.isSend hkind)
      · cases hsend.symm.trans (congrArg WorkType.isSend hkind)
  · rw [hserving.served]
    cases hstage with
    | starting | idle => exact List.append_nil _
    | serving _ ht => rw [htodo] at ht; cases ht

private def listener : Socket := ⟨.ipv4Tcp, 8443, .serverStreamSocket, 3⟩

private def connects (i : Nat) (fd : Int) : List Turn :=
  [.kernel i ⟨fd, 0, .ipv4 0x0101a8c0 4000, fun _ => none⟩, .client default, .client default,
    .client default]

/-- The first of two peers closes its side. -/
private def twoPeers : List Turn :=
  .client default :: connects 0 7 ++ connects 1 9 ++
    [.kernel 0 ⟨0, 1, default, fun _ => none⟩, .client default, .client default]

theorem keeps_every_connection_closed : ∃ p : Session,
    connections p.ring = [7, 9] ∧ receivers p.ring = [7, 9] := by
  obtain ⟨p, hr, htodo, hconnections⟩ := Transition.reaches_of_leads (doEchoServer listener).step
    Transition.Free (fun p => p.todo.isEmpty = true ∧ connections p.ring = [7, 9]) twoPeers
    ((doEchoServer listener).begin (initial 256 0 fun _ => 0)) (by decide +kernel)
  obtain ⟨_, _, _, hserved⟩ := keeps_every_connection hr
  exact ⟨p, hconnections, (hserved (List.isEmpty_iff.mp htodo)).symm.trans hconnections⟩

end EchoServer

end Iuring
