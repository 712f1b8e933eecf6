import Iuring.KernelOrder
import Iuring.Lifecycle

namespace Iuring

open Lib

/-- A line of the client's code makes a call; an allocation leaves some of its memory
uninitialized. -/
structure Line where
  act : Uninitialized → IOUring → Action
  isCall : ∀ mem s, (act mem s).isCall = true

/-- A program that makes its first calls and then polls, as long as what has happened does not
end its loop. Its callbacks make calls of their own and return. -/
structure Client where
  start : List Line
  body : Call → Result (List Line × ReceivePostAction)
  polls : List Event → Bool

/-- The ring, with the lines that are left of the code that the client is in. -/
structure Session where
  ring : IOUring
  todo : List Line
  ret : ReceivePostAction

inductive Turn
  | client (mem : Uninitialized)
  | kernel (i : Nat) (k : IOUring.Outcome)

def Turn.isClient : Turn → Bool
  | .client _ => true
  | .kernel _ _ => false

/-- The client makes the calls of its code one after the other, returns from its callback
after the last one, and polls in no callback. -/
def Session.next (p : Session) (mem : Uninitialized) : Action :=
  match p.todo with
  | line :: _ => line.act mem p.ring
  | [] => if p.ring.frames = [] then .pollCompletionQueues else .callbackReturns p.ret

def Session.action (p : Session) : Turn → Action
  | .client mem => p.next mem
  | .kernel i k => .complete i k

def Event.callback : Event → Option Call
  | .called _ call => some call
  | .submitted _ | .dispatched _ _ | .released _ => none

theorem Action.isCall_of_opens {a : Action} {socket : Socket} (h : a.opens = some socket) :
    a.isCall = true := by
  cases a with
  | submitAccept | submitConnect | submitRecv | submitClose | send => rfl
  | ackuireSendWorkitem | getSendPacket | append | submitStreamData | submitPacket
  | pollCompletionQueues | callbackReturns | complete => cases h

theorem Action.isCall_of_submits {a : Action} {o : Nat} (h : a.submits = some o) :
    a.isCall = true := by
  cases a with
  | submitStreamData | submitPacket => rfl
  | submitAccept | submitConnect | submitRecv | submitClose | send | ackuireSendWorkitem
  | getSendPacket | append | pollCompletionQueues | callbackReturns | complete => cases h

theorem IOUring.unnested_of_isCall {s : IOUring} {a : Action} (h : a.isCall = true) :
    s.Unnested a := by
  intro hpolls
  cases a with
  | pollCompletionQueues => cases h
  | submitAccept | submitConnect | submitRecv | submitClose | ackuireSendWorkitem | getSendPacket
  | append | submitStreamData | submitPacket | send | callbackReturns | complete => cases hpolls

/-- A call takes no item out of its slot. -/
theorem IOUring.Dispatching.seated_call {s t : IOUring} {a : Action} {o : Nat} (hd : Dispatching s)
    (hcall : a.isCall = true) (hs : IOUring.step a s = .ok t) (ho : s.Seated o) : t.Seated o := by
  obtain ⟨i, hi⟩ := ho
  cases (hd.step (unnested_of_isCall hcall) hs).1 with
  | opened _ _ _ _ hvacant heq =>
    have hslot := congrArg (fun l => l.desk.holder i) heq
    exact ⟨i, hslot.trans (Desk.holder_assign (d := s.desk) hvacant hi)⟩
  | acquired _ _ _ _ _ hvacant heq =>
    have hslot := congrArg (fun l => l.desk.holder i) heq
    exact ⟨i, hslot.trans (Desk.holder_assign (d := s.desk) hvacant hi)⟩
  | edited _ _ heq | submitted _ _ _ _ _ heq =>
    exact ⟨i, (congrArg (fun l => l.desk.holder i) heq).trans hi⟩
  | idle | missed | exhausted | entered | completed => cases hcall
  | rearmed _ _ _ _ _ _ _ hend | freed _ _ _ _ _ _ hend =>
    obtain ⟨rfl, _⟩ | ⟨rfl, _⟩ := hend.source <;> cases hcall

/-- It puts no item but a new one into a slot. -/
theorem IOUring.Dispatching.seated_of_call {s t : IOUring} {a : Action} {o : Nat}
    (hd : Dispatching s) (hcall : a.isCall = true) (hs : IOUring.step a s = .ok t)
    (ho : t.Seated o) : s.Seated o ∨ o = s.pool.nextObj := by
  obtain ⟨i, hi⟩ := ho
  cases (hd.step (unnested_of_isCall hcall) hs).1 with
  | opened _ _ _ hfresh _ heq | acquired _ _ _ _ hfresh _ heq =>
    have hslot := (congrArg (fun l => l.desk.holder i) heq).symm.trans hi
    obtain hi | rfl := Desk.holder_of_assign (d := s.desk) hslot
    · exact .inl ⟨i, hi⟩
    · exact .inr hfresh
  | edited _ _ heq | submitted _ _ _ _ _ heq =>
    exact .inl ⟨i, (congrArg (fun l => l.desk.holder i) heq).symm.trans hi⟩
  | idle | missed | exhausted | entered | completed => cases hcall
  | rearmed _ _ _ _ _ _ _ hend | freed _ _ _ _ _ _ hend =>
    obtain ⟨rfl, _⟩ | ⟨rfl, _⟩ := hend.source <;> cases hcall

/-- An answer of the kernel shows in none of these. -/
theorem IOUring.Dispatching.still_of_complete {s t : IOUring} {i : Nat} {k : Outcome}
    (hd : Dispatching s) (hs : IOUring.step (.complete i k) s = .ok t) : t.frames = s.frames ∧
      t.trace = s.trace ∧ t.pool.nextObj = s.pool.nextObj ∧ t.handles = s.handles := by
  cases (hd.step (fun hp => (by cases hp)) hs).1 with
  | opened _ _ hopens => cases hopens
  | submitted _ hsubmits => cases hsubmits
  | edited _ _ heq | completed _ _ _ _ heq =>
    exact ⟨congrArg Ledger.frames heq, congrArg Ledger.trace heq, congrArg Ledger.next heq,
      congrArg Ledger.handles heq⟩
  | rearmed _ _ _ _ _ _ _ hend | freed _ _ _ _ _ _ hend =>
    obtain ⟨ha, _⟩ | ⟨ha, _⟩ := hend.source <;> cases ha

/-- What a call does to the ledger that makes an item and submits it. -/
theorem IOUring.Dispatching.ledger_of_opens {s t : IOUring} {a : Action} {socket : Socket}
    (hd : Dispatching s) (ha : a.opens = some socket) (hs : IOUring.step a s = .ok t) :
    ∃ req : Request, req.owner = s.pool.nextObj ∧ t.ledger = { s.ledger with
      desk := (s.desk.assign req.id req.owner).issue req
      kind := Function.update s.kind req.owner req.sqe.op.workType
      next := req.owner + 1
      consumed := s.consumed ++ [req]
      trace := s.trace ++ [.submitted req] } := by
  cases (hd.step (unnested_of_isCall (Action.isCall_of_opens ha)) hs).1 with
  | opened _ req _ hfresh _ heq => exact ⟨req, hfresh, heq⟩
  | edited hopens =>
    rw [ha] at hopens
    cases hopens
  | submitted _ hsubmits =>
    cases a with
    | submitStreamData | submitPacket => cases ha
    | submitAccept | submitConnect | submitRecv | submitClose | send | ackuireSendWorkitem
    | getSendPacket | append | pollCompletionQueues | callbackReturns | complete => cases hsubmits
  | acquired | idle | missed | exhausted | entered | completed => cases ha
  | rearmed _ _ _ _ _ _ _ hend | freed _ _ _ _ _ _ hend =>
    obtain ⟨rfl, _⟩ | ⟨rfl, _⟩ := hend.source <;> cases ha

namespace Client

variable {c : Client} {p q : Session} {turn : Turn} {a : Action} {s t : IOUring}

/-- The callback that a step has entered. -/
def entered (s t : IOUring) : Option Call := (t.trace.drop s.trace.length).findSome? Event.callback

def begin (c : Client) (ring : IOUring) : Session := ⟨ring, c.start, .none⟩

/-- The loop has come to its end. -/
def Ended (c : Client) (p : Session) : Prop :=
  p.todo = [] ∧ p.ring.frames = [] ∧ c.polls p.ring.trace = false

instance (c : Client) (p : Session) : Decidable (c.Ended p) :=
  decidable_of_iff (p.todo.isEmpty = true ∧ p.ring.frames = [] ∧ c.polls p.ring.trace = false)
    (and_congr_left' List.isEmpty_iff)

def step (c : Client) (turn : Turn) (p : Session) : Result Session := do
  Checked.ensure .notEnabled (turn.isClient = true → ¬c.Ended p)
  let ring ← IOUring.step (p.action turn) p.ring
  match turn with
  | .kernel _ _ => return { p with ring := ring }
  | .client _ =>
    match entered p.ring ring with
    | some call => do
      let (todo, ret) ← c.body call
      return ⟨ring, todo, ret⟩
    | none => return ⟨ring, p.todo.tail, p.ret⟩

theorem entered_eq {events : List Event} (h : t.trace = s.trace ++ events) :
    entered s t = events.findSome? Event.callback := by
  rw [entered, h, List.drop_left]

/-- Everything that a turn can do. -/
inductive Advanced (c : Client) (p q : Session) : Prop
  | answered (i : Nat) (k : IOUring.Outcome)
      (hs : IOUring.step (.complete i k) p.ring = .ok q.ring)
      (htodo : q.todo = p.todo) (hret : q.ret = p.ret)
  | called (mem : Uninitialized) (line : Line)
      (hs : IOUring.step (line.act mem p.ring) p.ring = .ok q.ring)
      (htodo : p.todo = line :: q.todo) (hret : q.ret = p.ret)
  | polled (hs : IOUring.step .pollCompletionQueues p.ring = .ok q.ring)
      (hbefore : p.todo = []) (hframes : p.ring.frames = []) (hin : q.ring.frames = [])
      (hpolls : c.polls p.ring.trace = true) (hquiet : entered p.ring q.ring = none)
      (htodo : q.todo = []) (hret : q.ret = p.ret)
  | entered (call : Call) (cqe : Completion) (o : Nat)
      (hs : IOUring.step .pollCompletionQueues p.ring = .ok q.ring)
      (hbefore : p.todo = []) (hframes : p.ring.frames = [])
      (hpolls : c.polls p.ring.trace = true)
      (hat : p.ring.pool.at? cqe.userData = some o)
      (hcall : p.ring.callHandler (p.ring.item o) cqe = .ok (.called call))
      (hledger : q.ring.ledger = { p.ring.ledger with
        frames := [p.ring.frameOf cqe o]
        trace := p.ring.trace ++ [.dispatched cqe (some o), .called o call] })
      (hbody : c.body call = .ok (q.todo, q.ret))
  | returned (hs : IOUring.step (.callbackReturns p.ret) p.ring = .ok q.ring)
      (hbefore : p.todo = []) (hframes : p.ring.frames ≠ []) (hin : q.ring.frames = [])
      (hquiet : entered p.ring q.ring = none) (htodo : q.todo = []) (hret : q.ret = p.ret)

theorem ring_of_step (hs : c.step turn p = .ok q) :
    IOUring.step (p.action turn) p.ring = .ok q.ring := by
  obtain ⟨_, _, hs⟩ := Checked.bind_eq_ok.mp hs
  obtain ⟨ring, hring, h⟩ := Checked.bind_eq_ok.mp hs
  cases turn with
  | kernel i k =>
    cases h
    exact hring
  | client mem =>
    cases he : entered p.ring ring with
    | none =>
      simp only [he] at h
      cases h
      exact hring
    | some call =>
      simp only [he] at h
      obtain ⟨_, _, h⟩ := Checked.bind_eq_ok.mp h
      cases h
      exact hring

theorem code_of_step {mem : Uninitialized} (hs : c.step (.client mem) p = .ok q) :
    (entered p.ring q.ring = none ∧ q.todo = p.todo.tail ∧ q.ret = p.ret) ∨
      ∃ call, entered p.ring q.ring = some call ∧ c.body call = .ok (q.todo, q.ret) := by
  obtain ⟨qring, qtodo, qret⟩ := q
  have hstep := ring_of_step hs
  obtain ⟨_, _, hs⟩ := Checked.bind_eq_ok.mp hs
  obtain ⟨ring, hring, h⟩ := Checked.bind_eq_ok.mp hs
  obtain rfl := Except.ok.inj (hring.symm.trans hstep)
  cases he : entered p.ring ring with
  | none =>
    simp only [he] at h
    cases h
    exact .inl ⟨rfl, rfl, rfl⟩
  | some call =>
    simp only [he] at h
    obtain ⟨⟨todo, ret⟩, hbody, h⟩ := Checked.bind_eq_ok.mp h
    cases h
    exact .inr ⟨call, rfl, hbody⟩

/-- A step that enters no callback leaves the rest of the code. -/
theorem quiet_client {mem : Uninitialized} {events : List Event}
    (htrace : q.ring.trace = p.ring.trace ++ events)
    (hquiet : events.findSome? Event.callback = none) (hs : c.step (.client mem) p = .ok q) :
    q.todo = p.todo.tail ∧ q.ret = p.ret := by
  have hnone : entered p.ring q.ring = none := (entered_eq htrace).trans hquiet
  obtain ⟨_, htodo, hret⟩ | ⟨call, hcall, _⟩ := code_of_step hs
  · exact ⟨htodo, hret⟩
  · rw [hnone] at hcall
    cases hcall

/-- The end of a dispatch enters no callback. -/
theorem quiet_ending {cqe : Completion} {rest : List Completion} {o : Nat} {type : WorkType}
    {ret : ReceivePostAction} {events : List Event}
    (hend : p.ring.Ending cqe rest o type ret events a) {last : Event}
    (hlast : last.callback = none) : (events ++ [last]).findSome? Event.callback = none := by
  obtain ⟨_, _, _, rfl, _⟩ | ⟨_, rfl, _⟩ := hend.source
  · simpa using ⟨rfl, hlast⟩
  · simpa using hlast

/-- A call enters no callback. -/
theorem quiet_call (hd : IOUring.Dispatching s) (hcall : a.isCall = true)
    (hs : IOUring.step a s = .ok t) :
    ∃ events, t.trace = s.trace ++ events ∧ events.findSome? Event.callback = none := by
  cases (hd.step (IOUring.unnested_of_isCall hcall) hs).1 with
  | opened _ req _ _ _ heq | submitted req _ _ _ _ heq =>
    exact ⟨[.submitted req], congrArg Ledger.trace heq, rfl⟩
  | acquired _ _ _ _ _ _ heq | edited _ _ heq =>
    exact ⟨[], (congrArg Ledger.trace heq).trans (List.append_nil _).symm, rfl⟩
  | idle | missed | exhausted | entered | completed => cases hcall
  | rearmed _ _ _ _ _ _ _ hend | freed _ _ _ _ _ _ hend =>
    obtain ⟨rfl, _⟩ | ⟨rfl, _⟩ := hend.source <;> cases hcall

theorem advanced_call (hd : IOUring.Dispatching p.ring) {mem : Uninitialized} {line : Line}
    {rest : List Line} (htodo : p.todo = line :: rest) (hs : c.step (.client mem) p = .ok q) :
    Advanced c p q := by
  have hring : IOUring.step (line.act mem p.ring) p.ring = .ok q.ring := by
    have hstep := ring_of_step hs
    rwa [Session.action, Session.next, htodo] at hstep
  obtain ⟨events, htrace, hnone⟩ := quiet_call hd (line.isCall mem p.ring) hring
  obtain ⟨hrest, hret⟩ := quiet_client htrace hnone hs
  rw [htodo] at hrest
  exact .called mem line hring (hrest ▸ htodo) hret

theorem advanced_poll (hd : IOUring.Dispatching p.ring) {mem : Uninitialized} (htodo : p.todo = [])
    (hframes : p.ring.frames = []) (hs : c.step (.client mem) p = .ok q) : Advanced c p q := by
  have hring : IOUring.step .pollCompletionQueues p.ring = .ok q.ring := by
    have hstep := ring_of_step hs
    rwa [Session.action, Session.next, htodo, if_pos hframes] at hstep
  have hpolls : c.polls p.ring.trace = true := by
    obtain ⟨_, hgoes, _⟩ := Checked.bind_eq_ok.mp hs
    rw [Checked.ensure_eq_ok] at hgoes
    by_contra hends
    exact hgoes rfl ⟨htodo, hframes, Bool.eq_false_iff.mpr hends⟩
  have hpolled : ∀ events, q.ring.trace = p.ring.trace ++ events →
      events.findSome? Event.callback = none → q.ring.frames = [] → Advanced c p q := by
    intro events htrace hnone hin
    obtain ⟨hrest, hret⟩ := quiet_client htrace hnone hs
    rw [htodo] at hrest
    exact .polled hring htodo hframes hin hpolls ((entered_eq htrace).trans hnone) hrest hret
  cases (hd.step (fun _ => hframes) hring).1 with
  | opened _ _ hopens => cases hopens
  | submitted _ hsubmits => cases hsubmits
  | edited _ _ heq | idle heq =>
    exact hpolled [] ((congrArg Ledger.trace heq).trans (List.append_nil _).symm) rfl
      ((congrArg Ledger.frames heq).trans hframes)
  | missed cqe rest _ _ _ heq =>
    exact hpolled _ (congrArg Ledger.trace heq) rfl (congrArg Ledger.frames heq)
  | exhausted cqe rest o _ _ _ _ heq =>
    exact hpolled _ (congrArg Ledger.trace heq) rfl (congrArg Ledger.frames heq)
  | entered cqe rest o call _ _ hat _ hcall heq =>
    have hentered : entered p.ring q.ring = some call := entered_eq (congrArg Ledger.trace heq)
    obtain ⟨hnone, _⟩ | ⟨call', hcall', hbody⟩ := code_of_step hs
    · rw [hentered] at hnone
      cases hnone
    · obtain rfl := Option.some.inj (hentered.symm.trans hcall')
      exact .entered call cqe o hring htodo hframes hpolls hat hcall heq hbody
  | rearmed cqe rest o type ret events req hend _ _ _ _ heq =>
    exact hpolled _ ((congrArg Ledger.trace heq).trans (List.append_assoc _ _ _))
      (quiet_ending hend rfl) (congrArg Ledger.frames heq)
  | freed cqe rest o type ret events hend _ heq =>
    exact hpolled _ ((congrArg Ledger.trace heq).trans (List.append_assoc _ _ _))
      (quiet_ending hend rfl) (congrArg Ledger.frames heq)

theorem advanced_return (hd : IOUring.Dispatching p.ring) {mem : Uninitialized}
    (htodo : p.todo = []) (hframes : p.ring.frames ≠ []) (hs : c.step (.client mem) p = .ok q) :
    Advanced c p q := by
  have hring : IOUring.step (.callbackReturns p.ret) p.ring = .ok q.ring := by
    have hstep := ring_of_step hs
    rwa [Session.action, Session.next, htodo, if_neg hframes] at hstep
  have hin : q.ring.frames = [] := by
    obtain ⟨frame, frames, hf, hafter⟩ := IOUring.callbackReturns_ok hring
    have hsettled := IOUring.afterHandler_ok (hd.sound.leaveCallback hf).sq hafter
    have hleft : (p.ring.leaveCallback frame frames).frames = frames :=
      congrArg Ledger.frames (IOUring.ledger_leaveCallback frame frames)
    obtain hnil | ⟨only, _, _, hone, _⟩ := hd.frames
    · exact absurd hnil hframes
    · rw [IOUring.frames_of_settled hsettled, hleft]
      exact (List.cons_eq_cons.mp (hf.symm.trans hone)).2
  have hquiet : ∃ events, q.ring.trace = p.ring.trace ++ events ∧
      events.findSome? Event.callback = none := by
    cases (hd.step (fun h => (by cases h)) hring).1 with
    | opened _ _ hopens => cases hopens
    | submitted _ hsubmits => cases hsubmits
    | edited _ _ heq => exact ⟨[], (congrArg Ledger.trace heq).trans (List.append_nil _).symm, rfl⟩
    | rearmed cqe rest o type ret events req hend _ _ _ _ heq =>
      exact ⟨_, (congrArg Ledger.trace heq).trans (List.append_assoc _ _ _), quiet_ending hend rfl⟩
    | freed cqe rest o type ret events hend _ heq =>
      exact ⟨_, (congrArg Ledger.trace heq).trans (List.append_assoc _ _ _), quiet_ending hend rfl⟩
  obtain ⟨events, htrace, hnone⟩ := hquiet
  obtain ⟨hrest, hret⟩ := quiet_client htrace hnone hs
  rw [htodo] at hrest
  exact .returned hring htodo hframes hin ((entered_eq htrace).trans hnone) hrest hret

theorem advanced (hd : IOUring.Dispatching p.ring) (hs : c.step turn p = .ok q) :
    Advanced c p q := by
  cases turn with
  | kernel i k =>
    obtain ⟨_, _, hs⟩ := Checked.bind_eq_ok.mp hs
    obtain ⟨ring, hring, h⟩ := Checked.bind_eq_ok.mp hs
    cases h
    exact .answered i k hring rfl rfl
  | client mem =>
    cases htodo : p.todo with
    | cons line rest => exact advanced_call hd htodo hs
    | nil =>
      by_cases hframes : p.ring.frames = []
      · exact advanced_poll hd htodo hframes hs
      · exact advanced_return hd htodo hframes hs

end Client

end Iuring
