import Iuring.Reporting

namespace Iuring

open Lib

/-- The callback is told what the kernel answered, in the form that its operation has. -/
def CallbackResult.Fits (type : WorkType) (cqe : Completion) : CallbackResult → Prop
  | .accept newConn => type = .accept ∧ newConn.newFd = cqe.res
  | .connect result => type = .connect ∧ result.status = cqe.res
  | .recv _ => type = .recv ∧ 0 ≤ cqe.res
  | .send result => type.isSend = true ∧ result.status = cqe.res
  | .close result => type = .close ∧ result.status = cqe.res

instance (type : WorkType) (cqe : Completion) (result : CallbackResult) :
    Decidable (result.Fits type cqe) := by
  cases result <;> exact inferInstanceAs (Decidable (_ ∧ _))

/-- Where an item stands: not yet submitted, waiting for the kernel, taken up with a
completion, in the user's callback, or released. -/
inductive Phase
  | fresh
  | waiting (type : WorkType)
  | handling (type : WorkType) (cqe : Completion)
  | inCallback (type : WorkType)
  | gone
deriving DecidableEq

namespace Phase

/-- Only an accept or a recv is submitted again by the library. -/
def again (type : WorkType) (req : Request) : Option Phase :=
  if req.sqe.op.workType = type ∧ (type = .accept ∨ type = .recv) then some (.waiting type) else none

/-- The events that an item may go through, in their order. -/
def move : Phase → Event → Option Phase
  | .fresh, .submitted req => some (.waiting req.sqe.op.workType)
  | .fresh, .dispatched cqe _ => if cqe.res = -IOUring.enobufs then some .fresh else none
  | .waiting type, .dispatched cqe _ =>
    if cqe.res = -IOUring.enobufs then some (.waiting type) else some (.handling type cqe)
  | .handling type cqe, .called _ call =>
    if call.result.Fits type cqe then some (.inCallback type) else none
  | .handling type _, .submitted req => again type req
  | .inCallback type, .submitted req => again type req
  | .handling type cqe, .released _ =>
    if cqe.res < 0 ∧ (type = .connect ∨ type.isSend = true) then some .gone else none
  | .inCallback type, .released _ => if type = .accept then none else some .gone
  | _, _ => none

end Phase

namespace IOUring

variable {s s' : IOUring} {a : Action} {o : Nat}

/-- What happened to an item, in its order. -/
def history (s : IOUring) (o : Nat) : List Event := s.trace.filter (fun e => e.subject = some o)

def phase (s : IOUring) (o : Nat) : Phase :=
  if s.pool.nextObj ≤ o ∨ s.kind o = .unknown then .fresh
  else if o ∈ s.frames.map (·.workItem) then .inCallback (s.kind o)
  else if s.pool.at? (s.item o).id = some o then .waiting (s.kind o)
  else .gone

def Seated (s : IOUring) (o : Nat) : Prop := ∃ i, s.pool.at? i = some o

theorem Sound.seated_iff (h : Sound s) : s.pool.at? (s.item o).id = some o ↔ s.Seated o := by
  refine ⟨fun hat => ⟨_, hat⟩, fun ⟨i, hi⟩ => ?_⟩
  have hid : (s.item o).id = i := (h.pool.live i o hi).2.1
  rw [hid]
  exact hi

theorem phase_fresh (h : s.pool.nextObj ≤ o ∨ s.kind o = .unknown) : s.phase o = .fresh :=
  if_pos h

theorem phase_inCallback (hlt : o < s.pool.nextObj) (hk : s.kind o ≠ .unknown)
    (hf : o ∈ s.frames.map (·.workItem)) : s.phase o = .inCallback (s.kind o) := by
  rw [phase, if_neg, if_pos hf]
  exact not_or.mpr ⟨Nat.not_le.mpr hlt, hk⟩

theorem Sound.phase_waiting (h : Sound s) (hlt : o < s.pool.nextObj) (hk : s.kind o ≠ .unknown)
    (hf : o ∉ s.frames.map (·.workItem)) (hseat : s.Seated o) : s.phase o = .waiting (s.kind o) := by
  rw [phase, if_neg, if_neg hf, if_pos (h.seated_iff.mpr hseat)]
  exact not_or.mpr ⟨Nat.not_le.mpr hlt, hk⟩

theorem Sound.phase_gone (h : Sound s) (hlt : o < s.pool.nextObj) (hk : s.kind o ≠ .unknown)
    (hf : o ∉ s.frames.map (·.workItem)) (hseat : ¬s.Seated o) : s.phase o = .gone := by
  rw [phase, if_neg, if_neg hf, if_neg (h.seated_iff.not.mpr hseat)]
  exact not_or.mpr ⟨Nat.not_le.mpr hlt, hk⟩

/-- A step that touches nothing of an item leaves it in its phase. -/
theorem Sound.phase_congr (h : Sound s) (h' : Sound s')
    (hnext : s'.pool.nextObj ≤ o ↔ s.pool.nextObj ≤ o) (hkind : s'.kind o = s.kind o)
    (hframes : o ∈ s'.frames.map (·.workItem) ↔ o ∈ s.frames.map (·.workItem))
    (hseat : s'.Seated o ↔ s.Seated o) : s'.phase o = s.phase o := by
  have hslot := h'.seated_iff.trans (hseat.trans h.seated_iff.symm)
  simp only [phase, hnext, hkind, hframes, hslot]

/-- The history of every item is one that the phases allow, and it has brought the item
to where it stands. -/
def Lived (s : IOUring) : Prop :=
  ∀ o, (s.history o).foldlM Phase.move .fresh = some (s.phase o)

/-- The events of a step bring each item from its old phase to its new one. -/
def Moves (s s' : IOUring) (events : List Event) : Prop :=
  ∀ o, (events.filter (fun e => e.subject = some o)).foldlM Phase.move (s.phase o) =
    some (s'.phase o)

theorem Lived.moves (h : s.Lived) {events : List Event} (htrace : s'.trace = s.trace ++ events)
    (hmoves : s.Moves s' events) : s'.Lived := by
  intro o
  rw [history, htrace, List.filter_append, List.foldlM_append]
  have ho := h o
  rw [history] at ho
  rw [ho]
  exact hmoves o

/-- An item that the events do not speak of stays in its phase. -/
theorem moves_of_others {events : List Event} (o : Nat)
    (hevents : ∀ e ∈ events, e.subject = some o) (ho : events.foldlM Phase.move (s.phase o) =
      some (s'.phase o)) (hothers : ∀ o', o' ≠ o → s'.phase o' = s.phase o') :
    s.Moves s' events := by
  intro o'
  by_cases he : o' = o
  · subst he
    rw [List.filter_eq_self.mpr fun e hm => decide_eq_true (hevents e hm)]
    exact ho
  · have hnone : events.filter (fun e => e.subject = some o') = [] := by
      apply List.filter_eq_nil_iff.mpr
      intro e hm
      rw [hevents e hm]
      simpa using Ne.symm he
    rw [hnone, hothers o' he]
    rfl

theorem moves_of_none {events : List Event} (hevents : ∀ e ∈ events, e.subject = none)
    (hothers : ∀ o, s'.phase o = s.phase o) : s.Moves s' events := by
  intro o
  have hnone : events.filter (fun e => e.subject = some o) = [] := by
    apply List.filter_eq_nil_iff.mpr
    intro e hm
    rw [hevents e hm]
    simp
  rw [hnone, hothers o]
  rfl

theorem fits_of_called {cqe : Completion} {call : Call}
    (h : s.callHandler (s.item o) cqe = .ok (.called call)) :
    call.result.Fits (s.kind o) cqe := by
  cases callHandler_ok h with
  | closed _ ht | connected _ ht _ | accepted _ _ ht _ _ => exact ⟨ht, rfl⟩
  | sent _ ht _ => exact ⟨ht, rfl⟩
  | received _ _ ht hres => exact ⟨ht, hres⟩

/-- Where the dispatch that ends stands, after the events that have shown so far. -/
def midway (type : WorkType) (cqe : Completion) (events : List Event) : Phase :=
  if events = [] then .inCallback type else .handling type cqe

theorem Dispatching.ending_phase (h : Dispatching s) {cqe : Completion} {rest : List Completion}
    {type : WorkType} {ret : ReceivePostAction} {events : List Event}
    (hend : s.Ending cqe rest o type ret events a) : (∀ e ∈ events, e.subject = some o) ∧
      events.foldlM Phase.move (s.phase o) = some (midway (s.kind o) cqe events) := by
  have hlt := (h.sound.pool.live _ _ hend.holds).1
  have hk := hend.known_now
  obtain ⟨_, hf, _, rfl, _⟩ | ⟨_, rfl, frame, hf, rfl, _⟩ := hend.source
  · have hwait := h.sound.phase_waiting hlt hk (by rw [hf]; exact List.not_mem_nil) ⟨_, hend.holds⟩
    refine ⟨fun e hm => by rw [List.mem_singleton.mp hm]; rfl, ?_⟩
    rw [hwait]
    exact congrArg (fun p : Option Phase => p >>= fun q => some q) (if_neg hend.res)
  · have hin := phase_inCallback hlt hk (by rw [hf]; exact List.mem_cons_self)
    refine ⟨List.forall_mem_nil _, ?_⟩
    rw [hin]
    rfl

theorem Ending.frames_only {cqe : Completion} {rest : List Completion} {type : WorkType}
    {ret : ReceivePostAction} {events : List Event} (hend : s.Ending cqe rest o type ret events a)
    {o' : Nat} (hne : o' ≠ o) : o' ∉ s.frames.map (·.workItem) := by
  obtain ⟨_, hf, _⟩ | ⟨_, _, frame, hf, rfl, _⟩ := hend.source <;> rw [hf]
  · exact List.not_mem_nil
  · exact fun hm => hne (List.mem_singleton.mp hm)

section Seats

variable {i : Nat} {owner : Nat}

theorem seated_assign (hslot : s'.pool.at? = (s.desk.assign i owner).holder)
    (hvacant : s.pool.at? i = none) (hne : o ≠ owner) : s'.Seated o ↔ s.Seated o := by
  simp only [Seated, hslot]
  refine ⟨fun ⟨j, hj⟩ => ?_, fun ⟨j, hj⟩ => ⟨j, Desk.holder_assign (d := s.desk) hvacant hj⟩⟩
  obtain hj | he := Desk.holder_of_assign hj
  · exact ⟨j, hj⟩
  · exact absurd he hne

theorem seated_vacate (hslot : s'.pool.at? = (s.desk.vacate i).holder)
    (hholds : s.pool.at? i = some owner) (hne : o ≠ owner) : s'.Seated o ↔ s.Seated o := by
  simp only [Seated, hslot]
  refine ⟨fun ⟨j, hj⟩ => ?_, fun ⟨j, hj⟩ =>
    ⟨j, Desk.holder_vacate (d := s.desk) hholds hj hne⟩⟩
  exact ⟨j, (Desk.holder_of_vacate (d := s.desk) hj).2⟩

/-- An item sits in one slot only. -/
theorem Sound.unseated_vacate (h : Sound s) (hslot : s'.pool.at? = (s.desk.vacate i).holder)
    (hholds : s.pool.at? i = some owner) : ¬s'.Seated owner := by
  rintro ⟨j, hj⟩
  rw [hslot] at hj
  obtain ⟨hne, hj⟩ := Desk.holder_of_vacate (d := s.desk) hj
  have hi := (h.pool.live i owner hholds).2.1
  exact hne (((h.pool.live j owner hj).2.1).symm.trans hi)

end Seats

theorem moves_of_opened (h : Dispatching s) (h' : Sound s') {req : Request}
    (hfresh : req.owner = s.pool.nextObj) (hvacant : s.pool.at? req.id = none)
    (heq : s'.ledger = { s.ledger with
      desk := (s.desk.assign req.id req.owner).issue req
      kind := Function.update s.kind req.owner req.sqe.op.workType
      next := req.owner + 1
      consumed := s.consumed ++ [req]
      trace := s.trace ++ [.submitted req] }) : s.Moves s' [.submitted req] := by
  have hnext : s'.pool.nextObj = req.owner + 1 := congrArg Ledger.next heq
  have hkind : s'.kind = Function.update s.kind req.owner req.sqe.op.workType :=
    congrArg Ledger.kind heq
  have hframes : s'.frames = s.frames := congrArg Ledger.frames heq
  have hslot : s'.pool.at? = (s.desk.assign req.id req.owner).holder :=
    congrArg (fun l => l.desk.holder) heq
  apply moves_of_others req.owner
  · exact List.forall_mem_singleton.mpr rfl
  · have hk : s'.kind req.owner = req.sqe.op.workType := by rw [hkind, Function.update_self]
    have hseat : s'.Seated req.owner := ⟨req.id, by rw [hslot]; exact Function.update_self _ _ _⟩
    have hout : req.owner ∉ s'.frames.map (·.workItem) := by
      rw [hframes]
      intro hm
      obtain ⟨frame, hf, he⟩ := List.mem_map.mp hm
      have hlt := (h.sound.frames frame hf).1
      omega
    rw [phase_fresh (.inl hfresh.ge), h'.phase_waiting (by omega)
      (hk ▸ req.sqe.op.workType_ne_unknown) hout hseat, hk]
    rfl
  · intro o hne
    refine h.sound.phase_congr h' (by omega) ?_ (by rw [hframes])
      (seated_assign hslot hvacant hne)
    rw [hkind, Function.update_of_ne hne]

theorem phase_of_acquired (h : Sound s) (h' : Sound s') {o' id : Nat}
    (hfresh : o' = s.pool.nextObj) (hvacant : s.pool.at? id = none)
    (heq : s'.ledger = { s.ledger with
      desk := s.desk.assign id o'
      kind := Function.update s.kind o' .unknown
      next := o' + 1
      handles := o' :: s.handles }) : s'.phase o = s.phase o := by
  have hnext : s'.pool.nextObj = o' + 1 := congrArg Ledger.next heq
  have hkind : s'.kind = Function.update s.kind o' .unknown := congrArg Ledger.kind heq
  have hframes : s'.frames = s.frames := congrArg Ledger.frames heq
  have hslot : s'.pool.at? = (s.desk.assign id o').holder :=
    congrArg (fun l => l.desk.holder) heq
  by_cases he : o = o'
  · subst he
    have hk : s'.kind o = .unknown := by rw [hkind, Function.update_self]
    rw [phase_fresh (.inl hfresh.ge), phase_fresh (.inr hk)]
  · refine h.phase_congr h' (by omega) ?_ (by rw [hframes]) (seated_assign hslot hvacant he)
    rw [hkind, Function.update_of_ne he]

theorem moves_of_submitted (h : Dispatching s) (h' : Sound s') {req : Request}
    (hunknown : s.kind req.owner = .unknown) (hheld : req.owner ∈ s.handles)
    (heq : s'.ledger = { s.ledger with
      desk := s.desk.issue req
      kind := Function.update s.kind req.owner req.sqe.op.workType
      consumed := s.consumed ++ [req]
      trace := s.trace ++ [.submitted req] }) : s.Moves s' [.submitted req] := by
  have hnext : s'.pool.nextObj = s.pool.nextObj := congrArg Ledger.next heq
  have hkind : s'.kind = Function.update s.kind req.owner req.sqe.op.workType :=
    congrArg Ledger.kind heq
  have hframes : s'.frames = s.frames := congrArg Ledger.frames heq
  have hslot : s'.pool.at? = s.pool.at? := congrArg (fun l => l.desk.holder) heq
  apply moves_of_others req.owner
  · exact List.forall_mem_singleton.mpr rfl
  · have hk : s'.kind req.owner = req.sqe.op.workType := by rw [hkind, Function.update_self]
    have hseat : s'.Seated req.owner := ⟨_, by rw [hslot]; exact h.reserved _ hheld hunknown⟩
    have hlt := (h.sound.handles _ hheld).1
    have hout : req.owner ∉ s'.frames.map (·.workItem) := by
      rw [hframes]
      intro hm
      obtain ⟨frame, hf, he⟩ := List.mem_map.mp hm
      obtain ⟨_, hk, hb⟩ := h.sound.frames frame hf
      exact hb.known hk (he ▸ hunknown)
    rw [phase_fresh (.inr hunknown), h'.phase_waiting (by omega)
      (hk ▸ req.sqe.op.workType_ne_unknown) hout hseat, hk]
    rfl
  · intro o hne
    refine h.sound.phase_congr h' (by rw [hnext]) ?_ (by rw [hframes]) ?_
    · rw [hkind, Function.update_of_ne hne]
    · simp only [Seated, hslot]

theorem Sound.phase_still (h : Sound s) (h' : Sound s') (hnext : s'.pool.nextObj = s.pool.nextObj)
    (hkind : s'.kind = s.kind) (hslot : s'.pool.at? = s.pool.at?)
    (hframes : o ∈ s'.frames.map (·.workItem) ↔ o ∈ s.frames.map (·.workItem)) :
    s'.phase o = s.phase o := by
  refine h.phase_congr h' (by rw [hnext]) (by rw [hkind]) hframes ?_
  simp only [Seated, hslot]

/-- A completion that is turned away as -ENOBUFS leaves its item where it is. -/
theorem moves_of_exhausted (h : Dispatching s) (h' : Sound s') {cqe : Completion}
    (hframes : s.frames = []) (hat : s.pool.at? cqe.userData = some o) (hres : cqe.res = -enobufs)
    (heq : s'.ledger = { s.ledger with
      desk := s.desk.settle
      cqHead := s.cqHead + 1
      frames := []
      trace := s.trace ++ [.dispatched cqe (some o)] }) :
    s.Moves s' [.dispatched cqe (some o)] := by
  have hstill : ∀ o', s'.phase o' = s.phase o' := by
    have hf : s'.frames = s.frames := (congrArg Ledger.frames heq).trans hframes.symm
    intro o'
    exact h.sound.phase_still h' (congrArg Ledger.next heq) (congrArg Ledger.kind heq)
      (congrArg (fun l => l.desk.holder) heq) (by rw [hf])
  apply moves_of_others o
  · exact List.forall_mem_singleton.mpr rfl
  · rw [hstill o]
    by_cases hk : s.kind o = .unknown
    · rw [phase_fresh (.inr hk)]
      exact congrArg (fun p : Option Phase => p >>= fun q => some q) (if_pos hres)
    · have hlt := (h.sound.pool.live _ _ hat).1
      rw [h.sound.phase_waiting hlt hk (by rw [hframes]; exact List.not_mem_nil) ⟨_, hat⟩]
      exact congrArg (fun p : Option Phase => p >>= fun q => some q) (if_pos hres)
  · exact fun o' _ => hstill o'

theorem moves_of_entered (h : Dispatching s) (h' : Sound s') {cqe : Completion} {call : Call}
    (hframes : s.frames = []) (hat : s.pool.at? cqe.userData = some o) (hres : cqe.res ≠ -enobufs)
    (hcall : s.callHandler (s.item o) cqe = .ok (.called call))
    (heq : s'.ledger = { s.ledger with
      frames := [s.frameOf cqe o]
      trace := s.trace ++ [.dispatched cqe (some o), .called o call] }) :
    s.Moves s' [.dispatched cqe (some o), .called o call] := by
  have hf : s'.frames = [s.frameOf cqe o] := congrArg Ledger.frames heq
  have hnext : s'.pool.nextObj = s.pool.nextObj := congrArg Ledger.next heq
  have hkind : s'.kind = s.kind := congrArg Ledger.kind heq
  have hlt := (h.sound.pool.live _ _ hat).1
  have hfits := fits_of_called hcall
  have hk : s.kind o ≠ .unknown := by
    intro hk
    rw [hk] at hfits
    cases call with
    | mk fn result => cases result <;> cases hfits.1
  apply moves_of_others o
  · exact List.forall_mem_cons.mpr ⟨rfl, List.forall_mem_singleton.mpr rfl⟩
  · have hin := phase_inCallback (s := s') (o := o) (by omega) (by rw [hkind]; exact hk)
      (by rw [hf]; exact List.mem_cons_self)
    rw [hin, h.sound.phase_waiting hlt hk (by rw [hframes]; exact List.not_mem_nil) ⟨_, hat⟩, hkind]
    simp only [List.foldlM_cons, List.foldlM_nil, Phase.move, if_neg hres, if_pos hfits,
      Option.bind_eq_bind, Option.bind_some, pure]
  · intro o' hne
    refine h.sound.phase_still h' hnext hkind (congrArg (fun l => l.desk.holder) heq) ?_
    rw [hf, hframes]
    refine iff_of_false (fun hm => hne (List.mem_singleton.mp hm)) List.not_mem_nil

/-- A dispatch ends with one more event, after those that have shown. -/
theorem moves_of_ending (h : Dispatching s) {cqe : Completion} {rest : List Completion}
    {type : WorkType} {ret : ReceivePostAction} {events : List Event} {last : Event}
    (hend : s.Ending cqe rest o type ret events a) (hlast : last.subject = some o)
    (hmove : Phase.move (midway (s.kind o) cqe events) last = some (s'.phase o))
    (hothers : ∀ o', o' ≠ o → s'.phase o' = s.phase o') : s.Moves s' (events ++ [last]) := by
  obtain ⟨hevents, hmid⟩ := h.ending_phase hend
  apply moves_of_others o
  · exact List.forall_mem_append.mpr ⟨hevents, List.forall_mem_singleton.mpr hlast⟩
  · rw [List.foldlM_append, hmid]
    simp only [List.foldlM_cons, List.foldlM_nil, Option.bind_eq_bind, Option.bind_some, hmove, pure]
  · exact hothers

theorem moves_of_rearmed (h : Dispatching s) (h' : Sound s') {cqe : Completion}
    {rest : List Completion} {type : WorkType} {ret : ReceivePostAction} {events : List Event}
    {req : Request} (hend : s.Ending cqe rest o type ret events a)
    (htype : type = .accept ∨ type = .recv ∧ ret = .reSubmit) (howner : req.owner = o)
    (hop : req.sqe.op.workType = type)
    (heq : s'.ledger = { s.ledger with
      desk := s.desk.settle.issue req
      consumed := s.consumed ++ [req]
      cqHead := s.cqHead + 1
      frames := []
      trace := s.trace ++ events ++ [.submitted req] }) :
    s.Moves s' (events ++ [.submitted req]) := by
  have hf : s'.frames = [] := congrArg Ledger.frames heq
  have hnext : s'.pool.nextObj = s.pool.nextObj := congrArg Ledger.next heq
  have hkind : s'.kind = s.kind := congrArg Ledger.kind heq
  have hslot : s'.pool.at? = s.pool.at? := congrArg (fun l => l.desk.holder) heq
  have hk : s.kind o = type := by
    obtain ht | ⟨ht, _⟩ := htype <;> rw [ht] at hend ⊢ <;> exact hend.becomes.eq_of nofun rfl
  have hlt := (h.sound.pool.live _ _ hend.holds).1
  have hwait := h'.phase_waiting (o := o) (by omega) (by rw [hkind]; exact hend.known_now)
    (by rw [hf]; exact List.not_mem_nil) ⟨_, by rw [hslot]; exact hend.holds⟩
  refine moves_of_ending h hend (congrArg some howner) ?_ fun o' hne => ?_
  · rw [hwait, hkind, midway]
    have hagain : Phase.again (s.kind o) req = some (.waiting (s.kind o)) :=
      if_pos ⟨hop.trans hk.symm, hk ▸ htype.imp_right And.left⟩
    split <;> exact hagain
  · refine h.sound.phase_still h' hnext hkind hslot ?_
    rw [hf]
    exact iff_of_false List.not_mem_nil (hend.frames_only hne)

/-- A handler that frees its item without a call was told of a failure. -/
theorem failed_of_returned {cqe : Completion} {ret : ReceivePostAction} {recycle : Bool}
    (h : s.callHandler (s.item o) cqe = .ok (.returned ret recycle)) (hnot : s.kind o ≠ .accept)
    (hret : s.kind o = .recv → ret = .none) :
    cqe.res < 0 ∧ (s.kind o = .connect ∨ (s.kind o).isSend = true) := by
  cases callHandler_ok h with
  | failed ht hneg => exact ⟨hneg, ht.resolve_left hnot⟩
  | interrupted ht _ | rejected ht _ => cases hret ht

theorem moves_of_freed (h : Dispatching s) (h' : Sound s') {cqe : Completion}
    {rest : List Completion} {type : WorkType} {ret : ReceivePostAction} {events : List Event}
    (hend : s.Ending cqe rest o type ret events a)
    (htype : type ≠ .accept ∧ (type = .recv → ret = .none))
    (heq : s'.ledger = { s.ledger with
      desk := s.desk.settle.vacate cqe.userData
      cqHead := s.cqHead + 1
      frames := []
      trace := s.trace ++ events ++ [.released o] }) :
    s.Moves s' (events ++ [.released o]) := by
  have hf : s'.frames = [] := congrArg Ledger.frames heq
  have hnext : s'.pool.nextObj = s.pool.nextObj := congrArg Ledger.next heq
  have hkind : s'.kind = s.kind := congrArg Ledger.kind heq
  have hslot : s'.pool.at? = (s.desk.vacate cqe.userData).holder :=
    congrArg (fun l => l.desk.holder) heq
  have hlt := (h.sound.pool.live _ _ hend.holds).1
  have hgone := h'.phase_gone (o := o) (by omega) (by rw [hkind]; exact hend.known_now)
    (by rw [hf]; exact List.not_mem_nil) (h.sound.unseated_vacate hslot hend.holds)
  have hnot : s.kind o ≠ .accept := by
    intro hk
    obtain ht | ⟨_, ht⟩ := hend.becomes
    · exact htype.1 (ht.symm.trans hk)
    · rw [hk] at ht
      cases ht
  refine moves_of_ending h hend rfl ?_ fun o' hne => ?_
  · rw [hgone, midway]
    split
    · exact if_neg hnot
    · rename_i hevents
      obtain ⟨_, _, ht, _, recycle, hcall⟩ | ⟨_, hnil, _⟩ := hend.source
      · have hfailed : cqe.res < 0 ∧ (s.kind o = .connect ∨ (s.kind o).isSend = true) :=
          failed_of_returned hcall hnot fun hk => htype.2 (ht.trans hk)
        exact if_pos hfailed
      · exact absurd hnil hevents
  · refine h.sound.phase_congr h' (by rw [hnext]) (by rw [hkind]) ?_
      (seated_vacate hslot hend.holds hne)
    rw [hf]
    exact iff_of_false List.not_mem_nil (hend.frames_only hne)

theorem Lived.tracked (hl : s.Lived) (h : Dispatching s) (h' : Sound s')
    (hsub : ∀ o ∈ a.submits, s.kind o = .unknown) (ht : Tracked s s' a) : s'.Lived := by
  have hstill : s'.ledger = s.ledger → ∀ o, s'.phase o = s.phase o := fun heq o =>
    h.sound.phase_still h' (congrArg Ledger.next heq) (congrArg Ledger.kind heq)
      (congrArg (fun l => l.desk.holder) heq)
      (by rw [show s'.frames = s.frames from congrArg Ledger.frames heq])
  have hnone : s'.trace = s.trace → (∀ o, s'.phase o = s.phase o) → s'.Lived := fun htrace hphase =>
    hl.moves (htrace.trans (List.append_nil _).symm)
      (moves_of_none (List.forall_mem_nil _) hphase)
  cases ht with
  | opened socket req _ hfresh hvacant heq =>
    exact hl.moves (congrArg Ledger.trace heq) (moves_of_opened h h' hfresh hvacant heq)
  | acquired socket mem o id hfresh hvacant heq =>
    exact hnone (congrArg Ledger.trace heq) fun _ =>
      phase_of_acquired h.sound h' hfresh hvacant heq
  | edited _ _ heq | idle heq => exact hnone (congrArg Ledger.trace heq) (hstill heq)
  | submitted req hsubmits hheld _ _ heq =>
    exact hl.moves (congrArg Ledger.trace heq)
      (moves_of_submitted h h' (hsub _ hsubmits) hheld heq)
  | missed cqe rest hframes _ _ heq =>
    have hf : s'.frames = s.frames := (congrArg Ledger.frames heq).trans hframes.symm
    refine hl.moves (congrArg Ledger.trace heq) (moves_of_none
      (List.forall_mem_singleton.mpr rfl) fun o => ?_)
    exact h.sound.phase_still h' (congrArg Ledger.next heq) (congrArg Ledger.kind heq)
      (congrArg (fun l => l.desk.holder) heq) (by rw [hf])
  | exhausted cqe rest o hframes _ hat hres heq =>
    exact hl.moves (congrArg Ledger.trace heq) (moves_of_exhausted h h' hframes hat hres heq)
  | entered cqe rest o call hframes _ hat hres hcall heq =>
    exact hl.moves (congrArg Ledger.trace heq) (moves_of_entered h h' hframes hat hres hcall heq)
  | rearmed cqe rest o type ret events req hend htype howner _ hop heq =>
    exact hl.moves ((congrArg Ledger.trace heq).trans (List.append_assoc _ _ _))
      (moves_of_rearmed h h' hend htype howner hop heq)
  | freed cqe rest o type ret events hend htype heq =>
    exact hl.moves ((congrArg Ledger.trace heq).trans (List.append_assoc _ _ _))
      (moves_of_freed h h' hend htype heq)
  | completed i k req _ heq =>
    have hframes : s'.frames = s.frames := congrArg Ledger.frames heq
    exact hnone (congrArg Ledger.trace heq) fun o =>
      h.sound.phase_still h' (congrArg Ledger.next heq) (congrArg Ledger.kind heq)
        (congrArg (fun l => l.desk.holder) heq) (by rw [hframes])

/-- Whatever the kernel answers and in whatever order the user calls, each item goes through
the phases of its life one after the other, and its events bring it to where the state of
the ring has it. -/
theorem item_lives_in_phases {queueSize mapped : Nat} {memory : Nat → Memory.Byte}
    (hr : Transition.Reaches IOUring.step SubmittedOnce (initial queueSize mapped memory) s) (o : Nat) :
    (s.history o).foldlM Phase.move .fresh = some (s.phase o) := by
  have hinv := hr.invariant (I := fun u => Dispatching u ∧ u.Lived) ?_
    ⟨initial_dispatching queueSize mapped memory, fun o => ?_⟩
  · exact hinv.2 o
  · rintro u a v ⟨hd, hl⟩ hg hs
    obtain ⟨ht, hv⟩ := hd.step hg.1 hs
    exact ⟨hv, hl.tracked hd hv.sound hg.2 ht⟩
  · rw [phase_fresh (.inl (Nat.zero_le o))]
    rfl

private def reporter : Socket := ⟨.ipv4Tcp, 0, .unicastClientSocket, 3⟩

private def heard (res : Int) : Outcome := ⟨res, 1, default, fun _ => some 65⟩

/-- A receiver is interrupted, receives a byte and is given up. -/
theorem item_lives_in_phases_receiver : ∃ s : IOUring, (s.history 0).length = 6 ∧
    (s.history 0).foldlM Phase.move .fresh = some .gone := by
  obtain ⟨s, hr, hlength, hphase⟩ := Transition.reaches_of_leads IOUring.step SubmittedOnce
    (fun s => (s.history 0).length = 6 ∧ s.phase 0 = .gone)
    [.submitRecv reporter 7 default, .complete 0 ⟨eaiIntr, 0, default, fun _ => none⟩,
      .pollCompletionQueues, .complete 0 (heard 1), .pollCompletionQueues, .callbackReturns .none]
    (initial 256 0 fun _ => 0) (by decide +kernel)
  exact ⟨s, hlength, hphase ▸ item_lives_in_phases hr 0⟩

end IOUring

end Iuring
