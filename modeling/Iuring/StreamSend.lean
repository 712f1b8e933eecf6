import Iuring.Items
import Iuring.Requests

namespace Iuring

open Lib Lib.Memory

/-- The number of bytes that a stream send is given. -/
def Op.sendLength : Op → Option Nat
  | .send _ len => some len
  | _ => none

theorem Op.eq_send {op : Op} (h : op.workType = .sendStreamData) : ∃ len, op = .send op.fd len := by
  cases op <;> simp [Op.workType] at h
  exact ⟨_, rfl⟩

def Action.finishes : Action → Option (Nat × IOUring.Outcome)
  | .complete i k => some (i, k)
  | _ => none

namespace IOUring

variable {s s' s₀ s₁ : IOUring} {a : Action} {o : Nat} {msg : List Byte} {req : Request}

def completionsOf (o : Nat) (s : IOUring) : List Completion :=
  s.posted.filter (fun cqe => cqe.req.owner = o)

/-- The bytes that the kernel has accepted for the item so far. -/
def acceptedFor (o : Nat) (s : IOUring) : List Byte := (s.completionsOf o).flatMap (·.accepted)

/-- The number of bytes that the completions of the item report. -/
def reportedFor (o : Nat) (s : IOUring) : Nat := ((s.completionsOf o).map (·.res.toNat)).sum

/-- The kernel accepts at most the bytes that a stream send is given. -/
def AcceptsGiven (s : IOUring) (a : Action) : Prop :=
  ∀ p ∈ a.finishes, ∀ req ∈ s.armed[p.1]?, ∀ len ∈ req.sqe.op.sendLength, p.2.res ≤ len

instance (s : IOUring) (a : Action) : Decidable (s.AcceptsGiven a) :=
  inferInstanceAs (Decidable (∀ _ ∈ _, _))

/-- The request of a stream send carries the message until a callback of its item has returned. -/
structure Carrying (o : Nat) (msg : List Byte) (req : Request) (s : IOUring) : Prop where
  sound : Sound s
  conserved : s.Conserved
  lt : o < s.pool.nextObj
  unheld : o ∉ s.handles
  kind : (s.item o).workType = .sendStreamData
  named : ∀ frame ∈ s.frames, frame.workItem = o → frame.id = (s.item o).id
  single : s.consumed.filter (fun r => r.owner = o) = [req]
  length : ∃ fd, req.sqe.op = .send fd msg.length
  packet : ∀ i, s.pool.at? i = some o → (s.item o).sendPacket.data msg.length = msg
  accepted : ∀ i, s.pool.at? i = some o → ∀ cqe ∈ s.posted, cqe.req = req →
    cqe.accepted = msg.take cqe.res.toNat ∧ cqe.res ≤ msg.length

theorem Carrying.owner (h : Carrying o msg req s) : req.owner = o := by
  have hm : req ∈ s.consumed.filter (fun r => r.owner = o) := h.single ▸ List.mem_cons_self
  simpa using (List.mem_filter.mp hm).2

theorem Carrying.eq_of_owner (h : Carrying o msg req s) {r : Request} (hr : r ∈ s.consumed)
    (ho : r.owner = o) : r = req := by
  have hm : r ∈ s.consumed.filter (fun r => r.owner = o) := List.mem_filter.mpr ⟨hr, by simpa⟩
  rw [h.single] at hm
  exact List.mem_singleton.mp hm

/-- No one submits the item a second time. -/
theorem Carrying.issuer_ne (h : Carrying o msg req s) {r : Request} (hi : s.Issuer a r) :
    r.owner ≠ o := by
  rintro rfl
  cases hi with
  | opens _ _ howner _ => exact absurd howner h.lt.ne
  | submits _ hheld _ => exact h.unheld hheld
  | rearms _ _ htype hkind _ _ =>
    rw [h.kind] at hkind
    obtain ht | ht := htype <;> cases hkind.trans ht

theorem Carrying.single_next (h : Carrying o msg req s) (hf : Flow s s' a) :
    s'.consumed.filter (fun r => r.owner = o) = [req] := by
  cases hf with
  | still _ _ hconsumed | answered _ _ _ _ _ _ _ hconsumed =>
    rw [hconsumed]
    exact h.single
  | issued r _ hissuer _ _ hconsumed =>
    have hne : decide (r.owner = o) = false := decide_eq_false (h.issuer_ne hissuer)
    rw [hconsumed, List.filter_append, h.single, List.filter_cons_of_neg (by simp [hne])]
    rfl

theorem Carrying.accepted_next (h : Carrying o msg req s) (hg : s.AcceptsGiven a)
    (hf : Flow s s' a) {i : Nat} (hi : s.pool.at? i = some o) {cqe : Completion}
    (hm : cqe ∈ s'.posted) (hr : cqe.req = req) :
    cqe.accepted = msg.take cqe.res.toNat ∧ cqe.res ≤ msg.length := by
  cases hf with
  | still _ hposted _ | issued _ _ _ _ hposted _ =>
    rw [hposted] at hm
    exact h.accepted i hi cqe hm hr
  | answered j k r haction hreq _ hposted _ =>
    rw [hposted] at hm
    obtain hm | hm := List.mem_append.mp hm
    · exact h.accepted i hi cqe hm hr
    · cases List.mem_singleton.mp hm
      obtain rfl : r = req := hr
      obtain ⟨fd, hop⟩ := h.length
      have hle := hg (j, k) (by rw [haction]; rfl) r hreq msg.length (by rw [hop]; rfl)
      refine ⟨?_, hle⟩
      simp only [completion, IOUring.accepted, hop, h.owner, h.packet i hi]

theorem Carrying.step (h : Carrying o msg req s) (hg : s.AcceptsGiven a)
    (hs : IOUring.step a s = .ok s') : Carrying o msg req s' := by
  have hst := step_ok h.sound.sq hs
  have hext := hst.extends h.sound
  have hf := h.sound.flow hst
  have hsound := h.sound.stepped hst
  have hid : (s'.item o).id = (s.item o).id := (hext.evolves o h.lt).id
  obtain ⟨hkind, hpacket⟩ := (h.sound.touched hst h.lt).unheld h.unheld
  refine ⟨hsound, h.conserved.flow hf, h.lt.trans_le hext.next,
    fun hm => h.unheld (h.sound.handles_back hst h.lt hm), hkind.trans h.kind, ?_,
    h.single_next hf, h.length, fun i hi => ?_,
    fun i hi cqe hm hr => h.accepted_next hg hf (h.sound.slot_back hst h.lt hi) hm hr⟩
  · rintro frame hm rfl
    exact h.sound.frame_named hst hm fun hm => h.named frame hm rfl
  · obtain hp | ⟨frame, hm, ho, hgone⟩ := hpacket
    · rw [hp]
      exact h.packet i (h.sound.slot_back hst h.lt hi)
    · have hi' : (s'.item o).id = i := (hsound.pool.live i o hi).2.1
      rw [h.named frame hm ho, ← hid, hi', hi] at hgone
      cases hgone

/-- A send makes an item with the message in its packet. -/
theorem Sound.opened_of_send (h : Sound s) {socket : Socket} {str : StdString} {cb : CallbackFn}
    {mem : Uninitialized} (hs : IOUring.step (.send socket str cb mem) s = .ok s') :
    ∃ item req, Opened s s' item req ∧ item.workType = .sendStreamData ∧
      item.sendPacket.data str.bytes.length = str.bytes ∧
      ∃ fd, req.sqe.op = .send fd str.bytes.length := by
  obtain ⟨id, item, req, hset, ho⟩ := h.opened_of_alloc ((send_eq socket str cb mem s).symm.trans hs)
  obtain ⟨item₁, happend, he⟩ := Checked.bind_eq_ok.mp hset
  obtain ⟨packet, hpacket, he₁⟩ := Checked.bind_eq_ok.mp happend
  cases he₁
  cases he
  obtain ⟨_, rfl⟩ := SendPacket.append_reset_eq_ok.mp hpacket
  obtain ⟨len, hop⟩ := Op.eq_send (ho.describes.type.trans rfl)
  have hlen : len = str.bytes.length := ho.describes.length _ _ hop
  exact ⟨_, req, ho, rfl, read_write _ 0 str.bytes, _, hlen ▸ hop⟩

/-- The request that a send makes carries the message. -/
theorem Sound.sent (h : Sound s₀) (hc : s₀.Conserved) {socket : Socket} {str : StdString}
    {cb : CallbackFn} {mem : Uninitialized} (hs : IOUring.step (.send socket str cb mem) s₀ = .ok s₁) :
    ∃ req, Carrying s₀.pool.nextObj str.bytes req s₁ := by
  have hst := step_ok h.sq hs
  obtain ⟨item, req, ho, hkind, hpacket, hop⟩ := h.opened_of_send hs
  have hold : ∀ r ∈ s₀.consumed, r.owner ≠ s₀.pool.nextObj := fun r hr => (h.owned r hr).lt.ne
  have hfilter : s₀.consumed.filter (fun r => r.owner = s₀.pool.nextObj) = [] :=
    List.filter_eq_nil_iff.mpr fun r hr => by simpa using hold r hr
  refine ⟨req, h.stepped hst, hc.flow (h.flow hst), ?_, fun hm => ?_, ?_,
    fun frame hm hw => ?_, ?_, hop, fun i hi => ?_, fun i hi cqe hm hr => ?_⟩
  · rw [ho.next]
    exact Nat.lt_succ_self _
  · exact absurd (h.handles _ (ho.handles ▸ hm)).1 (Nat.lt_irrefl _)
  · rw [← ho.owner, ho.kind, hkind]
  · exact absurd (h.frames frame (ho.frames ▸ hm)).1 (hw ▸ Nat.lt_irrefl _)
  · rw [ho.consumed, List.filter_append, hfilter]
    simp [ho.owner]
  · rw [← ho.owner, ho.packet, hpacket]
  · have hmem : cqe.req ∈ s₀.consumed := h.posted cqe (ho.posted ▸ hm)
    exact absurd ((congrArg Request.owner hr).trans ho.owner) (hold _ hmem)

theorem trace_of_settled {frame : Frame} {ret : ReceivePostAction} (hs : Settled frame ret s s') :
    (∃ req, s'.trace = s.trace ++ [.submitted req]) ∨
      ∃ o, s'.trace = s.trace ++ [.released o] := by
  cases hs with
  | rearmed _ _ _ _ heq => exact .inl ⟨_, congrArg IOUring.trace heq⟩
  | freed _ _ _ _ _ heq => exact .inr ⟨_, congrArg IOUring.trace heq⟩

/-- A poll that calls back for the item has found it in its slot. -/
theorem Sound.slot_of_called (h : Sound s) (hs : IOUring.step .pollCompletionQueues s = .ok s')
    {call : Call} (hc : .called o call ∈ s'.trace.drop s.trace.length) :
    (∃ i, s.pool.at? i = some o) ∧ s'.posted = s.posted := by
  obtain ⟨_, hp⟩ := pollCompletionQueues_ok hs
  cases hp with
  | idle _ heq => simp [heq] at hc
  | missed _ _ _ _ heq | exhausted _ _ _ _ _ _ heq => simp [heq, emit, cqAdvance] at hc
  | entered cqe rest o' call' _ hat _ _ heq =>
    subst heq
    simp only [enterCallback, emit, List.append_assoc, List.drop_left, List.mem_append,
      List.mem_singleton, reduceCtorEq, false_or, Event.called.injEq] at hc
    have ho : o = o' := hc.1
    exact ⟨⟨_, ho ▸ hat⟩, rfl⟩
  | returned cqe rest o' ret recycle _ _ _ _ hafter =>
    obtain ⟨buffers, hst, _⟩ := settled_of_returned h.sq hafter
    obtain ⟨e, htrace⟩ | ⟨e, htrace⟩ := trace_of_settled hst <;> simp [htrace, emit] at hc

theorem Carrying.delivered_iff (h : Carrying o msg req s) {i : Nat} (hi : s.pool.at? i = some o) :
    s.acceptedFor o = msg ↔ s.reportedFor o = msg.length := by
  obtain ⟨fd, hop⟩ := h.length
  have hle : (s.completionsOf o).length ≤ 1 :=
    h.sound.completions_le_one h.conserved h.single (by rw [hop]; rfl)
  rw [acceptedFor, reportedFor]
  rcases hl : s.completionsOf o with _ | ⟨cqe, _ | ⟨_, _⟩⟩
  · simp only [List.flatMap_nil, List.map_nil, List.sum_nil]
    exact ⟨fun hm => hm ▸ rfl, fun hm => (List.length_eq_zero_iff.mp hm.symm).symm⟩
  · have hm : cqe ∈ s.completionsOf o := hl ▸ List.mem_cons_self
    obtain ⟨hm, ho⟩ := List.mem_filter.mp hm
    have hreq := h.eq_of_owner (h.sound.posted cqe hm) (by simpa using ho)
    obtain ⟨hacc, hres⟩ := h.accepted i hi cqe hm hreq
    simp only [List.flatMap_cons, List.flatMap_nil, List.append_nil, hacc, List.map_cons,
      List.map_nil, List.sum_cons, List.sum_nil, List.take_eq_self_iff]
    omega
  · rw [hl] at hle
    simp at hle

/-- When the callback of a stream send runs, the kernel has accepted the message
exactly if the count that it reported is the length of the message. -/
theorem stream_send_whole_iff {queueSize mapped : Nat} {memory : Nat → Byte} {socket : Socket}
    {str : StdString} {cb : CallbackFn} {mem : Uninitialized} {call : Call}
    (hr₀ : Transition.Reaches IOUring.step Transition.Free (initial queueSize mapped memory) s₀)
    (hsend : IOUring.step (.send socket str cb mem) s₀ = .ok s₁)
    (hr : Transition.Reaches IOUring.step AcceptsGiven s₁ s)
    (hpoll : IOUring.step .pollCompletionQueues s = .ok s')
    (hcall : .called s₀.pool.nextObj call ∈ s'.trace.drop s.trace.length) :
    s'.acceptedFor s₀.pool.nextObj = str.bytes ↔
      s.reportedFor s₀.pool.nextObj = str.bytes.length := by
  have hs₀ := (initial_sound queueSize mapped memory).reaches hr₀
  have hc₀ : s₀.Conserved := by
    refine (hr₀.invariant (I := fun s => Sound s ∧ s.Conserved) (fun _ _ _ hp _ hs => ?_)
      ⟨initial_sound queueSize mapped memory, initial_conserved queueSize mapped memory⟩).2
    have hst := step_ok hp.1.sq hs
    exact ⟨hp.1.stepped hst, hp.2.flow (hp.1.flow hst)⟩
  obtain ⟨req, h₁⟩ := hs₀.sent hc₀ hsend
  have h := hr.invariant (fun _ _ _ hp hg hs => hp.step hg hs) h₁
  obtain ⟨⟨i, hi⟩, hposted⟩ := h.sound.slot_of_called hpoll hcall
  have hsame : s'.acceptedFor s₀.pool.nextObj = s.acceptedFor s₀.pool.nextObj := by
    simp only [acceptedFor, completionsOf, hposted]
  rw [hsame]
  exact h.delivered_iff hi

private def client : Socket := ⟨.ipv4Tcp, 0, .unicastClientSocket, 3⟩

private def greeting : StdString := ⟨[104, 105], by decide⟩

private def wrote (count : Int) : Outcome := ⟨count, 0, default, fun _ => none⟩

theorem stream_send_whole_iff_full : ∃ s' : IOUring,
    .called 0 ⟨9, .send ⟨2⟩⟩ ∈ s'.trace ∧ s'.acceptedFor 0 = greeting.bytes := by
  have hlead : Transition.Leads IOUring.step AcceptsGiven
      (fun s₁ => Transition.Leads IOUring.step AcceptsGiven
        (fun s => s.reportedFor 0 = 2 ∧ Transition.Leads IOUring.step AcceptsGiven
          (fun s' => .called 0 ⟨9, .send ⟨2⟩⟩ ∈ s'.trace.drop s.trace.length)
          [.pollCompletionQueues] s)
        [.complete 0 (wrote 2)] s₁)
      [.send client greeting 9 default] (initial 256 0 fun _ => 0) := by
    decide +kernel
  obtain ⟨_, s₁, hsend, hlead⟩ := Transition.leads_single.mp hlead
  obtain ⟨s, hr, hcount, hlead⟩ := Transition.reaches_of_leads _ _ _ _ _ hlead
  obtain ⟨_, s', hpoll, hcall⟩ := Transition.leads_single.mp hlead
  exact ⟨s', List.mem_of_mem_drop hcall,
    (stream_send_whole_iff .refl hsend hr hpoll hcall).mpr hcount⟩

/-- The kernel takes one byte of two, and the callback is told of a send that is done. -/
theorem short_write_truncates : ∃ s₁ t,
    IOUring.step (.send client greeting 9 default) (initial 256 0 fun _ => 0) = .ok s₁ ∧
      Transition.Reaches IOUring.step AcceptsGiven s₁ t ∧
      .called 0 ⟨9, .send ⟨1⟩⟩ ∈ t.trace ∧ t.acceptedFor 0 ≠ greeting.bytes := by
  have hlead : Transition.Leads IOUring.step AcceptsGiven
      (fun s₁ => Transition.Leads IOUring.step AcceptsGiven
        (fun t => .called 0 ⟨9, .send ⟨1⟩⟩ ∈ t.trace ∧ t.acceptedFor 0 = [104])
        [.complete 0 (wrote 1), .pollCompletionQueues, .callbackReturns .none] s₁)
      [.send client greeting 9 default] (initial 256 0 fun _ => 0) := by
    decide +kernel
  obtain ⟨_, s₁, hsend, hlead⟩ := Transition.leads_single.mp hlead
  obtain ⟨t, hr, hcall, hacc⟩ := Transition.reaches_of_leads _ _ _ _ _ hlead
  exact ⟨s₁, t, hsend, hr, hcall, by rw [hacc]; decide⟩

end IOUring

end Iuring
