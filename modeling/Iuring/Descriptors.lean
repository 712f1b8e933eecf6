import Iuring.Items
import Iuring.Requests

namespace Iuring

open Lib

namespace WorkType

/-- The items that a dispatch may arm again. -/
def isRearmed : WorkType → Bool
  | .accept | .recv => true
  | _ => false

/-- An item never becomes one that may be armed again. -/
theorem Becomes.isRearmed {a b : WorkType} (h : a.Becomes b) (hb : b.isRearmed = true) : a = b := by
  obtain rfl | ⟨_, hs⟩ := h
  · rfl
  · cases b <;> simp_all [isSend, WorkType.isRearmed]

end WorkType

namespace IOUring

variable {s s' s₁ t t' : IOUring} {a : Action}

theorem Sound.live_lt (h : Sound s) {o : Nat} (hl : s.Live o) : o < s.pool.nextObj := by
  obtain ⟨i, hi⟩ | ⟨frame, hm, rfl⟩ := hl
  · exact (h.pool.live _ _ hi).1
  · exact (h.frames frame hm).1

/-- An item that exists does not come back to life. -/
theorem Sound.live_of_stepped (h : Sound s) (hs : Stepped s s' a) {o : Nat}
    (ho : o < s.pool.nextObj) (hl : s'.Live o) : s.Live o := by
  obtain ⟨i, hi⟩ | ⟨frame, hm, rfl⟩ := hl
  · exact .inl ⟨i, h.slot_back hs ho hi⟩
  · obtain hm | hat := h.frames_back hs hm
    · exact .inr ⟨frame, hm, rfl⟩
    · exact .inl ⟨frame.id, hat⟩

/-- A new item is that of a call on its socket, or has no type yet. -/
theorem Sound.made_of_stepped (h : Sound s) (hs : Stepped s s' a) {o : Nat}
    (hge : s.pool.nextObj ≤ o) (hlt : o < s'.pool.nextObj) :
    (∃ socket, a.opens = some socket ∧ (s'.item o).socket = socket) ∨
      (s'.item o).workType = .unknown := by
  obtain ⟨hallocates, hnext, _⟩ | hnext := h.allocated_or_next hs
  · obtain rfl : o = s.pool.nextObj := by omega
    cases hs with
    | opened socket descr mem o' pool item₀ item sqe hopens halloc hsame hprep heq =>
      obtain ⟨hp, _⟩ := prepare_ok hprep
      obtain ⟨rfl, _, _, _, hobjs, _⟩ := WorkPool.internalAlloc_spec h.pool halloc
      have hsock : item.socket = socket := by
        rw [hp.same.socket, hsame.socket, hobjs, Function.update_self]
        rfl
      subst heq
      refine .inl ⟨socket, hopens, ?_⟩
      rw [item_arm, if_pos rfl]
      exact hsock
    | acquired socket mem o' pool halloc heq =>
      obtain ⟨rfl, _, _, _, hobjs, _⟩ := WorkPool.internalAlloc_spec h.pool halloc
      subst heq
      right
      simp [IOUring.item, hobjs, WorkItem.create]
    | edited _ _ _ _ _ heq | submitted _ _ _ _ _ _ _ _ _ heq =>
      subst heq
      exact absurd hnext (Nat.succ_ne_self _).symm
    | polled | returned | completed => cases hallocates
  · omega

/-- An item comes alive only through a call that makes it. -/
theorem Sound.live_back (h : Sound s) (hs : Stepped s s' a) {o : Nat} (hl : s'.Live o) :
    s.Live o ∨ (∃ socket, a.opens = some socket ∧ (s'.item o).socket = socket) ∨
      (s'.item o).workType = .unknown := by
  by_cases ho : o < s.pool.nextObj
  · exact .inl (h.live_of_stepped hs ho hl)
  · exact .inr (h.made_of_stepped hs (by omega) ((h.stepped hs).live_lt hl))

/-- The user makes no call that submits a request on the descriptor. -/
def NoCallOn (fd : Int) (s : IOUring) (a : Action) : Prop :=
  (∀ socket ∈ a.opens, socket.fd ≠ fd) ∧ ∀ o ∈ a.submits, (s.item o).socket.fd ≠ fd

instance (fd : Int) (s : IOUring) (a : Action) : Decidable (s.NoCallOn fd a) :=
  inferInstanceAs (Decidable (_ ∧ _))

/-- The poll that dispatches the successful completion of a close of the descriptor. -/
def Closes (fd : Int) (s s₁ : IOUring) : Prop :=
  IOUring.step .pollCompletionQueues s = .ok s₁ ∧ ∃ cqe ∈ s.pending.head?,
    cqe.req.sqe.op = .close fd ∧ 0 ≤ cqe.res ∧ (s.pool.at? cqe.userData).isSome = true

/-- The live items that a dispatch may arm again on the descriptor go back to the first state. -/
structure Aged (fd : Int) (s₁ t : IOUring) : Prop where
  sound : Sound t
  extends_pool : s₁.pool.Extends t.pool
  live : ∀ o, t.Live o → (t.item o).socket.fd = fd → (t.item o).workType.isRearmed = true →
    s₁.Live o

theorem Aged.step {fd : Int} (h : Aged fd s₁ t) (hg : t.NoCallOn fd a)
    (hs : IOUring.step a t = .ok t') : Aged fd s₁ t' := by
  have hst := step_ok h.sound.sq hs
  have hext := hst.extends h.sound
  refine ⟨h.sound.stepped hst, h.extends_pool.trans hext, fun o hl hfd hk => ?_⟩
  obtain hl | ⟨socket, hopens, hsock⟩ | hu := h.sound.live_back hst hl
  · have hev : Evolves (t.item o) (t'.item o) := hext.evolves o (h.sound.live_lt hl)
    apply h.live o hl (hev.socket ▸ hfd)
    rwa [hev.type.isRearmed hk]
  · exact absurd (hsock ▸ hfd) (hg.1 socket hopens)
  · rw [hu] at hk
    cases hk

/-- After a close has been dispatched, and as long as the user makes no call on
the descriptor, a request on it can only be an accept or recv item, live at the
dispatch of the close, that its own dispatch arms again. -/
theorem only_rearmed_after_close {queueSize mapped : Nat} {memory : Nat → Memory.Byte} {fd : Int}
    {req : Request}
    (hr : Transition.Reaches IOUring.step Transition.Free (initial queueSize mapped memory) s)
    (hclose : Closes fd s s₁) (hafter : Transition.Reaches IOUring.step (NoCallOn fd) s₁ t)
    (hg : t.NoCallOn fd a) (hs : IOUring.step a t = .ok t') (hreq : req ∈ t'.consumed)
    (hnew : req ∉ t.consumed) (hfd : req.sqe.op.fd = fd) :
    (a.polls = true ∨ a.returns.isSome = true) ∧ s₁.Live req.owner ∧
      (s₁.item req.owner).socket.fd = fd ∧
      (s₁.item req.owner).workType = req.sqe.op.workType ∧
      (req.sqe.op.workType = .accept ∨
        req.sqe.op.workType = .recv ∧ a.returns ≠ some .none) := by
  have hsound : Sound s₁ := ((initial_sound queueSize mapped memory).reaches hr).step hclose.1
  have ha : Aged fd s₁ t := hafter.invariant (fun _ _ _ hp hg hs => hp.step hg hs)
    ⟨hsound, .refl _, fun _ hl _ _ => hl⟩
  cases ha.sound.flow (step_ok ha.sound.sq hs) with
  | still _ _ hconsumed | answered _ _ _ _ _ _ _ hconsumed =>
    rw [hconsumed] at hreq
    exact absurd hreq hnew
  | issued r _ hissuer _ _ hconsumed =>
    rw [hconsumed] at hreq
    obtain rfl : req = r := by
      obtain hm | hm := List.mem_append.mp hreq
      · exact absurd hm hnew
      · exact List.mem_singleton.mp hm
    cases hissuer with
    | opens socket hopens _ hsock => exact absurd (hsock.symm.trans hfd) (hg.1 socket hopens)
    | submits hsubmits _ hsock => exact absurd (hsock.symm.trans hfd) (hg.2 _ hsubmits)
    | rearms ha' hlive htype hkind hret hsock =>
      have hk : (t.item req.owner).workType.isRearmed = true := by
        rw [hkind]
        obtain ht | ht := htype <;> rw [ht] <;> rfl
      have hl₁ := ha.live _ hlive (hsock.symm.trans hfd) hk
      have hev : Evolves (s₁.item req.owner) (t.item req.owner) :=
        ha.extends_pool.evolves _ (hsound.live_lt hl₁)
      refine ⟨ha', hl₁, ?_, (hev.type.isRearmed hk).trans hkind, ?_⟩
      · rw [← hev.socket]
        exact hsock.symm.trans hfd
      · exact htype.imp_right fun ht => ⟨ht, hret ht⟩

private def serverSocket : Socket := ⟨.ipv4Tcp, 0, .serverStreamSocket, 3⟩

private def finished (res : Int) : Outcome := ⟨res, 0, default, fun _ => none⟩

private def rearmedAccept : Request := ⟨2, 0, ⟨0, .accept 3, false, false⟩⟩

private def AcceptRearmed (s₁ : IOUring) : Prop :=
  Transition.Leads IOUring.step (NoCallOn 3)
    (fun t => Transition.Leads IOUring.step Transition.Free
      (fun t' => rearmedAccept ∈ t'.consumed ∧ rearmedAccept ∉ t.consumed)
      [.pollCompletionQueues] t)
    [.callbackReturns .none, .complete 0 (finished (-125))] s₁

private instance (s₁ : IOUring) : Decidable s₁.AcceptRearmed :=
  inferInstanceAs (Decidable (Transition.Leads _ _ _ _ _))

/-- A cancelled accept is armed again after the close of its socket. -/
private theorem accept_rearmed_run : ∃ s s₁ t t',
    Transition.Reaches IOUring.step Transition.Free (initial 256 0 fun _ => 0) s ∧
      Closes 3 s s₁ ∧ Transition.Reaches IOUring.step (NoCallOn 3) s₁ t ∧
      IOUring.step .pollCompletionQueues t = .ok t' ∧ rearmedAccept ∈ t'.consumed ∧
      rearmedAccept ∉ t.consumed := by
  obtain ⟨s, hr, hlead, hhead, hat⟩ := Transition.reaches_of_leads IOUring.step Transition.Free
    (fun s => Transition.Leads IOUring.step Transition.Free AcceptRearmed
        [.pollCompletionQueues] s ∧
      s.pending.head? = some ⟨⟨1, 1, ⟨1, .close 3, false, false⟩⟩, 0, 0, [], none⟩ ∧
      (s.pool.at? 1).isSome = true)
    [.submitAccept serverSocket 7 default, .submitClose serverSocket 8 default,
      .complete 1 (finished 0)]
    (initial 256 0 fun _ => 0) (by decide +kernel)
  obtain ⟨_, s₁, hs₁, hlead⟩ := Transition.leads_cons.mp hlead
  obtain ⟨t, ht, hlead⟩ := Transition.reaches_of_leads IOUring.step (NoCallOn 3) _ _ _ hlead
  obtain ⟨_, t', ht', hmem, hnew⟩ := Transition.leads_cons.mp hlead
  exact ⟨s, s₁, t, t', hr, ⟨hs₁, _, hhead, rfl, le_rfl, hat⟩, ht, ht', hmem, hnew⟩

theorem noCallOn_poll (fd : Int) (s : IOUring) : s.NoCallOn fd .pollCompletionQueues :=
  ⟨fun _ h => absurd h (Option.not_mem_none _), fun _ h => absurd h (Option.not_mem_none _)⟩

theorem only_rearmed_after_close_accept : ∃ s₁ : IOUring,
    s₁.Live 0 ∧ (s₁.item 0).socket.fd = 3 ∧ (s₁.item 0).workType = .accept := by
  obtain ⟨s, s₁, t, t', hr, hclose, ht, ht', hmem, hnew⟩ := accept_rearmed_run
  obtain ⟨_, hlive, hfd, hk, _⟩ := only_rearmed_after_close hr hclose ht
    (noCallOn_poll 3 t) ht' hmem hnew rfl
  exact ⟨s₁, hlive, hfd, hk⟩

/-- The library submits an accept on a descriptor whose close it has dispatched. -/
theorem accept_submitted_after_close : ∃ s s₁ t t' req,
    Transition.Reaches IOUring.step Transition.Free (initial 256 0 fun _ => 0) s ∧
      Closes 3 s s₁ ∧ Transition.Reaches IOUring.step (NoCallOn 3) s₁ t ∧
      IOUring.step .pollCompletionQueues t = .ok t' ∧ req ∈ t'.consumed ∧ req ∉ t.consumed ∧
      req.sqe.op.fd = 3 := by
  obtain ⟨s, s₁, t, t', hr, hclose, ht, ht', hmem, hnew⟩ := accept_rearmed_run
  exact ⟨s, s₁, t, t', rearmedAccept, hr, hclose, ht, ht', hmem, hnew, rfl⟩

end IOUring

end Iuring
