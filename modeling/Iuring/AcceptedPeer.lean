import Iuring.Items

namespace Iuring

open Lib

def Action.completes : Action → Option Nat
  | .complete i _ => some i
  | _ => none

/-- The descriptor, and an address of the peer's family with its address and port. -/
def AcceptResult.Faithful (res : Int) (peer : Peer) (result : AcceptResult) : Prop :=
  result.newFd = res ∧
    match peer with
    | .ipv4 addr port =>
      ∃ sa, result.address.getIpv4 = some sa ∧ sa.sinAddr = addr ∧ sa.sinPort = htons port
    | .ipv6 addr port _ _ =>
      ∃ sa, result.address.getIpv6 = some sa ∧ sa.sin6Addr = addr ∧ sa.sin6Port = htons port

/-- An address built from the length of the peer's address has the other family. -/
theorem not_faithful_of_length {res : Int} {peer : Peer} {result : AcceptResult}
    {buffer : Nat → Memory.Byte}
    (h : IPAddress.ofSockaddrStorage buffer peer.sockaddr.length = .ok result.address) :
    ¬result.Faithful res peer := by
  obtain ⟨h4, h6⟩ := IPAddress.ofSockaddrStorage_family h
  rintro ⟨_, hf⟩
  cases peer with
  | ipv4 addr port =>
    obtain ⟨sa, hsa, _⟩ := hf
    cases hsa.symm.trans (h4 rfl)
  | ipv6 addr port flowinfo scopeId =>
    obtain ⟨sa, hsa, _⟩ := hf
    cases hsa.symm.trans (h6 rfl)

namespace IOUring

variable {s s' s₁ t t' : IOUring} {a : Action}

/-- The kernel finishes no request of the item. -/
def FinishesNoneOf (o : Nat) (s : IOUring) (a : Action) : Prop :=
  ∀ i ∈ a.completes, ∀ req ∈ s.armed[i]?, req.owner ≠ o

instance (o : Nat) (s : IOUring) (a : Action) : Decidable (s.FinishesNoneOf o a) :=
  inferInstanceAs (Decidable (∀ _ ∈ _, _))

/-- Only the kernel and a new submission write the length of an accept item. -/
theorem Sound.acceptSockLen_stepped (h : Sound s) (hs : Stepped s s' a) {o : Nat}
    (ho : o < s.pool.nextObj) (hk : (s.item o).workType = .accept)
    (hg : s.FinishesNoneOf o a) :
    (s'.item o).acceptSockLen = (s.item o).acceptSockLen ∨ (s'.item o).acceptSockLen = 0 := by
  cases h.touched hs ho with
  | untouched heq => exact .inl (heq ▸ rfl)
  | held hheld =>
    obtain hu | hu := (h.handles o hheld).2 <;> rw [hk] at hu <;> cases hu
  | rearmed hprep => exact .inr (hprep.acceptLen hk)
  | freed heq | cleaned _ _ _ _ _ heq => exact .inl (heq ▸ rfl)
  | answered i k req ha hreq howner _ _ =>
    subst ha
    exact absurd howner (hg i rfl req hreq)

/-- The length of an accept item's address is the one the kernel stored, or it was reset. -/
structure Stored (o len : Nat) (s : IOUring) : Prop where
  sound : Sound s
  lt : o < s.pool.nextObj
  kind : (s.item o).workType = .accept
  length : (s.item o).acceptSockLen = len ∨ (s.item o).acceptSockLen = 0

theorem Stored.step {o len : Nat} (h : Stored o len s) (hg : s.FinishesNoneOf o a)
    (hs : IOUring.step a s = .ok s') : Stored o len s' := by
  have hst := step_ok h.sound.sq hs
  have hext := hst.extends h.sound
  refine ⟨h.sound.stepped hst, h.lt.trans_le hext.next, ?_, ?_⟩
  · have hev : Evolves (s.item o) (s'.item o) := hext.evolves o h.lt
    exact (h.kind ▸ hev.type).eq_of nofun rfl
  · obtain hl | hl := h.sound.acceptSockLen_stepped hst h.lt h.kind hg
    · rw [hl]
      exact h.length
    · exact .inr hl

/-- The kernel stores the length of the peer's address in the accept item. -/
theorem Sound.stored {i : Nat} {k : Outcome} {req : Request} (h : Sound s)
    (hreq : s.armed[i]? = some req) (hop : req.sqe.op.workType = .accept) (hres : 0 ≤ k.res)
    (hs : IOUring.step (.complete i k) s = .ok s₁) :
    Stored req.owner k.peer.sockaddr.length s₁ := by
  have hst := step_ok h.sq hs
  have hown := h.owned req (h.armed req (List.mem_of_getElem? hreq))
  have hkind : (s.item req.owner).workType = .accept := (hop ▸ hown.type).eq_of nofun rfl
  have hext := hst.extends h
  have hev : Evolves (s.item req.owner) (s₁.item req.owner) := hext.evolves _ hown.lt
  refine ⟨h.stepped hst, hown.lt.trans_le hext.next, (hkind ▸ hev.type).eq_of nofun rfl, .inl ?_⟩
  obtain ⟨req', t, hreq', _, hdeliver, heq⟩ := complete_ok hs
  cases hreq.symm.trans hreq'
  subst heq
  cases hdeliver with
  | nothing _ hpeer _ => exact absurd (hpeer hop) (Int.not_lt.mpr hres)
  | buffer _ _ hrecv => cases hq : req.sqe.op <;> simp_all [Op.isRecv, Op.workType]
  | peer _ _ heq =>
    subst heq
    change ((s.setItem _ _).item req.owner).acceptSockLen = _
    rw [item_setItem, if_pos rfl]
    rfl

theorem called_accept {item : WorkItem} {cqe : Completion} (hk : item.workType = .accept)
    (hres : 0 ≤ cqe.res) {handled : Handled} (h : s.callHandler item cqe = .ok handled) :
    ∃ addr fn, IPAddress.ofSockaddrStorage item.bufferForUring item.acceptSockLen = .ok addr ∧
      handled = .called ⟨fn, .accept ⟨cqe.res, addr⟩⟩ := by
  cases callHandler_ok h with
  | accepted fn addr _ _ haddr => exact ⟨addr, fn, haddr, rfl⟩
  | failed _ hneg => exact absurd hres (Int.not_le.mpr hneg)
  | closed _ ht | connected _ ht _ | received _ _ ht _ | interrupted ht _ | rejected ht _ =>
    cases hk.symm.trans ht
  | sent _ ht _ =>
    rw [hk] at ht
    cases ht

/-- Whatever peer an accept item is given, its callback is told the other family. -/
theorem accepted_peer_never_faithful {queueSize mapped : Nat} {memory : Nat → Memory.Byte} {i : Nat}
    {k : Outcome} {req : Request}
    (hr : Transition.Reaches IOUring.step Transition.Free (initial queueSize mapped memory) s)
    (hreq : s.armed[i]? = some req) (hop : req.sqe.op.workType = .accept) (hres : 0 ≤ k.res)
    (hs : IOUring.step (.complete i k) s = .ok s₁)
    (hrun : Transition.Reaches IOUring.step (FinishesNoneOf req.owner) s₁ t)
    (hhead : t.pending.head? = some (s.completion req k))
    (hat : t.pool.at? req.sqe.userData = some req.owner)
    (hpoll : IOUring.step .pollCompletionQueues t = .ok t') :
    ∃ fn result, t'.trace = t.trace ++ [.dispatched (s.completion req k) (some req.owner),
        .called req.owner ⟨fn, .accept result⟩] ∧ ¬result.Faithful k.res k.peer := by
  have hst := ((initial_sound queueSize mapped memory).reaches hr).stored hreq hop hres hs
  have ht : Stored req.owner k.peer.sockaddr.length t :=
    hrun.invariant (fun _ _ _ hp hg hs => hp.step hg hs) hst
  obtain ⟨_, hp⟩ := pollCompletionQueues_ok hpoll
  have hres' : 0 ≤ (s.completion req k).res := hres
  cases hp with
  | idle hpending _ =>
    rw [hpending] at hhead
    cases hhead
  | missed cqe rest hpending hmiss _ =>
    rw [hpending] at hhead
    cases hhead
    cases hat.symm.trans hmiss
  | exhausted cqe rest o hpending _ hneg _ =>
    rw [hpending] at hhead
    cases hhead
    rw [hneg] at hres'
    cases hres'
  | returned cqe rest o ret recycle hpending hat' _ hcall _ =>
    rw [hpending] at hhead
    cases hhead
    cases hat.symm.trans hat'
    obtain ⟨_, _, _, he⟩ := called_accept ht.kind hres' hcall
    cases he
  | entered cqe rest o call hpending hat' _ hcall heq =>
    rw [hpending] at hhead
    cases hhead
    cases hat.symm.trans hat'
    obtain ⟨addr, fn, haddr, he⟩ := called_accept ht.kind hres' hcall
    cases he
    refine ⟨fn, ⟨k.res, addr⟩, ?_, ?_⟩
    · subst heq
      simp [enterCallback, emit, frameOf, completion]
    · obtain hl | hl := ht.length
      · exact not_faithful_of_length (hl ▸ haddr)
      · rw [hl] at haddr
        obtain ⟨_, hbad, _⟩ := Checked.bind_eq_ok.mp haddr
        simp [sizeofSockaddrIn, sizeofSockaddrIn6] at hbad

private def listener : Socket := ⟨.ipv4Tcp, 80, .serverStreamSocket, 3⟩

private def connected : Outcome := ⟨7, 0, .ipv4 0x0100007f 80, fun _ => none⟩

private def acceptRequest : Request := ⟨0, 0, ⟨0, .accept 3, false, false⟩⟩

theorem accepted_peer_never_faithful_ipv4 :
    ∃ (t : IOUring) (fn : CallbackFn) (result : AcceptResult),
      Event.called 0 ⟨fn, .accept result⟩ ∈ t.trace ∧
        ¬result.Faithful 7 connected.peer := by
  obtain ⟨s, hr, hreq, hlead⟩ := Transition.reaches_of_leads IOUring.step Transition.Free
    (fun s => s.armed[0]? = some acceptRequest ∧
      Transition.Leads IOUring.step Transition.Free
        (fun t => t.pending.head? = some (s.completion acceptRequest connected) ∧
          t.pool.at? 0 = some 0 ∧ (IOUring.step .pollCompletionQueues t).isOk = true)
        [.complete 0 connected] s)
    [.submitAccept listener 9 default] (initial 256 0 fun _ => 0) (by decide +kernel)
  obtain ⟨_, s₁, hs, hhead, hat, hok⟩ := Transition.leads_cons.mp hlead
  cases hpoll : IOUring.step .pollCompletionQueues s₁ with
  | error _ => simp [hpoll, Except.isOk, Except.toBool] at hok
  | ok t' =>
    obtain ⟨fn, result, ht, hf⟩ :=
      accepted_peer_never_faithful hr hreq rfl (by decide) hs .refl hhead hat hpoll
    exact ⟨t', fn, result, by simp [ht, acceptRequest], hf⟩

/-- The peer 127.0.0.1 is reported as an IPv6 address of whatever the buffer held. -/
theorem accepted_ipv4_reported_as_ipv6 : ∃ t,
    Transition.Reaches IOUring.step Transition.Free (initial 256 0 fun _ => 0) t ∧
      .called 0 ⟨9, .accept ⟨7, none, some ⟨0, 0, 0, 0, 0⟩⟩⟩ ∈ t.trace ∧
      ¬AcceptResult.Faithful 7 (.ipv4 0x0100007f 80) ⟨7, none, some ⟨0, 0, 0, 0, 0⟩⟩ := by
  obtain ⟨t, hr, hcall⟩ := Transition.reaches_of_leads IOUring.step Transition.Free
    (fun t => .called 0 ⟨9, .accept ⟨7, none, some ⟨0, 0, 0, 0, 0⟩⟩⟩ ∈ t.trace)
    [.submitAccept listener 9 default, .complete 0 connected, .pollCompletionQueues]
    (initial 256 0 fun _ => 0) (by decide +kernel)
  refine ⟨t, hr, hcall, fun hf => ?_⟩
  obtain ⟨_, sa, hsa, _⟩ := hf
  cases hsa

end IOUring

end Iuring
