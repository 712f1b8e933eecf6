import Iuring.DatagramHeader
import Iuring.SendReuse
import Iuring.Matching
import Iuring.Requests

namespace Iuring

open Lib Lib.Memory

theorem IPAddress.valid_of_size {a : IPAddress} {n : Nat} (h : a.sizeSockaddr = .ok n) :
    a.valid = true := by
  obtain ⟨_ | sa4, _ | sa6⟩ := a
  · cases h
  · rfl
  · rfl
  · rfl

namespace WorkItem

open Cmsg

variable {item item' : WorkItem} {params : DatagramSendParameters} {cb : CallbackFn}

/-- What the kernel is to send for the item, with the data appended so far. -/
def asked (params : DatagramSendParameters) (name : List Byte) (item : WorkItem) : Datagram :=
  ⟨name, [item.sendPacket.data item.sendPacket.size],
    [tosMessage (params.dscp <<< 2), ttlMessage (params.ttl.setWidth 32)]⟩

/-- A header that was made at all leads to what was asked for. -/
theorem decodeMsg_of_initSendMsg (h : (item.submitPacket params cb).initSendMsg = .ok item') :
    ∃ name, params.destinationAddress.dataSockaddr = .ok name ∧
      item'.decodeMsg = some (item.asked params name) := by
  obtain ⟨_, _, h⟩ := Checked.bind_eq_ok.mp h
  obtain ⟨control, hcontrol, h⟩ := Checked.bind_eq_ok.mp h
  obtain ⟨namelen, hnamelen, h⟩ := Checked.bind_eq_ok.mp h
  have httl : 0 < (params.ttl.setWidth 32).toNat ∧ (params.ttl.setWidth 32).toNat < 256 := by
    obtain ⟨_, hassert, _⟩ := Checked.bind_eq_ok.mp hcontrol
    exact (assert_eq_ok _ _).mp hassert
  have hstored := storeControl_eq (params.dscp <<< 2) httl.1 httl.2 item.control
  obtain ⟨name, hdata, hsize⟩ := IPAddress.data_size_of_valid (IPAddress.valid_of_size hnamelen)
  obtain rfl : namelen = name.length := Except.ok.inj (hnamelen.symm.trans hsize)
  obtain rfl : control = _ := Except.ok.inj (hcontrol.symm.trans hstored)
  cases h
  refine ⟨name, hdata, ?_⟩
  have hroom : controllen ≤ sizeofControl := by decide
  have hsa : (item.submitPacket params cb).params.destinationAddress.dataSockaddr = .ok name := hdata
  simp only [decodeMsg, bytesAt, hsa, le_refl, if_true, List.take_length,
    messages_stored, hroom, and_self, Option.bind_eq_bind, Option.bind_some, asked]
  rfl

end WorkItem

/-- The item whose packet the call writes. -/
def Action.writes : Action → Option Nat
  | .getSendPacket o | .append o _ => some o
  | _ => none

namespace IOUring

open WorkItem

variable {s s' t : IOUring} {a : Action} {req : Request} {o : Nat}

/-- The runs in which, besides, the user writes a packet only before its submission. -/
def Careful (s : IOUring) (a : Action) : Prop :=
  s.Orderly a ∧ ∀ o ∈ a.writes, s.kind o = .unknown

instance (s : IOUring) (a : Action) : Decidable (s.Careful a) :=
  inferInstanceAs (Decidable (_ ∧ _))

/-- An armed request has its item in the slot that it names. -/
theorem Paired.seated (h : Paired s) (hr : req ∈ s.armed) :
    s.pool.at? req.id = some req.owner :=
  h.matched req (List.mem_append_left _ hr)

/-- The end of a dispatch changes neither an item of one use nor one that stays in use. -/
theorem kept_of_settled {frame : Frame} {ret : ReceivePostAction} (hs : Settled frame ret t s')
    (hkind : frame.type.Becomes (t.item frame.workItem).workType)
    (hone : (t.item o).workType.isOneShot = true) (huse : (s'.item o).state = .inUse) :
    s'.item o = t.item o := by
  obtain heq | ⟨rfl, htype, _⟩ | heq := item_of_settled hs o
  · exact heq
  · have hk : (t.item frame.workItem).workType = frame.type := by
      obtain ht | ht := htype <;> rw [ht] at hkind ⊢ <;> exact hkind.eq_of nofun rfl
    rw [hk] at hone
    obtain ht | ht := htype <;> rw [ht] at hone <;> cases hone
  · rw [heq] at huse
    cases huse

/-- While a request of an item of one use is out, no step writes the item. -/
theorem Paired.item_kept (h : Paired s) (hn : s.FramesNamed) (hg : s.Careful a)
    (hs : IOUring.step a s = .ok s') (hone : (s.kind o).isOneShot = true)
    (ho : o < s.pool.nextObj) (hr : req ∈ s'.armed) (howner : req.owner = o) :
    s'.item o = s.item o := by
  have hsound := h.dispatching.sound
  have hst := step_ok hsound.sq hs
  have hnext := h.step hg.1.1 hg.1.2 hs
  have hseat : s'.pool.at? req.id = some o := howner ▸ hnext.seated hr
  obtain ⟨_, hid, huse⟩ := hnext.dispatching.sound.pool.live _ _ hseat
  have hne : ∀ o', s.kind o' = .unknown → o ≠ o' := by
    rintro o' hk rfl
    rw [hk] at hone
    cases hone
  cases a with
  | submitAccept | submitConnect | submitRecv | submitClose | send =>
    cases hst with
    | opened _ _ _ _ _ _ _ _ _ halloc _ _ heq =>
      obtain ⟨hfresh, hobj⟩ := WorkPool.internalAlloc_objs hsound.pool halloc ho
      subst heq
      rw [item_arm, if_neg hfresh]
      exact hobj
    | edited _ _ _ hopens _ _ => cases hopens
    | submitted _ _ _ _ hsubmits _ _ _ _ _ => cases hsubmits
  | ackuireSendWorkitem socket mem =>
    obtain ⟨⟨o', u⟩, ha, hu⟩ := Checked.bind_eq_ok.mp hs
    obtain ⟨_, _, ha'⟩ := Checked.bind_eq_ok.mp ha
    cases ha'
    cases hu
    exact (WorkPool.internalAlloc_objs hsound.pool rfl ho).2
  | getSendPacket o' =>
    obtain rfl := getSendPacket_ok hs
    rw [item_setItem, if_neg (hne o' (hg.2 o' rfl))]
  | append o' data =>
    obtain ⟨packet, _, rfl⟩ := append_ok hs
    rw [item_setItem, if_neg (hne o' (hg.2 o' rfl))]
  | submitStreamData o' cb | submitPacket o' params cb =>
    simp only [IOUring.step, flushedStep] at hs
    obtain ⟨_, hf⟩ := onHandle_ok hs
    obtain ⟨_, _, _, _, _, rfl⟩ := submitItem_ok hsound.sq hf
    rw [item_arm, if_neg (hne o' (hg.1.1.2 o' rfl))]
  | pollCompletionQueues =>
    cases (pollCompletionQueues_ok hs).2 with
    | idle _ heq | missed _ _ _ _ heq | exhausted _ _ _ _ _ _ heq | entered _ _ _ _ _ _ _ _ heq =>
      exact heq ▸ rfl
    | returned cqe rest o' ret recycle _ _ _ _ hafter =>
      obtain ⟨buffers, hset, _⟩ := settled_of_returned hsound.sq hafter
      have hkept := kept_of_settled (o := o) hset (.refl _) hone huse
      exact hkept
  | callbackReturns ret =>
    obtain ⟨frame, frames, hframes, hafter⟩ := callbackReturns_ok hs
    have hm : frame ∈ s.frames := hframes ▸ List.mem_cons_self
    have hset := afterHandler_ok (hsound.leaveCallback hframes).sq hafter
    obtain ⟨_, _, _, hk, _⟩ := leaveCallback_rest (s := s) frame frames
    obtain hi | ⟨hframe, hsend, _⟩ := item_leaveCallback (s := s) frame frames o
    · have hkind := (hsound.frames frame hm).2.2
      rw [kind, ← hi] at hone
      rw [← hi]
      exact kept_of_settled hset (hk ▸ hkind) hone huse
    · have hgone := gone_of_settled hset hsend
      have hslot : frame.id = req.id := by
        rw [hn frame hm, ← hframe, ← hid]
        exact ((hst.extends hsound).evolves o ho).id.symm
      rw [hslot, hseat] at hgone
      cases hgone
  | complete i k =>
    obtain ⟨r, u, harmed, _, hdeliver, rfl⟩ := complete_ok hs
    cases hdeliver with
    | nothing _ _ heq | buffer _ _ _ _ _ _ heq => exact heq ▸ rfl
    | peer _ hop heq =>
      subst heq
      have hr := (hsound.owned r (hsound.armed r (List.mem_of_getElem? harmed))).type
      rw [hop] at hr
      have hne : o ≠ r.owner := by
        rintro rfl
        have hk : s.kind r.owner = .accept := hr.eq_of (by decide) rfl
        rw [hk] at hone
        cases hone
      exact Function.update_of_ne hne _ _

/-- A request of an item of one use is not issued by a later step. -/
theorem Paired.armed_before (h : Paired s) (hg : s.Careful a) (hs : IOUring.step a s = .ok s')
    (hone : (s.kind o).isOneShot = true) (ho : o < s.pool.nextObj) (hr : req ∈ s'.armed)
    (howner : req.owner = o) : req ∈ s.armed := by
  cases h.dispatching.sound.flow (step_ok h.dispatching.sound.sq hs) with
  | still harmed _ _ => exact harmed ▸ hr
  | issued new _ hissuer harmed _ _ =>
    rw [harmed] at hr
    obtain hr | hr := List.mem_append.mp hr
    · exact hr
    obtain rfl := List.mem_singleton.mp hr
    cases hissuer with
    | opens _ _ hfresh _ => omega
    | submits hsubmits _ _ =>
      have hk := hg.1.1.2 _ hsubmits
      rw [howner] at hk
      rw [hk] at hone
      cases hone
    | rearms _ _ htype hkind _ _ =>
      rw [howner] at hkind
      rw [kind, hkind] at hone
      obtain ht | ht := htype <;> rw [ht] at hone <;> cases hone
  | answered i k r _ _ harmed _ _ =>
    rw [harmed] at hr
    split at hr
    · exact hr
    · exact List.mem_of_mem_eraseIdx hr

/-- From its submission until the kernel answers it, the request of an item of one use
leads to the same bytes. -/
theorem Paired.item_stable (h : Paired s) (hn : s.FramesNamed)
    (hone : (s.kind o).isOneShot = true) (ho : o < s.pool.nextObj)
    (hr : Transition.Reaches IOUring.step Careful s t) (hreq : req ∈ t.armed)
    (howner : req.owner = o) : t.item o = s.item o := by
  have hinv := hr.invariant (I := fun u => Paired u ∧ u.FramesNamed ∧
    (u.kind o).isOneShot = true ∧ o < u.pool.nextObj ∧
      (∀ r ∈ u.armed, r.owner = o → u.item o = s.item o)) ?_ ⟨h, hn, hone, ho, fun _ _ _ => rfl⟩
  · exact hinv.2.2.2.2 req hreq howner
  · rintro u a v ⟨hp, hf, hk, hlt, hkept⟩ hg hs
    have hsound := hp.dispatching.sound
    have hext := (step_ok hsound.sq hs).extends hsound
    refine ⟨hp.step hg.1.1 hg.1.2 hs, hf.step hsound hs,
      (hext.evolves o hlt).type.isOneShot hk, hlt.trans_le hext.next, fun r hr hro => ?_⟩
    rw [hp.item_kept hf hg hs hk hlt hr hro]
    exact hkept r (hp.armed_before hg hs hk hlt hr hro) hro

/-- As long as the kernel has not answered the request of a datagram, whatever else the
user, the library and the kernel do, its header leads to the destination, the data and the
two control messages that were asked for when it was submitted. -/
theorem datagram_sent_as_asked {queueSize mapped : Nat} {memory : Nat → Byte}
    {params : DatagramSendParameters} {cb : CallbackFn} {s₁ : IOUring}
    (hr : Transition.Reaches IOUring.step Careful (initial queueSize mapped memory) s)
    (hg : s.Careful (.submitPacket o params cb))
    (hs : IOUring.step (.submitPacket o params cb) s = .ok s₁)
    (ht : Transition.Reaches IOUring.step Careful s₁ t) (hreq : req ∈ t.armed)
    (howner : req.owner = o) : ∃ name, params.destinationAddress.dataSockaddr = .ok name ∧
      (t.item o).decodeMsg = some ((s.item o).asked params name) := by
  have hpaired := (initial_paired queueSize mapped memory).reaches (hr.weaken fun _ _ hc => hc.1)
  have hnext := hpaired.step hg.1.1 hg.1.2 hs
  have hnamed := framesNamed_reaches (hr.tail hg hs)
  have hsound := hpaired.dispatching.sound
  simp only [IOUring.step, flushedStep] at hs
  obtain ⟨hheld, hf⟩ := onHandle_ok hs
  obtain ⟨item₀, item, sqe, hset, hprep, heq⟩ := submitItem_ok hsound.sq hf
  cases hset
  have hitem : s₁.item o = item := by rw [heq, item_arm, if_pos rfl]
  have hone : (s₁.kind o).isOneShot = true := by
    rw [kind, hitem, (prepare_ok hprep).1.type]
    rfl
  have hlt : o < s₁.pool.nextObj := by
    rw [heq]
    exact (hsound.handles o hheld).1
  rw [hnext.item_stable hnamed hone hlt ht hreq howner, hitem]
  obtain ⟨_, _, hprep⟩ := Checked.bind_eq_ok.mp hprep
  obtain ⟨item', hinit, hprep⟩ := Checked.bind_eq_ok.mp hprep
  cases hprep
  exact decodeMsg_of_initSendMsg hinit

private def speaker : Socket := ⟨.ipv4Udp, 0, .unicastClientSocket, 3⟩

private def speech : DatagramSendParameters :=
  ⟨IPAddress.ofSockaddrIn ⟨afInet, htons 5004, 0x0100007f, 0⟩, 46, 64⟩

private def silence : Outcome := ⟨144, 1, default, fun _ => none⟩

private def speechRequest : Request := ⟨1, 1, ⟨1, .sendmsg 3, false, false⟩⟩

/-- Two bytes wait to be sent while a datagram comes in and its receiver is armed again. -/
theorem datagram_sent_as_asked_ipv4 : ∃ t,
    Transition.Reaches IOUring.step Careful (initial 256 0 fun _ => 0) t ∧
      speechRequest ∈ t.armed ∧ t.consumed.length = 3 ∧
        (t.item 1).decodeMsg = some ⟨(SockaddrIn.mk afInet (htons 5004) 0x0100007f 0).bytes,
          [[104, 105]], [⟨Cmsg.ipprotoIp, Cmsg.ipTos, [184]⟩,
            ⟨Cmsg.ipprotoIp, Cmsg.ipTtl, bytes32 64⟩]⟩ := by
  obtain ⟨s, hr, hdata, hleads⟩ := Transition.reaches_of_leads IOUring.step Careful
    (fun s => (s.item 1).sendPacket.data (s.item 1).sendPacket.size = [104, 105] ∧
      Transition.Leads IOUring.step Careful
        (fun t => speechRequest ∈ t.armed ∧ t.consumed.length = 3)
        [.submitPacket 1 speech 8, .complete 0 silence, .pollCompletionQueues,
          .callbackReturns .reSubmit] s)
    [.submitRecv speaker 7 default, .ackuireSendWorkitem speaker default, .getSendPacket 1,
      .append 1 [104, 105]] (initial 256 0 fun _ => 0) (by decide +kernel)
  obtain ⟨hg, s₁, hs, hleads⟩ := Transition.leads_cons.mp hleads
  obtain ⟨t, ht, harmed, hlength⟩ := Transition.reaches_of_leads _ _ _ _ s₁ hleads
  obtain ⟨name, hname, hdecode⟩ := datagram_sent_as_asked hr hg hs ht harmed rfl
  cases hname
  rw [asked, hdata] at hdecode
  exact ⟨t, (hr.tail hg hs).trans ht, harmed, hlength, hdecode⟩

end IOUring

end Iuring
