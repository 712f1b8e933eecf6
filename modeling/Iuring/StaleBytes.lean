import Iuring.Edits

namespace Iuring

open Lib Lib.Memory

theorem SockaddrIn.load_congr {m m' : Nat → Byte} {off : Nat}
    (h : Agree m m' off sizeofSockaddrIn) : SockaddrIn.load m off = SockaddrIn.load m' off := by
  have hfamily : Agree m m' off 2 := h.sub (by omega) (by unfold sizeofSockaddrIn; omega)
  have hport : Agree m m' (off + 2) 2 := h.sub (by omega) (by unfold sizeofSockaddrIn; omega)
  have haddr : Agree m m' (off + 4) 4 := h.sub (by omega) (by unfold sizeofSockaddrIn; omega)
  have hzero : Agree m m' (off + 8) 8 := h.sub (by omega) (by unfold sizeofSockaddrIn; omega)
  unfold SockaddrIn.load
  rw [hfamily.load16, hport.load16, haddr.load32, hzero.load64]

theorem SockaddrIn6.load_congr {m m' : Nat → Byte} {off : Nat}
    (h : Agree m m' off sizeofSockaddrIn6) : SockaddrIn6.load m off = SockaddrIn6.load m' off := by
  have hfamily : Agree m m' off 2 := h.sub (by omega) (by unfold sizeofSockaddrIn6; omega)
  have hport : Agree m m' (off + 2) 2 := h.sub (by omega) (by unfold sizeofSockaddrIn6; omega)
  have hflow : Agree m m' (off + 4) 4 := h.sub (by omega) (by unfold sizeofSockaddrIn6; omega)
  have haddr : Agree m m' (off + 8) 16 := h.sub (by omega) (by unfold sizeofSockaddrIn6; omega)
  have hscope : Agree m m' (off + 24) 4 := h.sub (by omega) (by unfold sizeofSockaddrIn6; omega)
  unfold SockaddrIn6.load
  rw [hfamily.load16, hport.load16, hflow.load32, haddr.load128, hscope.load32]

namespace RecvMsg

theorem load_congr {m m' : Nat → Byte} (h : Agree m m' 0 sizeofOut) : load m = load m' := by
  have h0 : Agree m m' 0 4 := h.sub (by omega) (by unfold sizeofOut; omega)
  have h4 : Agree m m' 4 4 := h.sub (by omega) (by unfold sizeofOut; omega)
  have h8 : Agree m m' 8 4 := h.sub (by omega) (by unfold sizeofOut; omega)
  have h12 : Agree m m' 12 4 := h.sub (by omega) (by unfold sizeofOut; omega)
  unfold load
  rw [h0.load32, h4.load32, h8.load32, h12.load32]

end RecvMsg

namespace WorkItem

/-- The areas that a datagram receive reserves in its buffer. -/
def DatagramAreas (item : WorkItem) : Prop := item.workType = .recv → item.isStream = false →
  item.msg.msgNamelen = sizeofSockaddrStorage ∧ item.msg.msgControllen = 0

open IOUring

theorem datagramAreas_of_prepare {item item' : WorkItem} {n : Nat} {sqe : Sqe}
    (hprep : prepare n item = .ok (item', sqe)) : item'.DatagramAreas := by
  intro htype hstream
  obtain ⟨hp, _⟩ := prepare_ok hprep
  rw [hp.type] at htype
  have hs : item.isStream = false := by
    simpa [WorkItem.isStream, hp.same.socket] using hstream
  rw [prepare] at hprep
  simp only [htype, hs, Bool.false_eq_true, if_false, Checked.pure_eq_ok] at hprep
  cases hprep
  exact ⟨rfl, rfl⟩

theorem datagramAreas_lasting : Lasting DatagramAreas where
  born item hb := by
    cases hb with
    | acquired => exact fun htype => by cases htype
    | opened _ _ _ _ _ _ _ _ _ hprep => exact datagramAreas_of_prepare hprep
  edit item item' hi he := by
    cases he with
    | packet | freed | answered => exact hi
    | streamData _ _ _ _ _ hprep | workpacket _ _ _ _ _ _ hprep | rearmed _ _ _ _ hprep =>
      exact datagramAreas_of_prepare hprep

end WorkItem

namespace IOUring

variable {s : IOUring} {buffer buffer' : Nat → Byte} {item : WorkItem} {cqe : Completion}

/-- What the datagram handler has found out when it calls the user's callback. -/
structure Delivers (buffer : Nat → Byte) (item : WorkItem) (cqe : Completion) (fn : CallbackFn)
    (payload : ReceivedMessage) : Prop where
  hasBuffer : cqe.hasBuffer = true
  length : item.msg.msgControllen + item.msg.msgNamelen + RecvMsg.sizeofOut ≤ cqe.res.toNat
  namelen : (RecvMsg.load buffer).namelen ≤ sizeofSockaddrStorage
  whole : (RecvMsg.load buffer).flags &&& RecvMsg.msgTrunc = 0
  source : sourceAddress buffer (RecvMsg.load buffer).namelen = .ok payload.sourceAddress
  data : payload.data = read buffer
    (RecvMsg.payloadOffset item.msg.msgNamelen item.msg.msgControllen)
    (RecvMsg.payloadLength cqe.res.toNat item.msg.msgNamelen item.msg.msgControllen)
  callback : item.callback = some (.recv fn)

theorem datagram_eq_called_iff {call : Call} :
    callRecvHandlerDatagram buffer item cqe = .ok (.called call) ↔
      ∃ fn payload, Delivers buffer item cqe fn payload ∧ call = ⟨fn, .recv payload⟩ := by
  constructor
  · intro h
    rw [callRecvHandlerDatagram] at h
    dsimp only at h
    split at h
    · cases h
    · rename_i hbuf
      split at h
      · cases h
      · rename_i out hvalid
        rw [RecvMsg.validate] at hvalid
        split at hvalid
        · cases hvalid
        · rename_i hlen
          cases hvalid
          split at h
          · cases h
          · rename_i hname
            split at h
            · cases h
            · rename_i hflags
              obtain ⟨addr, haddr, h⟩ := Checked.bind_eq_ok.mp h
              obtain ⟨c, hc, h⟩ := Checked.bind_eq_ok.mp h
              cases h
              rw [WorkItem.callRecvCallback] at hc
              split at hc
              · rename_i fn hcb
                cases hc
                exact ⟨fn, _, ⟨by simpa using hbuf, Nat.le_of_not_lt hlen, Nat.le_of_not_lt hname,
                  not_not.mp hflags, haddr, rfl, hcb⟩, rfl⟩
              · cases hc
  · rintro ⟨fn, ⟨data, addr⟩, h, rfl⟩
    have hlen := Nat.not_lt.mpr h.length
    have hname := Nat.not_lt.mpr h.namelen
    have hdata := h.data
    have hsource := h.source
    simp only at hdata hsource
    rw [callRecvHandlerDatagram, RecvMsg.validate]
    simp only [h.hasBuffer, Bool.true_eq_false, if_false, if_neg hlen, if_neg hname, h.whole,
      ne_eq, not_true_eq_false, hsource, Checked.bind_ok, WorkItem.callRecvCallback, h.callback,
      hdata]
    rfl

/-- The two buffers agree on what the kernel wrote for the completion: the
header, as much of the name as the header says, and the payload. -/
structure AgreeOnWritten (item : WorkItem) (cqe : Completion) (buffer buffer' : Nat → Byte) :
    Prop where
  header : Agree buffer buffer' 0 RecvMsg.sizeofOut
  name : Agree buffer buffer' RecvMsg.nameOffset (RecvMsg.load buffer).namelen
  payload : Agree buffer buffer'
    (RecvMsg.payloadOffset item.msg.msgNamelen item.msg.msgControllen)
    (RecvMsg.payloadLength cqe.res.toNat item.msg.msgNamelen item.msg.msgControllen)

theorem sourceAddress_congr {addr : IPAddress} {n : Nat} (hn : n ≠ 0)
    (h : Agree buffer buffer' RecvMsg.nameOffset n) (haddr : sourceAddress buffer n = .ok addr) :
    sourceAddress buffer' n = .ok addr := by
  rw [sourceAddress] at haddr ⊢
  simp only [hn, false_or] at haddr ⊢
  split at haddr
  · rename_i h4
    subst h4
    rw [if_pos rfl, ← SockaddrIn.load_congr h]
    exact haddr
  · rename_i h4
    rw [if_neg h4]
    split at haddr
    · rename_i h6
      subst h6
      rw [if_pos rfl, ← SockaddrIn6.load_congr h]
      exact haddr
    · cases haddr

theorem Delivers.congr {fn : CallbackFn} {payload : ReceivedMessage}
    (h : Delivers buffer item cqe fn payload) (hn : (RecvMsg.load buffer).namelen ≠ 0)
    (ha : AgreeOnWritten item cqe buffer buffer') : Delivers buffer' item cqe fn payload := by
  have hload := RecvMsg.load_congr ha.header
  refine ⟨h.hasBuffer, h.length, hload ▸ h.namelen, hload ▸ h.whole, ?_, ?_, h.callback⟩
  · rw [← hload]
    exact sourceAddress_congr hn ha.name h.source
  · rw [h.data, ha.payload.read]

/-- Without a name the handler reads the place where one would be. -/
theorem Delivers.stale {fn : CallbackFn} {payload : ReceivedMessage}
    (h : Delivers buffer item cqe fn payload) (hn : (RecvMsg.load buffer).namelen = 0)
    (hareas : item.msg.msgNamelen = sizeofSockaddrStorage) :
    ∃ buffer' payload', AgreeOnWritten item cqe buffer buffer' ∧
      Delivers buffer' item cqe fn payload' ∧ payload' ≠ payload := by
  obtain ⟨b, hb⟩ : ∃ b : Byte, b ≠ buffer RecvMsg.nameOffset := by
    by_cases hz : buffer RecvMsg.nameOffset = 0
    · exact ⟨1, by rw [hz]; decide⟩
    · exact ⟨0, Ne.symm hz⟩
  have hagree : AgreeOnWritten item cqe buffer (write buffer RecvMsg.nameOffset [b]) := by
    refine ⟨agree_write_behind (le_refl _) _, fun i hge hi => ?_, agree_write_before ?_⟩
    · omega
    · rw [RecvMsg.payloadOffset, RecvMsg.nameOffset]
      rw [List.length_singleton, hareas]
      rw [sizeofSockaddrStorage]
      omega
  have hload := RecvMsg.load_congr hagree.header
  have hsource := h.source
  rw [hn] at hsource
  refine ⟨_, ⟨payload.data, .ofSockaddrIn
    (.load (write buffer RecvMsg.nameOffset [b]) RecvMsg.nameOffset)⟩, hagree,
    ⟨h.hasBuffer, h.length, hload ▸ h.namelen, hload ▸ h.whole, ?_, ?_, h.callback⟩, fun he => ?_⟩
  · rw [← hload, hn]
    rfl
  · rw [← hagree.payload.read]
    exact h.data
  · have haddr := congrArg ReceivedMessage.sourceAddress he
    rw [← Except.ok.inj hsource] at haddr
    have hfamily : load16 (write buffer RecvMsg.nameOffset [b]) RecvMsg.nameOffset =
        load16 buffer RecvMsg.nameOffset :=
      congrArg SockaddrIn.sinFamily (Option.some.inj (congrArg IPAddress.in4 haddr))
    have hbyte := congrArg (fun v => v.extractLsb' 0 8) hfamily
    simp only [load16, BitVec.extractLsb'_append_eq_right] at hbyte
    refine hb (Eq.trans ?_ hbyte)
    simp [write]

/-- What is delivered depends on nothing but the bytes written for the
completion exactly when the kernel reported a source address. -/
theorem delivered_from_written_iff {queueSize mapped : Nat} {memory : Nat → Byte}
    (hr : Transition.Reaches step Transition.Free (initial queueSize mapped memory) s) {o : Nat}
    (ho : o < s.pool.nextObj) (htype : (s.item o).workType = .recv)
    (hstream : (s.item o).isStream = false) {call : Call}
    (h : callRecvHandlerDatagram buffer (s.item o) cqe = .ok (.called call)) :
    (∀ buffer', AgreeOnWritten (s.item o) cqe buffer buffer' →
      callRecvHandlerDatagram buffer' (s.item o) cqe = .ok (.called call)) ↔
        (RecvMsg.load buffer).namelen ≠ 0 := by
  have hareas := lasting_reaches WorkItem.datagramAreas_lasting hr ho htype hstream
  obtain ⟨fn, payload, hd, rfl⟩ := datagram_eq_called_iff.mp h
  constructor
  · intro hall hn
    obtain ⟨buffer', payload', hagree, hd', hne⟩ := hd.stale hn hareas.1
    have hcall := datagram_eq_called_iff.mpr ⟨fn, payload', hd', rfl⟩
    rw [hall buffer' hagree] at hcall
    cases hcall
    exact hne rfl
  · intro hn buffer' hagree
    exact datagram_eq_called_iff.mpr ⟨fn, payload, hd.congr hn hagree, rfl⟩

private def packetSocket : Socket := ⟨.ipv4Udp, 0, .unicastClientSocket, 3⟩

/-- A buffer after the kernel wrote a header with the given length of name and
nothing else into memory that held one byte throughout. -/
private def headerOnly (namelen old : Byte) : Nat → Byte :=
  write (fun _ => old) 0 (namelen :: List.replicate 15 0)

private def emptyDatagram : Completion :=
  ⟨⟨0, 0, ⟨0, .recvmsgMultishot 3, false, true⟩⟩, 144, 1, [], none⟩

private def staleCall (namelen old : Byte) : Call :=
  ⟨7, .recv ⟨[], .ofSockaddrIn (.load (headerOnly namelen old) RecvMsg.nameOffset)⟩⟩

theorem delivered_from_written_iff_ipv4 : ∃ s : IOUring, ∀ buffer',
    AgreeOnWritten (s.item 0) emptyDatagram (headerOnly 16 2) buffer' →
      callRecvHandlerDatagram buffer' (s.item 0) emptyDatagram = .ok (.called (staleCall 16 2)) := by
  obtain ⟨s, hr, ho, htype, hstream, hcall⟩ := Transition.reaches_of_leads step Transition.Free
    (fun s => 0 < s.pool.nextObj ∧ (s.item 0).workType = .recv ∧ (s.item 0).isStream = false ∧
      callRecvHandlerDatagram (headerOnly 16 2) (s.item 0) emptyDatagram =
        .ok (.called (staleCall 16 2)))
    [.submitRecv packetSocket 7 default] (initial 256 0 fun _ => 0) (by decide +kernel)
  exact ⟨s, (delivered_from_written_iff hr ho htype hstream hcall).mpr (by decide)⟩

theorem agree_headerOnly (namelen old old' : Byte) :
    Agree (headerOnly namelen old) (headerOnly namelen old') 0 RecvMsg.sizeofOut := by
  intro i _ hi
  have hlt : i < (namelen :: List.replicate 15 0).length := by
    rw [RecvMsg.sizeofOut] at hi
    rw [List.length_cons, List.length_replicate]
    omega
  simp only [headerOnly, write, Nat.zero_le, if_true, Nat.sub_zero, List.getElem?_eq_getElem hlt,
    Option.getD_some]

/-- A datagram without a source address is delivered with the one that the buffer still held. -/
theorem stale_address_delivered : ∃ s : IOUring,
    Transition.Reaches step Transition.Free (initial 256 0 fun _ => 0) s ∧
      AgreeOnWritten (s.item 0) emptyDatagram (headerOnly 0 2) (headerOnly 0 10) ∧
        callRecvHandlerDatagram (headerOnly 0 2) (s.item 0) emptyDatagram =
          .ok (.called (staleCall 0 2)) ∧
        callRecvHandlerDatagram (headerOnly 0 10) (s.item 0) emptyDatagram =
          .ok (.called (staleCall 0 10)) ∧ staleCall 0 2 ≠ staleCall 0 10 := by
  obtain ⟨s, hr, hpayload, hcall, hcall', hne⟩ := Transition.reaches_of_leads step Transition.Free
    (fun s => RecvMsg.payloadLength 144 (s.item 0).msg.msgNamelen (s.item 0).msg.msgControllen = 0 ∧
      callRecvHandlerDatagram (headerOnly 0 2) (s.item 0) emptyDatagram =
        .ok (.called (staleCall 0 2)) ∧
      callRecvHandlerDatagram (headerOnly 0 10) (s.item 0) emptyDatagram =
        .ok (.called (staleCall 0 10)) ∧ staleCall 0 2 ≠ staleCall 0 10)
    [.submitRecv packetSocket 7 default] (initial 256 0 fun _ => 0) (by decide +kernel)
  refine ⟨s, hr, ⟨agree_headerOnly 0 2 10, fun i hge hi => ?_, fun i hge hi => ?_⟩, hcall, hcall', hne⟩
  · have hname : (RecvMsg.load (headerOnly 0 2)).namelen = 0 := by decide
    omega
  · have hlen : RecvMsg.payloadLength emptyDatagram.res.toNat (s.item 0).msg.msgNamelen
        (s.item 0).msg.msgControllen = 0 := hpayload
    omega

end IOUring

end Iuring
