import Iuring.DatagramHeader
import Iuring.Progress

namespace Iuring

open Lib

inductive UringFeature
  | unknown | nop | readv | writev | fsync | readFixed | writeFixed | pollAdd | pollRemove
  | syncFileRange | sendmsg | recvmsg | timeout | timeoutRemove | accept | asyncCancel
  | linkTimeout | connect | fallocate | openat | close | filesUpdate | statx | read | write
  | fadvise | madvise | send | recv | openat2 | epollCtl | splice | provideBuffers
  | removeBuffers | tee | shutdown | renameat | unlinkat | mkdirat | symlinkat | linkat
deriving DecidableEq

/-- One entry of an io_uring_probe. -/
structure ProbeOp where
  op : Nat
  flags : BitVec 16

def ProbeOp.supported (entry : ProbeOp) : Bool := entry.flags &&& 1 ≠ 0

namespace ProbeUringFeatures

/-- The opcodes are numbered as the kernel's interface numbers them. -/
def convertUringOpToFeature : Nat → UringFeature
  | 0 => .nop | 1 => .readv | 2 => .writev | 3 => .fsync | 4 => .readFixed | 5 => .writeFixed
  | 6 => .pollAdd | 7 => .pollRemove | 8 => .syncFileRange | 9 => .sendmsg | 10 => .recvmsg
  | 11 => .timeout | 12 => .timeoutRemove | 13 => .accept | 14 => .asyncCancel
  | 15 => .linkTimeout | 16 => .connect | 17 => .fallocate | 18 => .openat | 19 => .close
  | 20 => .filesUpdate | 21 => .statx | 22 => .read | 23 => .write | 24 => .fadvise
  | 25 => .madvise | 26 => .send | 27 => .recv | 28 => .openat2 | 29 => .epollCtl | 30 => .splice
  | 31 => .provideBuffers | 32 => .removeBuffers | 33 => .tee | 34 => .shutdown | 35 => .renameat
  | 36 => .unlinkat | 37 => .mkdirat | 38 => .symlinkat | 39 => .linkat
  | _ => .unknown

/-- The keys of m_features after the loop over the entries. -/
def features (ops : List ProbeOp) : List UringFeature :=
  ops.foldl (fun features entry =>
    if entry.supported then features.insert (convertUringOpToFeature entry.op) else features) []

end ProbeUringFeatures

open ProbeUringFeatures

namespace IOUring

/-- The seven assertions, about what the kernel answered to the probe. -/
def probeFeatures (probe : Option (List ProbeOp)) : Result Unit :=
  match probe with
  | none => abort
  | some ops => do
    let supports (f : UringFeature) : Prop := f ∈ features ops
    assert (supports .accept)
    assert (supports .recv)
    assert (supports .recvmsg)
    assert (supports .send)
    assert (supports .sendmsg)
    assert (supports .close)
    assert (supports .connect)

/-- The whole of init(), the probe included. -/
def probedInit (probe : Option (List ProbeOp)) (outcome : BufferPool.SetupOutcome) (s : IOUring) :
    Result (BufferPool.Error × IOUring) := do
  probeFeatures probe
  return s.init outcome

end IOUring

/-- The opcode that the io_uring_prep_* call of the entry sets. -/
def Op.opcode : Op → Nat
  | .close _ => 19
  | .accept _ => 13
  | .connect _ _ => 16
  | .recv _ _ => 27
  | .recvmsgMultishot _ => 10
  | .send _ _ => 26
  | .sendmsg _ => 9

namespace ProbeUringFeatures

/-- Two opcodes stand for one feature only if neither has a name. -/
theorem convert_injective {m n : Nat} (hm : m < 40) (hn : n < 40)
    (h : convertUringOpToFeature m = convertUringOpToFeature n) : m = n := by
  have hfinite : ∀ m n : Fin 40,
      convertUringOpToFeature m = convertUringOpToFeature n → m = n := by decide
  exact congrArg Fin.val (hfinite ⟨m, hm⟩ ⟨n, hn⟩ h)

theorem convert_unknown {n : Nat} (hn : 40 ≤ n) : convertUringOpToFeature n = .unknown := by
  rw [convertUringOpToFeature.eq_def]
  split
  all_goals first | rfl | omega

theorem convert_eq_iff {m n : Nat} (hn : n < 40) :
    convertUringOpToFeature m = convertUringOpToFeature n ↔ m = n := by
  refine ⟨fun h => ?_, congrArg _⟩
  obtain hm | hm := Nat.lt_or_ge m 40
  · exact convert_injective hm hn h
  · have hknown : ∀ n : Fin 40, convertUringOpToFeature n ≠ .unknown := by decide
    rw [convert_unknown hm] at h
    exact absurd h.symm (hknown ⟨n, hn⟩)

/-- The loop collects the features of the supported entries, in whatever order they come
and however often. -/
theorem mem_features {ops : List ProbeOp} {f : UringFeature} : f ∈ features ops ↔
    ∃ entry ∈ ops, entry.supported = true ∧ convertUringOpToFeature entry.op = f := by
  rw [features]
  induction ops using List.reverseRecOn with
  | nil => simp
  | append_singleton ops last ih =>
    rw [List.foldl_append, List.foldl_cons, List.foldl_nil]
    simp only [List.mem_append, List.mem_singleton, or_and_right, exists_or, exists_eq_left]
    by_cases hlast : last.supported = true
    · rw [if_pos hlast, List.mem_insert_iff, ih, or_comm, eq_comm]
      simp only [hlast, true_and]
    · rw [if_neg hlast, ih]
      exact (or_iff_left fun h => hlast h.1).symm

/-- The entry of an opcode says that the kernel supports it. -/
def Reported (ops : List ProbeOp) (opcode : Nat) : Prop :=
  ∃ entry ∈ ops, entry.supported = true ∧ entry.op = opcode

theorem supports_iff {ops : List ProbeOp} {n : Nat} (hn : n < 40) :
    convertUringOpToFeature n ∈ features ops ↔ Reported ops n := by
  rw [mem_features]
  simp only [convert_eq_iff hn, Reported]

end ProbeUringFeatures

namespace IOUring

/-- What the seven assertions ask for. -/
def probedOpcodes : List Nat := [13, 27, 10, 26, 9, 19, 16]

theorem probeFeatures_iff {probe : Option (List ProbeOp)} : probeFeatures probe = .ok () ↔
    ∃ ops, probe = some ops ∧ ∀ n ∈ probedOpcodes, Reported ops n := by
  cases probe with
  | none => simp [probeFeatures, abort]
  | some ops =>
    have hsupports : ∀ n, n < 40 →
        (convertUringOpToFeature n ∈ features ops ↔ Reported ops n) := fun n => supports_iff
    simp only [probeFeatures, Checked.bind_eq_ok, assert_eq_ok, exists_const, Option.some.injEq,
      exists_eq_left', probedOpcodes, List.forall_mem_cons]
    rw [← hsupports 13 (by decide), ← hsupports 27 (by decide), ← hsupports 10 (by decide),
      ← hsupports 26 (by decide), ← hsupports 9 (by decide), ← hsupports 19 (by decide),
      ← hsupports 16 (by decide)]
    simp only [convertUringOpToFeature, List.not_mem_nil, false_implies, implies_true, and_true]

/-- Some run of a ring hands a request of the opcode to the kernel. -/
def Uses (s : IOUring) (n : Nat) : Prop :=
  ∃ t, Transition.Reaches IOUring.step Transition.Free s t ∧ ∃ req ∈ t.consumed, req.sqe.op.opcode = n

private def probedStream : Socket := ⟨.ipv4Tcp, 0, .serverStreamSocket, 3⟩

private def probedPackets : Socket := ⟨.ipv4Udp, 0, .unicastClientSocket, 3⟩

private def anyTarget : IPAddress := IPAddress.ofSockaddrIn ⟨afInet, 0, 0, 0⟩

/-- For each of the opcodes, calls of the user that submit it. -/
private def opcodeCalls : Nat → List Action
  | 13 => [.submitAccept probedStream 0 default]
  | 27 => [.submitRecv probedStream 0 default]
  | 10 => [.submitRecv probedPackets 0 default]
  | 26 => [.send probedStream ⟨[79, 75], by decide⟩ 0 default]
  | 9 => [.ackuireSendWorkitem probedPackets default, .submitPacket 0 ⟨anyTarget, 0, 1⟩ 0]
  | 19 => [.submitClose probedStream 0 default]
  | 16 => [.submitConnect probedStream anyTarget 0 default]
  | _ => []

/-- A datagram socket's new item can be submitted to any valid destination. -/
theorem Ready.submitPacket_sendmsg {s : IOUring} (h : Ready s) {o : Nat}
    (ho : o ∈ s.handles) (hstream : (s.item o).isStream = false) (params : DatagramSendParameters)
    (hvalid : params.destinationAddress.valid = true) (httl : 0 < params.ttl.toNat)
    (cb : CallbackFn) : ∃ t, step (.submitPacket o params cb) s = .ok t ∧
      ∃ req ∈ t.consumed, req.sqe.op.opcode = 9 := by
  obtain ⟨name, _, hsize⟩ := IPAddress.data_size_of_valid hvalid
  have hwidth : (params.ttl.setWidth 32).toNat = params.ttl.toNat := by
    have hlt := params.ttl.isLt
    rw [BitVec.toNat_setWidth, Nat.mod_eq_of_lt (by omega)]
  have hhigh : (params.ttl.setWidth 32).toNat < 256 := hwidth ▸ params.ttl.isLt
  have hcontrol := WorkItem.storeControl_eq (params.dscp <<< 2) (hwidth ▸ httl) hhigh
    (s.item o).control
  obtain ⟨item, hinit⟩ : ∃ item, ((s.item o).submitPacket params cb).initSendMsg = .ok item :=
    ⟨_, Checked.bind_eq_ok.mpr ⟨(), (assert_eq_ok _ _).mpr rfl, Checked.bind_eq_ok.mpr
      ⟨_, hcontrol, Checked.bind_eq_ok.mpr ⟨name.length, hsize, rfl⟩⟩⟩⟩
  have hprep : prepare s.buffers.bufferSize ((s.item o).submitPacket params cb) =
      .ok (item, ⟨item.id, .sendmsg (s.item o).socket.fd, (s.item o).linkToNextRequest, false⟩) :=
    Checked.bind_eq_ok.mpr ⟨(), (assert_eq_ok _ _).mpr hstream,
      Checked.bind_eq_ok.mpr ⟨item, hinit, rfl⟩⟩
  have hsubmit := h.submitItem_eq o (fun item => .ok (item.submitPacket params cb))
  rw [Checked.bind_ok, hprep] at hsubmit
  refine ⟨_, Checked.bind_eq_ok.mpr ⟨(), (Checked.ensure_eq_ok _ _ _).mpr ho, hsubmit⟩, ?_⟩
  exact ⟨_, List.mem_append_right _ List.mem_cons_self, rfl⟩

theorem uses_probed {queueSize : Nat} (hroom : 0 < queueSize) (mapped : Nat)
    (memory : Nat → Memory.Byte) {n : Nat} (hn : n ∈ probedOpcodes) :
    (initial queueSize mapped memory).Uses n := by
  obtain ⟨k, rfl⟩ : ∃ k, queueSize = k + 1 := ⟨queueSize - 1, by omega⟩
  have hleads : Transition.Leads IOUring.step Transition.Free
      (fun t => ∃ req ∈ t.consumed, req.sqe.op.opcode = n) (opcodeCalls n)
      (initial (k + 1) mapped memory) := by
    simp only [probedOpcodes, List.mem_cons, List.not_mem_nil, or_false] at hn
    obtain rfl | rfl | rfl | rfl | rfl | rfl | rfl := hn
    · exact ⟨trivial, _, List.mem_singleton.mpr rfl, rfl⟩
    · exact ⟨trivial, _, List.mem_singleton.mpr rfl, rfl⟩
    · exact ⟨trivial, _, List.mem_singleton.mpr rfl, rfl⟩
    · exact ⟨trivial, _, List.mem_singleton.mpr rfl, rfl⟩
    · have hone : Transition.Reaches step Transition.Free (initial (k + 1) mapped memory) _ :=
        Transition.Reaches.refl.tail (a := .ackuireSendWorkitem probedPackets default) trivial rfl
      have hready := (initial_ready hroom mapped memory).reaches hone
      obtain ⟨t, ht, hreq⟩ := hready.submitPacket_sendmsg (o := 0) List.mem_cons_self rfl
        ⟨anyTarget, 0, 1⟩ rfl (by decide) 0
      exact Transition.leads_cons.mpr ⟨trivial, _, rfl,
        Transition.leads_cons.mpr ⟨trivial, t, ht, hreq⟩⟩
    · exact ⟨trivial, _, List.mem_singleton.mpr rfl, rfl⟩
    · exact ⟨trivial, _, List.mem_singleton.mpr rfl, rfl⟩
  obtain ⟨t, hr, hreq⟩ := Transition.reaches_of_leads _ _ _ _ _ hleads
  exact ⟨t, hr, hreq⟩

theorem opcode_probed (op : Op) : op.opcode ∈ probedOpcodes := by
  cases op <;> simp [Op.opcode, probedOpcodes]

/-- The probe lets the start-up pass exactly if the kernel supports every opcode that some
run of the ring submits: none is missed and none is asked for in vain. -/
theorem probed_init_iff {queueSize mapped : Nat} {memory : Nat → Memory.Byte} (hroom : 0 < queueSize)
    (probe : Option (List ProbeOp)) :
    (create queueSize memory).probedInit probe ⟨some mapped, 0⟩ =
        .ok (.ok, initial queueSize mapped memory) ↔
      ∃ ops, probe = some ops ∧ ∀ n, (initial queueSize mapped memory).Uses n → Reported ops n := by
  have hprobe : (create queueSize memory).probedInit probe ⟨some mapped, 0⟩ =
      .ok (.ok, initial queueSize mapped memory) ↔ probeFeatures probe = .ok () := by
    rw [probedInit, Checked.bind_eq_ok]
    exact ⟨fun ⟨_, hok, _⟩ => hok, fun hok => ⟨(), hok, rfl⟩⟩
  rw [hprobe, probeFeatures_iff]
  apply exists_congr
  intro ops
  refine and_congr_right fun _ => ⟨fun h n => ?_, fun h n hn => ?_⟩
  · rintro ⟨t, _, req, _, rfl⟩
    exact h _ (opcode_probed req.sqe.op)
  · exact h n (uses_probed hroom mapped memory hn)

private def reportedOps : List ProbeOp :=
  [⟨19, 1⟩, ⟨16, 1⟩, ⟨200, 1⟩, ⟨9, 1⟩, ⟨10, 3⟩, ⟨13, 1⟩, ⟨0, 0⟩, ⟨26, 1⟩, ⟨27, 1⟩, ⟨13, 0⟩]

/-- Entries out of order, one twice and one that the library has no name for. -/
theorem probed_init_iff_unordered :
    (create 256 fun _ => 0).probedInit (some reportedOps) ⟨some 0, 0⟩ =
        .ok (.ok, initial 256 0 fun _ => 0) ∧
      ∀ n, (initial 256 0 fun _ => 0).Uses n → Reported reportedOps n := by
  have hinit : (create 256 fun _ => 0).probedInit (some reportedOps) ⟨some 0, 0⟩ =
      .ok (.ok, initial 256 0 fun _ => 0) := rfl
  obtain ⟨_, hops, h⟩ := (probed_init_iff (by decide) _).mp hinit
  cases hops
  exact ⟨hinit, h⟩

end IOUring

end Iuring
