import Iuring.Sound

namespace Iuring

open Lib

namespace IOUring

variable {s s' : IOUring} {a : Action}

/-- The item holds a slot, or a dispatch to it is in progress. -/
def Live (s : IOUring) (o : Nat) : Prop :=
  (∃ i, s.pool.at? i = some o) ∨ ∃ frame ∈ s.frames, frame.workItem = o

/-- Who is behind a new request: a user's call that makes an item, a user's
submission of a held item, or the library arming a live item again. -/
inductive Issuer (s : IOUring) (a : Action) (req : Request) : Prop
  | opens (socket : Socket) (hopens : a.opens = some socket) (howner : req.owner = s.pool.nextObj)
      (hfd : req.sqe.op.fd = socket.fd)
  | submits (hsubmits : a.submits = some req.owner) (hheld : req.owner ∈ s.handles)
      (hfd : req.sqe.op.fd = (s.item req.owner).socket.fd)
  | rearms (ha : a.polls = true ∨ a.returns.isSome = true) (hlive : s.Live req.owner)
      (htype : req.sqe.op.workType = .accept ∨ req.sqe.op.workType = .recv)
      (hkind : (s.item req.owner).workType = req.sqe.op.workType)
      (hret : req.sqe.op.workType = .recv → a.returns ≠ some .none)
      (hfd : req.sqe.op.fd = (s.item req.owner).socket.fd)

/-- What a step does to the requests. -/
inductive Flow (s s' : IOUring) (a : Action) : Prop
  | still (harmed : s'.armed = s.armed) (hposted : s'.posted = s.posted)
      (hconsumed : s'.consumed = s.consumed)
  | issued (req : Request) (hseq : req.seq = s.consumed.length) (hissuer : s.Issuer a req)
      (harmed : s'.armed = s.armed ++ [req]) (hposted : s'.posted = s.posted)
      (hconsumed : s'.consumed = s.consumed ++ [req])
  | answered (i : Nat) (k : Outcome) (req : Request) (haction : a = .complete i k)
      (hreq : s.armed[i]? = some req)
      (harmed : s'.armed = if req.sqe.op.isMultishot ∧ (s.completion req k).hasMore then s.armed
        else s.armed.eraseIdx i)
      (hposted : s'.posted = s.posted ++ [s.completion req k])
      (hconsumed : s'.consumed = s.consumed)

theorem flow_of_settled {t : IOUring} {frame : Frame} {ret : ReceivePostAction}
    (hs : Settled frame ret t s')
    (ha : a.polls = true ∧ a.returns = none ∨ a.returns = some ret) (hlive : s.Live frame.workItem)
    (htype : frame.type.Becomes (s.item frame.workItem).workType)
    (harmed : t.armed = s.armed) (hposted : t.posted = s.posted) (hconsumed : t.consumed = s.consumed)
    (hitem : (t.item frame.workItem).workType = (s.item frame.workItem).workType ∧
      (t.item frame.workItem).socket = (s.item frame.workItem).socket) : Flow s s' a := by
  cases hs with
  | rearmed item sqe ht hprep heq =>
    obtain ⟨_, hd⟩ := prepare_ok hprep
    have hk : (s.item frame.workItem).workType = frame.type := by
      obtain ht | ⟨ht, _⟩ := ht <;> rw [ht] at htype ⊢ <;> exact htype.eq_of nofun rfl
    have hop : sqe.op.workType = frame.type := hd.type.trans (hitem.1.trans hk)
    have hfd : sqe.op.fd = (s.item frame.workItem).socket.fd :=
      hd.fd.trans (congrArg Socket.fd hitem.2)
    subst heq
    refine .issued ⟨t.consumed.length, frame.workItem, sqe⟩ (congrArg List.length hconsumed)
      (.rearms ?_ hlive ?_ (hk.trans hop.symm) ?_ hfd) ?_ hposted ?_
    · exact ha.imp And.left fun hr => by rw [hr]; rfl
    · rw [hop]
      exact ht.imp_right And.left
    · intro hrecv
      rw [hop] at hrecv
      have hret : ret = .reSubmit := by
        obtain ht | ⟨_, hret⟩ := ht
        · cases ht.symm.trans hrecv
        · exact hret
      obtain ⟨_, ha⟩ | ha := ha <;> rw [ha] <;> simp [hret]
    · exact congrArg (· ++ _) harmed
    · exact congrArg (· ++ _) hconsumed
  | freed o pool _ _ _ heq =>
    subst heq
    exact .still harmed hposted hconsumed

theorem leaveCallback_rest (frame : Frame) (frames : List Frame) :
    (s.leaveCallback frame frames).armed = s.armed ∧
      (s.leaveCallback frame frames).posted = s.posted ∧
      (s.leaveCallback frame frames).consumed = s.consumed ∧
      ((s.leaveCallback frame frames).item frame.workItem).workType =
        (s.item frame.workItem).workType ∧
      ((s.leaveCallback frame frames).item frame.workItem).socket =
        (s.item frame.workItem).socket := by
  rw [leaveCallback]
  cases frame.type <;> simp [setItem, WorkPool.setItem, IOUring.item, WorkItem.cleanSendPacket,
    recycleBuffer]

/-- Every step answers one request, makes one, or leaves them alone. -/
theorem Sound.flow (h : Sound s) (hs : Stepped s s' a) : Flow s s' a := by
  cases hs with
  | opened socket descr mem o pool item₀ item sqe hopens halloc hsame hprep heq =>
    obtain ⟨ho, _, _, _, hobjs, _⟩ := WorkPool.internalAlloc_spec h.pool halloc
    obtain ⟨_, hd⟩ := prepare_ok hprep
    have hfd : sqe.op.fd = socket.fd := by
      rw [hd.fd, hsame.socket, hobjs, Function.update_self]
      rfl
    subst heq
    exact .issued ⟨s.consumed.length, o, sqe⟩ rfl (.opens socket hopens ho hfd) rfl rfl rfl
  | acquired socket mem o pool _ heq => exact heq ▸ .still rfl rfl rfl
  | edited o packet _ _ _ heq => exact heq ▸ .still rfl rfl rfl
  | submitted o item₀ item sqe hsubmits hheld hsame _ hprep heq =>
    obtain ⟨_, hd⟩ := prepare_ok hprep
    have hfd : sqe.op.fd = (s.item o).socket.fd := hd.fd.trans (congrArg Socket.fd hsame.socket)
    subst heq
    exact .issued ⟨s.consumed.length, o, sqe⟩ rfl (.submits hsubmits hheld hfd) rfl rfl rfl
  | polled _ hpoll =>
    cases hpoll with
    | idle _ heq => exact heq ▸ .still rfl rfl rfl
    | missed _ _ _ _ heq | exhausted _ _ _ _ _ _ heq | entered _ _ _ _ _ _ _ _ heq =>
      exact heq ▸ .still rfl rfl rfl
    | returned cqe rest o ret recycle _ hat _ _ hafter =>
      obtain ⟨buffers, hst, _⟩ := settled_of_returned h.sq hafter
      exact flow_of_settled hst (.inl ⟨rfl, rfl⟩) (.inl ⟨_, hat⟩) (.refl _) rfl rfl rfl ⟨rfl, rfl⟩
  | returned ret frame frames hframes hafter =>
    have hm : frame ∈ s.frames := hframes ▸ List.mem_cons_self
    have hst := afterHandler_ok (h.leaveCallback hframes).sq hafter
    obtain ⟨ha, hp, hc, hk, hsock⟩ := leaveCallback_rest (s := s) frame frames
    exact flow_of_settled hst (.inr rfl) (.inr ⟨frame, hm, rfl⟩) (h.frames frame hm).2.2 ha hp hc
      ⟨hk, hsock⟩
  | completed i k req t harmed _ hdeliver heq =>
    obtain ⟨hc, _⟩ := hdeliver.frame
    subst heq
    exact .answered i k req rfl harmed rfl rfl hc

/-- A request that is answered once is at any time either armed or answered. -/
def Conserved (s : IOUring) : Prop :=
  ∀ req, req.sqe.op.isMultishot = false →
    s.armed.count req + (s.posted.map (·.req)).count req = s.consumed.count req

theorem Conserved.flow (h : s.Conserved) (hf : Flow s s' a) : s'.Conserved := by
  intro r hr
  have hc := h r hr
  cases hf with
  | still harmed hposted hconsumed => rwa [harmed, hposted, hconsumed]
  | issued req _ _ harmed hposted hconsumed =>
    rw [harmed, hposted, hconsumed, List.count_append, List.count_append]
    omega
  | answered i k req _ hreq harmed hposted hconsumed =>
    obtain ⟨hi, rfl⟩ := List.getElem?_eq_some_iff.mp hreq
    have hp := (List.getElem_cons_eraseIdx_perm hi).count_eq r
    have hlast : ((s.posted ++ [s.completion s.armed[i] k]).map (·.req)).count r =
        (s.posted.map (·.req)).count r + if s.armed[i] = r then 1 else 0 := by
      rw [List.map_append, List.count_append]
      simp [completion, List.count_singleton]
    rw [List.count_cons] at hp
    rw [harmed, hposted, hconsumed, hlast]
    split
    · rename_i hm
      have hne : s.armed[i] ≠ r := by
        intro he
        rw [he, hr] at hm
        exact Bool.false_ne_true hm.1
      rw [if_neg hne]
      exact hc
    · simp only [beq_iff_eq] at hp
      omega

/-- An item that made a single request, answered once, has at most one completion. -/
theorem Sound.completions_le_one (h : Sound s) (hc : s.Conserved) {o : Nat} {req : Request}
    (hreq : s.consumed.filter (fun r => r.owner = o) = [req])
    (hm : req.sqe.op.isMultishot = false) :
    (s.posted.filter (fun cqe => cqe.req.owner = o)).length ≤ 1 := by
  have honly : ∀ r ∈ s.consumed, r.owner = o → r = req := by
    intro r hr ho
    have hmem : r ∈ s.consumed.filter (fun r => r.owner = o) := List.mem_filter.mpr ⟨hr, by simpa⟩
    rw [hreq] at hmem
    exact List.mem_singleton.mp hmem
  have howner : req.owner = o := by
    have hmem : req ∈ s.consumed.filter (fun r => r.owner = o) := hreq ▸ List.mem_cons_self
    simpa using (List.mem_filter.mp hmem).2
  have hcount : s.consumed.count req = 1 := by
    have hf := List.count_filter (l := s.consumed) (p := fun r => decide (r.owner = o)) (a := req)
      (by simpa using howner)
    rw [← hf, hreq]
    simp
  have hlen : (s.posted.filter (fun cqe => cqe.req.owner = o)).length ≤
      (s.posted.map (·.req)).count req := by
    rw [List.count, List.countP_map, ← List.countP_eq_length_filter]
    apply List.countP_mono_left
    intro cqe hm ho
    have he := honly cqe.req (h.posted cqe hm) (by simpa using ho)
    simp [he]
  have := hc req hm
  omega

theorem initial_conserved (queueSize mapped : Nat) (memory : Nat → Memory.Byte) :
    (initial queueSize mapped memory).Conserved := fun _ _ => rfl

end IOUring

end Iuring
