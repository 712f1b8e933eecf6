import Iuring.Machine

namespace Iuring

open Lib Lib.Memory

namespace BufferPool

def SetupOutcome.Succeeds (outcome : SetupOutcome) : Prop :=
  outcome.mapped.isSome = true ∧ outcome.registered = 0

/-- The ids that the loop pushes, the one pushed last on top. -/
def sendIds : List Nat := ((List.range BUFFERS).drop (BUFFERS / 2)).reverse

theorem nodup_sendIds : sendIds.Nodup :=
  List.nodup_reverse.mpr (List.nodup_range.sublist (List.drop_sublist _ _))

theorem sendIds_ne_nil : sendIds ≠ [] := by
  intro h
  have hlen := congrArg List.length h
  simp only [sendIds, List.length_reverse, List.length_drop, List.length_range] at hlen
  cases hlen

variable {outcome : SetupOutcome} {pool : BufferPool}

/-- The three exits of the set-up. -/
theorem setup_succeeds (h : outcome.Succeeds) : (pool.setupBufferPool outcome).1 = .ok ∧
    (pool.setupBufferPool outcome).2.freeSendIds = sendIds ++ pool.freeSendIds ∧
      (pool.setupBufferPool outcome).2.bufRing.published =
        (List.range (BUFFERS / 2)).map (pool.setupBufferPool outcome).2.entry := by
  obtain ⟨_ | mapped, registered⟩ := outcome
  · cases h.1
  · obtain rfl : registered = 0 := h.2
    exact ⟨rfl, rfl, published_setup mapped pool⟩

theorem setup_fails (h : ¬outcome.Succeeds) : (pool.setupBufferPool outcome).1 ≠ .ok ∧
    (pool.setupBufferPool outcome).2.freeSendIds = pool.freeSendIds := by
  obtain ⟨_ | mapped, registered⟩ := outcome
  · exact ⟨Error.noConfusion, rfl⟩
  · have hne : registered ≠ 0 := fun hzero => h ⟨rfl, hzero⟩
    simp only [setupBufferPool, ne_eq, hne, not_false_eq_true, if_true, reduceCtorEq, and_self]

end BufferPool

namespace IOUring

open BufferPool

/-- One init() after the other, with what the last of them returned. -/
def inits (outcomes : List SetupOutcome) (s : IOUring) : Option BufferPool.Error × IOUring :=
  outcomes.foldl (fun t outcome => ((t.2.init outcome).1, (t.2.init outcome).2)) (none, s)

/-- The five calls that rely on the flag. -/
inductive AsksInitialized : Action → Prop
  | submitAccept (socket : Socket) (handler : CallbackFn) (mem : Uninitialized) :
      AsksInitialized (.submitAccept socket handler mem)
  | submitConnect (socket : Socket) (target : IPAddress) (handler : CallbackFn)
      (mem : Uninitialized) : AsksInitialized (.submitConnect socket target handler mem)
  | submitRecv (socket : Socket) (handler : CallbackFn) (mem : Uninitialized) :
      AsksInitialized (.submitRecv socket handler mem)
  | submitClose (socket : Socket) (handler : CallbackFn) (mem : Uninitialized) :
      AsksInitialized (.submitClose socket handler mem)
  | ackuireSendWorkitem (socket : Socket) (mem : Uninitialized) :
      AsksInitialized (.ackuireSendWorkitem socket mem)

/-- The kernel has been given the first half of the buffers. -/
def BuffersPublished (s : IOUring) : Prop :=
  s.buffers.bufRing.published = (List.range (BUFFERS / 2)).map s.buffers.entry

/-- What a ring promises after a sequence of init() calls, of which the last returned `ret`. -/
structure Guarded (ret : Option BufferPool.Error) (s : IOUring) : Prop where
  initialized : s.initialized = true → ret = some .ok ∧ s.BuffersPublished
  refused : ¬s.BuffersPublished → ∀ a, AsksInitialized a → step a s = .error .assertFailed
  freeSendIds : s.buffers.freeSendIds.Nodup

variable {s : IOUring} {a : Action} {outcomes : List SetupOutcome} {last : SetupOutcome}

theorem refused_of_not_initialized (h : s.initialized = false) (ha : AsksInitialized a) :
    step a s = .error .assertFailed := by
  have hassert : assert (s.initialized = true) = .error .assertFailed := by
    rw [h]
    rfl
  have halloc : ∀ socket descr mem set,
      s.allocWorkItem socket descr mem set = .error .assertFailed := by
    intro socket descr mem set
    rw [allocWorkItem, hassert]
    rfl
  cases ha with
  | submitAccept socket handler mem =>
    rw [step, flushedStep, IOUring.submitAccept, halloc]
    by_cases hkind : socket.kind = .serverStreamSocket
    · rw [(assert_eq_ok _ ()).mpr hkind]
      rfl
    · rw [assert, (Checked.ensure_eq_error _ _ _).mpr ⟨hkind, rfl⟩]
      rfl
  | submitConnect | submitRecv | submitClose => exact halloc _ _ _ _
  | ackuireSendWorkitem socket mem =>
    rw [step, flushedStep, IOUring.ackuireSendWorkitem, hassert]
    rfl

theorem inits_snoc (outcomes : List SetupOutcome) (last : SetupOutcome) (s : IOUring) :
    inits (outcomes ++ [last]) s =
      (some ((inits outcomes s).2.init last).1, ((inits outcomes s).2.init last).2) := by
  rw [inits, List.foldl_append]
  rfl

theorem freeSendIds_of_failures {n : Nat} {memory : Nat → Byte}
    (h : ∀ outcome ∈ outcomes, ¬outcome.Succeeds) :
    (inits outcomes (create n memory)).2.buffers.freeSendIds = [] := by
  induction outcomes using List.reverseRecOn with
  | nil => rfl
  | append_singleton outcomes last ih =>
    have hfails := h last (List.mem_append_right outcomes List.mem_cons_self)
    rw [inits_snoc]
    refine (setup_fails hfails).2.trans (ih fun outcome hmem => ?_)
    exact h outcome (List.mem_append_left [last] hmem)

theorem sendIds_subset_of_success {outcome : SetupOutcome} (hmem : outcome ∈ outcomes)
    (h : outcome.Succeeds) : sendIds ⊆ (inits outcomes s).2.buffers.freeSendIds := by
  induction outcomes using List.reverseRecOn with
  | nil => cases hmem
  | append_singleton outcomes last ih =>
    rw [inits_snoc]
    by_cases hlast : last.Succeeds
    · have hids : ((inits outcomes s).2.init last).2.buffers.freeSendIds = _ :=
        (setup_succeeds hlast).2.1
      rw [hids]
      exact List.subset_append_left _ _
    · have hids : ((inits outcomes s).2.init last).2.buffers.freeSendIds = _ :=
        (setup_fails hlast).2
      rw [hids]
      obtain hmem | hmem := List.mem_append.mp hmem
      · exact ih hmem
      · obtain rfl := List.mem_singleton.mp hmem
        exact absurd h hlast

/-- The promises are kept exactly as long as init() was not called, or succeeded
in its most recent call and in no call before. -/
theorem guarded_iff (queueSize : Nat) (memory : Nat → Byte) (outcomes : List SetupOutcome) :
    Guarded (inits outcomes (create queueSize memory)).1
        (inits outcomes (create queueSize memory)).2 ↔
      outcomes = [] ∨ ∃ before last, outcomes = before ++ [last] ∧ last.Succeeds ∧
        ∀ outcome ∈ before, ¬outcome.Succeeds := by
  induction outcomes using List.reverseRecOn with
  | nil =>
    refine iff_of_true ⟨fun h => ?_, fun _ _ ha => ?_, List.nodup_nil⟩ (.inl rfl)
    · cases h
    · exact refused_of_not_initialized rfl ha
  | append_singleton before last _ =>
    have hne : before ++ [last] ≠ [] := List.append_ne_nil_of_right_ne_nil _ (List.cons_ne_nil _ _)
    rw [inits_snoc]
    constructor
    · intro h
      have hlast : last.Succeeds := by
        by_contra hfails
        have hret := (h.initialized rfl).1
        exact (setup_fails hfails).1 (Option.some.inj hret)
      have hids : ((inits before (create queueSize memory)).2.init last).2.buffers.freeSendIds =
          _ := (setup_succeeds hlast).2.1
      have hnodup := h.freeSendIds
      rw [hids] at hnodup
      refine .inr ⟨before, last, rfl, hlast, fun outcome hmem hsucceeds => ?_⟩
      -- the ids of the earlier success are pushed a second time
      obtain ⟨id, hid⟩ := List.exists_mem_of_ne_nil _ sendIds_ne_nil
      have hagain : id ∈ (inits before (create queueSize memory)).2.buffers.freeSendIds :=
        sendIds_subset_of_success hmem hsucceeds hid
      exact List.disjoint_of_nodup_append hnodup hid hagain
    · rintro (hnil | ⟨before', last', heq, hlast, hbefore⟩)
      · exact absurd hnil hne
      · obtain ⟨rfl, hsame⟩ := List.append_inj' heq rfl
        obtain rfl := List.head_eq_of_cons_eq hsame
        obtain ⟨hret, hids, hpublished⟩ := setup_succeeds hlast
        refine ⟨fun _ => ⟨congrArg some hret, hpublished⟩, fun hnot => absurd hpublished hnot, ?_⟩
        refine hids.symm ▸ ?_
        rw [freeSendIds_of_failures hbefore, List.append_nil]
        exact nodup_sendIds

/-- The ring counts as initialized after the mmap of its first init() failed. -/
theorem initialized_after_failed_mmap :
    ¬Guarded (inits [⟨none, 0⟩] (create 256 fun _ => 0)).1
      (inits [⟨none, 0⟩] (create 256 fun _ => 0)).2 := by
  intro h
  have hret := (h.initialized rfl).1
  cases hret

end IOUring

end Iuring
