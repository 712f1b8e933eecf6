import Iuring.BufferPool
import Iuring.Lib.Circulation
import Iuring.Lib.Transition

namespace Iuring

open Lib

/-- The receive buffers, and the ids that the kernel picked and that have not
been recycled since. -/
structure BufferCycle where
  pool : BufferPool
  outstanding : List Nat

namespace BufferCycle

open BufferPool

/-- The kernel takes the buffer at the head, or a buffer that it took is recycled. -/
inductive Action
  | pick
  | recycleBuffer (idx : Nat)

def step : Action → BufferCycle → Result BufferCycle
  | .pick, s =>
    match s.pool.bufRing.pick with
    | none => .error .notEnabled
    | some (buf, ring) => .ok ⟨{ s.pool with bufRing := ring }, buf.bid :: s.outstanding⟩
  | .recycleBuffer idx, s => do
    Checked.ensure .notEnabled (idx ∈ s.outstanding)
    return ⟨s.pool.recycleBuffer idx, s.outstanding.erase idx⟩

/-- After a set-up for which mmap and the registration succeeded. -/
def start (mapped : Nat) (pool : BufferPool) : BufferCycle :=
  ⟨(pool.setupBufferPool ⟨some mapped, 0⟩).2, []⟩

/-- The ids in the published part of the ring, and those that the kernel has taken. -/
def circulation (s : BufferCycle) : Circulation Nat where
  queue := s.pool.bufRing.published.map (·.bid)
  out := s.outstanding

/-- Each published entry is that of the buffer that it names. -/
def Labelled (s : BufferCycle) : Prop :=
  ∀ buf ∈ s.pool.bufRing.published, buf = s.pool.entry buf.bid

/-- The receive buffers are where they should be. -/
structure InOrder (s : BufferCycle) : Prop where
  count : (s.pool.bufRing.tail - s.pool.bufRing.head).toNat + s.outstanding.length = BUFFERS / 2
  ids : (s.pool.bufRing.published.map (·.bid) ++ s.outstanding).Perm (List.range (BUFFERS / 2))
  entries : ∀ buf ∈ s.pool.bufRing.published,
    buf.addr = s.pool.getBuffer buf.bid ∧ buf.len = s.pool.bufferSize

variable {s t : BufferCycle} {a : Action} {mapped : Nat} {pool : BufferPool}

theorem start_circulation (mapped : Nat) (pool : BufferPool) :
    (start mapped pool).circulation = ⟨List.range (BUFFERS / 2), []⟩ := by
  have hids : (start mapped pool).pool.bufRing.published.map (·.bid) = List.range (BUFFERS / 2) := by
    rw [start, published_setup, List.map_map]
    exact List.map_id _
  rw [circulation, hids]
  rfl

theorem start_labelled (mapped : Nat) (pool : BufferPool) : (start mapped pool).Labelled := by
  intro buf hbuf
  rw [start, published_setup] at hbuf
  obtain ⟨bid, _, rfl⟩ := List.mem_map.mp hbuf
  rfl

/-- The ring has room for a buffer that comes back. -/
theorem room_of_perm (h : s.circulation.all.Perm (List.range (BUFFERS / 2))) :
    s.pool.bufRing.published.length < BufRing.entries := by
  have hlen := Circulation.length_queue_add_out h
  have hhalf : BUFFERS / 2 < BufRing.entries := by decide
  rw [circulation, List.length_map, List.length_range] at hlen
  omega

/-- Everything that a step can do: the buffer published first is picked, or one
that is outstanding is published last. -/
inductive Stepped (s t : BufferCycle) : Prop
  | picked (buf : Buf)
      (hpublished : s.pool.bufRing.published = buf :: t.pool.bufRing.published)
      (houtstanding : t.outstanding = buf.bid :: s.outstanding) (hentry : t.pool.entry = s.pool.entry)
  | recycled (idx : Nat) (hmem : idx ∈ s.outstanding)
      (hpublished : t.pool.bufRing.published = s.pool.bufRing.published ++ [s.pool.entry idx])
      (houtstanding : t.outstanding = s.outstanding.erase idx) (hentry : t.pool.entry = s.pool.entry)

theorem step_ok (hroom : s.pool.bufRing.published.length < BufRing.entries)
    (hs : step a s = .ok t) : Stepped s t := by
  cases a with
  | pick =>
    rw [step] at hs
    split at hs
    · cases hs
    · rename_i buf ring hpick
      cases hs
      exact .picked buf (BufRing.published_of_pick hpick) rfl rfl
  | recycleBuffer idx =>
    obtain ⟨_, hmem, hs⟩ := Checked.bind_eq_ok.mp hs
    cases hs
    exact .recycled idx ((Checked.ensure_eq_ok _ _ _).mp hmem)
      (published_recycleBuffer idx s.pool hroom) rfl rfl

theorem Stepped.moves (h : Stepped s t) : Circulation.Moves s.circulation t.circulation := by
  cases h with
  | picked buf hpublished houtstanding _ =>
    rw [circulation, circulation, hpublished, houtstanding]
    exact .taken buf.bid _ _
  | recycled idx hmem hpublished houtstanding _ =>
    rw [circulation, circulation, hpublished, houtstanding, List.map_append]
    exact .returned _ hmem

theorem Stepped.labelled (h : Stepped s t) (hs : s.Labelled) : t.Labelled := by
  intro buf hbuf
  cases h with
  | picked first hpublished _ hentry =>
    rw [hentry]
    apply hs
    rw [hpublished]
    exact List.mem_cons_of_mem first hbuf
  | recycled idx _ hpublished _ hentry =>
    rw [hpublished] at hbuf
    rw [hentry]
    obtain hbuf | hbuf := List.mem_append.mp hbuf
    · exact hs buf hbuf
    · obtain rfl := List.mem_singleton.mp hbuf
      rfl

/-- The ring with its counters and masks is a queue of buffers, from the set-up on. -/
theorem refines_circulation (hr : Transition.Reaches step Transition.Free (start mapped pool) s) :
    Relation.ReflTransGen Circulation.Moves ⟨List.range (BUFFERS / 2), []⟩ s.circulation ∧
      s.Labelled := by
  refine hr.invariant (I := fun u => Relation.ReflTransGen Circulation.Moves
    ⟨List.range (BUFFERS / 2), []⟩ u.circulation ∧ u.Labelled) (fun u a v h _ hs => ?_) ?_
  · have hroom := room_of_perm (Circulation.perm_of_moves_queued h.1)
    have hstep := step_ok hroom hs
    exact ⟨h.1.tail hstep.moves, hstep.labelled h.2⟩
  · rw [start_circulation]
    exact ⟨.refl, start_labelled mapped pool⟩

/-- The buffers stay in order however far the counters run. -/
theorem buffers_in_order (hr : Transition.Reaches step Transition.Free (start mapped pool) s) :
    s.InOrder := by
  obtain ⟨hmoves, hlabelled⟩ := refines_circulation hr
  have hperm := Circulation.perm_of_moves_queued hmoves
  have hcount := Circulation.length_queue_add_out hperm
  refine ⟨?_, hperm, fun buf hbuf => ?_⟩
  · rw [circulation, List.length_map, BufRing.length_published, List.length_range] at hcount
    exact hcount
  · rw [hlabelled buf hbuf]
    exact ⟨rfl, rfl⟩

/-- The first two buffers are taken and come back in the other order. -/
theorem buffers_in_order_swapped : ∃ s : BufferCycle, s.outstanding = [] ∧
    s.pool.bufRing.bufs 512 = ⟨20480, 4096, 1⟩ ∧ s.InOrder := by
  obtain ⟨s, hr, hout, hbuf⟩ := Transition.reaches_of_leads step Transition.Free
    (fun s => s.outstanding = [] ∧ s.pool.bufRing.bufs 512 = ⟨20480, 4096, 1⟩)
    [.pick, .pick, .recycleBuffer 1, .recycleBuffer 0] (start 0 .create) (by decide +kernel)
  exact ⟨s, hout, hbuf, buffers_in_order hr⟩

end BufferCycle

end Iuring
