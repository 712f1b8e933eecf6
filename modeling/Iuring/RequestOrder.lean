import Iuring.Lib.Transition
import Iuring.Steps

namespace Iuring

open Lib Lib.Memory

/-- The ring, and for each call of IOUring::submit so far the item and its id. -/
structure Submissions where
  ring : IOUring
  calls : List (Nat × Nat)

namespace Submissions

open IOUring

/-- A submission with the outcomes of its two flushes, or anything that the
process or the kernel does outside of the submission queue. -/
inductive Action
  | submit (o : Nat) (retry final : Flush)
  | elsewhere (ring : IOUring)

def step : Action → Submissions → Result Submissions
  | .submit o retry final, s => do
    let ring ← s.ring.submit retry final o
    return ⟨ring, s.calls ++ [(o, (s.ring.item o).id)]⟩
  | .elsewhere ring, s => do
    Checked.ensure .notEnabled (ring.sq = s.ring.sq ∧ ring.consumed = s.ring.consumed ∧
      ring.queueSize = s.ring.queueSize)
    return ⟨ring, s.calls⟩

def start (queueSize : Nat) (memory : Nat → Byte) : Submissions := ⟨create queueSize memory, []⟩

end Submissions

/-- The item that an entry was made for, and the id that it carries. -/
def Request.key (req : Request) : Nat × Nat := (req.owner, req.sqe.userData)

namespace IOUring

/-- What the kernel consumed, and behind it what it is still to consume. -/
def entries (s : IOUring) : List Request := s.consumed ++ s.sq

variable {s t : IOUring} {flush retry final : Flush} {o : Nat} {f : Fault}

theorem submitAllRequests_spec (flush : Flush) (s : IOUring) :
    (s.submitAllRequests flush).entries = s.entries ∧
      (s.submitAllRequests flush).queueSize = s.queueSize ∧
      (s.submitAllRequests flush).sq.length ≤ s.sq.length := by
  have htake : ∀ n, (s.consumed ++ s.sq.take n) ++ s.sq.drop n = s.entries := by
    intro n
    rw [List.append_assoc, List.take_append_drop]
    rfl
  cases flush with
  | failed => exact ⟨rfl, rfl, Nat.le_refl _⟩
  | took n => exact ⟨htake n, rfl, List.length_drop ▸ Nat.sub_le _ _⟩
  | all => exact ⟨htake _, rfl, List.length_drop ▸ Nat.sub_le _ _⟩

/-- The entry is there at once, or after the flush made room for it. -/
theorem getSqe_ok (h : s.getSqe retry = .ok t) :
    (t = s ∨ t = s.submitAllRequests retry) ∧ t.sq.length < t.queueSize := by
  rw [getSqe] at h
  dsimp only at h
  split at h
  · rename_i hroom
    cases h
    exact ⟨.inl rfl, hroom⟩
  · split at h
    · rename_i hroom
      cases h
      exact ⟨.inr rfl, hroom⟩
    · cases h

/-- Only a full queue of which the flush took nothing stops the process. -/
theorem getSqe_error (hroom : s.sq.length ≤ s.queueSize) (h : s.getSqe retry = .error f) :
    f = .aborted ∧ s.sq.length = s.queueSize ∧
      (s.submitAllRequests retry).sq.length = s.sq.length := by
  obtain ⟨_, hsize, hle⟩ := submitAllRequests_spec retry s
  rw [getSqe] at h
  dsimp only at h
  split at h
  · cases h
  · rename_i hfull
    split at h
    · cases h
    · rename_i hstill
      cases h
      rw [hsize] at hstill
      exact ⟨rfl, by omega, by omega⟩

theorem submit_entries (h : s.submit retry final o = .ok t) :
    t.entries.map Request.key = s.entries.map Request.key ++ [(o, (s.item o).id)] ∧
      t.queueSize = s.queueSize ∧ t.sq.length ≤ t.queueSize := by
  obtain ⟨u, hget, h⟩ := Checked.bind_eq_ok.mp h
  obtain ⟨⟨item, sqe⟩, hprep, h⟩ := Checked.bind_eq_ok.mp h
  obtain ⟨hu, hroom⟩ := getSqe_ok hget
  obtain ⟨hentries, hsize, hitem⟩ : u.entries = s.entries ∧ u.queueSize = s.queueSize ∧
      u.item o = s.item o := by
    obtain rfl | rfl := hu
    · exact ⟨rfl, rfl, rfl⟩
    · obtain ⟨hentries, hsize, _⟩ := submitAllRequests_spec retry s
      refine ⟨hentries, hsize, ?_⟩
      cases retry <;> rfl
  obtain ⟨req, hreq, hkey⟩ : ∃ req : Request, req.key = (o, (s.item o).id) ∧
      t = ({ (u.setItem o item).emit (.submitted req) with
        sq := u.sq ++ [req] } : IOUring).submitAllRequests final := by
    refine ⟨_, congrArg (Prod.mk o) ?_, (Except.ok.inj h).symm⟩
    rw [(prepare_ok hprep).2.userData, hitem]
  obtain ⟨hkept, hqueue, hle⟩ := submitAllRequests_spec final
    ({ (u.setItem o item).emit (.submitted req) with sq := u.sq ++ [req] } : IOUring)
  rw [← hkey] at hkept hqueue hle
  refine ⟨?_, hqueue.trans hsize, ?_⟩
  · rw [hkept, ← hreq, ← hentries, IOUring.entries, ← List.append_assoc, List.map_append]
    rfl
  · rw [hqueue]
    apply hle.trans
    rw [List.length_append]
    exact hroom

end IOUring

namespace Submissions

open IOUring

/-- One entry for each call, in the order of the calls, in a queue that never overflows. -/
structure InOrder (queueSize : Nat) (s : Submissions) : Prop where
  entries : s.ring.entries.map Request.key = s.calls
  size : s.ring.queueSize = queueSize
  room : s.ring.sq.length ≤ queueSize

variable {queueSize : Nat} {s t : Submissions} {a : Action}

theorem InOrder.step (h : s.InOrder queueSize) (hstep : Submissions.step a s = .ok t) :
    t.InOrder queueSize := by
  cases a with
  | submit o retry final =>
    obtain ⟨ring, hsubmit, hstep⟩ := Checked.bind_eq_ok.mp hstep
    cases hstep
    obtain ⟨hentries, hsize, hroom⟩ := submit_entries hsubmit
    refine ⟨?_, hsize.trans h.size, ?_⟩
    · rw [hentries, h.entries]
    · rw [← h.size, ← hsize]
      exact hroom
  | elsewhere ring =>
    obtain ⟨_, hsame, hstep⟩ := Checked.bind_eq_ok.mp hstep
    cases hstep
    obtain ⟨hsq, hconsumed, hsize⟩ := (Checked.ensure_eq_ok _ _ _).mp hsame
    refine ⟨?_, hsize.trans h.size, ?_⟩
    · rw [← h.entries, IOUring.entries, IOUring.entries, hsq, hconsumed]
    · rw [hsq]
      exact h.room

/-- However the flushes end, what the kernel consumed and what is still queued
are together one entry for each call, in order and with the id of its item, and
get_sqe gives up only on a full queue of which its flush took nothing. -/
theorem requests_in_order {memory : Nat → Byte}
    (hr : Transition.Reaches step Transition.Free (start queueSize memory) s) :
    (s.ring.consumed ++ s.ring.sq).map Request.key = s.calls ∧
      ∀ retry f, s.ring.getSqe retry = .error f → f = .aborted ∧
        s.ring.sq.length = queueSize ∧
        (s.ring.submitAllRequests retry).sq.length = s.ring.sq.length := by
  have h : s.InOrder queueSize :=
    hr.invariant (I := InOrder queueSize) (fun _ _ _ h _ hstep => h.step hstep)
      ⟨rfl, rfl, Nat.zero_le _⟩
  refine ⟨h.entries, fun retry f herror => ?_⟩
  have hroom : s.ring.sq.length ≤ s.ring.queueSize := h.size ▸ h.room
  rw [← h.size]
  exact getSqe_error hroom herror

private def closing : IOUring :=
  { create 1 (fun _ => 0) with
    pool := { WorkPool.empty with
      objs := fun o => { (default : WorkItem) with id := o + 40, workType := .close } } }

/-- A ring of one entry whose flushes fail, but for the retry of the second submission. -/
theorem requests_in_order_backpressure : ∃ s : Submissions, s.calls = [(0, 40), (1, 41)] ∧
    s.ring.sq.length = 1 ∧ (s.ring.consumed ++ s.ring.sq).map Request.key = s.calls := by
  obtain ⟨s, hr, hcalls, hfull⟩ := Transition.reaches_of_leads step Transition.Free
    (fun s => s.calls = [(0, 40), (1, 41)] ∧ s.ring.sq.length = 1)
    [.elsewhere closing, .submit 0 .failed .failed, .submit 1 (.took 1) .failed]
    (start 1 fun _ => 0) (by decide)
  exact ⟨s, hcalls, hfull, (requests_in_order hr).1⟩

end Submissions

end Iuring
