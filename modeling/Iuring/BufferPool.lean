import Iuring.Lib.Window
import Iuring.Process
import Mathlib.Data.BitVec

namespace Iuring

open Lib

/-- An entry of the provided-buffer ring. -/
structure Buf where
  addr : Nat
  len : Nat
  bid : Nat
deriving DecidableEq, Inhabited

/-- The ring shared with the kernel: the kernel owns the head, the library the tail. -/
structure BufRing where
  head : BitVec 16
  tail : BitVec 16
  bufs : Nat → Buf
deriving Inhabited

namespace BufRing

def entries : Nat := 1024

def mask : Nat := entries - 1

/-- io_uring_buf_ring_add. -/
def add (addr len bid offset : Nat) (ring : BufRing) : BufRing :=
  { ring with bufs := Function.update ring.bufs ((ring.tail.toNat + offset) &&& mask) ⟨addr, len, bid⟩ }

/-- io_uring_buf_ring_advance. -/
def advance (count : Nat) (ring : BufRing) : BufRing :=
  { ring with tail := ring.tail + BitVec.ofNat 16 count }

/-- The kernel takes the buffer at the head, when one is published. -/
def pick (ring : BufRing) : Option (Buf × BufRing) :=
  if ring.head = ring.tail then none
  else some (ring.bufs (ring.head.toNat &&& mask), { ring with head := ring.head + 1 })

def published (ring : BufRing) : List Buf :=
  Window.window ring.bufs entries ring.head.toNat (ring.tail - ring.head).toNat

theorem and_mask (n : Nat) : n &&& mask = n % entries := Nat.and_two_pow_sub_one_eq_mod n 10

theorem entries_dvd : entries ∣ 2 ^ 16 := ⟨64, rfl⟩

@[simp] theorem length_published (ring : BufRing) :
    ring.published.length = (ring.tail - ring.head).toNat := Window.length_window _ _ _ _

/-- A buffer added at the tail and published comes last in a ring that has room. -/
theorem published_advance_add (ring : BufRing) (addr len bid : Nat)
    (h : ring.published.length < entries) :
    ((ring.add addr len bid 0).advance 1).published = ring.published ++ [⟨addr, len, bid⟩] := by
  rw [length_published] at h
  have hn : (ring.tail + BitVec.ofNat 16 1 - ring.head).toNat = (ring.tail - ring.head).toNat + 1 := by
    rw [entries] at h
    bv_omega
  have ht : ring.tail.toNat = (ring.head.toNat + (ring.tail - ring.head).toNat) % 2 ^ 16 := by
    bv_omega
  have hc : (ring.tail.toNat + 0) &&& mask =
      (ring.head.toNat + (ring.tail - ring.head).toNat) % entries := by
    rw [and_mask, Nat.add_zero, ht, Nat.mod_mod_of_dvd _ entries_dvd]
  simp only [published, advance, add, hn, hc]
  exact Window.window_push _ _ _ _ h _

/-- The kernel takes the buffer published first. -/
theorem published_of_pick {ring ring' : BufRing} {buf : Buf} (h : ring.pick = some (buf, ring')) :
    ring.published = buf :: ring'.published := by
  rw [pick] at h
  split at h
  · cases h
  · rename_i hne
    cases h
    have hn : (ring.tail - ring.head).toNat = (ring.tail - (ring.head + 1)).toNat + 1 := by
      bv_omega
    have hh : (ring.head + 1).toNat = (ring.head.toNat + 1) % 2 ^ 16 := by bv_omega
    simp only [published, hn, and_mask, Window.window_pop, hh, Window.window_mod _ entries_dvd]

end BufRing

/-- The members that setup_buffer_pool and recycle_buffer work on. -/
structure BufferPool where
  bufRing : BufRing
  bufRingSize : Nat
  bufShift : Nat
  bufferBase : Nat
  freeSendIds : List Nat
deriving Inhabited

namespace BufferPool

def QD : Nat := 64

def bufShiftDefault : Nat := 12

def CQES : Nat := QD * 16

def BUFFERS : Nat := CQES

def sizeofIoUringBuf : Nat := 16

/-- The members as the constructor leaves them. -/
def create : BufferPool := ⟨⟨0, 0, fun _ => default⟩, 0, bufShiftDefault, 0, []⟩

def bufferSize (pool : BufferPool) : Nat := 1 <<< pool.bufShift

def getBuffer (pool : BufferPool) (idx : Nat) : Nat := pool.bufferBase + (idx <<< pool.bufShift)

/-- The loop that adds every buffer once, without publishing any. -/
def addBuffers (pool : BufferPool) (count : Nat) : BufRing :=
  (List.range count).foldl
    (fun ring i => ring.add (pool.getBuffer i) pool.bufferSize i i) pool.bufRing

/-- The answers of mmap and of io_uring_register_buf_ring. -/
structure SetupOutcome where
  mapped : Option Nat
  registered : Int

inductive Error
  | ok
  | mmapFailed
  | errno (code : Int)
deriving DecidableEq

def setupBufferPool (outcome : SetupOutcome) (pool : BufferPool) : Error × BufferPool :=
  let pool := { pool with bufRingSize := (sizeofIoUringBuf + pool.bufferSize) * BUFFERS }
  match outcome.mapped with
  | none => (.mmapFailed, pool)
  | some mapped =>
    let pool := { pool with
      bufRing := ⟨0, 0, fun _ => default⟩
      bufferBase := mapped + sizeofIoUringBuf * BUFFERS }
    if outcome.registered ≠ 0 then (.errno (-outcome.registered), pool)
    else
      (.ok, { pool with
        bufRing := (pool.addBuffers BUFFERS).advance (BUFFERS / 2)
        freeSendIds := ((List.range BUFFERS).drop (BUFFERS / 2)).reverse ++ pool.freeSendIds })

def recycleBuffer (idx : Nat) (pool : BufferPool) : BufferPool :=
  { pool with
    bufRing := (pool.bufRing.add (pool.getBuffer idx) pool.bufferSize idx 0).advance 1 }

/-- The entry of the ring that stands for the buffer with the given id. -/
def entry (pool : BufferPool) (bid : Nat) : Buf := ⟨pool.getBuffer bid, pool.bufferSize, bid⟩

theorem addBuffers_bufs (pool : BufferPool) (ht : pool.bufRing.tail = 0) {count : Nat}
    (hc : count ≤ BufRing.entries) :
    (pool.addBuffers count).tail = 0 ∧ (pool.addBuffers count).head = pool.bufRing.head ∧
      ∀ i < count, (pool.addBuffers count).bufs i = pool.entry i := by
  induction count with
  | zero => exact ⟨ht, rfl, fun i hi => absurd hi (Nat.not_lt_zero i)⟩
  | succ n ih =>
    obtain ⟨htail, hhead, hbufs⟩ := ih (by omega)
    have hs : pool.addBuffers (n + 1) =
        (pool.addBuffers n).add (pool.getBuffer n) pool.bufferSize n n := by
      simp only [addBuffers, List.range_succ, List.foldl_append, List.foldl_cons, List.foldl_nil]
    have hcell : ((pool.addBuffers n).tail.toNat + n) &&& BufRing.mask = n := by
      rw [BufRing.and_mask, htail, show (0 : BitVec 16).toNat = 0 from rfl, Nat.zero_add,
        Nat.mod_eq_of_lt (by omega)]
    refine ⟨by rw [hs]; exact htail, by rw [hs]; exact hhead, fun i hi => ?_⟩
    simp only [hs, BufRing.add, hcell]
    by_cases he : i = n
    · subst i
      exact Function.update_self _ _ _
    · rw [Function.update_of_ne he]
      exact hbufs i (by omega)

theorem published_addBuffers (pool : BufferPool) (hh : pool.bufRing.head = 0)
    (ht : pool.bufRing.tail = 0) {published : Nat} (hp : published ≤ BufRing.entries) :
    ((pool.addBuffers BufRing.entries).advance published).published =
      (List.range published).map pool.entry := by
  obtain ⟨htail, hhead, hbufs⟩ := addBuffers_bufs pool ht (Nat.le_refl BufRing.entries)
  have hn : ((0 : BitVec 16) + BitVec.ofNat 16 published - 0).toNat = published := by
    rw [BufRing.entries] at hp
    have hm : published % 2 ^ 16 = published := Nat.mod_eq_of_lt (by omega)
    simpa using hm
  simp only [BufRing.published, BufRing.advance, htail, hhead, hh, hn, Window.window]
  apply List.map_congr_left
  intro i hi
  have hlt : i < BufRing.entries := (List.mem_range.mp hi).trans_le hp
  rw [show (0 : BitVec 16).toNat = 0 from rfl, Nat.zero_add, Nat.mod_eq_of_lt hlt]
  exact hbufs i hlt

/-- The set-up publishes the first half of the buffers, in the order of their ids. -/
theorem published_setup (mapped : Nat) (pool : BufferPool) :
    (pool.setupBufferPool ⟨some mapped, 0⟩).2.bufRing.published =
      (List.range (BUFFERS / 2)).map (pool.setupBufferPool ⟨some mapped, 0⟩).2.entry := by
  have hb : BUFFERS = BufRing.entries := rfl
  simp only [setupBufferPool, ne_eq, not_true_eq_false, if_false, hb]
  rw [published_addBuffers _ rfl rfl (Nat.div_le_self _ _)]
  exact List.map_congr_left fun i _ => by simp only [entry, getBuffer, bufferSize]

theorem published_recycleBuffer (idx : Nat) (pool : BufferPool)
    (h : pool.bufRing.published.length < BufRing.entries) :
    (pool.recycleBuffer idx).bufRing.published = pool.bufRing.published ++ [pool.entry idx] :=
  pool.bufRing.published_advance_add _ _ _ h

end BufferPool

end Iuring
