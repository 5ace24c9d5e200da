import Aesd.Verified.BlockHeap
import Aesd.Verified.RingView
import Aesd.Verified.Segments
import Mathlib.Algebra.Ring.Nat

/-!
# The circular buffer of `aesd-circular-buffer.c`

The three functions of the file as they are compiled into the module, and what
the offsets and the `full` flag mean.  The array of ten entries is a function of
the slot; `uint8_t` offsets are natural numbers, since the code reduces them
modulo ten after every step; `size_t` sums wrap at `2 ^ 64`.

`Wf` is the representation invariant.  Under it `stored` reads the entries off
from the oldest to the newest, adding an entry appends to that list and evicts
from its front, and the offset lookup is `Segments.locate` on the sizes.
-/

namespace Aesd.Driver

open Aesd.Verified.BlockHeap
open Aesd.Verified.Lines
open Aesd.Verified.RingView
open Aesd.Verified.Segments

/-- `AESDCHAR_MAX_WRITE_OPERATIONS_SUPPORTED`. -/
def maxWriteOperationsSupported : Nat := 10

/-- `size_t` arithmetic is modulo `sizeMod`. -/
def sizeMod : Nat := 2 ^ 64

/-- `struct aesd_buffer_entry`. -/
structure AesdBufferEntry where
  buffptr : Option Nat
  size : Nat
  deriving DecidableEq

/-- The entry left by `memset`. -/
def AesdBufferEntry.zero : AesdBufferEntry := { buffptr := none, size := 0 }

/-- `struct aesd_circular_buffer`. -/
structure AesdCircularBuffer where
  entry : Nat → AesdBufferEntry
  inOffs : Nat
  outOffs : Nat
  full : Bool

/-- `aesd_circular_buffer_init`. -/
def aesdCircularBufferInit : AesdCircularBuffer :=
  { entry := fun _ => .zero, inOffs := 0, outOffs := 0, full := false }

/-- Lines 86 to 92: a full buffer gives the block of the target slot back and
clears its pointer. -/
def retireTarget (buffer : AesdCircularBuffer) (heap : Heap UInt8) :
    AesdCircularBuffer × Heap UInt8 :=
  let target := buffer.entry buffer.inOffs
  if buffer.full ∧ target.buffptr.isSome then
    ({ buffer with
        entry := Function.update buffer.entry buffer.inOffs { target with buffptr := none } },
      heap.free target.buffptr)
  else (buffer, heap)

/-- `aesd_circular_buffer_add_entry`.  The callers pass the addresses of live
objects, so the check for null arguments never returns early. -/
def aesdCircularBufferAddEntry (buffer : AesdCircularBuffer) (heap : Heap UInt8)
    (addEntry : AesdBufferEntry) : AesdCircularBuffer × Heap UInt8 :=
  let (buffer, heap) := retireTarget buffer heap
  let entry := Function.update buffer.entry buffer.inOffs addEntry
  let inOffs := (buffer.inOffs + 1) % maxWriteOperationsSupported
  let outOffs :=
    if buffer.full then (buffer.outOffs + 1) % maxWriteOperationsSupported
    else buffer.outOffs
  ({ entry, inOffs, outOffs, full := inOffs == outOffs }, heap)

/-- The search loop of the lookup, with `remaining` iterations to go.  A hit is
the slot of the entry and the byte offset inside it. -/
def findEntryLoop (buffer : AesdCircularBuffer) (charOffset : Nat) :
    Nat → Nat → Nat → Option (Nat × Nat)
  | 0, _, _ => none
  | remaining + 1, totalSize, index =>
      let entry := buffer.entry index
      if entry.buffptr.isSome ∧ charOffset < (totalSize + entry.size) % sizeMod then
        some (index, (charOffset + sizeMod - totalSize) % sizeMod)
      else
        let totalSize :=
          if entry.buffptr.isSome then (totalSize + entry.size) % sizeMod else totalSize
        let index := (index + 1) % maxWriteOperationsSupported
        if ¬buffer.full ∧ index = buffer.inOffs then none
        else findEntryLoop buffer charOffset remaining totalSize index

/-- `aesd_circular_buffer_find_entry_offset_for_fpos`. -/
def aesdCircularBufferFindEntryOffsetForFpos (buffer : AesdCircularBuffer)
    (charOffset : Nat) : Option (Nat × Nat) :=
  findEntryLoop buffer charOffset maxWriteOperationsSupported 0 buffer.outOffs

/-! ## The representation invariant -/

/-- How many entries are stored: the expression the seek ioctl evaluates. -/
def storedCount (buffer : AesdCircularBuffer) : Nat :=
  if buffer.full then maxWriteOperationsSupported else buffer.inOffs

theorem storedCount_of_full {buffer : AesdCircularBuffer} (h : buffer.full = true) :
    storedCount buffer = maxWriteOperationsSupported := if_pos h

theorem storedCount_of_not_full {buffer : AesdCircularBuffer} (h : buffer.full = false) :
    storedCount buffer = buffer.inOffs := by simp [storedCount, h]

/-- The stored entries, oldest first. -/
def stored (buffer : AesdCircularBuffer) : List AesdBufferEntry :=
  view maxWriteOperationsSupported buffer.entry buffer.outOffs (storedCount buffer)

/-- What `in_offs`, `out_offs` and `full` say about each other, and that slots
never written are zero. -/
structure Wf (buffer : AesdCircularBuffer) : Prop where
  inOffs_lt : buffer.inOffs < maxWriteOperationsSupported
  outOffs_lt : buffer.outOffs < maxWriteOperationsSupported
  offs_of_full : buffer.full → buffer.outOffs = buffer.inOffs
  outOffs_of_not_full : buffer.full = false → buffer.outOffs = 0
  blank : buffer.full = false → ∀ j, buffer.inOffs ≤ j →
    j < maxWriteOperationsSupported → buffer.entry j = .zero

theorem wf_init : Wf aesdCircularBufferInit :=
  { inOffs_lt := by decide
    outOffs_lt := by decide
    offs_of_full := by simp [aesdCircularBufferInit]
    outOffs_of_not_full := fun _ => rfl
    blank := fun _ _ _ _ => rfl }

theorem length_stored (buffer : AesdCircularBuffer) :
    (stored buffer).length = storedCount buffer := by
  simp [stored]

theorem Wf.length_stored_le {buffer : AesdCircularBuffer} (h : Wf buffer) :
    (stored buffer).length ≤ maxWriteOperationsSupported := by
  rw [length_stored, storedCount]
  split
  · exact Nat.le_refl _
  · exact h.inOffs_lt.le

/-- The block a full buffer gives back is the one of its oldest entry. -/
theorem Wf.oldest {buffer : AesdCircularBuffer} (h : Wf buffer) (hfull : buffer.full) :
    ∃ newer, stored buffer = buffer.entry buffer.inOffs :: newer := by
  have hout := h.offs_of_full hfull
  refine ⟨view maxWriteOperationsSupported buffer.entry
    ((buffer.outOffs + 1) % maxWriteOperationsSupported) 9, ?_⟩
  rw [stored, storedCount_of_full hfull]
  exact (view_succ ..).trans (by rw [hout, Nat.mod_eq_of_lt h.inOffs_lt])

/-- The blocks the slots refer to are those of the stored entries. -/
theorem Wf.slots_perm {buffer : AesdCircularBuffer} (h : Wf buffer) :
    ((List.range maxWriteOperationsSupported).filterMap fun i => (buffer.entry i).buffptr).Perm
      ((stored buffer).filterMap (·.buffptr)) := by
  rw [← Function.comp_def (fun e : AesdBufferEntry => e.buffptr) buffer.entry,
    ← List.filterMap_map, stored]
  by_cases hfull : buffer.full
  · rw [storedCount_of_full hfull]
    exact (view_perm buffer.entry h.outOffs_lt.le).symm.filterMap _
  · have hfalse : buffer.full = false := by simpa using hfull
    obtain ⟨m, hm⟩ := Nat.exists_eq_add_of_le h.inOffs_lt.le
    rw [storedCount_of_not_full hfalse, h.outOffs_of_not_full hfalse,
      view_first buffer.entry h.inOffs_lt.le, hm, List.range_add, List.map_append,
      List.filterMap_append]
    have hblank : (((List.range m).map (buffer.inOffs + ·)).map buffer.entry).filterMap
        (·.buffptr) = [] := by
      simp only [List.filterMap_eq_nil_iff, List.mem_map, List.mem_range]
      rintro e ⟨j, ⟨i, hi, rfl⟩, rfl⟩
      rw [h.blank hfalse _ (by omega) (by omega)]
      rfl
    rw [hblank, List.append_nil]

/-! ## Adding an entry -/

/-- Clearing the target before it is overwritten leaves no trace in the buffer. -/
theorem addEntry_fst (buffer : AesdCircularBuffer) (heap : Heap UInt8)
    (e : AesdBufferEntry) :
    (aesdCircularBufferAddEntry buffer heap e).1 =
      { entry := Function.update buffer.entry buffer.inOffs e
        inOffs := (buffer.inOffs + 1) % maxWriteOperationsSupported
        outOffs := if buffer.full then (buffer.outOffs + 1) % maxWriteOperationsSupported
          else buffer.outOffs
        full := (buffer.inOffs + 1) % maxWriteOperationsSupported ==
          if buffer.full then (buffer.outOffs + 1) % maxWriteOperationsSupported
          else buffer.outOffs } := by
  simp only [aesdCircularBufferAddEntry, retireTarget]
  split <;> simp

theorem addEntry_snd (buffer : AesdCircularBuffer) (heap : Heap UInt8)
    (e : AesdBufferEntry) :
    (aesdCircularBufferAddEntry buffer heap e).2 =
      if buffer.full then heap.free (buffer.entry buffer.inOffs).buffptr else heap := by
  simp only [aesdCircularBufferAddEntry, retireTarget]
  by_cases hfull : buffer.full
  · cases (buffer.entry buffer.inOffs).buffptr <;> simp [hfull, Heap.free]
  · simp [hfull]

theorem wf_addEntry {buffer : AesdCircularBuffer} (h : Wf buffer) (heap : Heap UInt8)
    (e : AesdBufferEntry) : Wf (aesdCircularBufferAddEntry buffer heap e).1 := by
  rw [addEntry_fst]
  by_cases hfull : buffer.full
  · have hout := h.offs_of_full hfull
    exact
      { inOffs_lt := Nat.mod_lt _ (by decide)
        outOffs_lt := by simp only [hfull, if_true]; exact Nat.mod_lt _ (by decide)
        offs_of_full := fun _ => by simp only [hfull, if_true, hout]
        outOffs_of_not_full := fun hnot => by
          simp only [hfull, if_true, hout, beq_self_eq_true, Bool.true_eq_false] at hnot
        blank := fun hnot => by
          simp only [hfull, if_true, hout, beq_self_eq_true, Bool.true_eq_false] at hnot }
  · have hfalse : buffer.full = false := by simpa using hfull
    have hout := h.outOffs_of_not_full hfalse
    have hin := h.inOffs_lt
    exact
      { inOffs_lt := Nat.mod_lt _ (by decide)
        outOffs_lt := by simp [hfalse, hout, maxWriteOperationsSupported]
        offs_of_full := fun hf => by simpa using (beq_iff_eq.1 hf).symm
        outOffs_of_not_full := by simp [hfalse, hout]
        blank := by
          intro hnot j hj hlt
          simp only [hfalse, hout, Bool.false_eq_true, if_false, beq_eq_false_iff_ne] at hnot hj
          have hne : j ≠ buffer.inOffs := by
            rintro rfl
            simp only [maxWriteOperationsSupported] at *
            omega
          simp only [Function.update_of_ne hne]
          refine h.blank hfalse j ?_ hlt
          simp only [maxWriteOperationsSupported] at *
          omega }

/-- **Adding an entry appends it and keeps the last ten.** -/
theorem stored_addEntry {buffer : AesdCircularBuffer} (h : Wf buffer) (heap : Heap UInt8)
    (e : AesdBufferEntry) :
    stored (aesdCircularBufferAddEntry buffer heap e).1 =
      (stored buffer ++ [e]).rtake maxWriteOperationsSupported := by
  rw [addEntry_fst]
  by_cases hfull : buffer.full
  · have hout := h.offs_of_full hfull
    simp only [stored, storedCount, hfull, if_true, hout, beq_self_eq_true]
    exact view_overwrite buffer.entry e h.inOffs_lt
  · have hfalse : buffer.full = false := by simpa using hfull
    have hout := h.outOffs_of_not_full hfalse
    have hin := h.inOffs_lt
    have hcount : storedCount
        { entry := Function.update buffer.entry buffer.inOffs e
          inOffs := (buffer.inOffs + 1) % maxWriteOperationsSupported
          outOffs := 0
          full := (buffer.inOffs + 1) % maxWriteOperationsSupported == 0 } =
        buffer.inOffs + 1 := by
      simp only [storedCount, maxWriteOperationsSupported, beq_iff_eq] at hin ⊢
      split <;> omega
    have hpush := view_push maxWriteOperationsSupported buffer.entry 0 e hin
    rw [Nat.zero_add, Nat.mod_eq_of_lt hin] at hpush
    simp only [hfalse, hout, Bool.false_eq_true, if_false]
    rw [stored, hcount, hpush, stored, storedCount_of_not_full hfalse, hout,
      rtake_of_length_le]
    simpa using Nat.succ_le_of_lt hin

/-! ## Looking an offset up -/

/-- The bytes an entry contributes: none when its pointer is NULL. -/
def weight (e : AesdBufferEntry) : Nat := if e.buffptr.isSome then e.size else 0

/-- One iteration of the search loop on totals that do not wrap. -/
theorem findEntryLoop_succ (buffer : AesdCircularBuffer) {charOffset totalSize : Nat}
    (remaining index : Nat) (hle : totalSize ≤ charOffset)
    (hfit : totalSize + weight (buffer.entry index) < sizeMod)
    (hoff : charOffset < sizeMod) :
    findEntryLoop buffer charOffset (remaining + 1) totalSize index =
      if charOffset - totalSize < weight (buffer.entry index) then
        some (index, charOffset - totalSize)
      else if ¬buffer.full ∧ (index + 1) % maxWriteOperationsSupported = buffer.inOffs then
        none
      else findEntryLoop buffer charOffset remaining
        (totalSize + weight (buffer.entry index)) ((index + 1) % maxWriteOperationsSupported) := by
  have hsub : (charOffset + sizeMod - totalSize) % sizeMod = charOffset - totalSize := by
    rw [show charOffset + sizeMod - totalSize = charOffset - totalSize + sizeMod by omega,
      Nat.add_mod_right]
    exact Nat.mod_eq_of_lt (by omega)
  simp only [findEntryLoop, weight] at hfit ⊢
  by_cases hptr : (buffer.entry index).buffptr.isSome
  · simp only [hptr, if_true, true_and] at hfit ⊢
    rw [Nat.mod_eq_of_lt hfit, hsub]
    by_cases hhit : charOffset < totalSize + (buffer.entry index).size
    · rw [if_pos hhit,
        if_pos (show charOffset - totalSize < (buffer.entry index).size by omega)]
    · rw [if_neg hhit,
        if_neg (show ¬charOffset - totalSize < (buffer.entry index).size by omega)]
  · simp [hptr]

/-- Searching slots that were never written finds nothing. -/
theorem findEntryLoop_blank {buffer : AesdCircularBuffer} (charOffset remaining index : Nat)
    (hblank : ∀ j, j < maxWriteOperationsSupported → buffer.entry j = .zero)
    (hindex : index < maxWriteOperationsSupported) :
    findEntryLoop buffer charOffset remaining 0 index = none := by
  induction remaining generalizing index with
  | zero => rfl
  | succ remaining ih =>
      simp only [findEntryLoop, hblank index hindex, AesdBufferEntry.zero, Option.isSome_none,
        Bool.false_eq_true, false_and, if_false]
      split
      · rfl
      · exact ih _ (Nat.mod_lt _ (by decide))

/-- The loop on the `m` newest entries is a search in their sizes. -/
theorem findEntryLoop_eq_locate {buffer : AesdCircularBuffer} (h : Wf buffer)
    {charOffset : Nat} (hoff : charOffset < sizeMod) {m : Nat} (hm : 0 < m)
    (hcount : m ≤ storedCount buffer) (index totalSize : Nat)
    (hindex : index = (buffer.outOffs + (storedCount buffer - m)) % maxWriteOperationsSupported)
    (hle : totalSize ≤ charOffset)
    (hfit : totalSize +
      ((view maxWriteOperationsSupported buffer.entry index m).map weight).sum < sizeMod)
    {remaining : Nat} (hrem : m ≤ remaining) (hfull : buffer.full → remaining = m) :
    findEntryLoop buffer charOffset remaining totalSize index =
      (locate ((view maxWriteOperationsSupported buffer.entry index m).map weight)
        (charOffset - totalSize)).map
        fun r => ((index + r.1) % maxWriteOperationsSupported, r.2) := by
  have hilt : index < maxWriteOperationsSupported := hindex ▸ Nat.mod_lt _ (by decide)
  induction m generalizing index totalSize remaining with
  | zero => omega
  | succ m ih =>
      obtain ⟨remaining, rfl⟩ : ∃ r, remaining = r + 1 := ⟨remaining - 1, by omega⟩
      rw [view_succ, List.map_cons, List.sum_cons, Nat.mod_eq_of_lt hilt] at hfit
      rw [findEntryLoop_succ buffer remaining index hle (by omega) hoff, view_succ,
        List.map_cons, locate, Nat.mod_eq_of_lt hilt]
      by_cases hhit : charOffset - totalSize < weight (buffer.entry index)
      · simp [hhit, Nat.mod_eq_of_lt hilt]
      simp only [hhit, if_false]
      -- The early exit is taken exactly at the newest entry.
      by_cases hlast : m = 0
      · subst hlast
        have hnone : findEntryLoop buffer charOffset remaining
            (totalSize + weight (buffer.entry index))
            ((index + 1) % maxWriteOperationsSupported) = none ∨
            (¬buffer.full ∧ (index + 1) % maxWriteOperationsSupported = buffer.inOffs) := by
          by_cases hf : buffer.full
          · have := hfull hf
            obtain rfl : remaining = 0 := by omega
            exact .inl rfl
          · have hfalse : buffer.full = false := by simpa using hf
            have hin := h.inOffs_lt
            rw [storedCount_of_not_full hfalse] at hcount hindex
            rw [h.outOffs_of_not_full hfalse] at hindex
            refine .inr ⟨hf, ?_⟩
            simp only [maxWriteOperationsSupported] at *
            omega
        simp only [view_zero, List.map_nil, locate, Option.map_none]
        rcases hnone with hnone | hexit
        · rw [hnone, ite_self]
        · rw [if_pos hexit]
      · have hgo : ¬(¬buffer.full ∧
            (index + 1) % maxWriteOperationsSupported = buffer.inOffs) := by
          rintro ⟨hf, heq⟩
          have hfalse : buffer.full = false := by simpa using hf
          have hin := h.inOffs_lt
          rw [storedCount_of_not_full hfalse] at hcount hindex
          rw [h.outOffs_of_not_full hfalse] at hindex
          simp only [maxWriteOperationsSupported] at *
          omega
        have hnext : (index + 1) % maxWriteOperationsSupported =
            (buffer.outOffs + (storedCount buffer - m)) % maxWriteOperationsSupported := by
          rw [hindex, Nat.mod_add_mod]
          congr 1
          omega
        rw [if_neg hgo, ih (by omega) (by omega) _ _ hnext (by omega) (by omega) (by omega)
          (fun hf => by have := hfull hf; omega) (Nat.mod_lt _ (by decide)), Option.map_map,
          show charOffset - totalSize - weight (buffer.entry index) =
            charOffset - (totalSize + weight (buffer.entry index)) by omega]
        congr 1
        funext r
        simp only [Function.comp, Nat.mod_add_mod]
        congr 2
        omega

/-- **The lookup is a search in the sizes of the stored entries.** -/
theorem find_eq_locate {buffer : AesdCircularBuffer} (h : Wf buffer) {charOffset : Nat}
    (hoff : charOffset < sizeMod) (hfit : ((stored buffer).map weight).sum < sizeMod) :
    aesdCircularBufferFindEntryOffsetForFpos buffer charOffset =
      (locate ((stored buffer).map weight) charOffset).map
        fun r => ((buffer.outOffs + r.1) % maxWriteOperationsSupported, r.2) := by
  by_cases hzero : storedCount buffer = 0
  · have hnot : buffer.full = false := by
      by_contra hf
      rw [storedCount_of_full (by simpa using hf)] at hzero
      cases hzero
    have hin : buffer.inOffs = 0 := by rwa [storedCount_of_not_full hnot] at hzero
    rw [aesdCircularBufferFindEntryOffsetForFpos, h.outOffs_of_not_full hnot,
      findEntryLoop_blank _ _ _ (fun j hj => h.blank hnot j (by omega) hj) (by decide)]
    simp [stored, hzero, locate]
  · rw [aesdCircularBufferFindEntryOffsetForFpos,
      findEntryLoop_eq_locate h hoff (m := storedCount buffer) (by omega) (Nat.le_refl _)
        buffer.outOffs 0 (by rw [Nat.sub_self, Nat.add_zero, Nat.mod_eq_of_lt h.outOffs_lt])
        (Nat.zero_le _) (by simpa [stored] using hfit)
        (by rw [← length_stored]; exact h.length_stored_le)
        (fun hf => (storedCount_of_full hf).symm)]
    rfl

end Aesd.Driver
