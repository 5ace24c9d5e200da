import Aesd.Driver.Device

/-!
# What the device is for: a log of lines

`LineLog` is the device as a user sees it: the last ten lines written, and the
bytes of a line that is not finished yet.  Writing a chunk extends the stream and
reads it as lines again.  `log` computes the line log of a kernel state, and `Rep`
is the representation behind it: which blocks hold the lines, which one holds the
pending bytes, and that the driver owns these blocks and no others.
-/

namespace Aesd.Driver

open Aesd.Verified.BlockHeap
open Aesd.Verified.Lines
open Aesd.Verified.RingView

/-- The stored lines, oldest first, and the unfinished line. -/
structure LineLog where
  entries : List (List UInt8)
  pending : List UInt8
  deriving DecidableEq

namespace LineLog

/-- The log of everything written so far. -/
def ofStream (s : List UInt8) : LineLog :=
  { entries := (lines newline s).rtake maxWriteOperationsSupported, pending := rest newline s }

/-- The log before anything is written. -/
def empty : LineLog := { entries := [], pending := [] }

/-- Write a chunk. -/
def append (log : LineLog) (chunk : List UInt8) : LineLog :=
  { entries :=
      (log.entries ++ lines newline (log.pending ++ chunk)).rtake maxWriteOperationsSupported
    pending := rest newline (log.pending ++ chunk) }

/-- What a reader sees: the stored lines end to end. -/
def contents (log : LineLog) : List UInt8 := log.entries.flatten

@[simp] theorem ofStream_nil : ofStream [] = empty := by
  simp [ofStream, empty, List.rtake]

/-- Only the stream counts, not how it is cut into chunks. -/
theorem append_ofStream (s chunk : List UInt8) :
    (ofStream s).append chunk = ofStream (s ++ chunk) := by
  simp only [append, ofStream, lines_append newline s chunk, rest_append newline s chunk,
    rtake_rtake_append]

end LineLog

/-! ## The log of a kernel state -/

/-- The contents of a block. -/
def block (k : Kernel) (p : Option Nat) : List UInt8 := (p.bind k.heap.blocks).getD []

/-- The bytes of an entry. -/
def entryBytes (k : Kernel) (e : AesdBufferEntry) : List UInt8 := (block k e.buffptr).take e.size

/-- The stored lines and the pending bytes of a kernel state. -/
def log (k : Kernel) : LineLog :=
  { entries := (stored k.dev.circularBuffer).map (entryBytes k)
    pending := (block k k.dev.partialWriteBuffer).take k.dev.partialWriteSize }

/-! ## The representation -/

/-- The entry that refers to a block. -/
def entryOf (b : Nat × List UInt8) : AesdBufferEntry := { buffptr := some b.1, size := b.2.length }

/-- The circular buffer stores the blocks `own`, oldest first; the pending bytes
are the first bytes of the block `pend`, if there is one; and besides these the
only live blocks are `temps`. -/
structure Rep (k : Kernel) (temps : List (Nat × List UInt8)) (pend : Option (Nat × List UInt8))
    (own : List (Nat × List UInt8)) (pending : List UInt8) : Prop where
  wf : Wf k.dev.circularBuffer
  stored : stored k.dev.circularBuffer = own.map entryOf
  buffer : k.dev.partialWriteBuffer = pend.map Prod.fst
  size : k.dev.partialWriteSize = pending.length
  bytes : pending <+: (pend.map Prod.snd).getD []
  heap : Owns k.heap (temps ++ pend.toList ++ own)

namespace Rep

variable {k : Kernel} {temps own : List (Nat × List UInt8)}
  {pend : Option (Nat × List UInt8)} {pending : List UInt8}

theorem init (garbage : Nat → Nat → UInt8) : Rep (aesdInitModule garbage) [] none [] [] :=
  { wf := wf_init
    stored := rfl
    buffer := rfl
    size := rfl
    bytes := List.prefix_refl _
    heap := Owns.empty garbage }

/-- A step that leaves the device as it is may change the heap and the temporaries. -/
theorem withHeap (h : Rep k temps pend own pending) {k' : Kernel}
    {temps' : List (Nat × List UInt8)} (hdev : k'.dev = k.dev)
    (hheap : Owns k'.heap (temps' ++ pend.toList ++ own)) : Rep k' temps' pend own pending :=
  { wf := hdev ▸ h.wf
    stored := hdev ▸ h.stored
    buffer := hdev ▸ h.buffer
    size := hdev ▸ h.size
    bytes := h.bytes
    heap := hheap }

/-- The representation says nothing about the running call or the mutex. -/
theorem congr (h : Rep k temps pend own pending) {k' : Kernel}
    (hring : k'.dev.circularBuffer = k.dev.circularBuffer)
    (hbuf : k'.dev.partialWriteBuffer = k.dev.partialWriteBuffer)
    (hsize : k'.dev.partialWriteSize = k.dev.partialWriteSize)
    (hheap : k'.heap = k.heap) : Rep k' temps pend own pending :=
  { wf := hring ▸ h.wf
    stored := hring ▸ h.stored
    buffer := hbuf ▸ h.buffer
    size := hsize ▸ h.size
    bytes := h.bytes
    heap := hheap ▸ h.heap }

theorem enter (h : Rep k temps pend own pending) (sched : Schedule) :
    Rep (k.enter sched) temps pend own pending := h.congr rfl rfl rfl rfl

theorem mutexLock (h : Rep k temps pend own pending) :
    Rep k.mutexLock temps pend own pending := h.congr rfl rfl rfl rfl

theorem mutexUnlock (h : Rep k temps pend own pending) :
    Rep k.mutexUnlock temps pend own pending := h.congr rfl rfl rfl rfl

theorem length_own (h : Rep k temps pend own pending) :
    own.length ≤ maxWriteOperationsSupported := by
  have hlen := h.wf.length_stored_le
  rwa [h.stored, List.length_map] at hlen

/-- The `i`-th oldest entry refers to the `i`-th stored block. -/
theorem entry (h : Rep k temps pend own pending) {i : Nat} (hi : i < own.length) :
    k.dev.circularBuffer.entry
      ((k.dev.circularBuffer.outOffs + i) % maxWriteOperationsSupported) = entryOf own[i] := by
  have hview : view maxWriteOperationsSupported k.dev.circularBuffer.entry
      k.dev.circularBuffer.outOffs (storedCount k.dev.circularBuffer) = own.map entryOf :=
    h.stored
  have hlt : i < (view maxWriteOperationsSupported k.dev.circularBuffer.entry
      k.dev.circularBuffer.outOffs (storedCount k.dev.circularBuffer)).length := by
    simpa [hview] using hi
  rw [← getElem_view hlt]
  simp only [hview, List.getElem_map]

theorem storedCount_eq (h : Rep k temps pend own pending) :
    storedCount k.dev.circularBuffer = own.length := by
  rw [← length_stored, h.stored, List.length_map]

theorem block_own (h : Rep k temps pend own pending) {b : Nat × List UInt8} (hb : b ∈ own) :
    block k (some b.1) = b.2 := by
  have hlive := h.heap.blocks_eq (b := b) (by simp [hb])
  simp [block, hlive]

/-- The entries of the log are the contents of the stored blocks. -/
theorem log_entries (h : Rep k temps pend own pending) : (log k).entries = own.map Prod.snd := by
  rw [log, h.stored, List.map_map]
  refine List.map_congr_left fun b hb => ?_
  simp [entryBytes, entryOf, h.block_own hb]

theorem log_pending (h : Rep k temps pend own pending) : (log k).pending = pending := by
  have hblock : block k k.dev.partialWriteBuffer = (pend.map Prod.snd).getD [] := by
    rw [h.buffer]
    cases pend with
    | none => rfl
    | some b =>
        have hlive := h.heap.blocks_eq (b := b) (by simp)
        simp [block, hlive]
  rw [log, hblock, h.size]
  exact (List.prefix_iff_eq_take.1 h.bytes).symm

theorem log_eq (h : Rep k temps pend own pending) :
    log k = { entries := own.map Prod.snd, pending := pending } := by
  rw [← h.log_entries, ← h.log_pending]

end Rep

end Aesd.Driver
