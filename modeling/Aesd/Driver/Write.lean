import Aesd.Driver.Representation

/-!
# `aesd_write` on the representation

One lemma for each piece of `aesd_write` says what the piece does to the blocks
the driver owns; `aesdWrite_spec` puts them together.  What a write does is
decided by the line log before it, the chunk and the schedule alone:
`writeOutcome` names the exit taken, `WriteOutcome.ret` and `WriteOutcome.log` the
result and the line log it leaves.
-/

namespace Aesd.Driver

open Aesd.Verified.BlockHeap
open Aesd.Verified.Lines

variable {k : Kernel} {temps own : List (Nat × List UInt8)}
  {pend : Option (Nat × List UInt8)} {pending : List UInt8}

/-! ## Kernel calls -/

theorem kmalloc_of_granted {n : Nat} (h : k.call.sched.kmalloc k.call.kmallocs n = true) :
    k.kmalloc n = (some k.heap.next,
      { k with heap := k.heap.alloc n, call := { k.call with kmallocs := k.call.kmallocs + 1 } }) :=
  if_pos h

theorem kmalloc_of_refused {n : Nat} (h : k.call.sched.kmalloc k.call.kmallocs n = false) :
    k.kmalloc n = (none, { k with call := { k.call with
      kmallocs := k.call.kmallocs + 1, refused := k.call.refused + 1 } }) :=
  if_neg (by simp [h])

/-- A granted request adds a block to the temporaries. -/
theorem Rep.alloc (h : Rep k temps pend own pending) (n : Nat) (call : SysCall) :
    Rep { k with heap := k.heap.alloc n, call := call } ((k.heap.next, k.heap.fresh n) :: temps)
      pend own pending :=
  h.withHeap rfl (h.heap.alloc n)

/-- Releasing a temporary. -/
theorem Rep.kfree_temp {p : Nat} {bytes : List UInt8}
    (h : Rep k ((p, bytes) :: temps) pend own pending) :
    Rep (k.kfree (some p)) temps pend own pending :=
  h.withHeap rfl (h.heap.free (List.Perm.refl _))

/-- Writing a temporary. -/
theorem Rep.write_temp {p : Nat} {old : List UInt8}
    (h : Rep k ((p, old) :: temps) pend own pending) (off : Nat) (bytes : List UInt8)
    (hfit : off + bytes.length ≤ old.length) :
    Rep { k with heap := k.heap.write (some p) off bytes } ((p, splice old off bytes) :: temps)
      pend own pending :=
  h.withHeap rfl (h.heap.write (List.Perm.refl _) hfit)

/-- Copying from a live block into a temporary. -/
theorem Rep.memcpy_temp {p : Nat} {old : List UInt8}
    (h : Rep k ((p, old) :: temps) pend own pending) (b : Nat × List UInt8) (doff soff n : Nat)
    (hb : b ∈ ((p, old) :: temps) ++ pend.toList ++ own)
    (hs : soff + n ≤ b.2.length) (hd : doff + n ≤ old.length) :
    Rep (k.memcpy (some p) doff (some b.1) soff n)
      ((p, splice old doff ((b.2.drop soff).take n)) :: temps) pend own pending :=
  h.withHeap rfl (h.heap.copy (List.Perm.refl _) b doff soff n hb hs hd)

/-! ## Filling the pending buffer -/

/-- Lines 166 to 170: the chunk goes behind the pending bytes, and `combined`
becomes the pending buffer. -/
private theorem Rep.combine_chunk {kbuf combined : Nat} {junk chunk : List UInt8} {newSize : Nat}
    (hwf : Wf k.dev.circularBuffer)
    (hstored : Driver.stored k.dev.circularBuffer = own.map entryOf)
    (heap : Owns k.heap ((combined, splice junk 0 pending) :: (kbuf, chunk) :: own))
    (hjunk : junk.length = newSize) (hsize : newSize = pending.length + chunk.length) :
    Rep (setPartial ((k.memcpy (some combined) pending.length (some kbuf) 0 chunk.length).kfree
        (some kbuf)) (some combined) newSize) []
      (some (combined, pending ++ chunk)) own (pending ++ chunk) := by
  have hcopy := heap.copy (List.Perm.refl _) (kbuf, chunk) pending.length 0 chunk.length
    (by simp) (by simp) (by rw [length_splice (by omega)]; omega)
  rw [List.drop_zero, List.take_length, splice_splice,
    splice_eq_of_length (by simp [hjunk, hsize])] at hcopy
  exact
    { wf := hwf
      stored := hstored
      buffer := rfl
      size := by simp [setPartial, hsize]
      bytes := List.prefix_refl _
      heap := hcopy.free (List.Perm.swap ..) }

/-- `combine` leaves one pending block with the old pending bytes and the chunk. -/
theorem Rep.combine {kbuf combined : Nat} {junk chunk : List UInt8} (newSize : Nat)
    (h : Rep k [(combined, junk), (kbuf, chunk)] pend own pending)
    (hjunk : junk.length = newSize) (hsize : newSize = pending.length + chunk.length) :
    Rep (combine k (some kbuf) (some combined) chunk.length newSize) []
      (some (combined, pending ++ chunk)) own (pending ++ chunk) := by
  cases pend with
  | none =>
      have hnil : pending = [] := by simpa using h.bytes
      subst hnil
      have hnone : k.dev.partialWriteBuffer.isSome = false := by simp [h.buffer]
      simp only [Driver.combine, hnone, Bool.false_eq_true, if_false, h.size]
      exact combine_chunk h.wf h.stored (by simpa using h.heap) hjunk hsize
  | some b =>
      obtain ⟨q, pb⟩ := b
      have hbuf : k.dev.partialWriteBuffer = some q := h.buffer
      have hpre : pending <+: pb := h.bytes
      have htake : (pb.drop 0).take pending.length = pending :=
        (List.prefix_iff_eq_take.1 hpre).symm
      have hlen := hpre.length_le
      have hcopy := h.heap.copy (List.Perm.refl _) (q, pb) 0 0 pending.length (by simp)
        (by simpa using hlen) (by omega)
      rw [htake] at hcopy
      have hfree := hcopy.free
        (@List.perm_middle _ (q, pb) [(combined, splice junk 0 pending), (kbuf, chunk)] own)
      simp only [Driver.combine, hbuf, Option.isSome_some, if_true, h.size, Kernel.kfree_dev,
        Kernel.memcpy_dev]
      exact combine_chunk (k := (k.memcpy (some combined) 0 (some q) 0 pending.length).kfree
        (some q)) h.wf h.stored hfree hjunk hsize

/-! ## Committing one line -/

theorem map_rtake {α β : Type*} (f : α → β) (n : Nat) (l : List α) :
    (l.rtake n).map f = (l.map f).rtake n := by
  simp [List.rtake, List.map_drop]

/-- A temporary block becomes the newest entry; a full buffer gives the block of
its oldest entry back. -/
theorem Rep.addEntry {b : Nat × List UInt8} (h : Rep k (b :: temps) pend own pending) :
    Rep { k with
        dev := { k.dev with circularBuffer :=
          (aesdCircularBufferAddEntry k.dev.circularBuffer k.heap (entryOf b)).1 }
        heap := (aesdCircularBufferAddEntry k.dev.circularBuffer k.heap (entryOf b)).2 }
      temps pend ((own ++ [b]).rtake maxWriteOperationsSupported) pending :=
  { wf := wf_addEntry h.wf _ _
    stored := by
      rw [stored_addEntry h.wf, h.stored, map_rtake, List.map_append]
      rfl
    buffer := h.buffer
    size := h.size
    bytes := h.bytes
    heap := by
      have hlen := length_stored k.dev.circularBuffer
      rw [h.stored, List.length_map] at hlen
      simp only [addEntry_snd]
      by_cases hfull : k.dev.circularBuffer.full
      · obtain ⟨newer, hnewer⟩ := h.wf.oldest hfull
        rw [h.stored] at hnewer
        rw [storedCount_of_full hfull] at hlen
        obtain ⟨op, ob, own', rfl⟩ : ∃ op ob own', own = (op, ob) :: own' := by
          cases own with
          | nil => cases hnewer
          | cons o own' => exact ⟨o.1, o.2, own', rfl⟩
        have ho : k.dev.circularBuffer.entry k.dev.circularBuffer.inOffs = entryOf (op, ob) :=
          (List.cons.inj hnewer).1.symm
        have hkeep : ((op, ob) :: own' ++ [b]).rtake maxWriteOperationsSupported =
            own' ++ [b] := by
          rw [List.cons_append, ← List.singleton_append (x := (op, ob)),
            rtake_append_of_length_le (by simpa using hlen.ge), rtake_of_length_le]
          simpa using hlen.le
        rw [if_pos hfull, ho, hkeep]
        refine h.heap.free (show List.Perm _ ((op, ob) :: _) from List.perm_iff_count.2 fun x => ?_)
        simp only [List.cons_append, List.count_append, List.count_cons, List.count_nil]
        omega
      · have hlt : own.length < maxWriteOperationsSupported := by
          rw [hlen, storedCount_of_not_full (by simpa using hfull)]
          exact h.wf.inOffs_lt
        rw [if_neg hfull, rtake_of_length_le (by simpa using Nat.succ_le_of_lt hlt)]
        refine h.heap.perm (List.perm_iff_count.2 fun x => ?_)
        simp only [List.cons_append, List.count_append, List.count_cons, List.count_nil]
        omega }

/-- `commitLine` moves the first line of the pending bytes into the ring. -/
theorem Rep.commitLine {b : Nat} {junk : List UInt8} (line tail : List UInt8)
    (h : Rep k [(b, junk)] pend own (line ++ tail)) (hjunk : junk.length = line.length)
    (hline : 0 < line.length) :
    ∃ pend', Rep (commitLine k (some b) line.length) [] pend'
      ((own ++ [(b, line)]).rtake maxWriteOperationsSupported) tail := by
  obtain ⟨q, pb, rfl⟩ : ∃ q pb, pend = some (q, pb) := by
    cases pend with
    | none =>
        have hlen := h.bytes.length_le
        simp only [Option.map_none, Option.getD_none, List.length_append, List.length_nil] at hlen
        omega
    | some b => exact ⟨b.1, b.2, rfl⟩
  obtain ⟨extra, hpb⟩ : line ++ tail <+: pb := h.bytes
  subst hpb
  -- The line is copied out and its block becomes the newest entry.
  have hcopy := h.memcpy_temp (q, line ++ tail ++ extra) 0 0 line.length (by simp) (by simp)
    (by omega)
  rw [List.drop_zero, List.append_assoc, List.take_left' rfl,
    splice_eq_of_length hjunk.symm, ← List.append_assoc] at hcopy
  have hadd := hcopy.addEntry
  have hbuf : k.dev.partialWriteBuffer = some q := h.buffer
  have hsub : (line ++ tail).length - line.length = tail.length := by simp
  simp only [Driver.commitLine, hbuf, Kernel.memcpy_dev, h.size, hsub]
  simp only [entryOf, Kernel.memcpy_dev] at hadd
  by_cases htail : tail = []
  · subst htail
    simp only [List.length_nil, Nat.lt_irrefl, if_false, if_true]
    exact ⟨none,
      { wf := hadd.wf
        stored := hadd.stored
        buffer := rfl
        size := rfl
        bytes := List.prefix_refl _
        heap := hadd.heap.free (List.Perm.refl _) }⟩
  · have hpos : 0 < tail.length := List.length_pos_of_ne_nil htail
    simp only [hpos, if_true, hpos.ne', if_false]
    have hmove := hadd.heap.copy (List.Perm.refl _) (q, line ++ tail ++ extra) 0 line.length
      tail.length (by simp) (by simp)
      (by simp only [List.length_append]; omega)
    rw [List.append_assoc, List.drop_left' rfl, List.take_left' rfl] at hmove
    exact ⟨some (q, splice (line ++ (tail ++ extra)) 0 tail),
      { wf := hadd.wf
        stored := hadd.stored
        buffer := rfl
        size := rfl
        bytes := by simp [splice]
        heap := hmove }⟩

/-- Dropping the pending buffer gives its block back. -/
theorem Rep.dropPending (h : Rep k [] pend own pending) :
    Rep (dropPending k) [] none own [] :=
  { wf := h.wf
    stored := h.stored
    buffer := rfl
    size := rfl
    bytes := List.prefix_refl _
    heap := by
      simp only [Driver.dropPending, Kernel.mutexUnlock, setPartial, h.buffer]
      cases pend with
      | none => exact h.heap
      | some b => exact h.heap.free (List.Perm.refl _) }

/-- Committing a line neither asks the kernel for anything nor touches the lock. -/
theorem commitLine_call (k : Kernel) (p : Option Nat) (n : Nat) :
    (commitLine k p n).call = k.call := by
  simp only [Driver.commitLine]
  split <;> split <;> rfl

theorem commitLine_lock (k : Kernel) (p : Option Nat) (n : Nat) :
    (commitLine k p n).dev.lock = k.dev.lock := by
  simp only [Driver.commitLine]
  split <;> split <;> rfl

theorem combine_call (k : Kernel) (kbuf combined : Option Nat) (count newSize : Nat) :
    (combine k kbuf combined count newSize).call = k.call := by
  simp only [Driver.combine]
  split <;> rfl

theorem combine_lock (k : Kernel) (kbuf combined : Option Nat) (count newSize : Nat) :
    (combine k kbuf combined count newSize).dev.lock = k.dev.lock := by
  simp only [Driver.combine]
  split <;> rfl

/-! ## The line loop -/

theorem Rep.read_pending (h : Rep k temps pend own pending) :
    k.heap.read k.dev.partialWriteBuffer 0 k.dev.partialWriteSize = some pending := by
  rw [h.size, h.buffer]
  cases pend with
  | none =>
      have hnil : pending = [] := by simpa using h.bytes
      simp [hnil, Heap.read]
  | some b =>
      have hpre : pending <+: b.2 := h.bytes
      rw [Option.map_some, h.heap.read (b := b) (by simp)
        (by simpa using hpre.length_le), List.drop_zero]
      exact congrArg some (List.prefix_iff_eq_take.1 hpre).symm

theorem Rep.memchr_none (h : Rep k temps pend own pending) (hnl : newline ∉ pending) :
    k.memchr k.dev.partialWriteBuffer newline k.dev.partialWriteSize = (none, k) := by
  simp only [Kernel.memchr, h.read_pending, List.idxOf?_eq_none_iff.2 hnl]

theorem Rep.memchr_line {body tail : List UInt8}
    (h : Rep k temps pend own (body ++ newline :: tail)) (hbody : newline ∉ body) :
    k.memchr k.dev.partialWriteBuffer newline k.dev.partialWriteSize =
      (some body.length, k) := by
  have hidx : (body ++ newline :: tail).idxOf? newline = some body.length := by
    rw [List.idxOf?_eq_some_iff]
    refine ⟨by simp, by simp, fun j hj heq => hbody ?_⟩
    rw [List.getElem_append_left hj] at heq
    exact heq ▸ List.getElem_mem hj
  simp only [Kernel.memchr, h.read_pending, hidx]

/-- The first of the requests `i`, `i + 1`, … for one block a line that is
refused, counted from the first line. -/
def firstRefused (sched : Schedule) : Nat → List (List UInt8) → Option Nat
  | _, [] => none
  | i, line :: rest =>
      if sched.kmalloc i line.length then (firstRefused sched (i + 1) rest).map (· + 1)
      else some 0

/-- What the line loop leaves, by the line that found no block: all lines stored
and the tail pending, or the lines before it stored and nothing pending. -/
def CommitsTo (k : Kernel) (own : List (Nat × List UInt8)) (pending : List UInt8)
    (result : Bool × Kernel) : Option Nat → Prop
  | none =>
      result.1 = true ∧ result.2.dev.lock = k.dev.lock ∧
        result.2.call.refused = k.call.refused ∧
        ∃ pend' own', Rep result.2 [] pend' own' (rest newline pending) ∧
          own'.map Prod.snd = (own.map Prod.snd ++ lines newline pending).rtake
            maxWriteOperationsSupported
  | some i =>
      result.1 = false ∧ result.2.dev.lock = k.mutexUnlock.dev.lock ∧
        result.2.call.refused = k.call.refused + 1 ∧
        ∃ own', Rep result.2 [] none own' [] ∧
          own'.map Prod.snd = (own.map Prod.snd ++ (lines newline pending).take i).rtake
            maxWriteOperationsSupported

/-- A round that has stored its line hands the rest on to the next round. -/
private theorem CommitsTo.cons {k' : Kernel} {line tail : List UInt8} {b : Nat}
    {result : Bool × Kernel} {r : Option Nat}
    (h : CommitsTo k' ((own ++ [(b, line)]).rtake maxWriteOperationsSupported) tail result r)
    (hlock : k'.dev.lock = k.dev.lock)
    (hcall : k'.call = { k.call with kmallocs := k.call.kmallocs + 1 })
    (hlines : lines newline pending = line :: lines newline tail)
    (hrest : rest newline pending = rest newline tail) :
    CommitsTo k own pending result (r.map (· + 1)) := by
  have hentries : ∀ ls : List (List UInt8),
      (((own ++ [(b, line)]).rtake maxWriteOperationsSupported).map Prod.snd ++ ls).rtake
        maxWriteOperationsSupported =
      (own.map Prod.snd ++ line :: ls).rtake maxWriteOperationsSupported := by
    intro ls
    rw [map_rtake, rtake_rtake_append]
    simp
  cases r with
  | none =>
      obtain ⟨hret, hl, hc, pend', own', hrep, hown⟩ := h
      refine ⟨hret, hl.trans hlock, ?_, pend', own', hrest ▸ hrep, ?_⟩
      · rw [hc, hcall]
      · rw [hown, hentries, hlines]
  | some i =>
      obtain ⟨hret, hl, hc, own', hrep, hown⟩ := h
      refine ⟨hret, ?_, ?_, own', hrep, ?_⟩
      · simp only [hl, Kernel.mutexUnlock, hlock]
      · rw [hc, hcall]
      · rw [hown, hentries, hlines, List.take_succ_cons]

/-- **The line loop.**  With fuel for every pending byte it stores the lines in
order until one of them finds no block. -/
theorem commitLines_spec {fuel : Nat} (h : Rep k [] pend own pending)
    (hfuel : pending.length ≤ fuel) :
    CommitsTo k own pending (commitLines fuel k)
      (firstRefused k.call.sched k.call.kmallocs (lines newline pending)) := by
  have hself : (own.map Prod.snd).rtake maxWriteOperationsSupported = own.map Prod.snd :=
    rtake_of_length_le (by simpa using h.length_own)
  induction fuel generalizing k pend own pending with
  | zero =>
      obtain rfl : pending = [] := List.eq_nil_of_length_eq_zero (by omega)
      exact ⟨rfl, rfl, rfl, pend, own, h, by simpa using hself.symm⟩
  | succ fuel ih =>
      by_cases hnl : newline ∈ pending
      · obtain ⟨body, tail, hbody, rfl⟩ := exists_first_line hnl
        have hlines := lines_line_append hbody tail
        have halloc := h.alloc (body.length + 1)
          { k.call with kmallocs := k.call.kmallocs + 1 }
        simp only [commitLines, h.memchr_line hbody]
        rw [hlines, firstRefused]
        simp only [List.length_append, List.length_singleton] at hfuel ⊢
        by_cases hgrant : k.call.sched.kmalloc k.call.kmallocs (body.length + 1) = true
        · obtain ⟨pend', hrep⟩ := Rep.commitLine (body ++ [newline]) tail
            (by simpa using halloc) (by simp [Heap.fresh]) (by simp)
          simp only [List.length_append, List.length_singleton] at hrep
          simp only [List.length_cons] at hfuel
          have hnext := ih hrep (by omega)
            (rtake_of_length_le (by
              rw [List.length_map, length_rtake]
              exact Nat.min_le_left ..))
          simp only [kmalloc_of_granted hgrant, hgrant, if_true]
          rw [commitLine_call] at hnext
          exact hnext.cons (commitLine_lock ..) (commitLine_call ..) hlines (rest_append_cons ..)
        · simp only [kmalloc_of_refused (by simpa using hgrant), hgrant]
          exact ⟨rfl, rfl, rfl, own, Rep.dropPending (h.congr rfl rfl rfl rfl),
            by simpa using hself.symm⟩
      · simp only [commitLines, h.memchr_none hnl, lines_of_not_mem hnl, firstRefused]
        exact ⟨rfl, rfl, rfl, pend, own, by rwa [rest_of_not_mem hnl],
          by simpa [lines_of_not_mem hnl] using hself.symm⟩

/-! ## The whole call -/

/-- The exits of `aesd_write`: three failures before the pending bytes change, a
failure at the `i`-th line, and the normal return. -/
inductive WriteOutcome
  | noKbuf
  | badCopy
  | noCombined
  | noLine (i : Nat)
  | done
  deriving DecidableEq

/-- The exit taken under the lock, with `bytes` the old pending bytes and the new
chunk and `i` the number of requests already made. -/
def lockedOutcome (sched : Schedule) (i : Nat) (bytes : List UInt8) : WriteOutcome :=
  if sched.kmalloc i bytes.length = false then .noCombined
  else match firstRefused sched (i + 1) (lines newline bytes) with
    | none => .done
    | some i => .noLine i

/-- The exit a write of `chunk` to `log` takes when the kernel answers by `sched`. -/
def writeOutcome (sched : Schedule) (log : LineLog) (chunk : List UInt8) : WriteOutcome :=
  if sched.kmalloc 0 chunk.length = false then .noKbuf
  else if sched.copy 0 = false then .badCopy
  else lockedOutcome sched 1 (log.pending ++ chunk)

namespace WriteOutcome

/-- The result of the call. -/
def ret (chunk : List UInt8) : WriteOutcome → Int
  | .badCopy => -EFAULT
  | .done => chunk.length
  | _ => -ENOMEM

/-- The line log the call leaves. -/
def log (before : LineLog) (chunk : List UInt8) : WriteOutcome → LineLog
  | .noLine i =>
      { entries := (before.entries ++ (lines newline (before.pending ++ chunk)).take i).rtake
          maxWriteOperationsSupported
        pending := [] }
  | .done => before.append chunk
  | _ => before

/-- The mutex after the call. -/
def lock (before : Mutex) : WriteOutcome → Mutex
  | .noKbuf | .badCopy => { before with calls := [] }
  | _ => { held := false, calls := [.lock, .unlock] }

theorem ret_neg_iff {chunk : List UInt8} {outcome : WriteOutcome} :
    outcome.ret chunk < 0 ↔ outcome ≠ .done := by
  cases outcome <;> simp [ret, ENOMEM, EFAULT]

/-- Every exit under the lock takes it once and frees it once. -/
theorem lock_lockedOutcome (before : Mutex) (sched : Schedule) (i : Nat) (bytes : List UInt8) :
    (lockedOutcome sched i bytes).lock before = { held := false, calls := [.lock, .unlock] } := by
  rw [lockedOutcome]
  split
  · rfl
  · split <;> rfl

end WriteOutcome

/-- The critical section, entered with the chunk in the temporary buffer. -/
theorem writeLocked_spec {kbuf : Nat} {chunk : List UInt8}
    (h : Rep k [(kbuf, chunk)] pend own pending)
    (hfit : pending.length + chunk.length < 2 ^ 63) {outcome : WriteOutcome}
    (houtcome : outcome = lockedOutcome k.call.sched k.call.kmallocs (pending ++ chunk))
    (hrefused : k.call.refused = 0) (hcalls : k.dev.lock.calls = []) :
    ∃ k' pend' own' pending',
      writeLocked k (some kbuf) chunk.length = (outcome.ret chunk, k') ∧
      Rep k' [] pend' own' pending' ∧
      log k' = outcome.log (log k) chunk ∧
      k'.dev.lock = outcome.lock k.dev.lock ∧
      (k'.call.refused = 0 ↔ outcome = .done) := by
  rw [lockedOutcome] at houtcome
  have hnew : (k.dev.partialWriteSize + chunk.length) % sizeMod =
      (pending ++ chunk).length := by
    rw [h.size, List.length_append, sizeMod]
    exact Nat.mod_eq_of_lt (by omega)
  have hlock := h.mutexLock
  simp only [writeLocked]
  rw [show k.mutexLock.dev.partialWriteSize = k.dev.partialWriteSize from rfl, hnew]
  cases hcomb : k.call.sched.kmalloc k.call.kmallocs (pending ++ chunk).length with
  | false =>
      rw [kmalloc_of_refused (k := k.mutexLock) hcomb]
      simp only [hcomb, if_true] at houtcome
      subst houtcome
      have hasked : Rep { k.mutexLock with call := { k.mutexLock.call with
          kmallocs := k.mutexLock.call.kmallocs + 1
          refused := k.mutexLock.call.refused + 1 } } [(kbuf, chunk)] pend own pending :=
        hlock.congr rfl rfl rfl rfl
      have hfree := hasked.mutexUnlock.kfree_temp
      exact ⟨_, pend, own, pending, rfl, hfree, hfree.log_eq.trans h.log_eq.symm,
        by simp [Kernel.mutexUnlock, Kernel.mutexLock, WriteOutcome.lock, hcalls],
        by simp [Kernel.mutexUnlock]⟩
  | true =>
      simp only [hcomb, Bool.true_eq_false, if_false] at houtcome
      rw [kmalloc_of_granted (k := k.mutexLock) hcomb]
      have halloc := hlock.alloc (pending ++ chunk).length
        { k.mutexLock.call with kmallocs := k.mutexLock.call.kmallocs + 1 }
      have hcombine := Rep.combine (pending ++ chunk).length halloc
        (by simp [Heap.fresh]) (by simp)
      have hloop := commitLines_spec hcombine (Nat.le_refl _)
      simp only
      generalize commitLines _ _ = result at hloop ⊢
      obtain ⟨flag, k'⟩ := result
      rw [combine_call] at hloop
      simp only [Kernel.mutexLock_call] at hloop
      cases hfirst : firstRefused k.call.sched (k.call.kmallocs + 1)
          (lines newline (pending ++ chunk)) with
      | none =>
          rw [hfirst] at hloop houtcome
          subst houtcome
          obtain ⟨rfl, hl, hc, pend', own', hrep, hown⟩ := hloop
          have hl' : k'.dev.lock = ⟨true, [.lock]⟩ :=
            hl.trans ((combine_lock ..).trans (by simp [Kernel.mutexLock, hcalls]))
          have hc' : k'.call.refused = 0 :=
            hc.trans ((congrArg SysCall.refused (combine_call ..)).trans hrefused)
          refine ⟨_, pend', own', _, ?_, hrep.mutexUnlock, ?_, ?_, ?_⟩
          · rw [WriteOutcome.ret, wrap64_of_range (by omega) (by omega)]
          · rw [hrep.mutexUnlock.log_eq, hown, h.log_eq]
            rfl
          · simp [Kernel.mutexUnlock, hl', WriteOutcome.lock]
          · simp [hc']
      | some i =>
          rw [hfirst] at hloop houtcome
          subst houtcome
          obtain ⟨rfl, hl, hc, own', hrep, hown⟩ := hloop
          refine ⟨_, none, own', [], rfl, hrep, ?_, ?_, ?_⟩
          · rw [hrep.log_eq, hown, h.log_eq]
            rfl
          · refine hl.trans ?_
            simp [Kernel.mutexUnlock, combine_lock, Kernel.mutexLock, WriteOutcome.lock, hcalls]
          · simp only [reduceCtorEq, iff_false]
            exact hc ▸ Nat.succ_ne_zero _

/-- **`aesd_write`.**  The exit, the result and the line log left are those of
`writeOutcome`; the driver owns what it refers to, before and after.  The bound is
only needed when the chunk could be copied at all. -/
theorem aesdWrite_spec (h : Rep k [] pend own pending) (sched : Schedule) {filp : File}
    (hopen : filp.privateData = true) (chunk : List UInt8)
    (hfit : sched.kmalloc 0 chunk.length = true → pending.length + chunk.length < 2 ^ 63) :
    ∃ k' pend' own' pending',
      aesdWrite (k.enter sched) filp chunk =
        ((writeOutcome sched (log k) chunk).ret chunk, k') ∧
      Rep k' [] pend' own' pending' ∧
      log k' = (writeOutcome sched (log k) chunk).log (log k) chunk ∧
      k'.dev.lock = (writeOutcome sched (log k) chunk).lock k.dev.lock ∧
      (k'.call.refused = 0 ↔ writeOutcome sched (log k) chunk = .done) := by
  have hrep := h.enter sched
  have hpending := h.log_pending
  simp only [aesdWrite, hopen, Bool.true_eq_false, if_false, writeOutcome, hpending]
  cases hkbuf : sched.kmalloc 0 chunk.length with
  | false =>
      rw [kmalloc_of_refused (k := k.enter sched) hkbuf]
      exact ⟨_, pend, own, pending, rfl, hrep.congr rfl rfl rfl rfl, rfl, rfl,
        by simp [Kernel.enter, SysCall.fresh]⟩
  | true =>
      rw [kmalloc_of_granted (k := k.enter sched) hkbuf]
      have halloc := hrep.alloc chunk.length
      simp only [Bool.true_eq_false, if_false, Kernel.copyFromUser, Kernel.userCopy]
      simp only [show (k.enter sched).call.sched.copy (k.enter sched).call.copies =
        sched.copy 0 from rfl]
      cases hcopy : sched.copy 0 with
      | false =>
          simp only [Bool.false_eq_true, if_false, if_true]
          exact ⟨_, pend, own, pending, rfl, (halloc _).kfree_temp,
            (halloc _).kfree_temp.log_eq.trans h.log_eq.symm, rfl,
            by simp [Kernel.enter, SysCall.fresh]⟩
      | true =>
          simp only [Bool.true_eq_false, if_false, if_true]
          have hwrite := fun call => (halloc call).write_temp 0 chunk
            (by simp [Heap.fresh])
          rw [splice_eq_of_length (by simp [Heap.fresh])] at hwrite
          obtain ⟨k', pend', own', pending', hret, hrep', hlog, hlock, hrefused⟩ :=
            writeLocked_spec (hwrite { (k.enter sched).call with
              kmallocs := (k.enter sched).call.kmallocs + 1
              copies := (k.enter sched).call.copies + 1 }) (hfit hkbuf) rfl rfl rfl
          refine ⟨k', pend', own', pending', hret, hrep', ?_, ?_, hrefused⟩
          · rw [hlog, (hwrite _).log_eq, ← h.log_eq]
            rfl
          · rw [hlock]
            exact (WriteOutcome.lock_lockedOutcome ..).trans
              (WriteOutcome.lock_lockedOutcome ..).symm

end Aesd.Driver
