import Aesd.Driver.Representation
import Aesd.Verified.Segments

/-!
# `aesd_read` on the representation

`aesd_read` walks the stored entries from the file position on and makes one user
copy for each of them.  `readEntries` is that walk on the entries themselves:
which bytes are delivered, and which of the three exits is taken.
-/

namespace Aesd.Driver

open Aesd.Verified.BlockHeap
open Aesd.Verified.Segments

variable {k : Kernel} {temps own : List (Nat × List UInt8)}
  {pend : Option (Nat × List UInt8)} {pending : List UInt8}

/-! ## The walk over the entries -/

/-- The exits of `aesd_read`: the requested count is served, no entry holds the
position reached, a user copy fails. -/
inductive ReadExit
  | served
  | endOfData
  | fault
  deriving DecidableEq

/-- The bytes delivered and the exit, for the entries `segs` from the position on,
when the `i`-th user copy is the next one. -/
def readEntries (copy : Nat → Bool) : Nat → List (List UInt8) → Nat → List UInt8 × ReadExit
  | _, _, 0 => ([], .served)
  | _, [], _ + 1 => ([], .endOfData)
  | i, s :: segs, count + 1 =>
      if copy i then
        let r := readEntries copy (i + 1) segs (count + 1 - s.length)
        (s.take (count + 1) ++ r.1, r.2)
      else ([], .fault)

/-- The calls on the mutex after the first one. -/
def ReadExit.unlocks : ReadExit → List LockCall
  | .endOfData => [.unlock, .unlock]
  | _ => [.unlock]

theorem readEntries_zero (copy : Nat → Bool) (i : Nat) (segs : List (List UInt8)) :
    readEntries copy i segs 0 = ([], .served) := by
  cases segs <;> rfl

/-- Unless a copy fails, the bytes delivered are the first `count` bytes there are. -/
theorem readEntries_fst {copy : Nat → Bool} {i count : Nat} {segs : List (List UInt8)}
    (h : (readEntries copy i segs count).2 ≠ .fault) :
    (readEntries copy i segs count).1 = segs.flatten.take count := by
  fun_induction readEntries copy i segs count with
  | case1 => simp
  | case2 => simp
  | case3 i s segs count hcopy r ih =>
      rw [ih h, List.flatten_cons, List.take_append]
  | case4 => exact absurd rfl h

/-- A read whose copies go through does not fault. -/
theorem readEntries_ne_fault {copy : Nat → Bool} (hcopy : ∀ i, copy i = true) (i : Nat)
    (segs : List (List UInt8)) (count : Nat) : (readEntries copy i segs count).2 ≠ .fault := by
  fun_induction readEntries copy i segs count with
  | case1 => simp
  | case2 => simp
  | case3 i s segs count h r ih => exact ih
  | case4 i s segs count h => exact absurd (hcopy i) h

/-- **The end of the data is reached** exactly when more is asked for than is there
and every entry there is gets copied. -/
theorem readEntries_endOfData_iff (copy : Nat → Bool) (i : Nat) (segs : List (List UInt8))
    (count : Nat) :
    (readEntries copy i segs count).2 = .endOfData ↔
      segs.flatten.length < count ∧ ∀ j < segs.length, copy (i + j) = true := by
  fun_induction readEntries copy i segs count with
  | case1 => simp
  | case2 => simp
  | case3 i s segs count hcopy r ih =>
      rw [ih, List.flatten_cons, List.length_append, List.length_cons]
      have hsize : segs.flatten.length < count + 1 - s.length ↔
          s.length + segs.flatten.length < count + 1 := by omega
      rw [hsize]
      refine and_congr_right fun _ => ⟨fun hall j hj => ?_, fun hall j hj => ?_⟩
      · cases j with
        | zero => exact hcopy
        | succ j => simpa [Nat.add_assoc, Nat.add_comm 1 j] using hall j (by omega)
      · simpa [Nat.add_assoc, Nat.add_comm 1 j] using hall (j + 1) (by omega)
  | case4 i s segs count hcopy =>
      simp only [reduceCtorEq, false_iff, not_and]
      intro _ hall
      exact hcopy (hall 0 (by simp))

/-! ## The lookup -/

/-- The bytes of the stored lines, oldest line first. -/
abbrev linesOf (own : List (Nat × List UInt8)) : List (List UInt8) := own.map Prod.snd

theorem Rep.weights (h : Rep k temps pend own pending) :
    (Driver.stored k.dev.circularBuffer).map weight = (linesOf own).map List.length := by
  rw [h.stored, List.map_map, List.map_map]
  rfl

/-- What the lookup finds at position `p`: nothing behind the last entry, and
before it the entry holding `p`. -/
theorem Rep.find (h : Rep k temps pend own pending)
    (hfit : (linesOf own).flatten.length < sizeMod) {p : Nat} (hp : p < sizeMod) :
    (aesdCircularBufferFindEntryOffsetForFpos k.dev.circularBuffer p = none ∧
      segmentsFrom (linesOf own) p = []) ∨
    ∃ slot o b segs, aesdCircularBufferFindEntryOffsetForFpos k.dev.circularBuffer p =
        some (slot, o) ∧
      k.dev.circularBuffer.entry slot = entryOf b ∧ b ∈ own ∧ o < b.2.length ∧
      segmentsFrom (linesOf own) p = b.2.drop o :: segs := by
  have hfind := find_eq_locate h.wf hp (by rwa [h.weights, ← List.length_flatten])
  rw [h.weights] at hfind
  cases hloc : locate ((linesOf own).map List.length) p with
  | none => exact .inl ⟨by rw [hfind, hloc]; rfl, segmentsFrom_of_locate_none hloc⟩
  | some r =>
      obtain ⟨i, o⟩ := r
      obtain ⟨hi, ho, hfrom⟩ := segmentsFrom_of_locate hloc
      rw [List.length_map] at hi
      rw [List.getElem_map] at ho hfrom
      exact .inr ⟨_, o, own[i], _, by rw [hfind, hloc]; rfl, h.entry hi,
        List.getElem_mem hi, ho, hfrom⟩

/-! ## The loop -/

/-- What a call of `aesd_read` leaves, given the walk over the entries it reads. -/
structure ReadSpec (k : Kernel) (pos : Int) (buf : List UInt8) (walk : List UInt8 × ReadExit)
    (result : ReadResult) : Prop where
  ret : result.ret = if walk.2 = .fault then -EFAULT else ((buf ++ walk.1).length : Int)
  pos : result.pos = pos + walk.1.length
  delivered : result.delivered = buf ++ walk.1
  ring : result.kernel.dev.circularBuffer = k.dev.circularBuffer
  buffer : result.kernel.dev.partialWriteBuffer = k.dev.partialWriteBuffer
  size : result.kernel.dev.partialWriteSize = k.dev.partialWriteSize
  heap : result.kernel.heap = k.heap
  lock : result.kernel.dev.lock = ⟨false, k.dev.lock.calls ++ walk.2.unlocks⟩
  refused : result.kernel.call.refused = k.call.refused ↔ walk.2 ≠ .fault

/-- One successful copy in front of a walk. -/
private theorem ReadSpec.cons {k' : Kernel} {pos : Int} {buf bytes : List UInt8}
    {walk : List UInt8 × ReadExit} {result : ReadResult}
    (h : ReadSpec k' (pos + bytes.length) (buf ++ bytes) walk result)
    (hdev : k'.dev = k.dev) (hheap : k'.heap = k.heap)
    (hrefused : k'.call.refused = k.call.refused) :
    ReadSpec k pos buf (bytes ++ walk.1, walk.2) result :=
  { ret := by rw [h.ret, List.append_assoc]
    pos := by
      rw [h.pos, List.length_append]
      omega
    delivered := by rw [h.delivered, List.append_assoc]
    ring := h.ring.trans (by rw [hdev])
    buffer := h.buffer.trans (by rw [hdev])
    size := h.size.trans (by rw [hdev])
    heap := h.heap.trans hheap
    lock := h.lock.trans (by rw [hdev])
    refused := hrefused ▸ h.refused }

private theorem readDone_spec (k : Kernel) (pos : Int) (buf : List UInt8) :
    ReadSpec k pos buf ([], .served) (readDone k pos buf.length buf) :=
  { ret := by simp [readDone]
    pos := by simp [readDone]
    delivered := by simp [readDone]
    ring := rfl, buffer := rfl, size := rfl, heap := rfl, lock := rfl
    refused := by simp [readDone] }

/-- **The loop of `aesd_read`** is the walk over the entries from the position on. -/
theorem readLoop_spec (fuel count : Nat) (pos : Int) (buf : List UInt8)
    (h : Rep k temps pend own pending) (hne : ∀ s ∈ linesOf own, s ≠ [])
    (hfit : (linesOf own).flatten.length < 2 ^ 63)
    (hroom : buf.length + (segmentsFrom (linesOf own) (toSize pos)).flatten.length < 2 ^ 63)
    (hfuel : count ≤ fuel) (hlo : -2 ^ 63 ≤ pos) (hhi : pos < 2 ^ 63) :
    ReadSpec k pos buf
      (readEntries k.call.sched.copy k.call.copies (segmentsFrom (linesOf own) (toSize pos)) count)
      (readLoop fuel k pos count buf.length buf) := by
  induction fuel generalizing k pos count buf with
  | zero =>
      obtain rfl : count = 0 := by omega
      rw [readEntries_zero]
      exact readDone_spec k pos buf
  | succ fuel ih =>
      obtain rfl | ⟨count, rfl⟩ : count = 0 ∨ ∃ c, count = c + 1 := by
        cases count <;> simp
      · rw [readEntries_zero]
        exact readDone_spec k pos buf
      simp only [readLoop, Nat.add_one_ne_zero, if_false]
      rcases h.find (by simp only [sizeMod]; omega) (toSize_lt pos) with
        ⟨hfind, hfrom⟩ | ⟨slot, o, b, segs, hfind, hentry, hb, ho, hfrom⟩
      · simp only [hfind, hfrom, readEntries]
        exact
          { ret := by simp [readDone]
            pos := by simp [readDone]
            delivered := by simp [readDone]
            ring := rfl, buffer := rfl, size := rfl, heap := rfl
            lock := by simp [readDone, Kernel.mutexUnlock, ReadExit.unlocks]
            refused := by simp [readDone] }
      · have hrest := flatten_segmentsFrom (linesOf own) (toSize pos)
        rw [hfrom] at hrest hroom ⊢
        have hlen := congrArg List.length hrest
        simp only [List.flatten_cons, List.length_append, List.length_drop] at hlen hroom
        have hposeq := eq_toSize_of_lt hlo hhi (by omega)
        have hleft : (b.2.length + sizeMod - o) % sizeMod = b.2.length - o := by
          rw [show b.2.length + sizeMod - o = b.2.length - o + sizeMod by omega,
            Nat.add_mod_right]
          exact Nat.mod_eq_of_lt (by simp only [sizeMod]; omega)
        have hcount : (if count + 1 < b.2.length - o then count + 1 else b.2.length - o) =
            min (count + 1) (b.2.length - o) := by
          split <;> omega
        simp only [hfind, hentry, entryOf, hleft, hcount, Kernel.copyToUser, Kernel.userCopy]
        cases hcopy : k.call.sched.copy k.call.copies with
        | false =>
            simp only [readEntries, hcopy, Bool.false_eq_true, if_false]
            exact
              { ret := by simp
                pos := by simp
                delivered := by simp
                ring := rfl, buffer := rfl, size := rfl, heap := rfl, lock := rfl
                refused := by simp }
        | true =>
            simp only [if_true, readEntries, hcopy, List.length_drop,
              h.heap.read (b := b) (by simp [hb])
                (show o + min (count + 1) (b.2.length - o) ≤ b.2.length by omega)]
            have hbytes : ((b.2.drop o).take (count + 1)).length =
                min (count + 1) (b.2.length - o) := by simp
            have htake : (b.2.drop o).take (min (count + 1) (b.2.length - o)) =
                (b.2.drop o).take (count + 1) := by
              rw [← List.length_drop]
              exact List.take_eq_take_min.symm
            -- Either this entry is used up, or the count is.
            have hnext : readEntries k.call.sched.copy (k.call.copies + 1) segs
                  (count + 1 - (b.2.length - o)) =
                readEntries k.call.sched.copy (k.call.copies + 1)
                  (segmentsFrom (linesOf own)
                    (toSize pos + min (count + 1) (b.2.length - o)))
                  (count + 1 - min (count + 1) (b.2.length - o)) := by
              by_cases hshort : count + 1 ≤ b.2.length - o
              · rw [Nat.min_eq_left hshort, Nat.sub_eq_zero_of_le hshort, Nat.sub_self,
                  readEntries_zero, readEntries_zero]
              · rw [Nat.min_eq_right (by omega), ← List.length_drop,
                  segmentsFrom_add_length hne hfrom]
            rw [hnext, htake]
            have hn : min (count + 1) (b.2.length - o) ≤ b.2.length - o := Nat.min_le_right ..
            have hn' : 0 < min (count + 1) (b.2.length - o) := by omega
            generalize min (count + 1) (b.2.length - o) = n at hbytes hn hn' ⊢
            generalize (b.2.drop o).take (count + 1) = bytes at hbytes ⊢
            subst hbytes
            have hpos' : toSize (pos + bytes.length) = toSize pos + bytes.length := by
              rw [show pos + bytes.length = ((toSize pos + bytes.length : Nat) : Int) by omega,
                toSize_natCast (by simp only [sizeMod]; omega)]
            have hroom' := congrArg List.length
              (flatten_segmentsFrom (linesOf own) (toSize pos + bytes.length))
            rw [List.length_drop] at hroom'
            have hloop := ih (k := { k with call := { k.call with copies := k.call.copies + 1 } })
              (count + 1 - bytes.length) (pos + bytes.length) (buf ++ bytes)
              (h.congr rfl rfl rfl rfl)
              (by rw [hpos', hroom', List.length_append]; omega) (by omega) (by omega) (by omega)
            rw [hpos', List.length_append, Int.natCast_add] at hloop
            rw [wrap64_of_range (by omega) (by omega), wrap64_of_range (by omega) (by omega)]
            exact hloop.cons rfl rfl rfl

/-- **`aesd_read`.** -/
theorem aesdRead_spec (h : Rep k temps pend own pending) (hne : ∀ s ∈ linesOf own, s ≠ [])
    (hfit : (linesOf own).flatten.length < 2 ^ 63) (sched : Schedule) {filp : File}
    (hopen : filp.privateData = true) (count : Nat) (pos : Int) (hlo : -2 ^ 63 ≤ pos)
    (hhi : pos < 2 ^ 63) :
    ReadSpec (k.enter sched).mutexLock pos []
      (readEntries sched.copy 0 (segmentsFrom (linesOf own) (toSize pos)) count)
      (aesdRead (k.enter sched) filp count pos) := by
  have hlen := congrArg List.length (flatten_segmentsFrom (linesOf own) (toSize pos))
  rw [List.length_drop] at hlen
  simp only [aesdRead, hopen, Bool.true_eq_false, if_false]
  exact readLoop_spec count count pos [] (h.enter sched).mutexLock hne hfit
    (by rw [hlen, List.length_nil]; omega) (Nat.le_refl _) hlo hhi

end Aesd.Driver
