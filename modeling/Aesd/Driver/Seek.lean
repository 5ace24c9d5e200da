import Aesd.Driver.Read

/-!
# Seeks on the representation

`aesd_llseek` sets a position or refuses to, whatever the stored data is.
`aesd_ioctl_set_pos` adds up the sizes of the entries before the sought one; on the
line log it looks a line up and refuses what is not there.
-/

namespace Aesd.Driver

open Aesd.Verified.BlockHeap

variable {k : Kernel} {temps own : List (Nat × List UInt8)}
  {pend : Option (Nat × List UInt8)} {pending : List UInt8}

/-! ## `aesd_llseek` -/

theorem wrap64_lt (x : Int) : wrap64 x < 2 ^ 63 := by
  rw [wrap64, sizeMod]
  exact Int.bmod_lt (by decide)

/-- `aesd_llseek` of an open file returns the position it sets, which is one the driver
can count, or refuses with the position unchanged. -/
theorem aesdLlseek_spec {filp : File} (hopen : filp.privateData = true) {offset : Int}
    (hoffset : offset < 2 ^ 63) (whence : Int) :
    aesdLlseek filp offset whence = (-EINVAL, filp) ∨
      ∃ q : Nat, q < 2 ^ 63 ∧
        aesdLlseek filp offset whence = ((q : Int), { filp with fPos := (q : Int) }) := by
  rcases filp with ⟨privateData, fPos⟩
  obtain rfl : privateData = true := hopen
  -- Each whence leads to the same test of a position below the bound.
  have hset : ∀ newPos : Int, newPos < 2 ^ 63 → ∀ r : Int × File,
      r = (if newPos < 0 then (-EINVAL, ⟨true, fPos⟩) else (newPos, ⟨true, newPos⟩)) →
        r = (-EINVAL, ⟨true, fPos⟩) ∨ ∃ q : Nat, q < 2 ^ 63 ∧ r = ((q : Int), ⟨true, (q : Int)⟩) := by
    intro newPos hlt r hr
    by_cases hneg : newPos < 0
    · rw [if_pos hneg] at hr
      exact .inl hr
    · rw [if_neg hneg] at hr
      exact .inr ⟨newPos.toNat, by omega, by rw [hr, Int.toNat_of_nonneg (by omega)]⟩
  by_cases h0 : whence = SEEK_SET
  · exact hset offset hoffset _ (by simp [aesdLlseek, h0])
  by_cases h1 : whence = SEEK_CUR
  · exact hset (wrap64 (fPos + offset)) (wrap64_lt _) _
      (by simp [aesdLlseek, h1, SEEK_CUR, SEEK_SET])
  by_cases h2 : whence = SEEK_END
  · exact hset (wrap64 (maxWriteOperationsSupported + offset)) (wrap64_lt _) _
      (by simp [aesdLlseek, h2, SEEK_CUR, SEEK_SET, SEEK_END])
  · exact .inl (by simp [aesdLlseek, h0, h1, h2])

/-! ## The seek ioctl -/

/-- The position of byte `offset` of line `cmd`, when there is such a byte. -/
def LineLog.seekTarget (log : LineLog) (cmd offset : Nat) : Option Nat :=
  match log.entries[cmd]? with
  | none => none
  | some line =>
      if offset < line.length then some ((log.entries.take cmd).flatten.length + offset) else none

/-- A sought position is one of the stored bytes. -/
theorem LineLog.seekTarget_lt {log : LineLog} {cmd offset p : Nat}
    (h : log.seekTarget cmd offset = some p) : p < log.contents.length := by
  rw [LineLog.seekTarget] at h
  cases hline : log.entries[cmd]? with
  | none => simp [hline] at h
  | some line =>
      obtain ⟨hlt, rfl⟩ := List.getElem?_eq_some_iff.1 hline
      simp only [hline, Option.ite_none_right_eq_some, Option.some.injEq] at h
      have hsplit := congrArg List.length
        (congrArg List.flatten (List.take_append_drop cmd log.entries))
      rw [List.drop_eq_getElem_cons hlt] at hsplit
      simp only [List.flatten_append, List.flatten_cons, List.length_append] at hsplit
      rw [LineLog.contents]
      omega

/-- The stored bytes from byte `offset` of line `cmd` on; all of them when there is no
such byte. -/
def LineLog.suffixFrom (log : LineLog) (cmd offset : Nat) : List UInt8 :=
  match log.entries[cmd]? with
  | none => log.contents
  | some line =>
      if offset < line.length then line.drop offset ++ (log.entries.drop (cmd + 1)).flatten
      else log.contents

/-- A reader at the sought position sees the stored bytes from there on. -/
theorem LineLog.drop_seekTarget (log : LineLog) (cmd offset : Nat) :
    log.contents.drop ((log.seekTarget cmd offset).getD 0) = log.suffixFrom cmd offset := by
  unfold LineLog.seekTarget LineLog.suffixFrom
  cases hline : log.entries[cmd]? with
  | none => rfl
  | some line =>
      obtain ⟨hlt, rfl⟩ := List.getElem?_eq_some_iff.1 hline
      by_cases hoffset : offset < log.entries[cmd].length
      · have hsplit := congrArg List.flatten (List.take_append_drop cmd log.entries)
        rw [List.drop_eq_getElem_cons hlt, List.flatten_append, List.flatten_cons] at hsplit
        simp only [if_pos hoffset, Option.getD_some, LineLog.contents]
        rw [← hsplit, List.drop_length_add_append, List.drop_append_of_le_length hoffset.le]
      · simp only [if_neg hoffset, Option.getD_none, List.drop_zero]

/-- The loop of `aesd_ioctl_set_pos` over `remaining` entries that are there. -/
theorem seekLoop_spec (h : Rep k temps pend own pending) (remaining i pos : Nat)
    (hrange : i + remaining ≤ own.length)
    (hfit : pos + (((linesOf own).drop i).take remaining).flatten.length < sizeMod) :
    seekLoop k.dev.circularBuffer remaining i pos =
      some (pos + (((linesOf own).drop i).take remaining).flatten.length) := by
  induction remaining generalizing i pos with
  | zero => simp [seekLoop]
  | succ remaining ih =>
      have hi : i < own.length := by omega
      rw [List.drop_eq_getElem_cons (by simpa using hi), List.take_succ_cons, List.flatten_cons,
        List.length_append, List.getElem_map] at hfit ⊢
      simp only [seekLoop, h.entry hi, entryOf, Option.isNone_some, Bool.false_eq_true, if_false]
      rw [Nat.mod_eq_of_lt (by omega), ih _ _ (by omega) (by omega)]
      congr 1
      omega

/-- What a seek leaves: the answer, the file and the mutex. -/
structure SeekSpec (k : Kernel) (filp : File) (copied : Bool) (target : Option Nat)
    (result : Int × Kernel × File) : Prop where
  ret : result.1 = if copied = false then -EFAULT else if target.isSome then 0 else -EINVAL
  file : result.2.2 = if copied then { filp with fPos := (target.map Nat.cast).getD filp.fPos }
    else filp
  ring : result.2.1.dev.circularBuffer = k.dev.circularBuffer
  buffer : result.2.1.dev.partialWriteBuffer = k.dev.partialWriteBuffer
  size : result.2.1.dev.partialWriteSize = k.dev.partialWriteSize
  heap : result.2.1.heap = k.heap
  lock : result.2.1.dev.lock =
    if copied then ⟨false, k.dev.lock.calls ++ [.lock, .unlock]⟩ else k.dev.lock
  refused : result.2.1.call.refused = k.call.refused ↔ copied = true

/-- A seek succeeds when the user structure is read and names a stored byte. -/
theorem SeekSpec.ret_eq_zero_iff {filp : File} {copied : Bool} {target : Option Nat}
    {result : Int × Kernel × File} (h : SeekSpec k filp copied target result) :
    result.1 = 0 ↔ copied = true ∧ target.isSome = true := by
  rw [h.ret]
  cases copied <;> cases target <;> simp [EFAULT, EINVAL]

/-- A seek that succeeds has moved to the byte, and one that fails has not moved. -/
theorem SeekSpec.file_eq {filp : File} {copied : Bool} {target : Option Nat}
    {result : Int × Kernel × File} (h : SeekSpec k filp copied target result) :
    result.2.2 =
      if result.1 = 0 then { filp with fPos := (target.map Nat.cast).getD filp.fPos }
      else filp := by
  rw [h.file, h.ret]
  cases copied <;> cases target <;> simp [EFAULT, EINVAL]

/-- The exits that refuse the command free the mutex and leave the file alone. -/
private theorem seekSpec_refuse (k : Kernel) (filp : File) :
    SeekSpec k filp true none
      (-EINVAL,
        { k with call := { k.call with copies := k.call.copies + 1 } }.mutexLock.mutexUnlock,
        filp) :=
  { ret := rfl, file := rfl, ring := rfl, buffer := rfl, size := rfl, heap := rfl
    lock := by simp [Kernel.mutexLock, Kernel.mutexUnlock]
    refused := by simp }

/-- **`aesd_ioctl_set_pos`** finds the byte of the line log that the command names. -/
theorem aesdIoctlSetPos_spec (h : Rep k [] pend own pending)
    (hfit : (linesOf own).flatten.length < 2 ^ 63) (filp : File) (seekto : AesdSeekto) :
    SeekSpec k filp (k.call.sched.copy k.call.copies)
      ((log k).seekTarget seekto.writeCmd.toNat seekto.writeCmdOffset.toNat)
      (aesdIoctlSetPos k filp seekto) := by
  generalize hx : seekto.writeCmd.toNat = x
  generalize hy : seekto.writeCmdOffset.toNat = y
  simp only [aesdIoctlSetPos, Kernel.userCopy, hx, hy]
  cases hcopy : k.call.sched.copy k.call.copies with
  | false =>
      simp only [Bool.false_eq_true, if_false]
      exact { ret := rfl, file := rfl, ring := rfl, buffer := rfl, size := rfl, heap := rfl
              lock := rfl, refused := by simp }
  | true =>
      have hcalled : Rep { k with call := { k.call with copies := k.call.copies + 1 } } [] pend own
          pending := h.congr rfl rfl rfl rfl
      have hlock := hcalled.mutexLock
      have hle := h.length_own
      simp only [if_true]
      rw [← storedCount, hlock.storedCount_eq]
      by_cases hlen : own.length ≤ x
      · have hnone : (log k).seekTarget x y = none := by
          rw [LineLog.seekTarget, h.log_entries,
            List.getElem?_eq_none (by rw [List.length_map]; omega)]
        rw [hnone, if_pos hlen, ite_self]
        exact seekSpec_refuse k filp
      · have hlt : x < own.length := by omega
        have hsplit := congrArg List.length
          (congrArg List.flatten (List.take_append_drop x (linesOf own)))
        rw [List.drop_eq_getElem_cons (by simpa using hlt)] at hsplit
        simp only [List.flatten_append, List.flatten_cons, List.length_append,
          List.getElem_map] at hsplit
        have hloop := seekLoop_spec hlock x 0 0 (by omega)
          (by rw [List.drop_zero, sizeMod]; omega)
        rw [List.drop_zero, Nat.zero_add] at hloop
        rw [if_neg (by omega), if_neg hlen]
        simp only [hloop, hlock.entry hlt, entryOf, Option.isNone_some, Bool.false_eq_true,
          false_or]
        have htarget : (log k).seekTarget x y =
            if y < own[x].2.length then some (((linesOf own).take x).flatten.length + y)
            else none := by
          rw [LineLog.seekTarget, h.log_entries,
            List.getElem?_eq_getElem (by simpa using hlt), List.getElem_map]
        rw [htarget]
        by_cases hy' : y < own[x].2.length
        · rw [if_neg (Nat.not_le.2 hy'), if_pos hy', Nat.mod_eq_of_lt (by rw [sizeMod]; omega),
            wrap64_of_range (by omega) (by omega)]
          exact
            { ret := rfl, file := rfl, ring := rfl, buffer := rfl, size := rfl, heap := rfl
              lock := by simp [Kernel.mutexLock, Kernel.mutexUnlock]
              refused := by simp }
        · rw [if_pos (Nat.not_lt.1 hy'), if_neg hy']
          exact seekSpec_refuse k filp

end Aesd.Driver
