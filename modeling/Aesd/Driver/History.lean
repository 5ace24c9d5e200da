import Aesd.Driver.Seek
import Aesd.Driver.Write
import Aesd.Verified.Runs
import Mathlib.Algebra.Order.BigOperators.Group.List
import Mathlib.Algebra.Order.Ring.Nat

/-!
# Histories of calls on the device

A `Call` is one file operation together with the kernel's answers during it.
`exec_spec` says what a call does to the line log and to the mutex.  `Sound` is
the invariant of every history: the representation holds, the line log is well
formed, and the mutex is free between two calls.
-/

namespace Aesd.Driver

open Aesd.Verified.BlockHeap
open Aesd.Verified.Lines
open Aesd.Verified.Runs
open Aesd.Verified.Segments

/-! ## Calls -/

/-- A value of type `loff_t`. -/
abbrev Loff := { x : Int // -2 ^ 63 ≤ x ∧ x < 2 ^ 63 }

/-- The file operations and their arguments.  `read` is given `*f_pos` as well. -/
inductive Op
  | write (chunk : List UInt8)
  | read (count : Nat) (pos : Loff)
  | ioctl (cmd : Nat) (arg : AesdSeekto)
  | llseek (offset whence : Int)
  | release

/-- A file operation on an open file, and how the kernel answers during it. -/
structure Call where
  sched : Schedule
  filp : File
  op : Op

/-- The state a call leaves. -/
def exec (k : Kernel) (c : Call) : Kernel :=
  let k := k.enter c.sched
  match c.op with
  | .write chunk => (aesdWrite k c.filp chunk).2
  | .read count pos => (aesdRead k c.filp count pos).kernel
  | .ioctl cmd arg => (unlockedIoctl k c.filp cmd arg).2.1
  | .llseek _ _ => k
  | .release => (aesdRelease k c.filp).2.1

/-- The state after a history of calls since the module was loaded. -/
def runCalls (garbage : Nat → Nat → UInt8) (calls : List Call) : Kernel :=
  calls.foldl exec (aesdInitModule garbage)

/-! ## What a call does -/

/-- The line log a call leaves. -/
def Call.effect (c : Call) (log : LineLog) : LineLog :=
  match c.op with
  | .write chunk =>
      if c.filp.privateData then (writeOutcome c.sched log chunk).log log chunk else log
  | _ => log

/-- The calls on the mutex that a call makes. -/
def Call.locks (c : Call) (log : LineLog) : List LockCall :=
  if c.filp.privateData = false then []
  else match c.op with
    | .write chunk => ((writeOutcome c.sched log chunk).lock ⟨false, []⟩).calls
    | .read count pos =>
        .lock :: (readEntries c.sched.copy 0 (segmentsFrom log.entries (toSize pos)) count).2.unlocks
    | .ioctl cmd _ =>
        if cmd = AESDCHAR_IOCSEEKTO ∧ c.sched.copy 0 = true then [.lock, .unlock] else []
    | .llseek _ _ => []
    | .release => [.unlock]

/-! ## The invariant of a line log -/

/-- What holds of every line log the driver builds: at most ten lines, whole
lines, no newline pending, and nothing longer than `kmalloc` allows. -/
structure LineLog.Wf (log : LineLog) : Prop where
  count : log.entries.length ≤ maxWriteOperationsSupported
  line : ∀ l ∈ log.entries, IsLine newline l
  lineFits : ∀ l ∈ log.entries, l.length < 2 ^ 59
  noNewline : newline ∉ log.pending
  pendingFits : log.pending.length < 2 ^ 59

theorem LineLog.wf_empty : LineLog.empty.Wf :=
  { count := Nat.zero_le _
    line := by simp [LineLog.empty]
    lineFits := by simp [LineLog.empty]
    noNewline := by simp [LineLog.empty]
    pendingFits := by simp [LineLog.empty] }

/-- Ten lines of a log are shorter than `2 ^ 63` bytes together. -/
theorem LineLog.Wf.contents_lt {log : LineLog} (h : log.Wf) : log.contents.length < 2 ^ 63 := by
  have hsum := List.sum_le_card_nsmul (log.entries.map List.length) (2 ^ 59) fun n hn => by
    obtain ⟨l, hl, rfl⟩ := List.mem_map.1 hn
    exact (h.lineFits l hl).le
  rw [List.length_map, Nat.nsmul_eq_mul] at hsum
  have hcount := h.count
  simp only [maxWriteOperationsSupported] at hcount
  rw [LineLog.contents, List.length_flatten]
  omega

theorem LineLog.Wf.entries_ne_nil {log : LineLog} (h : log.Wf) : ∀ l ∈ log.entries, l ≠ [] :=
  fun l hl => List.ne_nil_of_length_pos (h.line l hl).pos

/-- Storing lines of a short stream keeps the invariant. -/
theorem LineLog.Wf.store {log : LineLog} (h : log.Wf) {s pending : List UInt8}
    {ls : List (List UInt8)} (hs : s.length < 2 ^ 59) (hls : ∀ l ∈ ls, l ∈ lines newline s)
    (hnl : newline ∉ pending) (hfit : pending.length < 2 ^ 59) :
    LineLog.Wf { entries := (log.entries ++ ls).rtake maxWriteOperationsSupported
                 pending := pending } := by
  have hmem : ∀ l ∈ (log.entries ++ ls).rtake maxWriteOperationsSupported,
      l ∈ log.entries ∨ l ∈ lines newline s := by
    intro l hl
    rcases List.mem_append.1 (List.mem_of_mem_drop hl) with hl | hl
    · exact .inl hl
    · exact .inr (hls l hl)
  refine ⟨by simp, fun l hl => ?_, fun l hl => ?_, hnl, hfit⟩
  · rcases hmem l hl with hl | hl
    · exact h.line l hl
    · exact isLine_of_mem_lines hl
  · rcases hmem l hl with hl | hl
    · exact h.lineFits l hl
    · have hlen := (List.sublist_flatten_of_mem hl).length_le
      have hsplit := congrArg List.length (flatten_lines_append_rest newline s)
      rw [List.length_append] at hsplit
      omega

/-- A write keeps the invariant of the line log, whichever exit it takes. -/
theorem LineLog.Wf.write {log : LineLog} (h : log.Wf) {sched : Schedule}
    (hreal : sched.Realistic) (chunk : List UInt8) :
    ((writeOutcome sched log chunk).log log chunk).Wf := by
  rw [writeOutcome, lockedOutcome]
  split_ifs with hkbuf hcopy hcomb
  · exact h
  · exact h
  · exact h
  · have hfit := hreal _ _ (eq_true_of_ne_false hcomb)
    split
    · have hsplit := congrArg List.length
        (flatten_lines_append_rest newline (log.pending ++ chunk))
      rw [List.length_append] at hsplit
      exact h.store hfit (fun l hl => hl) (not_mem_rest newline _) (by omega)
    · exact h.store hfit (fun l hl => List.mem_of_mem_take hl) (by simp) (by simp)

/-! ## The invariant of a history -/

/-- The invariant of every history. -/
structure Sound (k : Kernel) : Prop where
  rep : ∃ pend own pending, Rep k [] pend own pending
  wf : (log k).Wf
  lockFree : k.dev.lock.held = false

theorem sound_init (garbage : Nat → Nat → UInt8) : Sound (aesdInitModule garbage) :=
  { rep := ⟨_, _, _, Rep.init garbage⟩
    wf := by
      rw [(Rep.init garbage).log_eq]
      exact LineLog.wf_empty
    lockFree := rfl }

/-- A chunk that `kmalloc` has room for fits behind the pending bytes. -/
theorem Sound.chunk_fits {k : Kernel} (h : Sound k) {sched : Schedule} (hreal : sched.Realistic)
    {pend : Option (Nat × List UInt8)} {own : List (Nat × List UInt8)} {pending chunk : List UInt8}
    (hrep : Rep k [] pend own pending) (hgrant : sched.kmalloc 0 chunk.length = true) :
    pending.length + chunk.length < 2 ^ 63 := by
  have hchunk := hreal _ _ hgrant
  have hpend := h.wf.pendingFits
  rw [hrep.log_pending] at hpend
  omega

/-- **One call.**  It keeps the representation, changes the line log by its effect
and leaves the mutex free. -/
theorem exec_spec {k : Kernel} (h : Sound k) {c : Call} (hreal : c.sched.Realistic) :
    (∃ pend own pending, Rep (exec k c) [] pend own pending) ∧
    log (exec k c) = c.effect (log k) ∧
    (exec k c).dev.lock = ⟨false, c.locks (log k)⟩ := by
  obtain ⟨pend, own, pending, hrep⟩ := h.rep
  obtain ⟨sched, filp, op⟩ := c
  have hentries : linesOf own = (log k).entries := hrep.log_entries.symm
  have hfit : (linesOf own).flatten.length < 2 ^ 63 := hentries ▸ h.wf.contents_lt
  have henter := hrep.enter sched
  cases hopen : filp.privateData with
  | false =>
      have hfree : (k.enter sched).dev.lock = ⟨false, []⟩ := by
        simp [Kernel.enter, h.lockFree]
      cases op <;>
        simp only [exec, aesdWrite, aesdRead, unlockedIoctl, aesdRelease, hopen, if_true,
          Call.effect, Call.locks, Bool.false_eq_true, if_false]
      all_goals exact ⟨⟨_, _, _, henter⟩, henter.log_eq.trans hrep.log_eq.symm, hfree⟩
  | true =>
      cases op with
      | write chunk =>
          obtain ⟨k', pend', own', pending', hret, hrep', hlog, hlock, -⟩ :=
            aesdWrite_spec hrep sched hopen chunk (h.chunk_fits hreal hrep)
          simp only [exec, hret, Call.effect, Call.locks, hopen, if_true, Bool.true_eq_false,
            if_false]
          refine ⟨⟨_, _, _, hrep'⟩, hlog, hlock.trans ?_⟩
          have hfree := h.lockFree
          cases writeOutcome sched (log k) chunk <;> simp [WriteOutcome.lock, hfree]
      | read count pos =>
          have hspec := aesdRead_spec hrep (by rw [hentries]; exact h.wf.entries_ne_nil) hfit
            sched hopen count pos pos.2.1 pos.2.2
          have hrep' := hrep.congr hspec.ring hspec.buffer hspec.size hspec.heap
          simp only [exec, Call.effect, Call.locks, hopen, Bool.true_eq_false, if_false]
          refine ⟨⟨_, _, _, hrep'⟩, hrep'.log_eq.trans hrep.log_eq.symm, ?_⟩
          rw [hspec.lock, hentries]
          rfl
      | ioctl cmd arg =>
          simp only [exec, unlockedIoctl, Call.effect, Call.locks, hopen, Bool.true_eq_false,
            if_false]
          by_cases hcmd : cmd = AESDCHAR_IOCSEEKTO
          · have hspec := aesdIoctlSetPos_spec henter hfit filp arg
            have hrep' := hrep.congr hspec.ring hspec.buffer hspec.size hspec.heap
            simp only [hcmd, if_true, true_and]
            refine ⟨⟨_, _, _, hrep'⟩, hrep'.log_eq.trans hrep.log_eq.symm, hspec.lock.trans ?_⟩
            simp only [Kernel.enter, SysCall.fresh, h.lockFree, List.nil_append]
            split <;> rfl
          · simp only [hcmd, if_false, false_and]
            exact ⟨⟨_, _, _, henter⟩, henter.log_eq.trans hrep.log_eq.symm,
              by simp [Kernel.enter, h.lockFree]⟩
      | llseek offset whence =>
          simp only [exec, Call.effect, Call.locks, hopen, Bool.true_eq_false, if_false]
          exact ⟨⟨_, _, _, henter⟩, henter.log_eq.trans hrep.log_eq.symm,
            by simp [Kernel.enter, h.lockFree]⟩
      | release =>
          simp only [exec, aesdRelease, Call.effect, Call.locks, hopen, Bool.true_eq_false,
            if_false]
          exact ⟨⟨_, _, _, henter.mutexUnlock⟩,
            henter.mutexUnlock.log_eq.trans hrep.log_eq.symm, by simp [Kernel.enter,
              Kernel.mutexUnlock]⟩

theorem Call.effect_wf {c : Call} {log : LineLog} (h : log.Wf) (hreal : c.sched.Realistic) :
    (c.effect log).Wf := by
  rw [Call.effect]
  split
  · split
    · exact h.write hreal _
    · exact h
  · exact h

theorem exec_sound {k : Kernel} (h : Sound k) {c : Call} (hreal : c.sched.Realistic) :
    Sound (exec k c) := by
  obtain ⟨hrep, hlog, hlock⟩ := exec_spec h hreal
  exact
    { rep := hrep
      wf := hlog ▸ Call.effect_wf h.wf hreal
      lockFree := by rw [hlock] }

/-- **Every history keeps the invariant.** -/
theorem runCalls_sound (garbage : Nat → Nat → UInt8) {calls : List Call}
    (hreal : ∀ c ∈ calls, c.sched.Realistic) : Sound (runCalls garbage calls) :=
  invariant (fun _ _ h => exec_sound h) (sound_init garbage) (along_of_forall hreal)

end Aesd.Driver
