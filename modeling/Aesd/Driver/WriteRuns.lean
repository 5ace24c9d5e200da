import Aesd.Driver.History

/-!
# Runs of writes

What the device holds after a run of writes.  When nothing is refused it is the
last ten lines of everything written and the unfinished line behind them, however
the stream was cut into writes.  When requests are refused the same holds of the
chunks that were acknowledged, as long as no write fails in the middle of its
lines with something to lose.
-/

namespace Aesd.Driver

open Aesd.Verified.BlockHeap
open Aesd.Verified.Lines
open Aesd.Verified.Runs

/-! ## Nothing refused -/

/-- Writes through open files, one after another, with nothing refused. -/
def writeAll : Kernel → List (File × List UInt8) → List Int × Kernel
  | k, [] => ([], k)
  | k, (filp, chunk) :: writes =>
      let (ret, k) := aesdWrite (k.enter .generous) filp chunk
      let (rets, k) := writeAll k writes
      (ret :: rets, k)

theorem firstRefused_generous (i : Nat) (ls : List (List UInt8)) :
    firstRefused .generous i ls = none := by
  induction ls generalizing i with
  | nil => rfl
  | cons l ls ih => exact congrArg (Option.map (· + 1)) (ih (i + 1))

theorem writeOutcome_generous (log : LineLog) (chunk : List UInt8) :
    writeOutcome .generous log chunk = .done := by
  rw [writeOutcome, lockedOutcome, firstRefused_generous]
  rfl

/-- The stored entries, each with the bytes it points to and its size. -/
def storedEntries (k : Kernel) : List (List UInt8 × Nat) :=
  (stored k.dev.circularBuffer).map fun e => (block k e.buffptr, e.size)

/-- The bytes of the partial write buffer in use. -/
def pendingBytes (k : Kernel) : List UInt8 :=
  (block k k.dev.partialWriteBuffer).take k.dev.partialWriteSize

theorem Rep.storedEntries_eq {k : Kernel} {temps own : List (Nat × List UInt8)}
    {pend : Option (Nat × List UInt8)} {pending : List UInt8}
    (h : Rep k temps pend own pending) :
    storedEntries k = (log k).entries.map fun line => (line, line.length) := by
  rw [storedEntries, h.stored, h.log_entries, List.map_map, List.map_map]
  exact List.map_congr_left fun b hb => by simp [entryOf, h.block_own hb]

/-- The invariant of a run of writes: `stream` is all that was written. -/
private theorem writeAll_spec {writes : List (File × List UInt8)}
    (hopen : ∀ w ∈ writes, w.1.privateData = true) {k : Kernel} {stream : List UInt8}
    (hrep : ∃ pend own pending, Rep k [] pend own pending)
    (hlog : log k = LineLog.ofStream stream)
    (hfit : stream.length + (writes.map Prod.snd).flatten.length < 2 ^ 63) :
    (writeAll k writes).1 = writes.map (fun w => (w.2.length : Int)) ∧
    (∃ pend own pending, Rep (writeAll k writes).2 [] pend own pending) ∧
    log (writeAll k writes).2 = LineLog.ofStream (stream ++ (writes.map Prod.snd).flatten) := by
  induction writes generalizing k stream with
  | nil => exact ⟨rfl, hrep, by simpa [writeAll] using hlog⟩
  | cons w writes ih =>
      obtain ⟨filp, chunk⟩ := w
      obtain ⟨pend, own, pending, hrep⟩ := hrep
      have hsplit := congrArg List.length (flatten_lines_append_rest newline stream)
      have hpending : pending = rest newline stream := by
        rw [← hrep.log_pending, hlog]
        rfl
      simp only [List.map_cons, List.flatten_cons, List.length_append] at hfit hsplit
      obtain ⟨k', pend', own', pending', hret, hrep', hlog', -⟩ :=
        aesdWrite_spec hrep .generous (hopen (filp, chunk) (by simp)) chunk
          (fun _ => by rw [hpending]; omega)
      rw [writeOutcome_generous] at hret hlog'
      have hstream : log k' = LineLog.ofStream (stream ++ chunk) := by
        rw [hlog', hlog]
        exact LineLog.append_ofStream stream chunk
      obtain ⟨hrets, hrepEnd, hlogEnd⟩ := ih (fun w hw => hopen w (by simp [hw]))
        ⟨_, _, _, hrep'⟩ hstream (by rw [List.length_append]; omega)
      simp only [writeAll, hret, List.map_cons, List.flatten_cons, ← List.append_assoc]
      exact ⟨by rw [hrets]; rfl, hrepEnd, hlogEnd⟩

/-- **Writes refine a log of lines.**  After any run of writes in which nothing is
refused, every call has returned its count, the ring holds the last ten lines of
everything written, oldest first and each with its size, and the partial write
buffer holds what follows the last newline. -/
theorem writeAll_refines_lines (garbage : Nat → Nat → UInt8)
    (writes : List (File × List UInt8)) (hopen : ∀ w ∈ writes, w.1.privateData = true)
    (hfit : (writes.map Prod.snd).flatten.length < 2 ^ 63) :
    (writeAll (aesdInitModule garbage) writes).1 = writes.map (fun w => (w.2.length : Int)) ∧
    storedEntries (writeAll (aesdInitModule garbage) writes).2 =
      ((lines newline (writes.map Prod.snd).flatten).rtake maxWriteOperationsSupported).map
        (fun line => (line, line.length)) ∧
    pendingBytes (writeAll (aesdInitModule garbage) writes).2 =
      rest newline (writes.map Prod.snd).flatten ∧
    (writeAll (aesdInitModule garbage) writes).2.dev.partialWriteSize =
      (rest newline (writes.map Prod.snd).flatten).length := by
  obtain ⟨hret, ⟨pend, own, pending, hrep⟩, hlog⟩ := writeAll_spec hopen
    ⟨_, _, _, Rep.init garbage⟩ ((Rep.init garbage).log_eq.trans LineLog.ofStream_nil.symm)
    (by simpa using hfit)
  rw [List.nil_append] at hlog
  refine ⟨hret, ?_, congrArg LineLog.pending hlog, ?_⟩
  · rw [hrep.storedEntries_eq, hlog]
    rfl
  · rw [hrep.size, ← hrep.log_pending, hlog]
    rfl

/-- One line cut in two, and a line left unfinished. -/
theorem writeAll_refines_lines_cut :
    (writeAll (aesdInitModule fun _ _ => 0)
      [(.opened, [97]), (.opened, [98, 10, 99])]).1 = [1, 3] ∧
    storedEntries (writeAll (aesdInitModule fun _ _ => 0)
      [(.opened, [97]), (.opened, [98, 10, 99])]).2 = [([97, 98, 10], 3)] ∧
    pendingBytes (writeAll (aesdInitModule fun _ _ => 0)
      [(.opened, [97]), (.opened, [98, 10, 99])]).2 = [99] ∧
    (writeAll (aesdInitModule fun _ _ => 0)
      [(.opened, [97]), (.opened, [98, 10, 99])]).2.dev.partialWriteSize = 1 := by
  exact writeAll_refines_lines (fun _ _ => 0) [(.opened, [97]), (.opened, [98, 10, 99])]
    (by decide) (by decide)

/-! ## Requests refused -/

/-- The call is served up to the `i`-th line of the pending bytes and the chunk,
and finds no block for that line. -/
def RefusesLine (sched : Schedule) (log : LineLog) (chunk : List UInt8) (i : Nat) : Prop :=
  sched.kmalloc 0 chunk.length = true ∧ sched.copy 0 = true ∧
    sched.kmalloc 1 (log.pending ++ chunk).length = true ∧
    firstRefused sched 2 (lines newline (log.pending ++ chunk)) = some i

instance (sched : Schedule) (log : LineLog) (chunk : List UInt8) (i : Nat) :
    Decidable (RefusesLine sched log chunk i) :=
  inferInstanceAs (Decidable (_ ∧ _ ∧ _ ∧ _))

/-- A line that finds no block has nothing to lose: nothing was pending, and the
lines before it push out stored lines that are the same. -/
def LosesNothing (sched : Schedule) (log : LineLog) (chunk : List UInt8) : Prop :=
  ∀ i, RefusesLine sched log chunk i → log.pending = [] ∧
    (log.entries ++ (lines newline chunk).take i).rtake maxWriteOperationsSupported = log.entries

instance (sched : Schedule) (log : LineLog) (chunk : List UInt8) :
    Decidable (LosesNothing sched log chunk) :=
  decidable_of_iff
    (∀ i ∈ firstRefused sched 2 (lines newline (log.pending ++ chunk)),
      RefusesLine sched log chunk i → log.pending = [] ∧
        (log.entries ++ (lines newline chunk).take i).rtake maxWriteOperationsSupported =
          log.entries)
    ⟨fun h i hi => h i hi.2.2.2 hi, fun h i _ hi => h i hi⟩

theorem writeOutcome_eq_noLine_iff {sched : Schedule} {log : LineLog} {chunk : List UInt8}
    {i : Nat} : writeOutcome sched log chunk = .noLine i ↔ RefusesLine sched log chunk i := by
  rw [writeOutcome, lockedOutcome, RefusesLine]
  cases sched.kmalloc 0 chunk.length with
  | false => simp
  | true =>
      cases sched.copy 0 with
      | false => simp
      | true =>
          cases sched.kmalloc 1 (log.pending ++ chunk).length with
          | false => simp
          | true =>
              cases firstRefused sched 2 (lines newline (log.pending ++ chunk)) <;> simp

/-- A failing exit leaves the line log as it was exactly when nothing is lost. -/
theorem keepsLog_iff {sched : Schedule} {log : LineLog} {chunk : List UInt8} :
    ((writeOutcome sched log chunk).ret chunk < 0 →
        (writeOutcome sched log chunk).log log chunk = log) ↔
      LosesNothing sched log chunk := by
  have hline : ∀ i, writeOutcome sched log chunk = .noLine i ↔ RefusesLine sched log chunk i :=
    fun i => writeOutcome_eq_noLine_iff
  rw [WriteOutcome.ret_neg_iff, LosesNothing]
  cases hout : writeOutcome sched log chunk with
  | noLine i =>
      rw [hout] at hline
      simp only [WriteOutcome.noLine.injEq] at hline
      simp only [ne_eq, reduceCtorEq, not_false_eq_true, true_imp_iff, ← hline, forall_eq']
      constructor
      · intro heq
        have hpending : log.pending = [] := (congrArg LineLog.pending heq).symm
        have hentries := congrArg LineLog.entries heq
        simp only [WriteOutcome.log, hpending, List.nil_append] at hentries
        exact ⟨hpending, hentries⟩
      · rintro ⟨hpending, hentries⟩
        obtain ⟨entries, pending⟩ := log
        simp only at hpending hentries
        subst hpending
        simp only [WriteOutcome.log, List.nil_append, hentries]
  | noKbuf => simp_all [WriteOutcome.log]
  | badCopy => simp_all [WriteOutcome.log]
  | noCombined => simp_all [WriteOutcome.log]
  | done => simp_all

/-- The condition on a call: a write loses nothing. -/
def Call.LosesNothing (c : Call) (log : LineLog) : Prop :=
  match c.op with
  | .write chunk => c.filp.privateData = true → Driver.LosesNothing c.sched log chunk
  | _ => True

instance : (c : Call) → (log : LineLog) → Decidable (c.LosesNothing log)
  | ⟨sched, filp, .write chunk⟩, log =>
      inferInstanceAs (Decidable (filp.privateData = true → Driver.LosesNothing sched log chunk))
  | ⟨_, _, .read ..⟩, _ | ⟨_, _, .ioctl ..⟩, _ | ⟨_, _, .llseek ..⟩, _ | ⟨_, _, .release⟩, _ =>
      isTrue trivial

/-- The bytes a call acknowledges: the chunk, when the write does not fail. -/
def Call.acknowledged (c : Call) (k : Kernel) : List UInt8 :=
  match c.op with
  | .write chunk =>
      if 0 ≤ (aesdWrite (k.enter c.sched) c.filp chunk).1 then chunk else []
  | _ => []

/-- The bytes acknowledged along a history, in order. -/
def acknowledged : Kernel → List Call → List UInt8
  | _, [] => []
  | k, c :: calls => c.acknowledged k ++ acknowledged (exec k c) calls

theorem LineLog.Wf.append_nil {log : LineLog} (h : log.Wf) : log.append [] = log := by
  rw [LineLog.append, List.append_nil, lines_of_not_mem h.noNewline,
    rest_of_not_mem h.noNewline, List.append_nil, rtake_of_length_le h.count]

/-- What a write returns and leaves, on the line log, and whether all it asked for
was served. -/
theorem Sound.aesdWrite {k : Kernel} (h : Sound k) {sched : Schedule}
    (hreal : sched.Realistic) {filp : File} (hopen : filp.privateData = true)
    (chunk : List UInt8) :
    (Driver.aesdWrite (k.enter sched) filp chunk).1 =
        (writeOutcome sched (log k) chunk).ret chunk ∧
      log (Driver.aesdWrite (k.enter sched) filp chunk).2 =
        (writeOutcome sched (log k) chunk).log (log k) chunk ∧
      ((Driver.aesdWrite (k.enter sched) filp chunk).2.call.refused = 0 ↔
        writeOutcome sched (log k) chunk = .done) := by
  obtain ⟨pend, own, pending, hrep⟩ := h.rep
  obtain ⟨k', pend', own', pending', hret, -, hlog, -, hserved⟩ :=
    aesdWrite_spec hrep sched hopen chunk (h.chunk_fits hreal hrep)
  rw [hret]
  exact ⟨rfl, hlog, hserved⟩

/-- A call that loses nothing appends what it acknowledges. -/
theorem exec_appends {k : Kernel} (h : Sound k) {c : Call} (hreal : c.sched.Realistic)
    (hkeep : c.LosesNothing (log k)) : log (exec k c) = (log k).append (c.acknowledged k) := by
  obtain ⟨-, hlog, -⟩ := exec_spec h hreal
  rw [hlog]
  obtain ⟨sched, filp, op⟩ := c
  cases op with
  | write chunk =>
      cases hopen : filp.privateData with
      | false =>
          simp [Call.effect, Call.acknowledged, Driver.aesdWrite, hopen, ENODEV, h.wf.append_nil]
      | true =>
          obtain ⟨hret, -⟩ := h.aesdWrite hreal hopen chunk
          have hkeep' := keepsLog_iff.2 (hkeep hopen)
          simp only at hret
          simp only [Call.effect, Call.acknowledged, hopen, if_true, hret]
          by_cases hneg : (writeOutcome sched (log k) chunk).ret chunk < 0
          · rw [hkeep' hneg, if_neg (Int.not_le.2 hneg), h.wf.append_nil]
          · rw [if_pos (Int.not_lt.1 hneg),
              not_not.1 (mt WriteOutcome.ret_neg_iff.2 hneg)]
            rfl
  | read => exact h.wf.append_nil.symm
  | ioctl => exact h.wf.append_nil.symm
  | llseek => exact h.wf.append_nil.symm
  | release => exact h.wf.append_nil.symm

/-- A history that loses nothing is determined by what it acknowledged. -/
theorem log_foldl_exec {k : Kernel} (h : Sound k) {stream : List UInt8}
    (hlog : log k = .ofStream stream) {calls : List Call}
    (hreal : ∀ c ∈ calls, c.sched.Realistic)
    (hkeep : Along exec (fun k c => c.LosesNothing (log k)) k calls) :
    log (calls.foldl exec k) = .ofStream (stream ++ acknowledged k calls) := by
  induction calls generalizing k stream with
  | nil => simpa [acknowledged] using hlog
  | cons c calls ih =>
      have hc := hreal c (by simp)
      rw [List.foldl_cons, acknowledged, ← List.append_assoc]
      refine ih (exec_sound h hc) ?_ (fun c hc => hreal c (by simp [hc])) hkeep.2
      rw [exec_appends h hc hkeep.1, hlog, LineLog.append_ofStream]

/-- **Failed writes.**  In every state a history can reach, a failing write leaves
the stored lines and the pending bytes as they were exactly when it loses
nothing.  A history whose writes all lose nothing leaves what its acknowledged
chunks alone would have left. -/
theorem failed_writes_keep_log (garbage : Nat → Nat → UInt8) (calls : List Call)
    (hreal : ∀ c ∈ calls, c.sched.Realistic) :
    (∀ (sched : Schedule) (filp : File) (chunk : List UInt8), sched.Realistic →
      (((Driver.aesdWrite ((runCalls garbage calls).enter sched) filp chunk).1 < 0 →
          log (Driver.aesdWrite ((runCalls garbage calls).enter sched) filp chunk).2 =
            log (runCalls garbage calls)) ↔
        (filp.privateData = true → LosesNothing sched (log (runCalls garbage calls)) chunk))) ∧
    (Along exec (fun k c => c.LosesNothing (log k)) (aesdInitModule garbage) calls →
      log (runCalls garbage calls) =
        .ofStream (acknowledged (aesdInitModule garbage) calls)) := by
  have hsound := runCalls_sound garbage hreal
  refine ⟨fun sched filp chunk hsched => ?_, fun hkeep => ?_⟩
  · cases hopen : filp.privateData with
    | false =>
        obtain ⟨pend, own, pending, hrep⟩ := hsound.rep
        simp only [Driver.aesdWrite, hopen, if_true, Bool.false_eq_true, false_imp_iff, iff_true]
        exact fun _ => (hrep.enter sched).log_eq.trans hrep.log_eq.symm
    | true =>
        obtain ⟨hret, hlog, -⟩ := hsound.aesdWrite hsched hopen chunk
        rw [hret, hlog, keepsLog_iff]
        simp
  · have hinit := (Rep.init garbage).log_eq.trans LineLog.ofStream_nil.symm
    have hrun := log_foldl_exec (sound_init garbage) hinit hreal hkeep
    rwa [List.nil_append] at hrun

/-- A write that finds no `kbuf` between two that are acknowledged. -/
theorem failed_writes_keep_log_example :
    log (runCalls (fun _ _ => 0)
      [⟨.limited [] [], .opened, .write [97]⟩, ⟨.limited [0] [], .opened, .write [98, 10]⟩,
        ⟨.limited [] [], .opened, .write [99, 10]⟩]) = .ofStream [97, 99, 10] :=
  (failed_writes_keep_log (fun _ _ => 0)
    [⟨.limited [] [], .opened, .write [97]⟩, ⟨.limited [0] [], .opened, .write [98, 10]⟩,
      ⟨.limited [] [], .opened, .write [99, 10]⟩]
    (by
      simp only [List.mem_cons, List.not_mem_nil, or_false, forall_eq_or_imp, forall_eq]
      exact ⟨Schedule.realistic_limited _ _, Schedule.realistic_limited _ _,
        Schedule.realistic_limited _ _⟩)).2
    (by decide +kernel)

/-- The bytes `ab` were acknowledged; a write that completes their line but finds
no block for it fails, and they are gone. -/
theorem failed_write_drops_pending :
    ¬∀ (calls : List Call) (sched : Schedule) (chunk : List UInt8),
      (∀ c ∈ calls, c.sched.Realistic) → sched.Realistic →
      (Driver.aesdWrite ((runCalls (fun _ _ => 0) calls).enter sched) .opened chunk).1 < 0 →
      log (Driver.aesdWrite ((runCalls (fun _ _ => 0) calls).enter sched) .opened chunk).2 =
        log (runCalls (fun _ _ => 0) calls) := by
  intro hkeep
  have hlost := hkeep [⟨.limited [] [], .opened, .write [97, 98]⟩] (.limited [2] []) [99, 10]
    (by simpa using Schedule.realistic_limited [] []) (Schedule.realistic_limited _ _)
    (by decide +kernel)
  exact absurd hlost (by decide +kernel)

end Aesd.Driver
