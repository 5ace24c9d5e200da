import Aesd.Driver.Positions
import Aesd.Server.OpenFiles

/-!
# File positions over whole runs

Any number of files are open on one device, and reads, writes, `lseek` and `ioctl` come in
any order, answered by the kernel in any way.  As long as the ring holds fewer than
`2 ^ 63` bytes, the position of every file counts: it is not negative and below `2 ^ 63`,
relative seeks are exact, and what `aesd_read` passes to the lookup is the position.
-/

namespace Aesd.Server

open Aesd.Driver
open Aesd.Verified.Loops
open Aesd.Verified.Runs

/-! ## One file -/

/-- An open file at a position that counts, on a device whose ring is well formed. -/
structure DeviceFile.Counts (d : DeviceFile) : Prop where
  wf : Wf d.kernel.dev.circularBuffer
  opened : d.file.privateData = true
  nonneg : 0 ≤ d.file.fPos
  lt : d.file.fPos < 2 ^ 63

namespace DeviceFile.Counts

variable {d : DeviceFile}

/-- A read starts at the position of the file. -/
theorem readState (h : d.Counts) (sched : Schedule) (count : Nat) :
    (ReadState.start d.kernel sched count d.file.fPos).Counts d.kernel.dev.circularBuffer :=
  { ring := rfl
    nonneg := h.nonneg
    lt := h.lt }

/-- The rounds of a read of the file. -/
theorem reads (h : d.Counts) (hfit : storedBytes d.kernel.dev.circularBuffer < 2 ^ 63)
    (sched : Schedule) (count : Nat) :
    let start := ReadState.start d.kernel sched count d.file.fPos
    let r := aesdRead (d.kernel.enter sched) d.file count d.file.fPos
    Ends readRound start r ∧
      (∀ s, Relation.ReflTransGen (Again readRound) start s →
        s.Counts d.kernel.dev.circularBuffer) ∧ 0 ≤ r.pos ∧ r.pos < 2 ^ 63 := by
  intro start r
  have hr : r = readFrom count start := aesdRead_eq_readFrom h.opened count d.file.fPos
  rw [hr]
  exact (h.readState sched count).run h.wf hfit (Nat.le_refl count)

theorem read (h : d.Counts) (hfit : storedBytes d.kernel.dev.circularBuffer < 2 ^ 63)
    (sched : Schedule) (count : Nat) : (d.read sched count).2.2.Counts := by
  have hpos := (h.reads hfit sched count).2.2
  have hring := aesdRead_ring (d.kernel.enter sched) d.file count d.file.fPos
  have hwf : Wf (aesdRead (d.kernel.enter sched) d.file count d.file.fPos).kernel.dev.circularBuffer
      := hring ▸ h.wf
  simp only [DeviceFile.read]
  split
  · exact ⟨hwf, h.opened, hpos.1, hpos.2⟩
  · exact ⟨hwf, h.opened, h.nonneg, h.lt⟩

theorem write (h : d.Counts) (sched : Schedule) (buf : List UInt8) :
    (d.write sched buf).2.Counts :=
  { wf := wf_aesdWrite (by exact h.wf) d.file buf
    opened := h.opened
    nonneg := h.nonneg
    lt := h.lt }

theorem lseek (h : d.Counts) (offset : Loff) (whence : Int) : (d.lseek offset whence).2.Counts := by
  simp only [DeviceFile.lseek]
  rcases aesdLlseek_spec h.opened offset.2.2 whence with heq | ⟨q, hq, heq⟩
  · rw [heq]
    exact h
  · rw [heq]
    exact ⟨h.wf, h.opened, Int.natCast_nonneg q, by simp only; omega⟩

theorem ioctl (h : d.Counts) (hfit : storedBytes d.kernel.dev.circularBuffer < 2 ^ 63)
    (sched : Schedule) (cmd : Nat) (arg : AesdSeekto) : (d.ioctl sched cmd arg).2.Counts := by
  have hring := unlockedIoctl_ring (d.kernel.enter sched) d.file cmd arg
  have hwf : Wf (unlockedIoctl (d.kernel.enter sched) d.file cmd arg).2.1.dev.circularBuffer :=
    hring ▸ h.wf
  rcases unlockedIoctl_moves (k := d.kernel.enter sched) hfit d.file cmd arg with
    heq | ⟨q, hq, heq⟩
  · simp only [DeviceFile.ioctl, heq]
    exact ⟨hwf, h.opened, h.nonneg, h.lt⟩
  · simp only [DeviceFile.ioctl, heq]
    have hlt : q < storedBytes d.kernel.dev.circularBuffer := hq
    exact ⟨hwf, h.opened, Int.natCast_nonneg q, by simp only; omega⟩

/-- **The step lemma.**  No operation leaves a position that does not count. -/
theorem perform (h : d.Counts) (hfit : storedBytes d.kernel.dev.circularBuffer < 2 ^ 63)
    (c : FileCall) : (d.perform c).2.Counts := by
  rcases c with ⟨sched, op⟩
  cases op with
  | read count => exact h.read hfit sched count
  | write chunk => exact h.write sched chunk
  | llseek offset whence => exact h.lseek offset whence
  | ioctl cmd arg => exact h.ioctl hfit sched cmd arg

end DeviceFile.Counts

/-! ## All files -/

variable {ι : Type}

/-- Every file is at a position that counts. -/
def OpenFiles.Counts (s : OpenFiles ι) : Prop :=
  ∀ i, DeviceFile.Counts { kernel := s.kernel, file := s.file i }

theorem OpenFiles.counts_start {k : Kernel} (h : Wf k.dev.circularBuffer) :
    (OpenFiles.start k : OpenFiles ι).Counts := fun _ =>
  { wf := h
    opened := rfl
    nonneg := Int.le_refl 0
    lt := show (0 : Int) < 2 ^ 63 by decide }

variable [DecidableEq ι]

/-- The files that an operation leaves. -/
def OpenFiles.next (s : OpenFiles ι) (e : ι × FileCall) : OpenFiles ι := (s.step e).2

/-- The bytes of the ring are fewer than a position can count. -/
def OpenFiles.Fits (s : OpenFiles ι) : Prop := storedBytes s.kernel.dev.circularBuffer < 2 ^ 63

instance (s : OpenFiles ι) : Decidable s.Fits := inferInstanceAs (Decidable (_ < _))

theorem OpenFiles.Counts.next {s : OpenFiles ι} (h : s.Counts) (hfit : s.Fits)
    (e : ι × FileCall) : (s.next e).Counts := by
  have hperf := (h e.1).perform hfit e.2
  intro i
  by_cases hi : i = e.1
  · subst hi
    simpa [OpenFiles.next, OpenFiles.step] using hperf
  · refine ⟨hperf.wf, ?_, ?_, ?_⟩
    · simpa [OpenFiles.next, OpenFiles.step, hi] using (h i).opened
    · simpa [OpenFiles.next, OpenFiles.step, hi] using (h i).nonneg
    · simpa [OpenFiles.next, OpenFiles.step, hi] using (h i).lt

/-- What is asked of an operation `e` on the files `s`: every position counts; a relative
seek answers with the sum of the old position and the offset and moves there, or refuses
and stays, if the sum is not a position; and in each round of a read, which is a run of
rounds that ends, the position is passed to the lookup as a number. -/
structure OpenFiles.Exact (s : OpenFiles ι) (e : ι × FileCall) : Prop where
  position : ∀ i, 0 ≤ (s.file i).fPos ∧ (s.file i).fPos < 2 ^ 63
  seekCur : ∀ offset, e.2.op = .llseek offset SEEK_CUR →
    let sum := (s.file e.1).fPos + offset
    if 0 ≤ sum ∧ sum < 2 ^ 63 then (s.step e).1.2.1 = sum ∧ ((s.next e).file e.1).fPos = sum
    else (s.step e).1.2.1 = -EINVAL ∧ ((s.next e).file e.1).fPos = (s.file e.1).fPos
  lookup : ∀ count, e.2.op = .read count →
    let pos := (s.file e.1).fPos
    let start := ReadState.start s.kernel e.2.sched count pos
    Ends readRound start (aesdRead (s.kernel.enter e.2.sched) (s.file e.1) count pos) ∧
      ∀ round, Relation.ReflTransGen (Again readRound) start round →
        (toSize round.pos : Int) = round.pos

theorem OpenFiles.Counts.exact {s : OpenFiles ι} (h : s.Counts) (hfit : s.Fits)
    (e : ι × FileCall) : s.Exact e := by
  have hfile := h e.1
  rcases e with ⟨j, sched, op⟩
  refine ⟨fun i => ⟨(h i).nonneg, (h i).lt⟩, ?_, ?_⟩
  · intro offset hop sum
    obtain rfl : op = .llseek offset SEEK_CUR := hop
    have hcur := aesdLlseek_cur hfile.opened hfile.nonneg hfile.lt offset
    have hsum : sum = (s.file j).fPos + offset := rfl
    simp only [OpenFiles.next, OpenFiles.step, DeviceFile.perform, DeviceFile.lseek,
      Function.update_self, hcur, ← hsum]
    split <;> exact ⟨rfl, rfl⟩
  · intro count hop pos start
    obtain rfl : op = .read count := hop
    have hreads := hfile.reads hfit sched count
    exact ⟨hreads.1, fun round hround =>
      toSize_eq_self (hreads.2.1 round hround).nonneg (hreads.2.1 round hround).lt⟩

/-- **Positions neither go negative nor wrap.**  After any history of the device, in every
run of operations on files that start at position 0, during which the ring holds fewer
than `2 ^ 63` bytes, every operation is exact, and every position counts at the end. -/
theorem positions_never_wrap (garbage : Nat → Nat → UInt8) (history : List Call)
    (run : List (ι × FileCall))
    (hfit : Along OpenFiles.next (fun s _ => s.Fits)
      (OpenFiles.start (runCalls garbage history)) run) :
    Along OpenFiles.next OpenFiles.Exact (OpenFiles.start (runCalls garbage history)) run ∧
      ∀ i, 0 ≤ ((run.foldl OpenFiles.next (.start (runCalls garbage history))).file i).fPos ∧
        ((run.foldl OpenFiles.next (.start (runCalls garbage history))).file i).fPos < 2 ^ 63 := by
  have hstart : (OpenFiles.start (runCalls garbage history) : OpenFiles ι).Counts :=
    OpenFiles.counts_start (wf_runCalls garbage history)
  have hstep : ∀ (s : OpenFiles ι) e, s.Counts → s.Fits → (s.next e).Counts :=
    fun _ e h hs => h.next hs e
  constructor
  · exact (along_congr hstep (fun _ e h hs => iff_of_true hs (h.exact hs e)) hstart hfit).1 hfit
  · intro i
    have hend := invariant hstep hstart hfit i
    exact ⟨hend.nonneg, hend.lt⟩

/-- One file: a line is written, a seek to its second byte is made and one behind the last
position refused, the rest of the line is read, and the ioctl moves back to its start. -/
theorem positions_never_wrap_line :
    let start : OpenFiles Unit := .start (runCalls (fun _ _ => 0) [])
    let run : List (Unit × FileCall) := [
      ((), ⟨.limited [] [], .write [97, 98, 10]⟩),
      ((), ⟨.limited [] [], .llseek ⟨1, by decide⟩ SEEK_CUR⟩),
      ((), ⟨.limited [] [], .llseek ⟨2 ^ 63 - 1, by decide⟩ SEEK_CUR⟩),
      ((), ⟨.limited [] [], .read 5⟩),
      ((), ⟨.limited [] [], .ioctl AESDCHAR_IOCSEEKTO ⟨0, 0⟩⟩)]
    Along OpenFiles.next OpenFiles.Exact start run := by
  intro start run
  exact (positions_never_wrap (fun _ _ => 0) [] run (by decide +kernel)).1

end Aesd.Server
