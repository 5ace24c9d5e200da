import Aesd.Driver.CallAnswers
import Aesd.Driver.Positions
import Aesd.Server.DeviceFile
import Aesd.Verified.Bystanders

/-!
# The device as a file of lines

What the driver is to its users, whatever the kernel refuses: every file is closed or
stands at a position, and all of them read, write and seek in one line log.  Files are
opened and closed at any time, allocations and user copies fail at any time, and every
operation answers on the device what it answers on the line log.
-/

namespace Aesd.Server

open Aesd.Driver
open Aesd.Verified.Bystanders
open Aesd.Verified.Segments

/-! ## On the device -/

/-- What happens to a file. -/
inductive FileEvent
  | openFile
  | call (op : FileOp)
  | close

/-- Something happens to a file, and the kernel answers by `sched`. -/
structure FileStep where
  sched : Schedule
  event : FileEvent

/-- The returned value, the bytes delivered, and the file that is left. -/
def DeviceFile.handle (d : DeviceFile) (e : FileStep) : (Int × List UInt8) × DeviceFile :=
  match e.event with
  | .openFile =>
      let r := aesdOpen { privateData := false, fPos := 0 }
      ((r.1, []), { d with file := r.2 })
  | .call op => d.perform ⟨e.sched, op⟩
  | .close => (((aesdRelease (d.kernel.enter e.sched) d.file).1, []), d.close e.sched)

/-- The device and its open files. -/
structure OpenFiles (ι : Type) where
  kernel : Kernel
  file : ι → File

variable {ι : Type}

/-- Files that have just been opened. -/
def OpenFiles.start (kernel : Kernel) : OpenFiles ι :=
  { kernel := kernel, file := fun _ => .opened }

/-- Files none of which is open. -/
def OpenFiles.closed (kernel : Kernel) : OpenFiles ι :=
  { kernel := kernel, file := fun _ => { privateData := false, fPos := 0 } }

/-- Something happens to file `e.1`, which is named in the answer. -/
def OpenFiles.handle [DecidableEq ι] (s : OpenFiles ι) (e : ι × FileStep) :
    (ι × Int × List UInt8) × OpenFiles ι :=
  let r := DeviceFile.handle { kernel := s.kernel, file := s.file e.1 } e.2
  ((e.1, r.1), { kernel := r.2.kernel, file := Function.update s.file e.1 r.2.file })

/-! ## On the line log -/

/-- Where `lseek` goes from position `p`, before it is looked at. -/
def seekFrom (p : Nat) (offset whence : Int) : Option Int :=
  if whence = SEEK_SET then some offset
  else if whence = SEEK_CUR then some (p + offset)
  else if whence = SEEK_END then some (maxWriteOperationsSupported + offset)
  else none

/-- An operation on a file at position `p` of the line log: the answer, and the line log
and the position that are left. -/
def FileOp.act (sched : Schedule) (log : LineLog) (p : Nat) :
    FileOp → (Int × List UInt8) × LineLog × Nat
  | .read count =>
      let walk := readEntries sched.copy 0 (segmentsFrom log.entries p) count
      if walk.2 = .fault then ((-EFAULT, walk.1), log, p)
      else ((walk.1.length, walk.1), log, p + walk.1.length)
  | .write chunk =>
      let outcome := writeOutcome sched log chunk
      ((outcome.ret chunk, []), outcome.log log chunk, p)
  | .llseek offset whence =>
      match seekFrom p offset whence with
      | none => ((-EINVAL, []), log, p)
      | some q => if 0 ≤ q ∧ q < 2 ^ 63 then ((q, []), log, q.toNat) else ((-EINVAL, []), log, p)
  | .ioctl cmd arg =>
      if cmd = AESDCHAR_IOCSEEKTO then
        if sched.copy 0 = false then ((-EFAULT, []), log, p)
        else match log.seekTarget arg.writeCmd.toNat arg.writeCmdOffset.toNat with
          | some q => ((0, []), log, q)
          | none => ((-EINVAL, []), log, p)
      else ((-ENOTTY, []), log, p)

/-- Only a write changes the line log, and it does not look at the position. -/
theorem FileOp.log_act (sched : Schedule) (log : LineLog) (p : Nat) (op : FileOp) :
    (op.act sched log p).2.1 =
      match op with
      | .write chunk => (writeOutcome sched log chunk).log log chunk
      | _ => log := by
  cases op with
  | write chunk => rfl
  | read count =>
      simp only [FileOp.act]
      split <;> rfl
  | llseek offset whence =>
      simp only [FileOp.act]
      split
      · rfl
      · split <;> rfl
  | ioctl cmd arg =>
      simp only [FileOp.act]
      split
      · split
        · rfl
        · split <;> rfl
      · rfl

/-- What happens to a file that is closed, or stands at a position. -/
def FileStep.act (log : LineLog) (p : Option Nat) (e : FileStep) :
    (Int × List UInt8) × LineLog × Option Nat :=
  match e.event, p with
  | .openFile, _ => ((0, []), log, some 0)
  | .call _, none => ((-ENODEV, []), log, none)
  | .call op, some p =>
      let r := op.act e.sched log p
      (r.1, r.2.1, some r.2.2)
  | .close, none => ((-ENODEV, []), log, none)
  | .close, some _ => ((0, []), log, none)

/-! ## The device keeps to the line log -/

/-- The file is closed, or open at a position that the driver can count. -/
def StandsAt (f : File) : Option Nat → Prop
  | none => f.privateData = false
  | some p => f = { privateData := true, fPos := p } ∧ p < 2 ^ 63

/-- An answer on the device and the file it leaves are those on the line log. -/
structure DeviceFile.Keeps (result : (Int × List UInt8) × DeviceFile)
    (spec : (Int × List UInt8) × LineLog × Option Nat) : Prop where
  answer : result.1 = spec.1
  sound : Sound result.2.kernel
  log : Driver.log result.2.kernel = spec.2.1
  file : StandsAt result.2.file spec.2.2

/-- A sum that does not fit a position wraps to a negative number. -/
theorem ite_wrap64 {α : Type*} {q : Int} (hlo : -2 ^ 63 ≤ q) (hhi : q < sizeMod) (refuse : α)
    (go : Int → α) :
    (if wrap64 q < 0 then refuse else go (wrap64 q)) =
      if 0 ≤ q ∧ q < 2 ^ 63 then go q else refuse := by
  by_cases hfit : q < 2 ^ 63
  · rw [wrap64_of_range hlo hfit]
    by_cases hneg : q < 0
    · rw [if_pos hneg, if_neg (by omega)]
    · rw [if_neg hneg, if_pos (by omega)]
  · have hwrap : wrap64 q < 0 := by
      rw [← wrap64_sub q, wrap64_of_range]
      all_goals
        simp only [sizeMod] at *
        omega
    rw [if_pos hwrap, if_neg (by omega)]

/-- **`aesd_llseek`** refuses what does not fit a position, and else goes there. -/
theorem aesdLlseek_eq {p : Nat} (hp : p < 2 ^ 63) (offset : Loff) (whence : Int) :
    aesdLlseek { privateData := true, fPos := p } offset whence =
      match seekFrom p offset whence with
      | none => (-EINVAL, { privateData := true, fPos := p })
      | some q =>
          if 0 ≤ q ∧ q < 2 ^ 63 then (q, { privateData := true, fPos := q })
          else (-EINVAL, { privateData := true, fPos := p }) := by
  have hlo := offset.2.1
  have hhi := offset.2.2
  have hgo : ∀ q : Int, -2 ^ 63 ≤ q → q < sizeMod →
      (if wrap64 q < 0 then ((-EINVAL, { privateData := true, fPos := p }) : Int × File)
        else (wrap64 q, { privateData := true, fPos := wrap64 q })) =
        if 0 ≤ q ∧ q < 2 ^ 63 then (q, { privateData := true, fPos := q })
        else (-EINVAL, { privateData := true, fPos := p }) := fun q hq hq' =>
    ite_wrap64 hq hq' ((-EINVAL, ⟨true, p⟩) : Int × File) fun q => (q, ⟨true, q⟩)
  unfold aesdLlseek seekFrom
  simp only [Bool.true_eq_false, if_false]
  by_cases hset : whence = SEEK_SET
  · have hoffset := hgo offset hlo (by rw [sizeMod]; omega)
    rw [wrap64_of_range hlo hhi] at hoffset
    simp only [hset, if_true]
    exact hoffset
  by_cases hcur : whence = SEEK_CUR
  · simp only [hcur, if_true, SEEK_CUR, SEEK_SET]
    exact hgo _ (by omega) (by rw [sizeMod]; omega)
  by_cases hend : whence = SEEK_END
  · simp only [hend, if_true, SEEK_CUR, SEEK_SET, SEEK_END, maxWriteOperationsSupported]
    exact hgo _ (by omega) (by rw [sizeMod]; omega)
  · simp only [hset, hcur, hend, if_false]

/-! ### Operation by operation -/

section Operations

variable {k : Kernel} {p : Nat} {sched : Schedule}

/-- What an operation leaves in the kernel. -/
theorem keeps_of (hk : Sound k) (hreal : sched.Realistic) (op : Op)
    {result : (Int × List UInt8) × DeviceFile} {spec : (Int × List UInt8) × LineLog × Option Nat}
    (hkernel : result.2.kernel = exec k ⟨sched, ⟨true, p⟩, op⟩) (hanswer : result.1 = spec.1)
    (hlog : spec.2.1 = Call.effect ⟨sched, ⟨true, p⟩, op⟩ (log k))
    (hfile : StandsAt result.2.file spec.2.2) : DeviceFile.Keeps result spec :=
  { answer := hanswer
    sound := hkernel ▸ exec_sound hk (c := ⟨sched, ⟨true, p⟩, op⟩) hreal
    log := by rw [hkernel, hlog, (exec_spec hk (c := ⟨sched, ⟨true, p⟩, op⟩) hreal).2.1]
    file := hfile }

theorem keeps_read (hk : Sound k) (hp : p < 2 ^ 63) (hreal : sched.Realistic) (count : Nat) :
    DeviceFile.Keeps (DeviceFile.perform ⟨k, ⟨true, p⟩⟩ ⟨sched, .read count⟩)
      (FileStep.act (log k) (some p) ⟨sched, .call (.read count)⟩) := by
  have hloff : -2 ^ 63 ≤ (p : Int) ∧ (p : Int) < 2 ^ 63 := by omega
  have hanswer := @Sound.answerOf_read _ hk sched ⟨true, p⟩ rfl count ⟨p, hloff⟩
  have hlt := hk.wf.contents_lt
  simp only [answerOf, readAnswer, toSize_natCast (show p < sizeMod by rw [sizeMod]; omega),
    Answer.mk.injEq] at hanswer
  obtain ⟨hret, hbytes, hpos⟩ := hanswer
  have hlen : ∀ bytes, (readEntries sched.copy 0 (segmentsFrom (log k).entries p) count).2 ≠
      .fault → (readEntries sched.copy 0 (segmentsFrom (log k).entries p) count).1 = bytes →
        p + bytes.length < 2 ^ 63 := by
    intro bytes hserved hwalk
    rw [readEntries_fst hserved, flatten_segmentsFrom] at hwalk
    rw [← hwalk, List.length_take, List.length_drop]
    simp only [LineLog.contents] at hlt
    omega
  refine keeps_of hk hreal (.read count ⟨p, hloff⟩) rfl ?_ ?_ ?_
  · simp only [DeviceFile.perform, DeviceFile.read, FileStep.act, FileOp.act, hret, hbytes]
    split <;> rfl
  · simp only [FileStep.act, FileOp.act, Call.effect]
    split <;> rfl
  · simp only [DeviceFile.perform, DeviceFile.read, FileStep.act, FileOp.act, hret, hpos]
    by_cases hfault : (readEntries sched.copy 0 (segmentsFrom (log k).entries p) count).2 = .fault
    · rw [if_pos hfault, if_pos hfault, if_neg (by decide)]
      exact ⟨rfl, hp⟩
    · rw [if_neg hfault, if_neg hfault, if_pos (Int.natCast_nonneg _)]
      exact ⟨by rw [Int.natCast_add], hlen _ hfault rfl⟩

theorem keeps_write (hk : Sound k) (hp : p < 2 ^ 63) (hreal : sched.Realistic)
    (chunk : List UInt8) :
    DeviceFile.Keeps (DeviceFile.perform ⟨k, ⟨true, p⟩⟩ ⟨sched, .write chunk⟩)
      (FileStep.act (log k) (some p) ⟨sched, .call (.write chunk)⟩) := by
  refine keeps_of hk hreal (.write chunk) rfl ?_ ?_ ⟨rfl, hp⟩
  · exact Prod.ext (hk.aesdWrite hreal rfl chunk).1 rfl
  · simp only [FileStep.act, FileOp.act, Call.effect, if_true]

theorem keeps_llseek (hk : Sound k) (hp : p < 2 ^ 63) (offset : Loff) (whence : Int) :
    DeviceFile.Keeps (DeviceFile.perform ⟨k, ⟨true, p⟩⟩ ⟨sched, .llseek offset whence⟩)
      (FileStep.act (log k) (some p) ⟨sched, .call (.llseek offset whence)⟩) := by
  simp only [DeviceFile.perform, DeviceFile.lseek, FileStep.act, FileOp.act,
    aesdLlseek_eq hp offset whence]
  cases seekFrom p offset whence with
  | none => exact ⟨rfl, hk, rfl, rfl, hp⟩
  | some q =>
      by_cases hq : 0 ≤ q ∧ q < 2 ^ 63
      · simp only [if_pos hq]
        refine ⟨rfl, hk, rfl, ?_, by omega⟩
        rw [Int.toNat_of_nonneg hq.1]
      · simp only [if_neg hq]
        exact ⟨rfl, hk, rfl, rfl, hp⟩

/-- The ioctl moves the file at most. -/
theorem unlockedIoctl_privateData (k : Kernel) (filp : File) (cmd : Nat) (arg : AesdSeekto) :
    (unlockedIoctl k filp cmd arg).2.2.privateData = filp.privateData := by
  rw [unlockedIoctl]
  split_ifs
  · rfl
  · rcases (aesdIoctlSetPos_cases k filp arg).2 with hstays | ⟨x, y, pos, -, -, -, -, hmoves⟩
    · rw [hstays]
    · rw [hmoves]
  · rfl

theorem keeps_ioctl (hk : Sound k) (hp : p < 2 ^ 63) (hreal : sched.Realistic) (cmd : Nat)
    (arg : AesdSeekto) :
    DeviceFile.Keeps (DeviceFile.perform ⟨k, ⟨true, p⟩⟩ ⟨sched, .ioctl cmd arg⟩)
      (FileStep.act (log k) (some p) ⟨sched, .call (.ioctl cmd arg)⟩) := by
  have hanswer := @Sound.answerOf_ioctl _ hk sched ⟨true, p⟩ rfl cmd arg
  have hopen := unlockedIoctl_privateData (k.enter sched) ⟨true, p⟩ cmd arg
  have hlt := hk.wf.contents_lt
  -- The answer and the file of each branch, from the answer of the line log.
  have hbranch : ∀ (ret : Int) (q : Nat), q < 2 ^ 63 →
      Call.answer ⟨sched, ⟨true, p⟩, .ioctl cmd arg⟩ (log k) = ⟨ret, [], q⟩ →
      FileStep.act (log k) (some p) ⟨sched, .call (.ioctl cmd arg)⟩ = ((ret, []), log k, some q) →
      DeviceFile.Keeps (DeviceFile.perform ⟨k, ⟨true, p⟩⟩ ⟨sched, .ioctl cmd arg⟩)
        (FileStep.act (log k) (some p) ⟨sched, .call (.ioctl cmd arg)⟩) := by
    intro ret q hq hcall hact
    rw [hcall] at hanswer
    simp only [answerOf, Answer.mk.injEq, true_and] at hanswer
    rw [hact]
    refine keeps_of hk hreal (.ioctl cmd arg) rfl ?_ rfl ⟨?_, hq⟩
    · exact Prod.ext hanswer.1 rfl
    · simp only [DeviceFile.perform, DeviceFile.ioctl]
      generalize (unlockedIoctl (k.enter sched) ⟨true, p⟩ cmd arg).2.2 = file at *
      rcases file with ⟨privateData, fPos⟩
      simp only at hopen hanswer
      rw [hopen, hanswer.2]
  by_cases hcmd : cmd = AESDCHAR_IOCSEEKTO
  · cases hcopy : sched.copy 0 with
    | false =>
        exact hbranch (-EFAULT) p hp (by simp [Call.answer, hcmd, hcopy, Call.refuse, Call.pos])
          (by simp [FileStep.act, FileOp.act, hcmd, hcopy])
    | true =>
        cases htarget : (log k).seekTarget arg.writeCmd.toNat arg.writeCmdOffset.toNat with
        | none =>
            exact hbranch (-EINVAL) p hp
              (by simp [Call.answer, hcmd, hcopy, htarget, Call.refuse, Call.pos])
              (by simp [FileStep.act, FileOp.act, hcmd, hcopy, htarget])
        | some q =>
            exact hbranch 0 q ((LineLog.seekTarget_lt htarget).trans hlt)
              (by simp [Call.answer, hcmd, hcopy, htarget])
              (by simp [FileStep.act, FileOp.act, hcmd, hcopy, htarget])
  · exact hbranch (-ENOTTY) p hp (by simp [Call.answer, hcmd, Call.refuse, Call.pos])
      (by simp [FileStep.act, FileOp.act, hcmd])

/-- **Whatever happens to an open file** is answered alike. -/
theorem keeps_opened (hk : Sound k) (hp : p < 2 ^ 63) (e : FileStep) (hreal : e.sched.Realistic) :
    DeviceFile.Keeps (DeviceFile.handle ⟨k, ⟨true, p⟩⟩ e) (e.act (log k) (some p)) := by
  rcases e with ⟨sched, event⟩
  cases event with
  | openFile => exact ⟨rfl, hk, rfl, rfl, Nat.two_pow_pos 63⟩
  | close => exact keeps_of (p := p) hk hreal .release rfl rfl rfl rfl
  | call op =>
      cases op with
      | read count => exact keeps_read hk hp hreal count
      | write chunk => exact keeps_write hk hp hreal chunk
      | llseek offset whence => exact keeps_llseek hk hp offset whence
      | ioctl cmd arg => exact keeps_ioctl hk hp hreal cmd arg

/-- A file that is not open is refused everything but being opened. -/
theorem keeps_closed (hk : Sound k) (pos : Int) (e : FileStep) (hreal : e.sched.Realistic) :
    DeviceFile.Keeps (DeviceFile.handle ⟨k, ⟨false, pos⟩⟩ e) (e.act (log k) none) := by
  rcases e with ⟨sched, event⟩
  have hrefused : ∀ op, log (exec k ⟨sched, ⟨false, pos⟩, op⟩) = log k ∧
      Sound (exec k ⟨sched, ⟨false, pos⟩, op⟩) := by
    intro op
    refine ⟨?_, exec_sound hk hreal⟩
    rw [(exec_spec hk hreal).2.1]
    cases op <;> rfl
  cases event with
  | openFile => exact ⟨rfl, hk, rfl, rfl, Nat.two_pow_pos 63⟩
  | close => exact ⟨rfl, (hrefused .release).2, (hrefused .release).1, rfl⟩
  | call op =>
      cases op with
      | read count =>
          have hloff : -2 ^ 63 ≤ (0 : Int) ∧ (0 : Int) < 2 ^ 63 := by decide
          exact ⟨rfl, (hrefused (.read count ⟨0, hloff⟩)).2,
            (hrefused (.read count ⟨0, hloff⟩)).1, rfl⟩
      | write chunk =>
          exact ⟨rfl, (hrefused (.write chunk)).2, (hrefused (.write chunk)).1, rfl⟩
      | llseek offset whence => exact ⟨rfl, hk, rfl, rfl⟩
      | ioctl cmd arg =>
          exact ⟨rfl, (hrefused (.ioctl cmd arg)).2, (hrefused (.ioctl cmd arg)).1, rfl⟩

end Operations

/-! ### Whole runs -/

/-- The files on the device stand for the line log and the positions of the files that are
open. -/
structure OpenFiles.Refines (s : OpenFiles ι) (t : LineLog × (ι → Option Nat)) : Prop where
  sound : Sound s.kernel
  log : Driver.log s.kernel = t.1
  file : ∀ i, StandsAt (s.file i) (t.2 i)

theorem OpenFiles.refines_closed {k : Kernel} (hk : Sound k) :
    (OpenFiles.closed k : OpenFiles ι).Refines (log k, fun _ => none) :=
  { sound := hk, log := rfl, file := fun _ => rfl }

theorem OpenFiles.refines_start {k : Kernel} (hk : Sound k) :
    (OpenFiles.start k : OpenFiles ι).Refines (log k, fun _ => some 0) :=
  { sound := hk, log := rfl, file := fun _ => ⟨rfl, Nat.two_pow_pos 63⟩ }

theorem keeps_handle {k : Kernel} (hk : Sound k) {f : File} {p : Option Nat} (hf : StandsAt f p)
    (e : FileStep) (hreal : e.sched.Realistic) :
    DeviceFile.Keeps (DeviceFile.handle ⟨k, f⟩ e) (e.act (log k) p) := by
  cases p with
  | none =>
      rcases f with ⟨privateData, pos⟩
      obtain rfl : privateData = false := hf
      exact keeps_closed hk pos e hreal
  | some p =>
      obtain ⟨rfl, hp⟩ := hf
      exact keeps_opened hk hp e hreal

variable [DecidableEq ι]

/-- **The step lemma.**  One event is answered alike and keeps the correspondence. -/
theorem OpenFiles.refines_handle {s : OpenFiles ι} {t : LineLog × (ι → Option Nat)}
    {e : ι × FileStep} (h : s.Refines t) (hreal : e.2.sched.Realistic) :
    (s.handle e).1 = (turn FileStep.act t e).1 ∧
      (s.handle e).2.Refines (turn FileStep.act t e).2 := by
  rcases e with ⟨j, e⟩
  rcases t with ⟨log, p⟩
  obtain rfl : Driver.log s.kernel = log := h.log
  have hkeeps := keeps_handle h.sound (h.file j) e hreal
  refine ⟨congrArg (Prod.mk j) hkeeps.answer, hkeeps.sound, hkeeps.log, fun i => ?_⟩
  by_cases hi : i = j
  · subst hi
    simpa [OpenFiles.handle, turn] using hkeeps.file
  · simpa [OpenFiles.handle, turn, hi] using h.file i

/-- **The run lemma.** -/
theorem OpenFiles.refines_run {s : OpenFiles ι} {t : LineLog × (ι → Option Nat)}
    (h : s.Refines t) {run : List (ι × FileStep)} (hrun : ∀ e ∈ run, e.2.sched.Realistic) :
    (transcript OpenFiles.handle s run).1 = (transcript (turn FileStep.act) t run).1 ∧
      (transcript OpenFiles.handle s run).2.Refines (transcript (turn FileStep.act) t run).2 := by
  have hstep : ∀ (s : OpenFiles ι) (t : LineLog × (ι → Option Nat)) (e : ι × FileStep),
      s.Refines t → e.2.sched.Realistic → (s.handle e).1 = (turn FileStep.act t e).1 ∧
        (s.handle e).2.Refines (turn FileStep.act t e).2 :=
    fun _ _ _ h he => OpenFiles.refines_handle h he
  exact transcript_simulates hstep hrun h

/-- **The device is a file of lines.**  After any history, whatever happens to any number of
files and whatever the kernel refuses, every answer is that of the line log, and so are the
stored lines, the pending bytes and the positions at the end. -/
theorem open_files_refine_log (garbage : Nat → Nat → UInt8) (history : List Call)
    (hreal : ∀ c ∈ history, c.sched.Realistic) (run : List (ι × FileStep))
    (hrun : ∀ e ∈ run, e.2.sched.Realistic) :
    let k := runCalls garbage history
    let r := transcript OpenFiles.handle (.closed k) run
    let spec := transcript (turn FileStep.act) (log k, fun _ => none) run
    r.1 = spec.1 ∧ r.2.Refines spec.2 := by
  intro k r spec
  have hk : Sound k := runCalls_sound garbage hreal
  exact OpenFiles.refines_run (OpenFiles.refines_closed hk) hrun

/-- Two files: a line written through one is read through the other, first with a failing
copy; the last read comes when the file is closed. -/
theorem open_files_refine_log_two :
    (transcript OpenFiles.handle (OpenFiles.closed (runCalls (fun _ _ => 0) []))
      [(0, ⟨.limited [] [], .openFile⟩), (1, ⟨.limited [] [], .openFile⟩),
        (0, ⟨.limited [] [], .call (.write [97, 10])⟩),
        (1, ⟨.limited [] [0], .call (.read 5)⟩), (1, ⟨.limited [] [], .call (.read 5)⟩),
        (1, ⟨.limited [] [], .close⟩), (1, ⟨.limited [] [], .call (.read 5)⟩)]).1 =
      [(0, 0, []), (1, 0, []), (0, 2, []), (1, -14, []), (1, 2, [97, 10]), (1, 0, []),
        (1, -19, [])] := by
  have hrun := (open_files_refine_log (fun _ _ => 0) [] (by simp)
    [((0 : Nat), ⟨.limited [] [], .openFile⟩), (1, ⟨.limited [] [], .openFile⟩),
      (0, ⟨.limited [] [], .call (.write [97, 10])⟩),
      (1, ⟨.limited [] [0], .call (.read 5)⟩), (1, ⟨.limited [] [], .call (.read 5)⟩),
      (1, ⟨.limited [] [], .close⟩), (1, ⟨.limited [] [], .call (.read 5)⟩)]
    (by simp [Schedule.realistic_limited])).1
  rw [hrun]
  decide +kernel

end Aesd.Server
