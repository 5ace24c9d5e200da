import Aesd.Server.LogFiles

/-!
# Several open files of one device

Each open file has a position of its own, and all share the device.  An operation is
either a write, which changes the device and no position, or it leaves the device as it
is and moves the position of its own file at most.  So the operations on a file are
answered as if the others had not read or moved.
-/

namespace Aesd.Server

open Aesd.Driver
open Aesd.Verified.Bystanders

variable {ι : Type}

/-! ## Operations on open files -/

/-- One operation on file `e.1`, which is named in the answer. -/
def OpenFiles.step [DecidableEq ι] (s : OpenFiles ι) (e : ι × FileCall) :
    (ι × Int × List UInt8) × OpenFiles ι :=
  let r := DeviceFile.perform { kernel := s.kernel, file := s.file e.1 } e.2
  ((e.1, r.1), { kernel := r.2.kernel, file := Function.update s.file e.1 r.2.file })

/-- What an operation answers and leaves, for the line log and the position of its
file. -/
def FileCall.act (log : LineLog) (p : Nat) (c : FileCall) : (Int × List UInt8) × LineLog × Nat :=
  c.op.act c.sched log p

/-- Everything but a write. -/
def FileCall.Quiet (c : FileCall) : Prop :=
  match c.op with
  | .write _ => False
  | _ => True

theorem FileCall.act_quiet (log : LineLog) (p : Nat) {c : FileCall} (h : c.Quiet) :
    (c.act log p).2.1 = log := by
  rcases c with ⟨sched, op⟩
  rw [FileCall.act, FileOp.log_act]
  cases op with
  | write chunk => exact absurd h id
  | read | llseek | ioctl => rfl

/-- What an operation does to the line log does not depend on the position. -/
theorem FileCall.act_blind (log : LineLog) (p q : Nat) (c : FileCall) :
    (c.act log p).2.1 = (c.act log q).2.1 := by
  rw [FileCall.act, FileCall.act, FileOp.log_act, FileOp.log_act]

/-! ## Open files do not disturb one another -/

/-- The user copies of the operation go through. -/
def FileCall.Succeeds (c : FileCall) : Prop := c.sched.Realistic ∧ ∀ i, c.sched.copy i = true

/-- The open files stand for a line log and their positions. -/
def OpenFiles.Stands (s : OpenFiles ι) (t : LineLog × (ι → Nat)) : Prop :=
  s.Refines (t.1, fun i => some (t.2 i))

variable [DecidableEq ι]

/-- An operation on an open file is one of the things that happen to it. -/
theorem OpenFiles.stands_step {s : OpenFiles ι} {t : LineLog × (ι → Nat)} {e : ι × FileCall}
    (h : s.Stands t) (he : e.2.sched.Realistic) :
    (s.step e).1 = (turn FileCall.act t e).1 ∧ (s.step e).2.Stands (turn FileCall.act t e).2 := by
  obtain ⟨hanswer, hrefines⟩ :=
    OpenFiles.refines_handle (e := (e.1, ⟨e.2.sched, .call e.2.op⟩)) h he
  refine ⟨hanswer, ?_⟩
  have hpositions : (fun i => some ((turn FileCall.act t e).2.2 i)) =
      (turn FileStep.act (t.1, fun i => some (t.2 i)) (e.1, ⟨e.2.sched, .call e.2.op⟩)).2.2 := by
    funext i
    by_cases hi : i = e.1
    · subst hi
      simp [turn, FileCall.act, FileStep.act]
    · simp [turn, hi]
  unfold OpenFiles.Stands
  rw [hpositions]
  exact hrefines

/-- **Open files do not disturb one another.**  After any history of the device, dropping
reads and seeks on other files from a run changes neither the results and the bytes of the
operations on a file nor the entries and the pending bytes at the end; and a write moves no
file. -/
theorem open_files_independent (garbage : Nat → Nat → UInt8) (history : List Call)
    (hreal : ∀ c ∈ history, c.sched.Realistic) (f : ι) (run run' : List (ι × FileCall))
    (hrun : ∀ e ∈ run, e.2.Succeeds) (hthin : Thin FileCall.Quiet f run run') :
    let start := OpenFiles.start (runCalls garbage history)
    let r := transcript OpenFiles.step start run
    let r' := transcript OpenFiles.step start run'
    answersTo f r.1 = answersTo f r'.1 ∧ log r.2.kernel = log r'.2.kernel ∧
      ∀ (s : OpenFiles ι) i sched chunk, (s.step (i, ⟨sched, .write chunk⟩)).2.file = s.file := by
  intro start r r'
  have hstart : start.Stands (log (runCalls garbage history), fun _ => 0) :=
    OpenFiles.refines_start (runCalls_sound garbage hreal)
  have hrun' : ∀ e ∈ run', e.2.Succeeds := fun e he => hrun e (hthin.subset he)
  have hstep : ∀ (s : OpenFiles ι) (t : LineLog × (ι → Nat)) (e : ι × FileCall), s.Stands t →
      e.2.Succeeds → (s.step e).1 = (turn FileCall.act t e).1 ∧
        (s.step e).2.Stands (turn FileCall.act t e).2 :=
    fun _ _ _ h he => OpenFiles.stands_step h he.1
  have hsim := transcript_simulates hstep hrun hstart
  have hsim' := transcript_simulates hstep hrun' hstart
  have hquiet : ∀ log p (c : FileCall), c.Quiet → (c.act log p).2.1 = log := fun log p _ hc =>
    FileCall.act_quiet log p hc
  have htwo := thin_answers hquiet FileCall.act_blind hthin
    (s := (log (runCalls garbage history), fun _ => 0))
    (t := (log (runCalls garbage history), fun _ => 0)) rfl rfl
  refine ⟨?_, ?_, fun s i sched chunk => ?_⟩
  · show answersTo f (transcript OpenFiles.step start run).1 =
      answersTo f (transcript OpenFiles.step start run').1
    rw [hsim.1, hsim'.1]
    exact htwo.1
  · show log (transcript OpenFiles.step start run).2.kernel =
      log (transcript OpenFiles.step start run').2.kernel
    rw [hsim.2.log, hsim'.2.log]
    exact htwo.2
  · exact Function.update_eq_self i s.file

/-- File 1 reads and seeks between a write and a read of file 0. -/
theorem open_files_independent_two :
    let start : OpenFiles Nat := OpenFiles.start (runCalls (fun _ _ => 0) [])
    let write : Nat × FileCall := (0, ⟨.limited [] [], .write [97, 10]⟩)
    let read : Nat × FileCall := (0, ⟨.limited [] [], .read 2⟩)
    let others : List (Nat × FileCall) := [(1, ⟨.limited [] [], .read 1⟩),
      (1, ⟨.limited [] [], .llseek ⟨5, by decide⟩ SEEK_SET⟩)]
    answersTo 0 (transcript OpenFiles.step start (write :: others ++ [read])).1 =
      answersTo 0 (transcript OpenFiles.step start [write, read]).1 := by
  intro start write read others
  refine (open_files_independent (fun _ _ => 0) [] (by simp) 0 (write :: others ++ [read])
    [write, read] ?_ ?_).1
  · have hgood : FileCall.Succeeds ⟨.limited [] [], .read 0⟩ :=
      ⟨Schedule.realistic_limited [] [], fun _ => rfl⟩
    intro e he
    simp only [others, write, read, List.cons_append, List.nil_append, List.mem_cons,
      List.not_mem_nil, or_false] at he
    rcases he with rfl | rfl | rfl | rfl <;> exact hgood
  · exact .keep _ (.drop (by decide) trivial (.drop (by decide) trivial (.keep _ .nil)))

end Aesd.Server
