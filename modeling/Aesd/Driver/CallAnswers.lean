import Aesd.Driver.WriteRuns
import Aesd.Driver.ReadSlice

/-!
# What a call answers

A caller of the driver sees a returned value, the bytes put into its buffer, and the
position that the call leaves.  `answerOf` computes this on the kernel state and
`Call.answer` on the line log, failing allocations and user copies included; on a sound
device the two agree.
-/

namespace Aesd.Driver

open Aesd.Verified.Segments

/-- What the caller sees: the returned value, the bytes in its buffer, and `*f_pos` after
a read, `f_pos` of the file after anything else. -/
structure Answer where
  ret : Int
  delivered : List UInt8
  pos : Int
  deriving DecidableEq

/-- The answer of the driver. -/
def answerOf (k : Kernel) (c : Call) : Answer :=
  let k := k.enter c.sched
  match c.op with
  | .write chunk => { ret := (aesdWrite k c.filp chunk).1, delivered := [], pos := c.filp.fPos }
  | .read count pos =>
      let r := aesdRead k c.filp count pos
      { ret := r.ret, delivered := r.delivered, pos := r.pos }
  | .ioctl cmd arg =>
      let r := unlockedIoctl k c.filp cmd arg
      { ret := r.1, delivered := [], pos := r.2.2.fPos }
  | .llseek offset whence =>
      let r := aesdLlseek c.filp offset whence
      { ret := r.1, delivered := [], pos := r.2.fPos }
  | .release => { ret := (aesdRelease k c.filp).1, delivered := [], pos := c.filp.fPos }

/-- The position that the call is given. -/
def Call.pos (c : Call) : Int :=
  match c.op with
  | .read _ pos => pos
  | _ => c.filp.fPos

/-- An answer that delivers nothing and leaves the position. -/
def Call.refuse (c : Call) (ret : Int) : Answer := { ret := ret, delivered := [], pos := c.pos }

/-- The answer of a read from `pos` on that walks over the entries like this. -/
def readAnswer (pos : Int) (walk : List UInt8 × ReadExit) : Answer :=
  { ret := if walk.2 = .fault then -EFAULT else walk.1.length
    delivered := walk.1
    pos := pos + walk.1.length }

/-- The answer of the line log. -/
def Call.answer (c : Call) (log : LineLog) : Answer :=
  if c.filp.privateData = false then c.refuse (-ENODEV)
  else match c.op with
    | .write chunk => c.refuse ((writeOutcome c.sched log chunk).ret chunk)
    | .read count pos =>
        readAnswer pos (readEntries c.sched.copy 0 (segmentsFrom log.entries (toSize pos)) count)
    | .ioctl cmd arg =>
        if cmd = AESDCHAR_IOCSEEKTO then
          if c.sched.copy 0 = false then c.refuse (-EFAULT)
          else match log.seekTarget arg.writeCmd.toNat arg.writeCmdOffset.toNat with
            | some p => { ret := 0, delivered := [], pos := p }
            | none => c.refuse (-EINVAL)
        else c.refuse (-ENOTTY)
    | .llseek offset whence =>
        let r := aesdLlseek c.filp offset whence
        { ret := r.1, delivered := [], pos := r.2.fPos }
    | .release => c.refuse 0

variable {k : Kernel}

/-- A file that has been released is answered by the check of every operation. -/
theorem answerOf_released {c : Call} (h : c.filp.privateData = false) :
    answerOf k c = c.refuse (-ENODEV) := by
  rcases c with ⟨sched, filp, op⟩
  simp only at h
  cases op <;>
    simp [answerOf, Call.refuse, Call.pos, aesdWrite, aesdRead, unlockedIoctl, aesdLlseek,
      aesdRelease, h]

theorem Sound.answerOf_read (hk : Sound k) {sched : Schedule} {filp : File}
    (hopen : filp.privateData = true) (count : Nat) (pos : Loff) :
    answerOf k ⟨sched, filp, .read count pos⟩ =
      readAnswer pos (readEntries sched.copy 0 (segmentsFrom (log k).entries (toSize pos))
        count) := by
  obtain ⟨hspec, -⟩ := hk.aesdRead sched hopen count pos pos.2.1 pos.2.2
  have hret := hspec.ret
  have hdelivered := hspec.delivered
  rw [List.nil_append] at hret hdelivered
  simp only [answerOf, readAnswer, Answer.mk.injEq]
  exact ⟨hret, hdelivered, hspec.pos⟩

theorem Sound.answerOf_ioctl (hk : Sound k) {sched : Schedule} {filp : File}
    (hopen : filp.privateData = true) (cmd : Nat) (arg : AesdSeekto) :
    answerOf k ⟨sched, filp, .ioctl cmd arg⟩ =
      Call.answer ⟨sched, filp, .ioctl cmd arg⟩ (log k) := by
  simp only [answerOf, Call.answer, unlockedIoctl, hopen, Bool.true_eq_false, if_false]
  by_cases hcmd : cmd = AESDCHAR_IOCSEEKTO
  · rcases hk.rep with ⟨pend, own, pending, hrep⟩
    have hentries : linesOf own = (log k).entries := hrep.log_entries.symm
    have hspec := aesdIoctlSetPos_spec (hrep.enter sched)
      (by rw [hentries]; exact hk.wf.contents_lt) filp arg
    have hlog : log (k.enter sched) = log k :=
      (hrep.enter sched).log_eq.trans hrep.log_eq.symm
    have hret := hspec.ret
    have hfile := hspec.file
    rw [show (k.enter sched).call.sched.copy (k.enter sched).call.copies = sched.copy 0 from rfl,
      hlog] at hret hfile
    simp only [hcmd, if_true, hret, hfile, Call.refuse, Call.pos]
    cases sched.copy 0 with
    | false => rfl
    | true => cases (log k).seekTarget arg.writeCmd.toNat arg.writeCmdOffset.toNat <;> rfl
  · simp only [hcmd, if_false]
    rfl

/-- **The device answers as its line log does.** -/
theorem Sound.answerOf_eq (hk : Sound k) {c : Call} (hreal : c.sched.Realistic) :
    answerOf k c = c.answer (log k) := by
  cases hopen : c.filp.privateData with
  | false => rw [answerOf_released hopen, Call.answer, if_pos hopen]
  | true =>
      rcases c with ⟨sched, filp, op⟩
      simp only at hopen hreal
      cases op with
      | write chunk =>
          simp only [answerOf, Call.answer, hopen, Bool.true_eq_false, if_false, Call.refuse,
            Call.pos, (hk.aesdWrite hreal hopen chunk).1]
      | read count pos =>
          rw [hk.answerOf_read hopen count pos]
          simp only [Call.answer, hopen, Bool.true_eq_false, if_false]
      | ioctl cmd arg => exact hk.answerOf_ioctl hopen cmd arg
      | llseek offset whence =>
          simp only [answerOf, Call.answer, hopen, Bool.true_eq_false, if_false]
      | release =>
          simp only [answerOf, Call.answer, aesdRelease, hopen, Bool.true_eq_false, if_false,
            Call.refuse, Call.pos]

end Aesd.Driver
