import Aesd.Driver.History

/-!
# The lock discipline of the data operations

`aesd_read`, `aesd_write` and the seek ioctl each take `dev->lock` at most once.
Every exit frees it once, except one: a read that reaches the end of the data
frees it before it leaves the loop and once more behind the loop.
-/

namespace Aesd.Driver

open Aesd.Verified.Runs
open Aesd.Verified.Segments

/-! ## The discipline -/

/-- An operation unlocks only what it has locked itself, and as often. -/
structure Disciplined (calls : List LockCall) : Prop where
  owned : ∀ before after, calls = before ++ .unlock :: after →
    before.count .unlock < before.count .lock
  balanced : calls.count .unlock = calls.count .lock

theorem disciplined_nil : Disciplined [] :=
  { owned := fun before after h => by simp at h
    balanced := rfl }

theorem disciplined_lock_unlock : Disciplined [.lock, .unlock] :=
  { owned := fun before after h => by
      rcases before with _ | ⟨first, _ | ⟨second, before⟩⟩
      · simp at h
      · obtain rfl : LockCall.lock = first := by simpa using congrArg List.head? h
        decide
      · simp at h
    balanced := rfl }

theorem not_disciplined_unlock_twice : ¬Disciplined [.lock, .unlock, .unlock] :=
  fun h => absurd h.balanced (by decide)

/-! ## The operations -/

/-- `read`, `write` and `ioctl`. -/
def Op.IsData : Op → Prop
  | .write _ | .read .. | .ioctl .. => True
  | .llseek .. | .release => False

/-- A read asks for nothing, or for no more than there is from its position on, or
one of the entries from its position on cannot be copied. -/
def Call.ReadsWithin (c : Call) (log : LineLog) : Prop :=
  match c.op with
  | .read count pos =>
      c.filp.privateData = true → count = 0 ∨ toSize pos + count ≤ log.contents.length ∨
        ∃ j < (segmentsFrom log.entries (toSize pos)).length, c.sched.copy j = false
  | _ => True

instance : (c : Call) → (log : LineLog) → Decidable (c.ReadsWithin log)
  | ⟨sched, filp, .read count pos⟩, log =>
      inferInstanceAs (Decidable (filp.privateData = true → count = 0 ∨
        toSize pos + count ≤ log.contents.length ∨
        ∃ j < (segmentsFrom log.entries (toSize pos)).length, sched.copy j = false))
  | ⟨_, _, .write _⟩, _ | ⟨_, _, .ioctl ..⟩, _ | ⟨_, _, .llseek ..⟩, _ | ⟨_, _, .release⟩, _ =>
      isTrue trivial

theorem WriteOutcome.disciplined (outcome : WriteOutcome) (before : Mutex) :
    Disciplined (outcome.lock before).calls := by
  cases outcome with
  | noKbuf | badCopy => exact disciplined_nil
  | noCombined | noLine _ | done => exact disciplined_lock_unlock

/-- A read is disciplined exactly when it does not look for data behind the end. -/
theorem disciplined_unlocks_iff (copy : Nat → Bool) (log : LineLog) (p count : Nat) :
    Disciplined (.lock :: (readEntries copy 0 (segmentsFrom log.entries p) count).2.unlocks) ↔
      count = 0 ∨ p + count ≤ log.contents.length ∨
        ∃ j < (segmentsFrom log.entries p).length, copy j = false := by
  have hend := readEntries_endOfData_iff copy 0 (segmentsFrom log.entries p) count
  rw [flatten_segmentsFrom, List.length_drop] at hend
  have hexit : Disciplined
      (.lock :: (readEntries copy 0 (segmentsFrom log.entries p) count).2.unlocks) ↔
      (readEntries copy 0 (segmentsFrom log.entries p) count).2 ≠ .endOfData := by
    cases (readEntries copy 0 (segmentsFrom log.entries p) count).2 with
    | endOfData => exact iff_of_false not_disciplined_unlock_twice (not_not.2 rfl)
    | served | fault => exact iff_of_true disciplined_lock_unlock (by simp)
  simp only [Nat.zero_add] at hend
  rw [hexit, Ne, hend, not_and_or, Classical.not_forall]
  simp only [Classical.not_imp, Bool.not_eq_true, LineLog.contents]
  rw [← or_assoc]
  refine or_congr ?_ Iff.rfl
  omega

/-- **One operation.** -/
theorem exec_disciplined_iff {k : Kernel} (h : Sound k) {c : Call} (hreal : c.sched.Realistic)
    (hdata : c.op.IsData) :
    (Disciplined (exec k c).dev.lock.calls ∧ (exec k c).dev.lock.held = false) ↔
      c.ReadsWithin (log k) := by
  obtain ⟨-, -, hlock⟩ := exec_spec h hreal
  obtain ⟨sched, filp, op⟩ := c
  rw [hlock]
  simp only [and_true, Call.locks, Call.ReadsWithin]
  cases hopen : filp.privateData with
  | false =>
      simp only [if_true, disciplined_nil, true_iff]
      cases op <;> simp
  | true =>
      simp only [Bool.true_eq_false, if_false]
      cases op with
      | write chunk => simp only [WriteOutcome.disciplined]
      | read count pos => simpa using disciplined_unlocks_iff sched.copy (log k) (toSize pos) count
      | ioctl cmd arg =>
          simp only [iff_true]
          split
          · exact disciplined_lock_unlock
          · exact disciplined_nil
      | llseek offset whence => exact hdata.elim
      | release => exact hdata.elim

/-- **The lock discipline.**  From every state a history can reach, a run of data
operations keeps the discipline throughout, with the mutex free after each of
them, exactly when no read runs past the end of the data. -/
theorem lock_discipline_iff (garbage : Nat → Nat → UInt8) (calls ops : List Call)
    (hcalls : ∀ c ∈ calls, c.sched.Realistic)
    (hops : ∀ c ∈ ops, c.sched.Realistic ∧ c.op.IsData) :
    Along exec
        (fun k c => Disciplined (exec k c).dev.lock.calls ∧ (exec k c).dev.lock.held = false)
        (runCalls garbage calls) ops ↔
      Along exec (fun k c => c.ReadsWithin (log k)) (runCalls garbage calls) ops :=
  along_congr (fun _ _ h hc => exec_sound h hc.1) (fun _ _ h hc => exec_disciplined_iff h hc.1 hc.2)
    (runCalls_sound garbage hcalls) (along_of_forall hops)

/-- A write of one line and a read of that line. -/
theorem lock_discipline_write_read :
    Along exec
      (fun k c => Disciplined (exec k c).dev.lock.calls ∧ (exec k c).dev.lock.held = false)
      (runCalls (fun _ _ => 0) [])
      [⟨.limited [] [], .opened, .write [97, 10]⟩,
        ⟨.limited [] [], .opened, .read 2 ⟨0, by decide⟩⟩] :=
  (lock_discipline_iff (fun _ _ => 0) []
    [⟨.limited [] [], .opened, .write [97, 10]⟩,
      ⟨.limited [] [], .opened, .read 2 ⟨0, by decide⟩⟩] (by simp)
    (by
      simp only [List.mem_cons, List.not_mem_nil, or_false, forall_eq_or_imp, forall_eq]
      exact ⟨⟨Schedule.realistic_limited _ _, trivial⟩, Schedule.realistic_limited _ _,
        trivial⟩)).2
    (by decide +kernel)

/-- Reading an empty device frees the mutex twice. -/
theorem read_empty_unlocks_twice :
    ¬∀ c : Call, c.sched.Realistic → c.op.IsData →
      Disciplined (exec (runCalls (fun _ _ => 0) []) c).dev.lock.calls := by
  intro hall
  have hread := hall ⟨.limited [] [], .opened, .read 1 ⟨0, by decide⟩⟩
    (Schedule.realistic_limited _ _) trivial
  exact absurd hread.balanced (by decide +kernel)

end Aesd.Driver
