import Mathlib.Logic.Basic
import Mathlib.Data.List.Basic

/-!
# The sections of one thread on a mutex

A thread leaves a list of events, and `acts` tells of each of them whether it takes a
mutex, frees it, or does neither.  `WellLocked` follows the list: the mutex is freed only
while the thread holds it, and the thread does not hold it at the end.  Such lists may be
put one behind another; one more event that frees the mutex is a stray one.
-/

namespace Aesd.Verified.MutexSections

variable {ε : Type*} {acts : ε → Option Bool} {holding : Bool} {events more : List ε} {e : ε}

/-- The mutex is freed only while it is held, and is not held at the end; `holding` tells
whether it is held in front of the events. -/
def WellLocked (acts : ε → Option Bool) : Bool → List ε → Prop
  | holding, [] => holding = false
  | holding, e :: events =>
      (acts e = some false → holding = true) ∧ WellLocked acts ((acts e).getD holding) events

theorem wellLocked_nil : WellLocked acts false [] := rfl

/-- Events that leave the mutex alone. -/
theorem wellLocked_of_none (h : ∀ e ∈ events, acts e = none) : WellLocked acts false events := by
  induction events with
  | nil => exact wellLocked_nil
  | cons e events ih =>
      have hhead := h e (by simp)
      refine ⟨by simp [hhead], ?_⟩
      rw [hhead, Option.getD_none]
      exact ih fun e' he' => h e' (by simp [he'])

/-- Events behind events that leave the mutex free. -/
theorem WellLocked.append (h : WellLocked acts holding events)
    (hmore : WellLocked acts false more) : WellLocked acts holding (events ++ more) := by
  induction events generalizing holding with
  | nil =>
      obtain rfl : holding = false := h
      exact hmore
  | cons e events ih => exact ⟨h.1, ih h.2⟩

/-- A section: one event takes the mutex, the next leaves it alone, the last frees it. -/
theorem wellLocked_section {take act free : ε} (htake : acts take = some true)
    (hact : acts act = none) (hfree : acts free = some false) :
    WellLocked acts false [take, act, free] := by
  simp [WellLocked, htake, hact, hfree]

/-- An empty section. -/
theorem wellLocked_pair {take free : ε} (htake : acts take = some true)
    (hfree : acts free = some false) : WellLocked acts false [take, free] := by
  simp [WellLocked, htake, hfree]

/-- **A stray release.**  The mutex is free behind such events, and freeing it once more
breaks the rule. -/
theorem WellLocked.not_concat (h : WellLocked acts holding events) (hfree : acts e = some false) :
    ¬WellLocked acts holding (events ++ [e]) := by
  induction events generalizing holding with
  | nil =>
      obtain rfl : holding = false := h
      intro hstray
      exact absurd (hstray.1 hfree) Bool.false_ne_true
  | cons e' events ih =>
      intro hstray
      exact ih h.2 hstray.2

end Aesd.Verified.MutexSections
