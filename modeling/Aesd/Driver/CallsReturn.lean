import Aesd.Driver.Concurrency
import Aesd.Verified.LockedProgress
import Mathlib.Data.List.GetD

/-!
# Every call returns

A call that has `dev->lock` comes to its `mutex_unlock`: the loop of `aesd_write` ends with
the last newline in the buffer, the loop of `aesd_read` with its count or the end of the
data, the loop of `aesd_ioctl_set_pos` with the sought line.  How long each is depends on
what the calls before have left.  So no set of calls brings the device to a stand, whatever
fails and in whatever order the threads come to the lock.
-/

namespace Aesd.Driver

open Aesd.Verified.Bystanders
open Aesd.Verified.Fairness
open Aesd.Verified.LockedCalls

/-- Whatever calls a sound device has executed, it answers the next one. -/
theorem driver_total {k : Kernel} (hk : Sound k) (τ : Type*) : driver.Total (log k) τ := by
  intro order data c hserial
  obtain ⟨-, hsound, hlog⟩ := serial_answered hk hserial
  have hwf : data.Wf := hlog ▸ hsound.wf
  exact ⟨c.1.reply data, c.1.effect data, driver_answers hwf c⟩

variable {τ : Type*} [DecidableEq τ]

/-- **Calls return.**  Threads make calls on the device after any history, each goes on
again and again, and nobody frees the lock from outside under another.  Then a call that
does not wait for the lock returns, whatever the others do and however many more calls they
make.  When finitely many threads make no more calls, those that wait return as well: from
some point on the lock is free, and every thread has been returned the answers that the
kernel gives when it executes the calls one after another. -/
theorem calls_return [Finite τ] (garbage : Nat → Nat → UInt8) (history : List Call)
    (hreal : ∀ c ∈ history, c.sched.Realistic) (actions : ℕ → Action RealCall τ)
    (hfair : Fair (fun t action => action = .go t) actions)
    (hquiet : ∀ n,
      FreedQuiet (after driver (log (runCalls garbage history)) actions n) (actions n)) :
    let k := runCalls garbage history
    let s := after driver (log k) actions
    (∀ t n, (∀ c l, (s n).phase t ≠ .waiting c l) → ∃ m ≥ n, (s m).phase t = .idle) ∧
      ∀ last, (∀ m ≥ last, ∀ t c, actions m ≠ .call t c) →
        ∃ n, ∀ m ≥ n, (s m).held = false ∧
          (∀ t, (s m).phase t = .idle ∧ (s m).returned t = callsOf t (s m).order) ∧
          (transcript answered k (callsIn (s m).order)).1 = answersIn (s m).order := by
  intro k s
  have hk : Sound k := runCalls_sound garbage hreal
  have htotal : driver.Total (log k) τ := driver_total hk τ
  refine ⟨fun t n hout => busy_returns hfair hquiet htotal hout, ?_⟩
  intro last hlast
  obtain ⟨n, hn⟩ := all_return hfair hquiet hlast htotal
  refine ⟨n, fun m hm => ?_⟩
  obtain ⟨hfree, hidle⟩ := hn m hm
  have hinv : Inv driver (log k) (s m) := inv_after hquiet m
  refine ⟨hfree, fun t => ⟨hidle t, ?_⟩, ?_⟩
  · have htold := hinv.told t
    rw [hidle t, Phase.due, List.append_nil] at htold
    exact htold.symm
  · obtain ⟨data, hserial⟩ := hinv.guarded.serial
    exact (serial_answered hk hserial).1

/-- The steps of `writeAndRead`, after which the threads take turns for ever. -/
def writeReadTurns (n : ℕ) : Action RealCall Bool := writeAndRead.getD n (.go (n % 2 == 1))

theorem calls_return_writeReadTurns :
    ∃ n, ∀ m ≥ n,
      (after driver (log (runCalls (fun _ _ => 0) [])) writeReadTurns m).held = false := by
  have hturns : ∀ m ≥ 17, writeReadTurns m = .go (m % 2 == 1) := fun m hm =>
    List.getD_eq_default writeAndRead _ hm
  have hfair : Fair (fun t action => action = .go t) writeReadTurns := by
    intro t n
    refine ⟨2 * n + 18 + t.toNat, by omega, ?_⟩
    rw [hturns _ (by omega)]
    cases t with
    | false => simp [Nat.add_mod]
    | true => simp [Nat.add_mod]
  have hlast : ∀ m ≥ 17, ∀ t c, writeReadTurns m ≠ .call t c := by
    intro m hm t c
    simp [hturns m hm]
  have hquiet : ∀ n,
      FreedQuiet (after driver (log (runCalls (fun _ _ => 0) [])) writeReadTurns n)
        (writeReadTurns n) := by
    have hstart : ∀ n < 17,
        FreedQuiet (after driver (log (runCalls (fun _ _ => 0) [])) writeReadTurns n)
          (writeReadTurns n) := by
      decide +kernel
    -- Both calls have returned then.
    have hidle : ∀ t,
        (after driver (log (runCalls (fun _ _ => 0) [])) writeReadTurns 17).phase t = .idle := by
      decide +kernel
    intro n
    by_cases hn : n < 17
    · exact hstart n hn
    · cases hact : writeReadTurns n with
      | call t c => trivial
      | go t =>
          intro hfrees
          rw [idle_stays hlast (by omega) (Nat.not_lt.1 hn) (hidle t)] at hfrees
          exact hfrees.elim
  obtain ⟨n, hn⟩ :=
    (calls_return (fun _ _ => 0) [] (by simp) writeReadTurns hfair hquiet).2 17 hlast
  exact ⟨n, fun m hm => (hn m hm).1⟩

end Aesd.Driver
