import Aesd.Driver.WriteRuns
import Aesd.Verified.LockedUpdate

/-!
# Threads that open, write and close the device

Each thread opens files, writes through them and closes them, in any order, and
the steps of all threads interleave.  A write takes `dev->lock`, reads the pending
bytes, stores them with its chunk behind them, commits the whole lines and frees
the lock: an update in the sense of `LockedUpdate`.  `aesd_release` frees the lock
as well, without having taken it.
-/

namespace Aesd.Driver

open Aesd.Verified.LockedUpdate
open Aesd.Verified.Lines
open Aesd.Verified.Runs

/-! ## The device as a shared object -/

/-- What `aesd_write` does under the lock: it reads the pending bytes, and it
stores them and the chunk, whole lines in the ring and the tail as pending. -/
def device : Object LineLog (List UInt8) (List UInt8) :=
  { load := LineLog.pending
    store := fun pending chunk log =>
      { entries := (log.entries ++ lines newline (pending ++ chunk)).rtake
          maxWriteOperationsSupported
        pending := rest newline (pending ++ chunk) } }

theorem device_apply : device.apply = LineLog.append := rfl

/-! ## The threads -/

/-- The device and the lock, the threads, and which of its files each thread has
open: whether `private_data` of file `f` of thread `t` is set. -/
structure Threads where
  core : State LineLog (List UInt8) (List UInt8) Nat
  privateData : Nat → Nat → Bool

/-- Threads that have not opened anything yet. -/
def Threads.start (log : LineLog) : Threads :=
  { core := .start log, privateData := fun _ _ => false }

def Threads.setPrivateData (s : Threads) (t f : Nat) (value : Bool) : Threads :=
  { s with
    privateData := Function.update s.privateData t (Function.update (s.privateData t) f value) }

/-- The steps of a thread.  `write` goes up to the call of `mutex_lock`. -/
inductive ThreadAction
  | openFile (t f : Nat)
  | write (t f : Nat) (chunk : List UInt8)
  | lock (t : Nat)
  | read (t : Nat)
  | store (t : Nat)
  | unlock (t : Nat)
  | release (t f : Nat)

/-- One step.  A thread opens and closes files only between two writes. -/
def threadStep (s : Threads) : ThreadAction → Threads
  | .openFile t f =>
      match s.core.phase t with
      | .idle => s.setPrivateData t f true
      | _ => s
  | .write t f chunk =>
      if s.privateData t f then { s with core := step device s.core (.start t chunk) } else s
  | .lock t => { s with core := step device s.core (.lock t) }
  | .read t => { s with core := step device s.core (.load t) }
  | .store t => { s with core := step device s.core (.store t) }
  | .unlock t => { s with core := step device s.core (.unlock t) }
  | .release t f =>
      match s.core.phase t with
      | .idle =>
          if s.privateData t f then
            { s.setPrivateData t f false with core := step device s.core .free }
          else s
      | _ => s

/-- The threads after a run from the line log `log`. -/
def runThreads (log : LineLog) (actions : List ThreadAction) : Threads :=
  actions.foldl threadStep (.start log)

/-- A file that is open is closed only while no thread is between its own
`mutex_lock` and `mutex_unlock`. -/
def ClosesQuiet (s : Threads) : ThreadAction → Prop
  | .release t f =>
      s.core.phase t = .idle → s.privateData t f = true → ∀ u, ¬(s.core.phase u).Inside
  | _ => True

/-- **One step of a thread** keeps the invariant of the shared object. -/
theorem inv_threadStep {init : LineLog} {s : Threads} (h : Inv device init s.core)
    (action : ThreadAction) (hquiet : ClosesQuiet s action) :
    Inv device init (threadStep s action).core := by
  cases action with
  | openFile t f =>
      simp only [threadStep]
      split
      · exact h
      · exact h
  | write t f chunk =>
      simp only [threadStep]
      split
      · exact h.step (.start t chunk) trivial
      · exact h
  | lock t => exact h.step (.lock t) trivial
  | read t => exact h.step (.load t) trivial
  | store t => exact h.step (.store t) trivial
  | unlock t => exact h.step (.unlock t) trivial
  | release t f =>
      simp only [threadStep]
      split
      · rename_i hidle
        split
        · rename_i hopen
          exact h.step .free (hquiet hidle hopen)
        · exact h
      · exact h

theorem inv_runThreads {log : LineLog} {actions : List ThreadAction}
    (hquiet : Along threadStep ClosesQuiet (.start log) actions) :
    Inv device log (runThreads log actions).core := by
  have hstep : ∀ s action, Inv device log s.core → ClosesQuiet s action →
      Inv device log (threadStep s action).core :=
    fun _ action h hclose => inv_threadStep h action hclose
  exact invariant hstep (inv_start device log) hquiet

/-! ## Writes one after another -/

/-- Calls of `aesd_write` on the chunks, one after another, with nothing refused. -/
inductive Serial : Kernel → List (List UInt8) → Kernel → Prop
  | nil (k : Kernel) : Serial k [] k
  | cons {k k' : Kernel} {chunks : List (List UInt8)} (sched : Schedule) (filp : File)
      (chunk : List UInt8) (hreal : sched.Realistic) (hopen : filp.privateData = true)
      (hserved : (aesdWrite (k.enter sched) filp chunk).2.call.refused = 0)
      (hrest : Serial (aesdWrite (k.enter sched) filp chunk).2 chunks k') :
      Serial k (chunk :: chunks) k'

theorem Serial.log_eq {k k' : Kernel} {chunks : List (List UInt8)} (h : Serial k chunks k')
    (hsound : Sound k) : log k' = chunks.foldl LineLog.append (log k) := by
  induction h with
  | nil k => rfl
  | cons sched filp chunk hreal hopen hserved hrest ih =>
      obtain ⟨-, hlog, hdone⟩ := hsound.aesdWrite hreal hopen chunk
      rw [hdone.1 hserved] at hlog
      rw [ih (exec_sound hsound (c := ⟨sched, filp, .write chunk⟩) hreal), hlog]
      rfl

/-- **No lost update.**  In every interleaving in which no file is closed while a
write is under way, at most one thread is ever inside its critical section; and
when all writes have returned, the device holds what the same calls of
`aesd_write` leave one after another, in the order in which they took the lock. -/
theorem writes_serialize (start : LineLog) (actions : List ThreadAction)
    (hquiet : Along threadStep ClosesQuiet (.start start) actions) :
    (∀ n, Exclusive (runThreads start (actions.take n)).core) ∧
    (Quiescent (runThreads start actions).core →
      ∀ (garbage : Nat → Nat → UInt8) (calls : List Call) (k : Kernel),
        (∀ c ∈ calls, c.sched.Realistic) → log (runCalls garbage calls) = start →
        Serial (runCalls garbage calls) (runThreads start actions).core.taken k →
        log k = (runThreads start actions).core.data) := by
  constructor
  · intro n
    exact (inv_runThreads (hquiet.take n)).exclusive
  · intro hidle garbage calls k hreal hstart hserial
    have hdata := (inv_runThreads hquiet).data_of_quiescent hidle
    rw [hserial.log_eq (runCalls_sound garbage hreal), hstart, hdata, device_apply]

/-- Two threads write one byte each; the second waits for the lock. -/
theorem writes_serialize_two :
    log (aesdWrite ((aesdWrite ((runCalls (fun _ _ => 0) []).enter (.limited [] []))
        .opened [97]).2.enter (.limited [] [])) .opened [98]).2 =
      (runThreads .empty [.openFile 0 0, .openFile 1 0, .write 0 0 [97], .write 1 0 [98],
        .lock 0, .lock 1, .read 0, .store 0, .unlock 0, .lock 1, .read 1, .store 1,
        .unlock 1]).core.data := by
  have hreal := Schedule.realistic_limited [] []
  refine (writes_serialize .empty [.openFile 0 0, .openFile 1 0, .write 0 0 [97], .write 1 0 [98],
    .lock 0, .lock 1, .read 0, .store 0, .unlock 0, .lock 1, .read 1, .store 1, .unlock 1]
    (by simp [ClosesQuiet])).2 ?_ (fun _ _ => 0) [] _ (by simp) (by decide +kernel)
    (.cons _ .opened [97] hreal rfl (by decide +kernel)
      (.cons _ .opened [98] hreal rfl (by decide +kernel) (.nil _)))
  intro t
  by_cases h0 : t = 0
  · subst h0
    decide +kernel
  · by_cases h1 : t = 1
    · subst h1
      decide +kernel
    · simp [runThreads, threadStep, Threads.setPrivateData, Threads.start, State.start, step,
        Function.update_of_ne, h0, h1]

/-- Thread 2 closes its file while thread 0 is inside; thread 1 gets the lock, reads
the same pending bytes, and one of the two writes is lost. -/
theorem close_loses_update :
    ¬∀ actions : List ThreadAction,
      (∀ n, Exclusive (runThreads .empty (actions.take n)).core) ∧
      (Quiescent (runThreads .empty actions).core →
        (runThreads .empty actions).core.data =
          (runThreads .empty actions).core.taken.foldl LineLog.append .empty) := by
  intro hall
  have hlost := (hall [.openFile 0 0, .openFile 1 0, .openFile 2 0, .write 0 0 [97],
    .write 1 0 [98], .lock 0, .read 0, .release 2 0, .lock 1, .read 1, .store 0, .unlock 0,
    .store 1, .unlock 1]).2
  refine absurd (hlost ?_) (by decide +kernel)
  intro t
  by_cases h0 : t = 0
  · subst h0
    decide +kernel
  · by_cases h1 : t = 1
    · subst h1
      decide +kernel
    · simp [runThreads, threadStep, Threads.setPrivateData, Threads.start, State.start, step,
        Function.update_of_ne, h0, h1]

end Aesd.Driver
