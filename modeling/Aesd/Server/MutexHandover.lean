import Aesd.Server.Transactions

/-!
# How long a handler keeps the mutex

A handler frees `file_mutex` after a number of its own steps that is known when it takes
it: applying a packet is one step, and an answer is a step for each piece of
`BUFFER_SIZE - 1` bytes, one for the read that finds the end, and one to unlock.  What
the other handlers do in between changes nothing about it, unless one of them runs out of
memory and frees the mutex under its holder.  So no handler waits for the mutex for ever
while the holder is scheduled.
-/

namespace Aesd.Server

open Aesd.Driver
open Aesd.Verified.Runs
open Aesd.Verified.Simulation

variable {τ : Type}

/-- The reads that deliver `n` bytes in pieces. -/
def pieces (n : Nat) : Nat := (n + (bufferSize - 2)) / (bufferSize - 1)

/-- The steps that a handler still makes in its locked section, with `stored` bytes on
the device. -/
def Client.stepsToUnlock (stored : Nat) (c : Client) : Nat :=
  match c.phase with
  | .applying => 2
  | .applied | .streamed => 1
  | .streaming => pieces (stored - c.file.fPos.toNat) + 2
  | _ => 0

/-- The steps that handler `t` still makes in its locked section. -/
def World.stepsToUnlock (w : World τ) (t : τ) : Nat :=
  (w.clients t).stepsToUnlock (log w.kernel).contents.length

theorem pieces_eq_zero : pieces 0 = 0 := rfl

/-- One piece less. -/
theorem pieces_sub {n : Nat} (h : 0 < n) : pieces (n - min (bufferSize - 1) n) + 1 = pieces n := by
  unfold pieces bufferSize
  omega

theorem World.stepsToUnlock_le (w : World τ) (t : τ) :
    w.stepsToUnlock t ≤ pieces (log w.kernel).contents.length + 2 := by
  unfold World.stepsToUnlock Client.stepsToUnlock
  cases (w.clients t).phase <;> simp only [pieces, bufferSize] <;> omega

variable {w : World τ} {s : SerialServer τ} {t : τ}

/-- Whoever holds the mutex has steps to make. -/
theorem World.Serves.stepsToUnlock_pos (h : w.Serves s) (howner : w.owner = some t) :
    0 < w.stepsToUnlock t := by
  have hholds := (h.owner t).2 howner
  unfold World.stepsToUnlock Client.stepsToUnlock
  unfold Phase.Holds at hholds
  cases hphase : (w.clients t).phase <;> simp [hphase] at hholds ⊢

section Steps

variable [DecidableEq τ]

@[simp] theorem World.put_clients_self (c : Client) : (w.put t c).clients t = c :=
  Function.update_self ..

/-- **A step of the holder** is one step less to make, and the last one frees the mutex. -/
theorem World.Serves.holder_step (h : w.Serves s) {m : Move τ} (hm : m.Succeeds)
    (howner : w.owner = some m.thread) :
    ((w.step m).owner = some m.thread ∧
      (w.step m).stepsToUnlock m.thread + 1 = w.stepsToUnlock m.thread) ∨
    (¬(w.step m).owner = some m.thread ∧ w.stepsToUnlock m.thread = 1) := by
  have hholds := (h.owner m.thread).2 howner
  have hfollows := h.follows m.thread
  unfold World.stepsToUnlock Client.stepsToUnlock
  unfold Phase.Holds at hholds
  cases hphase : (w.clients m.thread).phase <;> simp only [hphase] at hholds hfollows
  case applying =>
    left
    simp [World.step, hphase, howner, World.put]
  case applied =>
    right
    simp [World.step, hphase]
  case streamed =>
    right
    simp [World.step, hphase]
  case streaming =>
    left
    simp only [Client.Follows, hphase] at hfollows
    obtain ⟨p, hp, ⟨hopen, hpos⟩, -⟩ := hfollows
    have hready : DeviceFile.Ready ⟨w.kernel, (w.clients m.thread).file⟩ p :=
      { sound := h.sound, opened := hopen, fPos := hpos }
    obtain ⟨hret, -, hready', hlog⟩ := hready.read hp hm.1 hm.2 (bufferSize - 1) rfl
    have hlen : (((Driver.log w.kernel).contents.drop p).take (bufferSize - 1)).length =
        min (bufferSize - 1) ((Driver.log w.kernel).contents.length - p) := by
      rw [List.length_take, List.length_drop]
    rw [hlen] at hret hready'
    simp only [World.step, hphase, hret, hpos, Int.toNat_natCast]
    by_cases hend : (Driver.log w.kernel).contents.length - p = 0
    · -- Nothing is left to read.
      rw [hend, Nat.min_zero, if_neg (by simp)]
      exact ⟨howner, by simp [pieces_eq_zero]⟩
    · have hpiece : 0 < min (bufferSize - 1) ((Driver.log w.kernel).contents.length - p) := by
        unfold bufferSize
        omega
      have hnext := hready'.fPos
      rw [if_pos (Int.natCast_pos.2 hpiece)]
      refine ⟨howner, ?_⟩
      simp only [World.put, Function.update_self, hlog, hnext, Int.toNat_natCast]
      rw [← Nat.sub_sub, Nat.add_right_comm, pieces_sub (by omega)]
  all_goals simp at hholds

/-- **A step of another handler** changes nothing for the holder. -/
theorem World.Serves.other_step (h : w.Serves s) {m : Move τ} (hm : m.Succeeds)
    (hguard : w.Guarded m) (howner : w.owner = some t) (hother : m.thread ≠ t) :
    (w.step m).owner = some t ∧ (w.step m).stepsToUnlock t = w.stepsToUnlock t := by
  have hfree := h.not_holds howner hother
  have hstays : (w.step m).owner = some t ∧ Driver.log (w.step m).kernel = Driver.log w.kernel := by
    unfold Phase.Holds at hfree
    cases hphase : (w.clients m.thread).phase <;> simp only [hphase] at hfree
    case receiving =>
      simp only [World.step, hphase]
      split
      · exact ⟨howner, rfl⟩
      · rename_i hstay
        split
        · exact ⟨howner, rfl⟩
        · rename_i hrecv
          split
          · rename_i hfails
            have hnone := hguard hphase ⟨by simpa using hstay, by simp [hrecv], hfails⟩
            exact absurd (howner.symm.trans hnone) (Option.some_ne_none t)
          · exact ⟨howner, rfl⟩
    case closing =>
      simp only [World.step, hphase]
      exact ⟨howner, (DeviceFile.close_spec (d := ⟨w.kernel, (w.clients m.thread).file⟩) h.sound
        hm.1).2⟩
    case opening =>
      simp only [World.step, hphase]
      split
      · exact ⟨howner, rfl⟩
      · split <;> exact ⟨howner, rfl⟩
    case locking => simp [World.step, hphase, howner]
    case relocking => simp [World.step, hphase, howner]
    case done => simp [World.step, hphase, howner]
    all_goals simp at hfree
  unfold World.stepsToUnlock
  rw [World.step_clients_of_ne hother, hstays.2]
  exact ⟨hstays.1, rfl⟩

/-- **Handover.**  The user copies go through, and no failing `realloc` frees a held mutex.
Whenever a handler holds the mutex then, a further run frees it exactly if it has as many
steps of that handler as are left of its section, wherever the steps of the others fall;
and these are at most two more than the pieces that are stored. -/
theorem mutex_freed_iff (garbage : Nat → Nat → UInt8) (history : List Call)
    (hreal : ∀ c ∈ history, c.sched.Realistic) (endOfPacket : τ → Bool)
    (moves more : List (Move τ)) (hsucceed : ∀ m ∈ moves ++ more, m.Succeeds)
    (hguard : Along World.step World.Guarded
      (World.start (runCalls garbage history) endOfPacket) moves) (t : τ) :
    let w := (World.start (runCalls garbage history) endOfPacket).run moves
    w.owner = some t → Along World.step World.Guarded w more →
      ((∃ n, (w.run (more.take n)).owner ≠ some t) ↔
        w.stepsToUnlock t ≤ more.countP fun m => decide (m.thread = t)) ∧
      w.stepsToUnlock t ≤ pieces (log w.kernel).contents.length + 2 := by
  intro w howner hmore
  have hstart := World.serves_start (runCalls_sound garbage hreal) endOfPacket
  obtain ⟨s, -, hserves⟩ :=
    hstart.run (fun m hm => hsucceed m (List.mem_append_left _ hm)) hguard
  have hrun := along_and
    (along_of_forall fun m hm => hsucceed m (List.mem_append_right moves hm)) hmore
  refine ⟨?_, w.stepsToUnlock_le t⟩
  apply given_up_iff (fun w : World τ => ∃ s, w.Serves s) (fun w => w.owner = some t)
    (fun w => w.stepsToUnlock t) _ ?_ ?_ ?_ ?_ ⟨s, hserves⟩ howner hrun
  · rintro w m ⟨s, h⟩ hm
    obtain ⟨s', -, h'⟩ := h.step hm.1 hm.2
    exact ⟨s', h'⟩
  · rintro w ⟨s, h⟩ howner
    exact h.stepsToUnlock_pos howner
  · rintro w m ⟨s, h⟩ hm howner hwho
    obtain rfl := of_decide_eq_true hwho
    exact h.holder_step hm.1 howner
  · rintro w m ⟨s, h⟩ hm howner hwho
    exact h.other_step hm.1 hm.2 howner (of_decide_eq_false hwho)

/-- Client 0 holds the mutex to answer two bytes, and client 1 waits. -/
theorem mutex_freed_iff_two :
    ∃ n, (((World.start (runCalls (fun _ _ => 0) []) fun _ : Fin 2 => false).run
      ([(0, []), (1, []), (0, [97, 10]), (1, [98, 10]), (0, []), (0, []), (0, []),
        (0, [])].map Move.calm)).run
          (([(1, []), (0, []), (1, []), (0, []), (1, []), (0, [])].map Move.calm).take n)).owner ≠
            some 0 := by
  have hfreed := mutex_freed_iff (fun _ _ => 0) [] (by simp) (fun _ : Fin 2 => false)
    ([(0, []), (1, []), (0, [97, 10]), (1, [98, 10]), (0, []), (0, []), (0, []),
      (0, [])].map Move.calm)
    ([(1, []), (0, []), (1, []), (0, []), (1, []), (0, [])].map Move.calm)
    (by rw [← List.map_append]; exact Move.calm_succeeds _) (by decide +kernel) 0
    (by decide +kernel) (by decide +kernel)
  exact hfreed.1.2 (by decide +kernel)

end Steps

end Aesd.Server
