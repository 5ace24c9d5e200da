import Aesd.Server.Clients
import Aesd.Server.LogFiles
import Aesd.Verified.Fairness

/-!
# Every handler gets on

`pthread_mutex_lock` does not say which of the waiting threads comes next.  No handler
waits for ever all the same: each takes `file_mutex` at most twice, and in a section it
makes as many steps as a file has positions at most.  So the handlers come to rest, in
whatever order they are scheduled and whatever fails: the mutex is free, and every
handler has ended, unless its `recv` goes on without a newline.  A handler whose peer
takes nothing stays in `send`; it is not scheduled then.
-/

namespace Aesd.Server

open Aesd.Driver
open Aesd.Verified.Fairness

/-! ## What lies ahead of a handler -/

/-- The phases that a handler still goes through at most. -/
def Phase.ahead : Phase → Nat
  | .opening => 9
  | .receiving => 8
  | .locking => 7
  | .applying => 6
  | .applied => 5
  | .relocking => 4
  | .streaming => 3
  | .streamed => 2
  | .closing => 1
  | .done => 0

/-- The phases, and the positions in each. -/
def Client.ahead (c : Client) : Nat := c.phase.ahead * 2 ^ 63 + (2 ^ 63 - 1 - c.file.fPos.toNat)

theorem Client.ahead_lt_of_phase {c c' : Client} (h : c'.phase.ahead < c.phase.ahead) :
    c'.ahead < c.ahead := by
  unfold Client.ahead
  omega

/-- A handler that stands still has the same ahead only in the same phase. -/
theorem Client.phase_eq_of_ahead_eq {c c' : Client} (h : c'.ahead = c.ahead) :
    c'.phase = c.phase := by
  have hahead : c'.phase.ahead = c.phase.ahead := by
    unfold Client.ahead at h
    omega
  revert hahead
  generalize c.phase = phase
  generalize c'.phase = phase'
  cases phase <;> cases phase' <;> decide

variable {τ : Type}

/-- A handler that may be scheduled in vain: it has ended, it waits for its client, or it
waits for the mutex that somebody holds. -/
def World.Idle (t : τ) (w : World τ) : Prop :=
  (w.clients t).phase ∈ [Phase.done, .receiving] ∨
    (w.clients t).phase ∈ [Phase.locking, .relocking] ∧ w.owner ≠ none

/-- What holds in every run, whatever fails. -/
structure World.Proceeds (w : World τ) : Prop where
  sound : Sound w.kernel
  file : ∀ t, (w.clients t).phase ≠ .done → ∃ p, StandsAt (w.clients t).file (some p)
  unseen : ∀ t, (w.clients t).phase ∈ [Phase.opening, .receiving] →
    strchr (w.clients t).data newline = false
  owner : ∀ t, w.owner = some t → (w.clients t).phase.Holds

theorem World.proceeds_start {kernel : Kernel} (hk : Sound kernel) (endOfPacket : τ → Bool) :
    (World.start kernel endOfPacket).Proceeds :=
  { sound := hk
    file := fun _ _ => ⟨0, rfl, Nat.two_pow_pos 63⟩
    unseen := fun _ _ => rfl
    owner := by simp [World.start] }

/-! ## One step -/

/-- An operation on an open file leaves it open at some position. -/
theorem DeviceFile.stands_perform {d : DeviceFile} {p : Nat} (hsound : Sound d.kernel)
    (hfile : StandsAt d.file (some p)) {sched : Schedule} (hreal : sched.Realistic) (op : FileOp) :
    Sound (d.perform ⟨sched, op⟩).2.kernel ∧
      ∃ q, StandsAt (d.perform ⟨sched, op⟩).2.file (some q) := by
  rcases d with ⟨k, file⟩
  obtain ⟨rfl, hp⟩ := hfile
  have hkeeps := keeps_opened hsound hp ⟨sched, .call op⟩ hreal
  exact ⟨hkeeps.sound, _, hkeeps.file⟩

/-- A packet leaves the file open, whatever it is taken for. -/
theorem DeviceFile.stands_applyData {d : DeviceFile} {p : Nat} (hsound : Sound d.kernel)
    (hfile : StandsAt d.file (some p)) {sched : Schedule} (hreal : sched.Realistic)
    (packet : List UInt8) :
    Sound (d.applyData sched packet).kernel ∧
      ∃ q, StandsAt (d.applyData sched packet).file (some q) := by
  unfold DeviceFile.applyData
  have hzero : -2 ^ 63 ≤ (0 : Int) ∧ (0 : Int) < 2 ^ 63 := by decide
  cases seekCommand packet with
  | none => exact DeviceFile.stands_perform hsound hfile hreal (.write packet)
  | some seekto =>
      obtain ⟨hsound, q, hfile⟩ :=
        DeviceFile.stands_perform hsound hfile hreal (.llseek ⟨0, hzero⟩ SEEK_CUR)
      obtain ⟨hsound, q, hfile⟩ :=
        DeviceFile.stands_perform hsound hfile hreal (.ioctl AESDCHAR_IOCSEEKTO seekto)
      exact DeviceFile.stands_perform hsound hfile hreal (.llseek ⟨0, hzero⟩ SEEK_CUR)

/-- A read that delivers something moves the file on. -/
theorem DeviceFile.read_moves_on {d : DeviceFile} {p : Nat} (hsound : Sound d.kernel)
    (hfile : StandsAt d.file (some p)) {sched : Schedule} (hreal : sched.Realistic) (count : Nat) :
    Sound (d.read sched count).2.2.kernel ∧
      ∃ q, StandsAt (d.read sched count).2.2.file (some q) ∧
        (0 < (d.read sched count).1 → p < q) := by
  rcases d with ⟨k, file⟩
  obtain ⟨rfl, hp⟩ := hfile
  have hkeeps := keeps_read hsound hp hreal count
  refine ⟨hkeeps.sound, _, hkeeps.file, ?_⟩
  intro hpos
  have hanswer := congrArg Prod.fst hkeeps.answer
  simp only [DeviceFile.perform, FileStep.act, FileOp.act] at hanswer ⊢
  rw [hanswer] at hpos
  split at hpos
  · have hfault : ¬0 < -EFAULT := by decide
    exact absurd hpos hfault
  · rename_i hserved
    rw [if_neg hserved]
    simp only at hpos ⊢
    omega

section Steps

variable [DecidableEq τ] {w : World τ} {t : τ}

/-- A step of `t` keeps what holds in every run when it leaves its file open and takes the
mutex for itself at most. -/
theorem World.Proceeds.put (h : w.Proceeds) {c : Client} {kernel : Kernel} {owner : Option τ}
    (hsound : Sound kernel) (hfile : c.phase ≠ .done → ∃ p, StandsAt c.file (some p))
    (hunseen : c.phase ∈ [Phase.opening, .receiving] → strchr c.data newline = false)
    (howner : ∀ u, owner = some u → if u = t then c.phase.Holds else w.owner = some u) :
    ({ w.put t c with kernel := kernel, owner := owner } : World τ).Proceeds := by
  have hself : Function.update w.clients t c t = c := Function.update_self ..
  have hothers : ∀ u ≠ t, Function.update w.clients t c u = w.clients u := fun u hu =>
    Function.update_of_ne hu ..
  constructor
  · exact hsound
  · intro u
    show (Function.update w.clients t c u).phase ≠ .done →
      ∃ p, StandsAt (Function.update w.clients t c u).file (some p)
    by_cases hu : u = t
    · rw [hu, hself]
      exact hfile
    · rw [hothers u hu]
      exact h.file u
  · intro u
    show (Function.update w.clients t c u).phase ∈ [Phase.opening, .receiving] →
      strchr (Function.update w.clients t c u).data newline = false
    by_cases hu : u = t
    · rw [hu, hself]
      exact hunseen
    · rw [hothers u hu]
      exact h.unseen u
  · intro u hmine
    show (Function.update w.clients t c u).phase.Holds
    have htakes := howner u hmine
    by_cases hu : u = t
    · rw [if_pos hu] at htakes
      rw [hu, hself]
      exact htakes
    · rw [if_neg hu] at htakes
      rw [hothers u hu]
      exact h.owner u htakes

/-- What a step of a handler does: it gets on, or may be scheduled in vain. -/
structure World.GetsOn (w : World τ) (t : τ) (w' : World τ) : Prop where
  proceeds : w'.Proceeds
  ahead : (w'.clients t).ahead < (w.clients t).ahead ∨
    w.Idle t ∧ (w'.clients t).ahead = (w.clients t).ahead

omit [DecidableEq τ] in
theorem World.GetsOn.stays (h : w.Proceeds) (hidle : w.Idle t) : w.GetsOn t w :=
  { proceeds := h
    ahead := .inr ⟨hidle, rfl⟩ }

/-- A step into a later phase. -/
theorem World.Proceeds.advance (h : w.Proceeds) {c : Client} {kernel : Kernel} {owner : Option τ}
    (before after : Phase) (hbefore : (w.clients t).phase = before) (hafter : c.phase = after)
    (hnext : after.ahead < before.ahead) (hsound : Sound kernel)
    (hfile : after ≠ .done → ∃ p, StandsAt c.file (some p))
    (hunseen : after ∈ [Phase.opening, .receiving] → strchr c.data newline = false)
    (howner : ∀ u, owner = some u → if u = t then after.Holds else w.owner = some u) :
    w.GetsOn t { w.put t c with kernel := kernel, owner := owner } := by
  subst hbefore hafter
  constructor
  · exact h.put hsound hfile hunseen howner
  · left
    show (Function.update w.clients t c t).ahead < (w.clients t).ahead
    rw [Function.update_self]
    exact Client.ahead_lt_of_phase hnext

/-- A handler has the mutex after a step that leaves it alone if it had it before. -/
theorem World.Proceeds.keeps (h : w.Proceeds) {before after : Phase}
    (hbefore : (w.clients t).phase = before) (hholds : before.Holds → after.Holds) (u : τ)
    (hu : w.owner = some u) : if u = t then after.Holds else w.owner = some u := by
  split
  · rename_i heq
    have hmine := h.owner u hu
    rw [heq, hbefore] at hmine
    exact hholds hmine
  · exact hu

/-- Something is received. -/
theorem World.Proceeds.step_receive (h : w.Proceeds) (hphase : (w.clients t).phase = .receiving)
    (bytes : List UInt8) : w.GetsOn t (w.put t ((w.clients t).receive bytes)) := by
  have hfile := h.file t (by simp [hphase])
  cases hfound : strchr ((w.clients t).data ++ bytes) newline with
  | true =>
      have hnext : ((w.clients t).receive bytes).phase = .locking := by
        simp [Client.receive, hfound]
      exact h.advance .receiving .locking hphase hnext (by decide) h.sound
        (fun _ => by simpa [Client.receive, hfound] using hfile) (by simp)
        (h.keeps hphase (by decide))
  | false =>
      by_cases hend : (w.clients t).endOfPacket = true
      · have hnext : ((w.clients t).receive bytes).phase = .relocking := by
          simp [Client.receive, hfound, hend]
        exact h.advance .receiving .relocking hphase hnext (by decide) h.sound
          (fun _ => by simpa [Client.receive, hfound, hend] using hfile) (by simp)
          (h.keeps hphase (by decide))
      · -- The handler goes on receiving.
        have hreceive : (w.clients t).receive bytes =
            { w.clients t with data := (w.clients t).data ++ bytes } := by
          simp [Client.receive, hfound, hend]
        rw [hreceive]
        constructor
        · exact h.put h.sound (fun _ => hfile) (fun _ => hfound)
            (h.keeps hphase (by simp [hphase, Phase.Holds]))
        · right
          refine ⟨.inl (by simp [hphase]), ?_⟩
          simp only [World.put, Function.update_self]
          rfl

/-- A piece is read, or the end is found. -/
theorem World.Proceeds.step_streaming (h : w.Proceeds) {m : Move τ}
    (hphase : (w.clients m.thread).phase = .streaming) (hreal : m.sched.Realistic) :
    w.GetsOn m.thread (w.step m) := by
  obtain ⟨p, hp⟩ := h.file m.thread (by simp [hphase])
  obtain ⟨hsound, q, hq, hmoves⟩ := DeviceFile.read_moves_on
    (d := ⟨w.kernel, (w.clients m.thread).file⟩) h.sound hp hreal (bufferSize - 1)
  simp only [World.step, hphase]
  generalize DeviceFile.read ⟨w.kernel, (w.clients m.thread).file⟩ m.sched (bufferSize - 1) =
    result at *
  split
  · rename_i hmore
    have hlt := hmoves hmore
    have hfits := hq.2
    constructor
    · exact h.put hsound (fun _ => ⟨q, hq⟩) (by simp) (h.keeps hphase (by simp))
    · left
      simp only [World.put, Function.update_self, Client.ahead, hphase, hq.1, hp.1,
        Int.toNat_natCast]
      omega
  · exact h.advance .streaming .streamed hphase rfl (by decide) hsound (fun _ => ⟨q, hq⟩)
      (by simp) (h.keeps hphase (by decide))

/-- **One step** of a handler. -/
theorem World.Proceeds.step (h : w.Proceeds) {m : Move τ} (hreal : m.sched.Realistic) :
    w.GetsOn m.thread (w.step m) := by
  have hunseen := h.unseen m.thread
  have hfile := h.file m.thread
  cases hphase : (w.clients m.thread).phase <;> simp only [hphase] at hunseen hfile
  case opening =>
    simp only [World.step, hphase]
    split
    · exact h.advance .opening .done hphase rfl (by decide) h.sound (absurd rfl) (by simp)
        (h.keeps hphase (by decide))
    · split
      · exact h.advance .opening .closing hphase rfl (by decide) h.sound
          (fun _ => hfile (by decide)) (by simp) (h.keeps hphase (by decide))
      · exact h.advance .opening .receiving hphase rfl (by decide) h.sound
          (fun _ => hfile (by decide)) (fun _ => hunseen (by decide))
          (h.keeps hphase (by decide))
  case receiving =>
    simp only [World.step, hphase]
    split
    · exact h.advance .receiving .closing hphase rfl (by decide) h.sound
        (fun _ => hfile (by decide)) (by simp) (h.keeps hphase (by decide))
    · split
      · exact h.advance .receiving .closing hphase rfl (by decide) h.sound
          (fun _ => hfile (by decide)) (by simp) (h.keeps hphase (by decide))
      · rename_i bytes hrecv
        split
        · exact h.advance .receiving .done hphase rfl (by decide) h.sound (absurd rfl) (by simp)
            (by simp)
        · exact h.step_receive hphase bytes
  case locking =>
    simp only [World.step, hphase]
    split
    · exact h.advance .locking .applying hphase rfl (by decide) h.sound
        (fun _ => hfile (by decide)) (by simp) (by simp [Phase.Holds])
    · rename_i hheld
      exact .stays h (.inr ⟨by simp [hphase], hheld⟩)
  case applying =>
    obtain ⟨p, hp⟩ := hfile (by decide)
    obtain ⟨hsound, hstands⟩ := DeviceFile.stands_applyData
      (d := ⟨w.kernel, (w.clients m.thread).file⟩) h.sound hp hreal (w.clients m.thread).data
    simp only [World.step, hphase]
    exact h.advance .applying .applied hphase rfl (by decide) hsound (fun _ => hstands) (by simp)
      (h.keeps hphase (by decide))
  case applied =>
    simp only [World.step, hphase]
    exact h.advance .applied .relocking hphase rfl (by decide) h.sound
      (fun _ => hfile (by decide)) (by simp) (by simp)
  case relocking =>
    simp only [World.step, hphase]
    split
    · exact h.advance .relocking .streaming hphase rfl (by decide) h.sound
        (fun _ => hfile (by decide)) (by simp) (by simp [Phase.Holds])
    · rename_i hheld
      exact .stays h (.inr ⟨by simp [hphase], hheld⟩)
  case streaming => exact h.step_streaming hphase hreal
  case streamed =>
    simp only [World.step, hphase]
    exact h.advance .streamed .closing hphase rfl (by decide) h.sound
      (fun _ => hfile (by decide)) (by simp) (by simp)
  case closing =>
    simp only [World.step, hphase]
    exact h.advance .closing .done hphase rfl (by decide)
      (DeviceFile.close_spec (d := ⟨w.kernel, (w.clients m.thread).file⟩) h.sound hreal).1
      (absurd rfl) (by simp) (h.keeps hphase (by decide))
  case done =>
    simp only [World.step, hphase]
    exact .stays h (.inl (by simp [hphase]))

/-! ## Runs without end -/

omit [DecidableEq τ] in
/-- A handler that may be scheduled in vain is in no locked section. -/
theorem World.Idle.not_holds (h : w.Idle t) : ¬(w.clients t).phase.Holds := by
  intro hholds
  unfold World.Idle at h
  unfold Phase.Holds at hholds
  cases hphase : (w.clients t).phase <;> simp [hphase] at h hholds

/-- Nothing is put ahead of a handler by any step. -/
theorem World.Proceeds.ahead_le (h : w.Proceeds) {m : Move τ} (hreal : m.sched.Realistic) (t : τ) :
    ((w.step m).clients t).ahead ≤ (w.clients t).ahead := by
  by_cases hmine : m.thread = t
  · rw [← hmine]
    rcases (h.step hreal).ahead with hlower | ⟨-, hsame⟩
    · exact hlower.le
    · exact hsame.le
  · rw [World.step_clients_of_ne hmine]

/-- **The handlers come to rest.**  Whatever fails, and in whatever order the threads are
scheduled as long as each is scheduled again and again, from some point on nobody holds the
mutex, and every handler has ended or stays in its receive loop, where `strchr` has never
found a newline. -/
theorem handlers_come_to_rest [Finite τ] (garbage : Nat → Nat → UInt8) (history : List Call)
    (hreal : ∀ c ∈ history, c.sched.Realistic) (endOfPacket : τ → Bool) (moves : ℕ → Move τ)
    (hsched : ∀ n, (moves n).sched.Realistic) (hfair : Fair (fun t m => m.thread = t) moves) :
    let w := stateAt World.step (World.start (runCalls garbage history) endOfPacket) moves
    ∃ n, ∀ k ≥ n, (w k).owner = none ∧ ∀ t,
      ((w k).clients t).phase = ((w n).clients t).phase ∧
      (((w k).clients t).phase = .done ∨
        ((w k).clients t).phase = .receiving ∧ strchr ((w k).clients t).data newline = false) := by
  intro w
  have hstart := World.proceeds_start (runCalls_sound garbage hreal) endOfPacket
  have hstep : ∀ (w : World τ) m, w.Proceeds → m.sched.Realistic → (w.step m).Proceeds :=
    fun _ _ h hm => (h.step hm).proceeds
  have hproceeds : ∀ k, (w k).Proceeds := invariant_at hstep hstart hsched
  have hown : ∀ t (w : World τ) m, w.Proceeds → m.sched.Realistic → m.thread = t →
      w.Idle t ∨ ∃ u, ((w.step m).clients u).ahead < (w.clients u).ahead := by
    rintro t w m h hm rfl
    rcases (h.step hm).ahead with hlower | ⟨hvain, -⟩
    · exact .inr ⟨m.thread, hlower⟩
    · exact .inl hvain
  obtain ⟨n, hstands, hidle⟩ := comes_to_rest (fun t w => (World.clients w t).ahead)
    (fun t w => World.Idle t w) hstep (fun t _ _ h hm => h.ahead_le hm t) hown hstart hsched hfair
  have hphase : ∀ t, ∀ k ≥ n, ((w k).clients t).phase = ((w n).clients t).phase :=
    fun t k hk => Client.phase_eq_of_ahead_eq (hstands t k hk)
  -- Whoever held the mutex could be scheduled in vain, and would be in no section.
  have hfree : ∀ k ≥ n, (w k).owner = none := by
    intro k hk
    by_contra hheld
    obtain ⟨u, hu⟩ := Option.ne_none_iff_exists'.1 hheld
    obtain ⟨k', hk', hvain⟩ := hidle u k hk
    have hholds := (hproceeds k).owner u hu
    rw [hphase u k hk, ← hphase u k' (le_trans hk hk')] at hholds
    exact hvain.not_holds hholds
  refine ⟨n, fun k hk => ⟨hfree k hk, fun t => ⟨hphase t k hk, ?_⟩⟩⟩
  obtain ⟨k', hk', hvain⟩ := hidle t k hk
  rcases hvain with hrest | ⟨-, hheld⟩
  · rw [hphase t k' (le_trans hk hk'), ← hphase t k hk] at hrest
    simp only [List.mem_cons, List.not_mem_nil, or_false] at hrest
    refine hrest.imp_right fun hreceives => ⟨hreceives, (hproceeds k).unseen t ?_⟩
    simp [hreceives]
  · exact absurd (hfree k' (le_trans hk hk')) hheld

/-- Two handlers that take turns. -/
def takingTurns (k : ℕ) : Move (Fin 2) := .calm (Fin.ofNat 2 k, [97, 10])

theorem handlers_come_to_rest_two :
    ∃ n, ∀ k ≥ n, (stateAt World.step (World.start (runCalls (fun _ _ => 0) []) fun _ => false)
      takingTurns k).owner = none := by
  obtain ⟨n, hrest⟩ := handlers_come_to_rest (fun _ _ => 0) [] (by simp) (fun _ => false)
    takingTurns (fun _ => Schedule.realistic_limited _ _) (by
      intro t n
      refine ⟨2 * n + t, by omega, ?_⟩
      apply Fin.ext
      have ht := t.isLt
      show (2 * n + t) % 2 = t
      omega)
  exact ⟨n, fun k hk => (hrest k hk).1⟩

end Steps

end Aesd.Server
