import Aesd.Driver.Concurrency
import Aesd.Server.Progress
import Aesd.Server.Transactions
import Aesd.Verified.LoneCalls

/-!
# Handlers under both locks

In `World.step` a call on the device is one step.  Here the handlers are in the middle of
their calls: each takes `dev->lock`, goes round the loops of the driver and comes back
while the others go on, and closes its file, which frees `dev->lock`, at any time.  Every
call that takes `dev->lock` is made under `file_mutex`, so that no two of them ever meet;
hence the calls are as good as single steps, and the unlocking in `aesd_release` hurts
nobody.
-/

namespace Aesd.Server

open Aesd.Driver
open Aesd.Verified
open Aesd.Verified.LockedCalls
open Aesd.Verified.Runs
open Aesd.Verified.Simulation

/-! ## The calls of a handler -/

theorem wrap64_range (x : Int) : -2 ^ 63 ≤ wrap64 x ∧ wrap64 x < 2 ^ 63 := by
  have hle : -((sizeMod : Int) / 2) ≤ wrap64 x := Int.le_bmod (by decide)
  rw [sizeMod] at hle
  exact ⟨by omega, wrap64_lt x⟩

/-- `f_pos`, which is an `loff_t`. -/
def loff (fPos : Int) : Loff := ⟨wrap64 fPos, wrap64_range fPos⟩

theorem val_loff (fPos : Int) : (loff fPos).val = wrap64 fPos := rfl

/-- The call on the device with which a handler goes on from where it is.  The two `lseek`
calls around the `ioctl` concern nothing but the handler's own file. -/
def Client.call (c : Client) (sched : Schedule) (hreal : sched.Realistic) : Option RealCall :=
  match c.phase with
  | .applying =>
      match seekCommand c.data with
      | some seekto =>
          some ⟨⟨sched, (aesdLlseek c.file 0 SEEK_CUR).2, .ioctl AESDCHAR_IOCSEEKTO seekto⟩, hreal⟩
      | none => some ⟨⟨sched, c.file, .write c.data⟩, hreal⟩
  | .streaming => some ⟨⟨sched, c.file, .read (bufferSize - 1) (loff c.file.fPos)⟩, hreal⟩
  | .closing => some ⟨⟨sched, c.file, .release⟩, hreal⟩
  | _ => none

/-- The handler goes on with what its call has answered; `log` is stored then. -/
def Client.resume (c : Client) (log : LineLog) (answer : Answer) : Client :=
  match c.phase with
  | .applying =>
      { c with
        phase := .applied
        file :=
          match seekCommand c.data with
          | some _ =>
              let file := (aesdLlseek c.file 0 SEEK_CUR).2
              (aesdLlseek { file with fPos := answer.pos } 0 SEEK_CUR).2
          | none => c.file
        snapshot := some (snapshotOf log c.data) }
  | .streaming =>
      let file := if 0 ≤ answer.ret then { c.file with fPos := answer.pos } else c.file
      if 0 < answer.ret then
        { c with
          file := file
          accepted := c.accepted ++ answer.delivered.take answer.ret.toNat }
      else { c with phase := .streamed, file := file }
  | .closing => { c with phase := .done, file := { c.file with privateData := false } }
  | _ => c

/-! ## The handlers in the middle of their calls -/

/-- The device with the calls on their way, who holds `file_mutex`, and the handlers. -/
structure Handlers (τ : Type) where
  device : State LineLog RealCall Section Answer τ
  owner : Option τ
  clients : τ → Client

/-- Handlers that have not started, on a device that holds `log`. -/
def Handlers.start {τ : Type} (log : LineLog) (endOfPacket : τ → Bool) : Handlers τ :=
  { device := .start log
    owner := none
    clients := fun t =>
      { phase := .opening, file := .opened, data := [], endOfPacket := endOfPacket t
        accepted := [], snapshot := none } }

/-- A step in which the kernel answers as it can. -/
abbrev RealMove (τ : Type) := { m : Move τ // m.sched.Realistic }

variable {τ : Type}

section Steps

variable [DecidableEq τ]

def Handlers.put (s : Handlers τ) (t : τ) (c : Client) : Handlers τ :=
  { s with clients := Function.update s.clients t c }

/-- A step between two calls on the device. -/
def Handlers.control (s : Handlers τ) (m : Move τ) : Handlers τ :=
  let t := m.thread
  let c := s.clients t
  match c.phase with
  | .opening =>
      if m.opens = false then s.put t { c with phase := .done }
      else if m.fstats = false then s.put t { c with phase := .closing }
      else s.put t { c with phase := .receiving }
  | .receiving =>
      if m.exits then s.put t { c with phase := .closing }
      else match m.recv with
        | none => s.put t { c with phase := .closing }
        | some bytes =>
            if m.realloc = false then { s.put t { c with phase := .done } with owner := none }
            else s.put t (c.receive bytes)
  | .locking =>
      if s.owner = none then { s.put t { c with phase := .applying } with owner := some t }
      else s
  | .applied => { s.put t { c with phase := .relocking } with owner := none }
  | .relocking =>
      if s.owner = none then { s.put t { c with phase := .streaming } with owner := some t }
      else s
  | .streamed => { s.put t { c with phase := .closing } with owner := none }
  | .applying | .streaming | .closing | .done => s

/-- One step: of a call on its way, its return, the beginning of one, or none of these. -/
def Handlers.step (s : Handlers τ) (m : RealMove τ) : Handlers τ :=
  let t := m.1.thread
  match s.device.phase t with
  | .idle =>
      match (s.clients t).call m.1.sched m.2 with
      | some c => { s with device := LockedCalls.step driver s.device (.call t c) }
      | none => s.control m.1
  | .returning _ ⟨answer, 0⟩ =>
      { s.put t ((s.clients t).resume s.device.data answer) with
        device := LockedCalls.step driver s.device (.go t) }
  | _ => { s with device := LockedCalls.step driver s.device (.go t) }

/-- The step of `World.step` that falls into a step here: that of a call when it returns. -/
def Handlers.moves (s : Handlers τ) (m : RealMove τ) : List (Move τ) :=
  match s.device.phase m.1.thread with
  | .idle =>
      match (s.clients m.1.thread).call m.1.sched m.2 with
      | some _ => []
      | none => [m.1]
  | .returning c ⟨_, 0⟩ => [{ m.1 with sched := c.1.sched }]
  | _ => []

/-- A failing `realloc` frees `file_mutex` only if nobody holds it. -/
def Handlers.Guarded (s : Handlers τ) (m : RealMove τ) : Prop :=
  (s.clients m.1.thread).phase = .receiving → m.1.ReallocFails → s.owner = none

instance (s : Handlers τ) (m : RealMove τ) : Decidable (s.Guarded m) := by
  unfold Handlers.Guarded Move.ReallocFails
  infer_instance

end Steps

/-! ## A call as one step -/

/-- A call that takes `dev->lock` is made under `file_mutex`. -/
theorem Client.holds_of_call {c : Client} {sched : Schedule} {hreal : sched.Realistic}
    {a : RealCall} (h : c.call sched hreal = some a) {first : Section}
    (henter : driver.enter a = .inr first) : c.phase.Holds := by
  unfold Client.call at h
  cases hphase : c.phase <;> rw [hphase] at h
  case applying => decide
  case streaming => decide
  case closing =>
    obtain rfl := Option.some.inj h
    simp only [driver, Call.enter] at henter
    split at henter <;> cases henter
  all_goals cases h

section Steps

variable [DecidableEq τ] {w : World τ}

/-- **A call that nobody interrupts** takes the handler to where it goes on with the
answer. -/
theorem World.step_call {m : Move τ} (hreal : m.sched.Realistic) {a : RealCall}
    (hcall : (w.clients m.thread).call m.sched hreal = some a)
    (hfile : ∃ p, StandsAt (w.clients m.thread).file (some p)) :
    w.step m =
      { w.put m.thread ((w.clients m.thread).resume (log (exec w.kernel a.1))
          (answerOf w.kernel a.1)) with
        kernel := exec w.kernel a.1 } := by
  obtain ⟨p, hopen, hp⟩ := hfile
  unfold Client.call at hcall
  cases hphase : (w.clients m.thread).phase <;> rw [hphase] at hcall
  case applying =>
    cases hseek : seekCommand (w.clients m.thread).data with
    | none =>
        simp only [hseek] at hcall
        obtain rfl := Option.some.inj hcall
        simp only [World.step, Client.resume, DeviceFile.applyData, hphase, hseek]
        rfl
    | some seekto =>
        simp only [hseek] at hcall
        obtain rfl := Option.some.inj hcall
        simp only [World.step, Client.resume, DeviceFile.applyData, DeviceFile.lseek,
          DeviceFile.ioctl, exec, answerOf, hphase, hseek]
        generalize (aesdLlseek (w.clients m.thread).file 0 SEEK_CUR).2 = file
        have hkeeps := unlockedIoctl_privateData (w.kernel.enter m.sched) file
          AESDCHAR_IOCSEEKTO seekto
        generalize unlockedIoctl (w.kernel.enter m.sched) file AESDCHAR_IOCSEEKTO seekto = r at *
        have hfile : r.2.2 = { file with fPos := r.2.2.fPos } := by
          rw [← hkeeps]
        rw [← hfile]
  case streaming =>
    obtain rfl := Option.some.inj hcall
    have hpos : (loff (w.clients m.thread).file.fPos).val = (w.clients m.thread).file.fPos := by
      have hat : (w.clients m.thread).file.fPos = (p : Int) := by rw [hopen]
      rw [val_loff, hat]
      exact wrap64_of_range (by omega) (by omega)
    simp only [World.step, Client.resume, DeviceFile.read, exec, answerOf, hphase, hpos]
    generalize aesdRead (w.kernel.enter m.sched) (w.clients m.thread).file (bufferSize - 1)
      (w.clients m.thread).file.fPos = r
    by_cases hmore : 0 < r.ret
    · simp only [if_pos hmore]
    · simp only [if_neg hmore]
  case closing =>
    obtain rfl := Option.some.inj hcall
    simp only [World.step, Client.resume, DeviceFile.close, exec, hphase, hopen]
    rfl
  all_goals cases hcall

/-- Between two calls a handler does here what it does there. -/
theorem World.step_control {s : Handlers τ} {m : Move τ} {hreal : m.sched.Realistic}
    (hclients : s.clients = w.clients) (howner : s.owner = w.owner)
    (hcall : (w.clients m.thread).call m.sched hreal = none) :
    (s.control m).clients = (w.step m).clients ∧ (s.control m).owner = (w.step m).owner ∧
      (w.step m).kernel = w.kernel := by
  unfold Client.call at hcall
  cases hphase : (w.clients m.thread).phase <;> rw [hphase] at hcall <;>
    simp only [Handlers.control, World.step, hclients, howner, hphase]
  case applying => cases hseek : seekCommand (w.clients m.thread).data <;> simp [hseek] at hcall
  case streaming => cases hcall
  case closing => cases hcall
  case receiving =>
    cases m.recv <;> simp only <;> split_ifs <;>
      simp [Handlers.put, World.put, hclients, howner]
  case applied => simp [Handlers.put, World.put, hclients]
  case streamed => simp [Handlers.put, World.put, hclients]
  case done => exact ⟨trivial, trivial, trivial⟩
  all_goals split_ifs <;> simp [Handlers.put, World.put, hclients, howner]

/-! ## Who holds `file_mutex` -/

/-- The handler in a locked section is the one that holds the mutex. -/
def World.Owned (w : World τ) : Prop := ∀ t, (w.clients t).phase.Holds ↔ w.owner = some t

variable {t : τ} {c : Client} {kernel : Kernel} {owner : Option τ}

private theorem World.Owned.put (h : w.Owned) (hself : c.phase.Holds ↔ owner = some t)
    (hothers : ∀ u, u ≠ t → (owner = some u ↔ w.owner = some u)) :
    ({ w.put t c with kernel := kernel, owner := owner } : World τ).Owned := by
  intro u
  show (Function.update w.clients t c u).phase.Holds ↔ owner = some u
  by_cases hu : u = t
  · rw [hu, Function.update_self]
    exact hself
  · rw [Function.update_of_ne hu, hothers u hu]
    exact h u

theorem World.Owned.keep (h : w.Owned) (hsame : c.phase.Holds ↔ (w.clients t).phase.Holds) :
    ({ w.put t c with kernel := kernel } : World τ).Owned :=
  h.put (hsame.trans (h t)) fun _ _ => Iff.rfl

theorem World.Owned.take (h : w.Owned) (hfree : w.owner = none) (hholds : c.phase.Holds) :
    ({ w.put t c with owner := some t } : World τ).Owned := by
  refine h.put (iff_of_true hholds rfl) fun u hu => iff_of_false ?_ ?_
  · exact fun hmine => hu (Option.some.inj hmine).symm
  · rw [hfree]
    exact Option.some_ne_none u ∘ Eq.symm

theorem World.Owned.free (h : w.Owned) (hmine : ∀ u, w.owner = some u → u = t)
    (hout : ¬c.phase.Holds) : ({ w.put t c with owner := none } : World τ).Owned :=
  h.put (iff_of_false hout (Option.some_ne_none t ∘ Eq.symm)) fun u hu =>
    iff_of_false (Option.some_ne_none u ∘ Eq.symm) fun howner => hu (hmine u howner)

/-- **A step** keeps it, unless a failing `realloc` frees the mutex under its holder. -/
theorem World.Owned.step (h : w.Owned) {m : Move τ} (hguard : w.Guarded m) : (w.step m).Owned := by
  have hmine := h m.thread
  cases hphase : (w.clients m.thread).phase <;> simp only [World.step, hphase] at hmine ⊢
  case opening => split_ifs <;> exact h.keep (by simp [hphase, Phase.Holds])
  case receiving =>
    by_cases hexits : m.exits = true
    · rw [if_pos hexits]
      exact h.keep (by simp [hphase, Phase.Holds])
    · rw [if_neg hexits]
      cases hrecv : m.recv with
      | none => exact h.keep (by simp [hphase, Phase.Holds])
      | some bytes =>
          simp only
          by_cases hrealloc : m.realloc = false
          · have hfails : m.ReallocFails := ⟨by simpa using hexits, by simp [hrecv], hrealloc⟩
            rw [if_pos hrealloc]
            refine h.free (fun u howner => ?_) (by simp [Phase.Holds])
            rw [hguard hphase hfails] at howner
            cases howner
          · have hout : ¬((w.clients m.thread).receive bytes).phase.Holds :=
              Client.not_holds_receive hphase bytes
            rw [if_neg hrealloc]
            exact h.keep (iff_of_false hout (by simp [hphase, Phase.Holds]))
  case locking =>
    split_ifs with hfree
    · exact h.take hfree (by simp [Phase.Holds])
    · exact h
  case applying => exact h.keep (by simp [hphase, Phase.Holds])
  case applied =>
    have howner : w.owner = some m.thread := hmine.1 (by decide)
    exact h.free (fun u hu => Option.some.inj (hu.symm.trans howner)) (by simp [Phase.Holds])
  case relocking =>
    split_ifs with hfree
    · exact h.take hfree (by simp [Phase.Holds])
    · exact h
  case streaming => split_ifs <;> exact h.keep (by simp [hphase, Phase.Holds])
  case streamed =>
    have howner : w.owner = some m.thread := hmine.1 (by decide)
    exact h.free (fun u hu => Option.some.inj (hu.symm.trans howner)) (by simp [Phase.Holds])
  case closing => exact h.keep (by simp [hphase, Phase.Holds])
  case done => exact h

/-! ## The handlers here and there -/

/-- The handlers stand where `World.step` has them, which makes a call when it returns
here. -/
structure Handlers.Stands (s : Handlers τ) (w : World τ) : Prop where
  clients : s.clients = w.clients
  owner : s.owner = w.owner
  proceeds : w.Proceeds
  owned : w.Owned
  calls : ∀ t a, (s.device.phase t).call = some a → (w.clients t).call a.1.sched a.2 = some a
  lone : Lone driver s.device (log w.kernel)

variable {s : Handlers τ}

omit [DecidableEq τ] in
theorem Handlers.stands_start {k : Kernel} (hk : Sound k) (endOfPacket : τ → Bool) :
    (Handlers.start (log k) endOfPacket).Stands (World.start k endOfPacket) :=
  { clients := rfl
    owner := rfl
    proceeds := World.proceeds_start hk endOfPacket
    owned := by simp [World.Owned, World.start, Phase.Holds]
    calls := by simp [Handlers.start, State.start, Phase.call]
    lone := lone_start driver (log k) }

omit [DecidableEq τ] in
/-- Who is in a call that takes `dev->lock` holds `file_mutex`. -/
theorem Handlers.Stands.owner_of_takes (h : s.Stands w) {t : τ}
    (htakes : driver.Takes (s.device.phase t)) : w.owner = some t := by
  obtain ⟨a, first, hcall, henter⟩ := htakes
  exact (h.owned t).1 (Client.holds_of_call (h.calls t a hcall) henter)

omit [DecidableEq τ] in
theorem Client.sched_of_call {c : Client} {sched : Schedule} {hreal : sched.Realistic}
    {a : RealCall} (h : c.call sched hreal = some a) : a.1.sched = sched := by
  unfold Client.call at h
  cases hphase : c.phase <;> rw [hphase] at h
  case applying =>
    cases hseek : seekCommand c.data <;> simp only [hseek] at h <;>
      obtain rfl := Option.some.inj h <;> rfl
  case streaming =>
    obtain rfl := Option.some.inj h
    rfl
  case closing =>
    obtain rfl := Option.some.inj h
    rfl
  all_goals cases h

theorem Client.call_sched {c : Client} {sched : Schedule} {hreal : sched.Realistic}
    {a : RealCall} (h : c.call sched hreal = some a) : c.call a.1.sched a.2 = some a := by
  have hsched := Client.sched_of_call h
  rcases a with ⟨⟨sched', filp, op⟩, hreal'⟩
  obtain rfl : sched' = sched := hsched
  exact h

/-- A call begins. -/
theorem Handlers.Stands.begins (h : s.Stands w) {t : τ} {sched : Schedule}
    {hreal : sched.Realistic} {a : RealCall} (hidle : s.device.phase t = .idle)
    (hcall : (w.clients t).call sched hreal = some a) :
    ({ s with device := LockedCalls.step driver s.device (.call t a) } : Handlers τ).Stands w := by
  have halone : ∀ first, driver.enter a = .inr first → ∀ u, ¬driver.Takes (s.device.phase u) := by
    intro first henter u htakes
    have hmine := (h.owned t).1 (Client.holds_of_call hcall henter)
    obtain rfl : t = u := Option.some.inj (hmine.symm.trans (h.owner_of_takes htakes))
    rw [hidle] at htakes
    exact driver.not_takes_idle htakes
  have hcalls : ∀ u b,
      ((LockedCalls.step driver s.device (.call t a)).phase u).call = some b →
      (w.clients u).call b.1.sched b.2 = some b := by
    intro u b hb
    obtain ⟨rfl, rfl⟩ | hb := call_of_step_call hidle hb
    · exact Client.call_sched hcall
    · exact h.calls u b hb
  exact { h with calls := hcalls, lone := h.lone.call hidle halone }

/-- A call goes on. -/
theorem Handlers.Stands.goesOn (h : s.Stands w) {t : τ}
    (hstays : ∀ a x, s.device.phase t ≠ .returning a ⟨x, 0⟩) :
    ({ s with device := LockedCalls.step driver s.device (.go t) } : Handlers τ).Stands w :=
  { h with
    calls := fun u b hb => h.calls u b (call_of_step_go hb)
    lone := h.lone.go t hstays }

/-- What a call leaves to go on with is looked at only when a packet has been applied. -/
theorem Client.resume_congr {c : Client} (hphase : c.phase ≠ .applying) (log log' : LineLog)
    (answer : Answer) : c.resume log answer = c.resume log' answer := by
  unfold Client.resume
  cases hp : c.phase <;> simp only
  case applying => exact absurd hp hphase

/-- **A call returns**, and has done what it does in one step. -/
theorem Handlers.Stands.returns (h : s.Stands w) {m : Move τ} {a : RealCall} {answer : Answer}
    (hp : s.device.phase m.thread = .returning a ⟨answer, 0⟩) :
    w.Guarded { m with sched := a.1.sched } ∧
      ({ s.put m.thread ((s.clients m.thread).resume s.device.data answer) with
          device := LockedCalls.step driver s.device (.go m.thread) } : Handlers τ).Stands
        (w.step { m with sched := a.1.sched }) := by
  have hk : Sound w.kernel := h.proceeds.sound
  have hcall : (w.clients m.thread).call a.1.sched a.2 = some a := h.calls _ a (by rw [hp]; rfl)
  have hbusy : (w.clients m.thread).phase ∈ [Phase.applying, .streaming, .closing] := by
    unfold Client.call at hcall
    cases hphase : (w.clients m.thread).phase <;> simp [hphase] at hcall ⊢
  obtain ⟨n, data, hanswers, hlone⟩ := h.lone.returns hp
  obtain ⟨hreply, hdata⟩ := hanswers.unique (driver_answers hk.wf a)
  have hanswer : answer = answerOf w.kernel a.1 :=
    (congrArg Reply.answer hreply).trans (hk.answerOf_eq a.2).symm
  have hlog : data = log (exec w.kernel a.1) := hdata.trans (exec_spec hk a.2).2.1.symm
  have hphases : ∀ u, u ≠ m.thread →
      (LockedCalls.step driver s.device (.go m.thread)).phase u = s.device.phase u := by
    intro u hu
    have hother : (Action.go m.thread : Action RealCall τ).thread ≠ u := hu.symm
    exact phase_step_of_ne hother
  have hidle : (LockedCalls.step driver s.device (.go m.thread)).phase m.thread = .idle :=
    phase_step_returns hp
  -- In a locked section nobody else has a call on its way to `dev->lock`.
  have hresume : (s.clients m.thread).resume s.device.data answer =
      (w.clients m.thread).resume (log (exec w.kernel a.1)) (answerOf w.kernel a.1) := by
    rw [h.clients, hanswer]
    by_cases happly : (w.clients m.thread).phase = .applying
    · have hmine : w.owner = some m.thread := (h.owned m.thread).1 (by rw [happly]; decide)
      have hsame : (LockedCalls.step driver s.device (.go m.thread)).data = s.device.data := by
        simp [LockedCalls.step, hp, State.put]
      rw [← hlog, ← hsame, hlone.rest]
      intro u htakes
      by_cases hu : u = m.thread
      · rw [hu, hidle] at htakes
        exact driver.not_takes_idle htakes
      · rw [hphases u hu] at htakes
        exact hu (Option.some.inj ((h.owner_of_takes htakes).symm.trans hmine))
    · exact Client.resume_congr happly ..
  have hguard : w.Guarded { m with sched := a.1.sched } := by
    intro hphase
    rw [hphase] at hbusy
    simp at hbusy
  have hfile : ∃ p, StandsAt (w.clients m.thread).file (some p) := by
    refine h.proceeds.file m.thread fun hdone => ?_
    rw [hdone] at hbusy
    simp at hbusy
  have hstep := World.step_call (m := { m with sched := a.1.sched }) a.2 hcall hfile
  refine ⟨hguard, ?_⟩
  constructor
  · rw [hstep]
    show Function.update s.clients m.thread _ = Function.update w.clients m.thread _
    rw [hresume, h.clients]
  · rw [hstep]
    exact h.owner
  · exact (h.proceeds.step a.2).proceeds
  · exact h.owned.step hguard
  · intro u b hb
    by_cases hu : u = m.thread
    · rw [hu, hidle] at hb
      cases hb
    · have hkeep : (w.step { m with sched := a.1.sched }).clients u = w.clients u :=
        World.step_clients_of_ne (Ne.symm hu)
      rw [hphases u hu] at hb
      rw [hkeep]
      exact h.calls u b hb
  · rw [hstep]
    exact hlog ▸ hlone

theorem Handlers.control_device (s : Handlers τ) (m : Move τ) :
    (s.control m).device = s.device := by
  unfold Handlers.control
  cases (s.clients m.thread).phase <;> simp only <;> repeat' split
  all_goals rfl

/-- A step between two calls. -/
theorem Handlers.Stands.controls (h : s.Stands w) {m : Move τ} (hreal : m.sched.Realistic)
    (hidle : s.device.phase m.thread = .idle)
    (hcall : (w.clients m.thread).call m.sched hreal = none) (hguard : w.Guarded m) :
    (s.control m).Stands (w.step m) := by
  obtain ⟨hclients, howner, hkernel⟩ := World.step_control h.clients h.owner hcall
  have hdevice := s.control_device m
  constructor
  · exact hclients
  · exact howner
  · exact (h.proceeds.step hreal).proceeds
  · exact h.owned.step hguard
  · intro u b hb
    rw [hdevice] at hb
    by_cases hu : u = m.thread
    · rw [hu, hidle] at hb
      cases hb
    · rw [World.step_clients_of_ne (Ne.symm hu)]
      exact h.calls u b hb
  · rw [hdevice, hkernel]
    exact h.lone

/-- **One step.** -/
theorem Handlers.Stands.step (h : s.Stands w) (m : RealMove τ) (hguard : s.Guarded m) :
    Along World.step World.Guarded w (s.moves m) ∧
      (s.step m).Stands ((s.moves m).foldl World.step w) := by
  obtain ⟨m, hreal⟩ := m
  have hguard' : w.Guarded m := by
    intro hphase hfails
    rw [← h.owner]
    exact hguard (by rw [h.clients]; exact hphase) hfails
  have hon : (∀ a x, s.device.phase m.thread ≠ .returning a ⟨x, 0⟩) →
      Along World.step World.Guarded w [] ∧
        ({ s with device := LockedCalls.step driver s.device (.go m.thread) } : Handlers τ).Stands
          w := fun hstays => ⟨trivial, h.goesOn hstays⟩
  unfold Handlers.step Handlers.moves
  cases hp : s.device.phase m.thread with
  | idle =>
      cases hcall : (s.clients m.thread).call m.sched hreal with
      | some a =>
          rw [h.clients] at hcall
          simp only [hp, h.clients, hcall]
          exact ⟨trivial, h.clients ▸ h.begins hp hcall⟩
      | none =>
          rw [h.clients] at hcall
          simp only [hp, h.clients, hcall]
          exact ⟨⟨hguard', trivial⟩, h.controls hreal hp hcall hguard'⟩
  | waiting a l =>
      simp only [hp]
      exact hon (by simp [hp])
  | inside a l =>
      simp only [hp]
      exact hon (by simp [hp])
  | leaving a r =>
      simp only [hp]
      exact hon (by simp [hp])
  | returning a r =>
      rcases r with ⟨answer, _ | n⟩
      · obtain ⟨hguarded, hstands⟩ := h.returns hp
        simp only [hp]
        exact ⟨⟨hguarded, trivial⟩, hstands⟩
      · simp only [hp]
        exact hon (by simp [hp])

/-! ## Who answers the calls -/

/-- The calls on their way are answered as the steps in which they began say. -/
def Handlers.AnsweredBy (good : Schedule → Prop) (s : Handlers τ) : Prop :=
  ∀ t a, (s.device.phase t).call = some a → good a.1.sched

theorem Handlers.AnsweredBy.step {good : Schedule → Prop} (h : s.AnsweredBy good)
    (m : RealMove τ) (hm : good m.1.sched) :
    (∀ call ∈ s.moves m, good call.sched) ∧ (s.step m).AnsweredBy good := by
  have hon : ∀ (s' : Handlers τ) (t : τ),
      s'.device = LockedCalls.step driver s.device (.go t) → s'.AnsweredBy good := by
    intro s' t hdevice u a ha
    rw [hdevice] at ha
    exact h u a (call_of_step_go ha)
  unfold Handlers.step Handlers.moves
  cases hp : s.device.phase m.1.thread with
  | idle =>
      cases hcall : (s.clients m.1.thread).call m.1.sched m.2 with
      | some a =>
          simp only [hp, hcall]
          refine ⟨by simp, fun u b hb => ?_⟩
          obtain ⟨rfl, rfl⟩ | hb := call_of_step_call hp hb
          · exact Client.sched_of_call hcall ▸ hm
          · exact h u b hb
      | none =>
          simp only [hp, hcall]
          refine ⟨by simpa using hm, fun u b hb => ?_⟩
          rw [s.control_device m.1] at hb
          exact h u b hb
  | waiting a l =>
      simp only [hp]
      exact ⟨by simp, hon _ m.1.thread rfl⟩
  | inside a l =>
      simp only [hp]
      exact ⟨by simp, hon _ m.1.thread rfl⟩
  | leaving a r =>
      simp only [hp]
      exact ⟨by simp, hon _ m.1.thread rfl⟩
  | returning a r =>
      rcases r with ⟨answer, _ | n⟩
      · have ha : good a.1.sched := h m.1.thread a (by rw [hp]; rfl)
        simp only [hp]
        exact ⟨by simpa using ha, hon _ m.1.thread rfl⟩
      · simp only [hp]
        exact ⟨by simp, hon _ m.1.thread rfl⟩

theorem Handlers.AnsweredBy.run {good : Schedule → Prop} {moves : List (RealMove τ)}
    (h : s.AnsweredBy good) (hmoves : ∀ m ∈ moves, good m.1.sched) :
    ∀ call ∈ emitted Handlers.step Handlers.moves s moves, good call.sched := by
  induction moves generalizing s with
  | nil => exact fun call hcall => absurd hcall List.not_mem_nil
  | cons m moves ih =>
      rw [List.forall_mem_cons] at hmoves
      obtain ⟨hnow, hnext⟩ := h.step m hmoves.1
      intro call hcall
      rcases List.mem_append.1 hcall with hcall | hcall
      · exact hnow call hcall
      · exact ih hnext hmoves.2 call hcall

/-! ## The run -/

/-- A run of the handlers and the run of `World.step` that it amounts to. -/
theorem Handlers.run_stands {k : Kernel} (hk : Sound k) (endOfPacket : τ → Bool)
    {moves : List (RealMove τ)}
    (hguard : Along Handlers.step Handlers.Guarded (.start (log k) endOfPacket) moves) :
    let calls := emitted Handlers.step Handlers.moves (.start (log k) endOfPacket) moves
    Along World.step World.Guarded (World.start k endOfPacket) calls ∧
      (moves.foldl Handlers.step (.start (log k) endOfPacket)).Stands
        ((World.start k endOfPacket).run calls) :=
  simulates_along (fun _ m _ h hm => Handlers.Stands.step h m hm)
    (Handlers.stands_start hk endOfPacket) hguard

omit [DecidableEq τ] in
/-- Nobody is on the way to `dev->lock` while `file_mutex` is free. -/
theorem Handlers.Stands.data_of_free (h : s.Stands w) (hfree : s.owner = none) :
    s.device.data = log w.kernel := by
  refine h.lone.rest fun t htakes => ?_
  have howner := h.owner_of_takes htakes
  rw [← h.owner] at howner
  exact Option.some_ne_none t (howner.symm.trans hfree)

/-- **Calls under `file_mutex` are single steps.**  The handlers run on a device with any
history, and their steps interleave between the loop rounds of the driver; any of them
closes its file at any time, and no failing `realloc` frees a held `file_mutex`.  Then the
handlers, and `file_mutex`, are where a run of `World.step` has them in which every call is
made in the step in which it returns here; at most one of them is between `mutex_lock` and
`mutex_unlock` of the driver, and none ever waits for `dev->lock`; and the device holds the
line log of that run whenever `file_mutex` is free. -/
theorem calls_are_steps (garbage : Nat → Nat → UInt8) (history : List Call)
    (hreal : ∀ c ∈ history, c.sched.Realistic) (endOfPacket : τ → Bool) (moves : List (RealMove τ))
    (hguard : Along Handlers.step Handlers.Guarded
      (.start (log (runCalls garbage history)) endOfPacket) moves) :
    let k := runCalls garbage history
    let s := moves.foldl Handlers.step (.start (log k) endOfPacket)
    let calls := emitted Handlers.step Handlers.moves (.start (log k) endOfPacket) moves
    let w := (World.start k endOfPacket).run calls
    s.clients = w.clients ∧ s.owner = w.owner ∧
      Along World.step World.Guarded (World.start k endOfPacket) calls ∧
      Exclusive s.device ∧
      (∀ t c l, s.device.phase t = .waiting c l → s.device.held = false) ∧
      (s.owner = none → s.device.data = log w.kernel) := by
  intro k s calls w
  obtain ⟨hguarded, h⟩ :=
    Handlers.run_stands (runCalls_sound garbage hreal) endOfPacket hguard
  refine ⟨h.clients, h.owner, hguarded, h.lone.exclusive, ?_, h.data_of_free⟩
  intro t c l hwait
  exact h.lone.not_held hwait

omit [DecidableEq τ] in
theorem Move.calm_realistic (step : τ × List UInt8) : (Move.calm step).sched.Realistic :=
  Schedule.realistic_limited [] []

/-- A step in which nothing fails; handler `false` is asked to leave its receive loop. -/
def falseLeaves (step : Bool × List UInt8) : RealMove Bool :=
  ⟨{ Move.calm step with exits := !step.1 }, Move.calm_realistic step⟩

/-- Handler `true` is in the middle of its `aesd_write` when handler `false` closes its
file. -/
def closesUnderWrite : List (Bool × List UInt8) :=
  [(true, [97, 10]), (true, [97, 10]), (true, []), (true, []), (true, []), (true, []),
    (false, []), (false, []), (false, []), (false, [])]

/-- `dev->lock` has been freed under handler `true`. -/
theorem calls_are_steps_closesUnderWrite :
    let k := runCalls (fun _ _ => 0) []
    let s := (closesUnderWrite.map falseLeaves).foldl Handlers.step (.start (log k) fun _ => false)
    s.device.held = false ∧ (s.device.phase true).Holds ∧ Exclusive s.device :=
  ⟨by decide +kernel, by decide +kernel,
    (calls_are_steps (fun _ _ => 0) [] (by simp) (fun _ => false)
      (closesUnderWrite.map falseLeaves) (by decide +kernel)).2.2.2.1⟩

/-- **Serializability, round by round.**  In every such interleaving of the handlers inside
their calls, in which the user copies go through, the device holds, and each client has
been sent, what the serial server has stored and answered after the transactions in their
order; a client whose answer is not complete has been sent the beginning of it. -/
theorem handlers_serializable (garbage : Nat → Nat → UInt8) (history : List Call)
    (hreal : ∀ c ∈ history, c.sched.Realistic) (endOfPacket : τ → Bool) (moves : List (RealMove τ))
    (hsucceed : ∀ m ∈ moves, m.1.Succeeds)
    (hguard : Along Handlers.step Handlers.Guarded
      (.start (log (runCalls garbage history)) endOfPacket) moves) :
    let k := runCalls garbage history
    let s := moves.foldl Handlers.step (.start (log k) endOfPacket)
    let calls := emitted Handlers.step Handlers.moves (.start (log k) endOfPacket) moves
    ∃ serial, accept SerialServer.next (.start (log k))
        (emitted World.step World.transactions (World.start k endOfPacket) calls) = some serial ∧
      (s.owner = none → s.device.data = serial.log) ∧
      ∀ t, (s.clients t).accepted <+: (serial.answer t).getD [] ∧
        ((s.clients t).Answered → (s.clients t).accepted = (serial.answer t).getD []) := by
  intro k s calls
  have hk : Sound k := runCalls_sound garbage hreal
  obtain ⟨hguarded, h⟩ := Handlers.run_stands hk endOfPacket hguard
  have hnone : (Handlers.start (log k) endOfPacket).AnsweredBy
      fun sched => sched.Realistic ∧ ∀ i, sched.copy i = true := by
    simp [Handlers.AnsweredBy, Handlers.start, State.start, Phase.call]
  have hcalls : ∀ m ∈ calls, m.Succeeds := hnone.run hsucceed
  obtain ⟨serial, haccept, hserves⟩ := (World.serves_start hk endOfPacket).run hcalls hguarded
  refine ⟨serial, haccept, fun hfree => (h.data_of_free hfree).trans hserves.log, fun t => ?_⟩
  rw [h.clients]
  constructor
  · exact (hserves.follows t).begins_answer
  · exact fun hanswered => ((hserves.follows t).answered hanswered).1

/-- Handler `true` goes on, and its client is answered the line. -/
theorem handlers_serializable_closesUnderWrite :
    let run := (closesUnderWrite ++ List.replicate 30 (true, [])).map falseLeaves
    let s := run.foldl Handlers.step (.start (log (runCalls (fun _ _ => 0) [])) fun _ => false)
    ∃ serial : SerialServer Bool,
      (serial.answer true).getD [] = [97, 10] ∧ (s.owner = none → s.device.data = serial.log) := by
  intro run s
  have hsucceed : ∀ m ∈ run, m.1.Succeeds := by
    intro m hm
    obtain ⟨step, -, rfl⟩ := List.mem_map.1 hm
    exact ⟨(falseLeaves step).2, fun _ => rfl⟩
  obtain ⟨serial, -, hdata, hclients⟩ := handlers_serializable (fun _ _ => 0) [] (by simp)
    (fun _ => false) run hsucceed (by decide +kernel)
  refine ⟨serial, ?_, hdata⟩
  rw [← (hclients true).2 (by decide +kernel)]
  decide +kernel

end Steps

end Aesd.Server
