import Aesd.Server.Answers
import Mathlib.Data.Fintype.Basic

/-!
# Many clients at once

Any number of handler threads share the device and `file_mutex`, and their steps
interleave in any order.  A handler applies its packet in one locked section and
streams its answer in another.  `snapshot` remembers what the first section left for
the second to read; the answer is that snapshot as long as nobody changes the stored
lines between the two.
-/

namespace Aesd.Server

open Aesd.Driver
open Aesd.Verified.Lines
open Aesd.Verified.Runs

/-! ## The handlers -/

/-- Where a handler is in `data_processing`. -/
inductive Phase
  | opening
  | receiving
  | locking
  | applying
  | applied
  | relocking
  | streaming
  | streamed
  | closing
  | done
  deriving DecidableEq

/-- Between a `pthread_mutex_lock` of the handler and its `pthread_mutex_unlock`. -/
def Phase.Holds (phase : Phase) : Prop :=
  phase ∈ [Phase.applying, .applied, .streaming, .streamed]

instance (phase : Phase) : Decidable phase.Holds :=
  inferInstanceAs (Decidable (phase ∈ [Phase.applying, .applied, .streaming, .streamed]))

/-- A handler: its open file, its packet, what its socket has taken, and what the
stored bytes were when its packet took effect. -/
structure Client where
  phase : Phase
  file : File
  data : List UInt8
  endOfPacket : Bool
  accepted : List UInt8
  snapshot : Option (List UInt8)

/-- The handlers, the device, and who holds `file_mutex`. -/
structure World (τ : Type) where
  kernel : Kernel
  owner : Option τ
  clients : τ → Client

/-- Handlers that have not started.  Nobody initialises `end_of_packet`. -/
def World.start {τ : Type} (kernel : Kernel) (endOfPacket : τ → Bool) : World τ :=
  { kernel := kernel
    owner := none
    clients := fun t =>
      { phase := .opening, file := .opened, data := [], endOfPacket := endOfPacket t
        accepted := [], snapshot := none } }

/-- One step of a thread, and what the system answers if the step asks for it. -/
structure Move (τ : Type) where
  thread : τ
  opens : Bool
  fstats : Bool
  exits : Bool
  recv : Option (List UInt8)
  realloc : Bool
  sched : Schedule

/-- What a packet entitles its sender to when it leaves `log`: everything stored, or
what is stored from the sought byte on. -/
def snapshotOf (log : LineLog) (packet : List UInt8) : List UInt8 :=
  match seekCommand packet with
  | some seekto => log.suffixFrom seekto.writeCmd.toNat seekto.writeCmdOffset.toNat
  | none => log.contents

/-- What the handler will read back is what it is entitled to. -/
theorem drop_packetLog (sched : Schedule) (log : LineLog) (packet : List UInt8) :
    (packetLog sched log packet).contents.drop (afterPacket log packet).2 =
      snapshotOf (packetLog sched log packet) packet := by
  unfold packetLog afterPacket snapshotOf
  cases seekCommand packet with
  | none => rfl
  | some seekto => exact LineLog.drop_seekTarget ..

variable {τ : Type}

section Steps

variable [DecidableEq τ]

def World.put (w : World τ) (t : τ) (c : Client) : World τ :=
  { w with clients := Function.update w.clients t c }

/-- The receive step: lines 192 to 217, and line 237. -/
def Client.receive (c : Client) (bytes : List UInt8) : Client :=
  let c := { c with data := c.data ++ bytes }
  if strchr c.data newline then { c with endOfPacket := true, phase := .locking }
  else if c.endOfPacket then { c with phase := .relocking }
  else c

/-- One step.  A thread that wants the mutex waits while somebody holds it.  A call on the
device is made within one step, so that `dev->lock` is not seen; sends take the whole
piece. -/
def World.step (w : World τ) (m : Move τ) : World τ :=
  let t := m.thread
  let c := w.clients t
  let device : DeviceFile := { kernel := w.kernel, file := c.file }
  match c.phase with
  | .opening =>
      if m.opens = false then w.put t { c with phase := .done }
      else if m.fstats = false then w.put t { c with phase := .closing }
      else w.put t { c with phase := .receiving }
  | .receiving =>
      if m.exits then w.put t { c with phase := .closing }
      else match m.recv with
        | none => w.put t { c with phase := .closing }
        | some bytes =>
            -- After a failing `realloc` the thread frees a mutex it does not hold.
            if m.realloc = false then { w.put t { c with phase := .done } with owner := none }
            else w.put t (c.receive bytes)
  | .locking =>
      if w.owner = none then { w.put t { c with phase := .applying } with owner := some t }
      else w
  | .applying =>
      let device := device.applyData m.sched c.data
      { w.put t { c with
          phase := .applied
          file := device.file
          snapshot := some (snapshotOf (log device.kernel) c.data) } with
        kernel := device.kernel }
  | .applied => { w.put t { c with phase := .relocking } with owner := none }
  | .relocking =>
      if w.owner = none then { w.put t { c with phase := .streaming } with owner := some t }
      else w
  | .streaming =>
      let (bytesRead, buffer, device) := device.read m.sched (bufferSize - 1)
      if 0 < bytesRead then
        { w.put t { c with
            file := device.file
            accepted := c.accepted ++ buffer.take bytesRead.toNat } with
          kernel := device.kernel }
      else { w.put t { c with phase := .streamed, file := device.file } with
        kernel := device.kernel }
  | .streamed => { w.put t { c with phase := .closing } with owner := none }
  | .closing =>
      let device := device.close m.sched
      { w.put t { c with phase := .done, file := device.file } with kernel := device.kernel }
  | .done => w

/-- A step of another handler leaves this one where it is. -/
theorem World.step_clients_of_ne {w : World τ} {m : Move τ} {t : τ} (hother : m.thread ≠ t) :
    (w.step m).clients t = w.clients t := by
  have hput : ∀ c, (w.put m.thread c).clients t = w.clients t := by
    intro c
    exact Function.update_of_ne hother.symm c w.clients
  unfold World.step
  cases (w.clients m.thread).phase <;> simp only <;> repeat' split
  all_goals first | rfl | exact hput _

/-- The handlers after a run. -/
def World.run (w : World τ) (moves : List (Move τ)) : World τ := moves.foldl World.step w

end Steps

/-- The user copies of a step go through. -/
def Move.Succeeds (m : Move τ) : Prop := m.sched.Realistic ∧ ∀ i, m.sched.copy i = true

/-- A step of a thread in which nothing fails; `recv` would bring the bytes. -/
def Move.calm (step : τ × List UInt8) : Move τ :=
  { thread := step.1
    opens := true
    fstats := true
    exits := false
    recv := some step.2
    realloc := true
    sched := .limited [] [] }

theorem Move.calm_succeeds (steps : List (τ × List UInt8)) :
    ∀ m ∈ steps.map Move.calm, m.Succeeds := by
  intro m hm
  obtain ⟨step, -, rfl⟩ := List.mem_map.1 hm
  exact ⟨Schedule.realistic_limited _ _, fun _ => rfl⟩

/-! ## Nobody disturbs -/

/-- Between the two locked sections, the packet applied and the answer to come. -/
def Client.Between (c : Client) : Prop := c.phase = .relocking ∧ c.snapshot.isSome = true

instance (c : Client) : Decidable c.Between :=
  inferInstanceAs (Decidable (c.phase = .relocking ∧ c.snapshot.isSome = true))

/-- The step calls `realloc` and gets nothing. -/
def Move.ReallocFails (m : Move τ) : Prop :=
  m.exits = false ∧ m.recv.isSome = true ∧ m.realloc = false

/-- The step does not change the stored lines while a handler is between its two
sections, and it frees the mutex after a failing `realloc` only if nobody holds it. -/
def World.Undisturbed (w : World τ) (m : Move τ) : Prop :=
  ((w.clients m.thread).phase = .applying → ∀ u, (w.clients u).Between →
    (packetLog m.sched (log w.kernel) (w.clients m.thread).data).entries =
      (log w.kernel).entries) ∧
  ((w.clients m.thread).phase = .receiving → m.ReallocFails → w.owner = none)

instance [Fintype τ] [DecidableEq τ] (w : World τ) (m : Move τ) :
    Decidable (w.Undisturbed m) := by
  unfold World.Undisturbed Move.ReallocFails
  infer_instance

/-! ## The invariant -/

/-- The file is open at position `p`. -/
def Client.At (c : Client) (p : Nat) : Prop := c.file.privateData = true ∧ c.file.fPos = p

/-- What holds of a handler while `contents` is stored: what it has sent and what it
still sees make its snapshot. -/
def Client.View (contents : List UInt8) (c : Client) : Prop :=
  match c.phase with
  | .opening | .receiving | .locking | .applying =>
      c.At 0 ∧ c.snapshot = none ∧ c.accepted = []
  | .applied | .relocking | .streaming =>
      ∃ p < 2 ^ 63, c.At p ∧ ∀ snap ∈ c.snapshot, c.accepted ++ contents.drop p = snap
  | .streamed | .closing | .done => ∀ snap ∈ c.snapshot, c.accepted = snap

/-- The invariant of a run. -/
structure World.Inv (w : World τ) : Prop where
  sound : Sound w.kernel
  owner : ∀ t, (w.clients t).phase.Holds ↔ w.owner = some t
  view : ∀ t, (w.clients t).View (log w.kernel).contents

theorem World.inv_start {kernel : Kernel} (hk : Sound kernel) (endOfPacket : τ → Bool) :
    (World.start kernel endOfPacket).Inv :=
  { sound := hk
    owner := by simp [World.start, Phase.Holds]
    view := fun t => ⟨⟨rfl, rfl⟩, rfl, rfl⟩ }

variable [DecidableEq τ] {w : World τ} {t : τ}

/-- A step of `t` keeps the invariant when it gives `t` its view, leaves the others
theirs, and takes or frees the mutex as the phase of `t` says. -/
theorem World.Inv.put (h : w.Inv) {c : Client} {kernel : Kernel} {owner : Option τ}
    (hsound : Sound kernel) (hview : c.View (log kernel).contents)
    (hothers : ∀ u ≠ t, (w.clients u).View (log kernel).contents)
    (howner : c.phase.Holds ↔ owner = some t)
    (hfree : ∀ u ≠ t, w.owner = some u ↔ owner = some u) :
    ({ w.put t c with kernel := kernel, owner := owner } : World τ).Inv := by
  constructor
  · exact hsound
  · intro u
    show (Function.update w.clients t c u).phase.Holds ↔ owner = some u
    by_cases hu : u = t
    · rw [hu, Function.update_self]
      exact howner
    · rw [Function.update_of_ne hu, ← hfree u hu]
      exact h.owner u
  · intro u
    show (Function.update w.clients t c u).View (log kernel).contents
    by_cases hu : u = t
    · rw [hu, Function.update_self]
      exact hview
    · rw [Function.update_of_ne hu]
      exact hothers u hu

/-- A step that keeps what is stored and does not touch the mutex. -/
theorem World.Inv.putView (h : w.Inv) {c : Client} {kernel : Kernel} (hsound : Sound kernel)
    (hlog : log kernel = log w.kernel) (hview : c.View (log w.kernel).contents)
    (hphase : c.phase.Holds ↔ (w.clients t).phase.Holds) :
    ({ w.put t c with kernel := kernel } : World τ).Inv := by
  rw [← hlog] at hview
  apply h.put hsound hview
  · intro u _
    rw [hlog]
    exact h.view u
  · exact hphase.trans (h.owner t)
  · intro u _
    exact Iff.rfl

/-- A step that takes the mutex. -/
theorem World.Inv.putLock (h : w.Inv) {c : Client} (hview : c.View (log w.kernel).contents)
    (hholds : c.phase.Holds) (hfree : w.owner = none) :
    ({ w.put t c with owner := some t } : World τ).Inv := by
  apply h.put h.sound hview
  · intro u _
    exact h.view u
  · exact iff_of_true hholds rfl
  · intro u hu
    rw [hfree]
    apply iff_of_false
    · exact nofun
    · intro heq
      exact hu (Option.some.inj heq).symm

/-- A step that takes the mutex when it is free, and else waits. -/
theorem World.Inv.putLockOrWait (h : w.Inv) {c : Client}
    (hview : c.View (log w.kernel).contents) (hholds : c.phase.Holds) :
    (if w.owner = none then ({ w.put t c with owner := some t } : World τ) else w).Inv := by
  by_cases hfree : w.owner = none
  · rw [if_pos hfree]
    exact h.putLock hview hholds hfree
  · rw [if_neg hfree]
    exact h

/-- A step that frees the mutex, which nobody else holds. -/
theorem World.Inv.putUnlock (h : w.Inv) {c : Client} (hview : c.View (log w.kernel).contents)
    (hholds : ¬c.phase.Holds) (hmine : ∀ u, w.owner = some u → u = t) :
    ({ w.put t c with owner := none } : World τ).Inv := by
  apply h.put h.sound hview
  · intro u _
    exact h.view u
  · exact iff_of_false hholds nofun
  · intro u hu
    apply iff_of_false
    · intro heq
      exact hu (hmine u heq)
    · exact nofun

theorem Client.view_receive {contents : List UInt8} {c : Client} (h : c.View contents)
    (hphase : c.phase = .receiving) (bytes : List UInt8) : (c.receive bytes).View contents := by
  simp only [Client.View, hphase] at h
  obtain ⟨hat, hsnapshot, haccepted⟩ := h
  unfold Client.receive
  simp only
  split
  · exact ⟨hat, hsnapshot, haccepted⟩
  · split
    · exact ⟨0, by omega, hat, by simp [hsnapshot]⟩
    · simp only [Client.View, hphase]
      exact ⟨hat, hsnapshot, haccepted⟩

theorem Client.not_holds_receive {c : Client} (hphase : c.phase = .receiving)
    (bytes : List UInt8) : ¬(c.receive bytes).phase.Holds := by
  have hnext : (c.receive bytes).phase ∈ [Phase.locking, .relocking, .receiving] := by
    unfold Client.receive
    simp only
    split
    · simp
    · split
      · simp
      · simp [hphase]
  revert hnext
  generalize (c.receive bytes).phase = phase
  cases phase <;> decide

/-- A handler outside its sections sees the same as long as nothing changes while it is
between them. -/
theorem Client.View.congr {contents contents' : List UInt8} {c : Client} (h : c.View contents)
    (hfree : ¬c.phase.Holds) (hsame : c.Between → contents' = contents) : c.View contents' := by
  unfold Client.View at *
  cases hphase : c.phase <;> rw [hphase] at hfree <;> simp only [hphase] at h ⊢
  case relocking =>
    rcases h with ⟨p, hp, hat, hsnap⟩
    refine ⟨p, hp, hat, ?_⟩
    intro snap hmem
    rw [hsame ⟨hphase, Option.isSome_of_mem hmem⟩]
    exact hsnap snap hmem
  case applied => exact absurd (by decide) hfree
  case streaming => exact absurd (by decide) hfree
  all_goals exact h

/-- **The packet takes effect.**  The handler's snapshot is what it sees now, and the
others see what they saw. -/
theorem World.Inv.step_applying (h : w.Inv) {m : Move τ}
    (hphase : (w.clients m.thread).phase = .applying) (hm : m.Succeeds)
    (hquiet : w.Undisturbed m) : (w.step m).Inv := by
  have hview := h.view m.thread
  have howner := h.owner m.thread
  have heffect := hquiet.1 hphase
  simp only [World.step, hphase]
  simp only [Client.View, hphase] at hview
  rw [hphase] at howner
  have howned : w.owner = some m.thread := howner.1 (by decide)
  obtain ⟨⟨hopen, hpos⟩, hsnapshot, haccepted⟩ := hview
  have hready : DeviceFile.Ready ⟨w.kernel, (w.clients m.thread).file⟩ 0 :=
    { sound := h.sound, opened := hopen, fPos := hpos }
  obtain ⟨hready', hlog⟩ := hready.applyData hm.1 (hm.2 0) (w.clients m.thread).data
  generalize DeviceFile.applyData ⟨w.kernel, (w.clients m.thread).file⟩ m.sched
    (w.clients m.thread).data = device at *
  apply h.put hready'.sound
  · refine ⟨_, afterPacket_lt h.sound.wf _, ⟨hready'.opened, hready'.fPos⟩, ?_⟩
    intro snap hmem
    obtain rfl := Option.some.inj hmem
    rw [haccepted, List.nil_append, hlog]
    exact drop_packetLog ..
  · intro u hu
    have hfree : ¬(w.clients u).phase.Holds := by
      rw [h.owner u, howned, Option.some.injEq]
      intro heq
      exact hu heq.symm
    apply (h.view u).congr hfree
    intro hbetween
    rw [hlog, LineLog.contents, heffect u hbetween]
    rfl
  · exact iff_of_true (by simp [Phase.Holds]) howned
  · intro u _
    exact Iff.rfl

/-- **One piece is streamed**, or nothing is left. -/
theorem World.Inv.step_streaming (h : w.Inv) {m : Move τ}
    (hphase : (w.clients m.thread).phase = .streaming) (hm : m.Succeeds) : (w.step m).Inv := by
  have hview := h.view m.thread
  simp only [World.step, hphase]
  simp only [Client.View, hphase] at hview
  obtain ⟨p, hp, ⟨hopen, hpos⟩, hsnap⟩ := hview
  have hready : DeviceFile.Ready ⟨w.kernel, (w.clients m.thread).file⟩ p :=
    { sound := h.sound, opened := hopen, fPos := hpos }
  obtain ⟨hret, hbytes, hready', hlog⟩ := hready.read hp hm.1 hm.2 (bufferSize - 1) rfl
  generalize DeviceFile.read ⟨w.kernel, (w.clients m.thread).file⟩ m.sched (bufferSize - 1) =
    result at *
  have hrest := take_append_drop_piece (log w.kernel).contents p (bufferSize - 1)
  have hlt := h.sound.wf.contents_lt
  generalize hpiece : ((log w.kernel).contents.drop p).take (bufferSize - 1) = piece at *
  have hlen := congrArg List.length hpiece
  simp only [List.length_take, List.length_drop, bufferSize] at hlen
  rw [hret, hbytes, Int.toNat_natCast, List.take_length]
  split
  · refine h.putView hready'.sound hlog ?_ (by simp [Phase.Holds, hphase])
    simp only [Client.View]
    refine ⟨p + piece.length, by omega, ⟨hready'.opened, hready'.fPos⟩, ?_⟩
    intro snap hmem
    rw [List.append_assoc, hrest]
    exact hsnap snap hmem
  · refine h.putView hready'.sound hlog ?_ (by simp [Phase.Holds, hphase])
    -- An empty piece means that the position is at the end.
    intro snap hmem
    have hend : (log w.kernel).contents.drop p = [] := by
      apply List.drop_eq_nil_of_le
      omega
    have hlast := hsnap snap hmem
    rwa [hend, List.append_nil] at hlast

/-- **A round of the receive loop**, up to the test of its packet. -/
theorem World.Inv.step_receiving (h : w.Inv) {m : Move τ}
    (hphase : (w.clients m.thread).phase = .receiving)
    (hrealloc : m.ReallocFails → w.owner = none) : (w.step m).Inv := by
  have hview := h.view m.thread
  have hsnapshot : (w.clients m.thread).snapshot = none := by
    simp only [Client.View, hphase] at hview
    exact hview.2.1
  have hleave : ∀ phase ∈ [Phase.closing, .done],
      ({ w.clients m.thread with phase := phase } : Client).View (log w.kernel).contents := by
    intro phase hmem
    rcases List.mem_cons.1 hmem with rfl | hmem
    · simp [Client.View, hsnapshot]
    · rw [List.mem_singleton.1 hmem]
      simp [Client.View, hsnapshot]
  simp only [World.step, hphase]
  split
  · exact h.putView h.sound rfl (hleave _ (by simp)) (by simp [Phase.Holds, hphase])
  · rename_i hstays
    cases hrecv : m.recv with
    | none => exact h.putView h.sound rfl (hleave _ (by simp)) (by simp [Phase.Holds, hphase])
    | some bytes =>
        simp only
        split
        · rename_i hfails
          have hfree := hrealloc ⟨by simpa using hstays, by simp [hrecv], hfails⟩
          exact h.putUnlock (hleave _ (by simp)) (by simp [Phase.Holds]) (by simp [hfree])
        · apply h.putView h.sound rfl (Client.view_receive hview hphase bytes)
          exact iff_of_false (Client.not_holds_receive hphase bytes)
            (by simp [Phase.Holds, hphase])

/-- **One step** keeps the invariant. -/
theorem World.Inv.step (h : w.Inv) {m : Move τ} (hm : m.Succeeds) (hquiet : w.Undisturbed m) :
    (w.step m).Inv := by
  have hview := h.view m.thread
  have howner := h.owner m.thread
  cases hphase : (w.clients m.thread).phase with
  | opening =>
      simp only [World.step, hphase]
      simp only [Client.View, hphase] at hview
      rcases hview with ⟨hat, hsnapshot, haccepted⟩
      split
      · exact h.putView h.sound rfl (by simp [Client.View, hsnapshot])
          (by simp [Phase.Holds, hphase])
      · split
        · exact h.putView h.sound rfl (by simp [Client.View, hsnapshot])
            (by simp [Phase.Holds, hphase])
        · exact h.putView h.sound rfl ⟨hat, hsnapshot, haccepted⟩
            (by simp [Phase.Holds, hphase])
  | receiving => exact h.step_receiving hphase (hquiet.2 hphase)
  | locking =>
      simp only [World.step, hphase]
      simp only [Client.View, hphase] at hview
      exact h.putLockOrWait hview (by simp [Phase.Holds])
  | applying => exact h.step_applying hphase hm hquiet
  | applied =>
      simp only [World.step, hphase]
      simp only [Client.View, hphase] at hview
      have howned := howner.1 (by simp [Phase.Holds, hphase])
      exact h.putUnlock hview (by simp [Phase.Holds]) (by simp [howned])
  | relocking =>
      simp only [World.step, hphase]
      simp only [Client.View, hphase] at hview
      exact h.putLockOrWait hview (by simp [Phase.Holds])
  | streaming => exact h.step_streaming hphase hm
  | streamed =>
      simp only [World.step, hphase]
      simp only [Client.View, hphase] at hview
      have howned := howner.1 (by simp [Phase.Holds, hphase])
      exact h.putUnlock hview (by simp [Phase.Holds]) (by simp [howned])
  | closing =>
      simp only [World.step, hphase]
      simp only [Client.View, hphase] at hview
      obtain ⟨hsound, hlog⟩ := DeviceFile.close_spec
        (d := ⟨w.kernel, (w.clients m.thread).file⟩) h.sound hm.1
      exact h.putView hsound hlog hview (by simp [Phase.Holds, hphase])
  | done =>
      simp only [World.step, hphase]
      exact h

/-! ## Answers -/

/-- The answer is complete. -/
def Client.Answered (c : Client) : Prop := c.phase ∈ [Phase.streamed, .closing, .done]

instance (c : Client) : Decidable c.Answered :=
  inferInstanceAs (Decidable (c.phase ∈ [Phase.streamed, .closing, .done]))

theorem Client.View.accepted_eq {contents : List UInt8} {c : Client} (h : c.View contents)
    (hanswered : c.Answered) {snap : List UInt8} (hsnap : c.snapshot = some snap) :
    c.accepted = snap := by
  unfold Client.View at h
  unfold Client.Answered at hanswered
  cases hphase : c.phase <;> simp only [hphase] at h hanswered
  case streamed => exact h snap hsnap
  case closing => exact h snap hsnap
  case done => exact h snap hsnap
  all_goals simp at hanswered

/-- **A snapshot each.**  In every interleaving in which no stored line changes while a
handler is between its two sections, each answer is what the handler's own packet left
for it to read. -/
theorem answers_are_snapshots (garbage : Nat → Nat → UInt8) (history : List Call)
    (hreal : ∀ c ∈ history, c.sched.Realistic) (endOfPacket : τ → Bool) (moves : List (Move τ))
    (hsucceed : ∀ m ∈ moves, m.Succeeds)
    (hquiet : Along World.step World.Undisturbed
      (World.start (runCalls garbage history) endOfPacket) moves)
    (n : Nat) (t : τ) (snap : List UInt8) :
    let c := ((World.start (runCalls garbage history) endOfPacket).run (moves.take n)).clients t
    c.Answered → c.snapshot = some snap → c.accepted = snap := by
  intro c hanswered hsnap
  have hrun : ((World.start (runCalls garbage history) endOfPacket).run (moves.take n)).Inv := by
    refine invariant (P := fun w m => m.Succeeds ∧ w.Undisturbed m) ?_
      (World.inv_start (runCalls_sound garbage hreal) endOfPacket) ?_
    · intro w m h hm
      exact h.step hm.1 hm.2
    · exact (along_and (along_of_forall hsucceed) hquiet).take n
  exact (hrun.view t).accepted_eq hanswered hsnap

/-- Client 1 waits for the mutex while client 0 is inside, and comes again when client 0
has its answer. -/
theorem answers_are_snapshots_two :
    (((World.start (runCalls (fun _ _ => 0) []) fun _ : Fin 2 => false).run
      (List.take 12 ([(0, []), (1, []), (0, [97, 10]), (1, [98, 10]), (0, []), (1, []), (0, []),
        (0, []), (0, []), (0, []), (0, []), (0, []), (1, []), (1, [])].map Move.calm))).clients
          0).accepted = [97, 10] :=
  answers_are_snapshots (fun _ _ => 0) [] (by simp) (fun _ => false)
    ([(0, []), (1, []), (0, [97, 10]), (1, [98, 10]), (0, []), (1, []), (0, []), (0, []), (0, []),
      (0, []), (0, []), (0, []), (1, []), (1, [])].map Move.calm)
    (Move.calm_succeeds _) (by decide +kernel) 12 0 [97, 10] (by decide +kernel)
    (by decide +kernel)

/-- Client 1 writes its line between the two sections of client 0, which is then sent
both lines. -/
theorem second_write_disturbs_answer :
    ¬∀ (moves : List (Move (Fin 2))), (∀ m ∈ moves, m.Succeeds) → ∀ (t : Fin 2) (snap : List UInt8),
      let c := ((World.start (runCalls (fun _ _ => 0) []) fun _ => false).run moves).clients t
      c.Answered → c.snapshot = some snap → c.accepted = snap := by
  intro hall
  have hsent := hall ([(0, []), (0, [97, 10]), (0, []), (0, []), (0, []), (1, []), (1, [98, 10]),
    (1, []), (1, []), (1, []), (0, []), (0, []), (0, [])].map Move.calm) (Move.calm_succeeds _) 0
    [97, 10] (by decide +kernel) (by decide +kernel)
  exact absurd hsent (by decide +kernel)

end Aesd.Server
