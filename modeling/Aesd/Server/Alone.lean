import Aesd.Server.Clients
import Mathlib.Logic.Relation

/-!
# A handler alone

The handlers of `World` make the steps of `data_processing` one at a time.  When a single
one of them makes steps, from a moment on at which nobody holds the mutex, and the system
answers it as it answers a call of `dataProcessing`, it comes to the same end: the same
device, the same packet, and the same bytes sent.
-/

namespace Aesd.Server

open Aesd.Driver
open Relation

variable {τ : Type}

/-- The next step of handler `t`, answered as in its `rounds`-th round and its `calls`-th
call on the device. -/
def Env.move (env : Env) (t : τ) (rounds calls : Nat) : Move τ :=
  { thread := t
    opens := env.opens
    fstats := env.fstats
    exits := env.exitRequested rounds
    recv := env.recv rounds
    realloc := env.realloc rounds
    sched := env.device calls }

/-- The handlers, and the rounds and calls that the one that is running has made. -/
structure Turns (τ : Type) where
  world : World τ
  rounds : Nat
  calls : Nat

variable [DecidableEq τ]

/-- A step of handler `t`. -/
def Turns.next (env : Env) (t : τ) (s : Turns τ) : Turns τ :=
  let phase := (s.world.clients t).phase
  { world := s.world.step (env.move t s.rounds s.calls)
    rounds := if phase = .receiving then s.rounds + 1 else s.rounds
    calls := if phase = .applying ∨ phase = .streaming then s.calls + 1 else s.calls }

/-- Steps of handler `t` lead from one state to another. -/
abbrev Turns.Leads (env : Env) (t : τ) : Turns τ → Turns τ → Prop :=
  ReflTransGen fun s s' => s' = Turns.next env t s

/-- In phase `place`, the handler stands where `h` does. -/
structure Turns.At (t : τ) (place : Phase) (h : Handler) (s : Turns τ) : Prop where
  owner : s.world.owner = if place.Holds then some t else none
  client : ∃ snapshot, s.world.clients t =
    { phase := place, file := h.device.file, data := h.data, endOfPacket := h.endOfPacket
      accepted := h.accepted, snapshot := snapshot }
  kernel : s.world.kernel = h.device.kernel
  rounds : place = .receiving → s.rounds = h.rounds
  calls : s.calls = h.calls

variable {env : Env} {t : τ} {h h' : Handler} {s : Turns τ}

/-- The handler can be led to stand where `h` does. -/
def Turns.Comes (env : Env) (t : τ) (place : Phase) (h : Handler) (s : Turns τ) : Prop :=
  ∃ s', Turns.Leads env t s s' ∧ s'.At t place h

/-- Outside the receive loop, the handler stands where `h'` does as well. -/
theorem Turns.At.stands {place : Phase} (hat : s.At t place h) (hplace : place ≠ .receiving)
    (hdevice : h'.device = h.device) (hdata : h'.data = h.data)
    (hend : h'.endOfPacket = h.endOfPacket) (haccepted : h'.accepted = h.accepted)
    (hcalls : h'.calls = h.calls) : s.Comes env t place h' := by
  refine ⟨s, .refl, ?_⟩
  constructor
  · exact hat.owner
  · rw [hdevice, hdata, hend, haccepted]
    exact hat.client
  · rw [hdevice]
    exact hat.kernel
  · intro heq
    exact absurd heq hplace
  · rw [hcalls]
    exact hat.calls

theorem Turns.At.comes {place : Phase} (hat : s.At t place h) : s.Comes env t place h :=
  ⟨s, .refl, hat⟩

theorem Turns.Comes.of_next {place : Phase} (hnext : (s.next env t).Comes env t place h) :
    s.Comes env t place h := by
  obtain ⟨s', hleads, hat⟩ := hnext
  exact ⟨s', .head rfl hleads, hat⟩

theorem Turns.Comes.trans {place place' : Phase} (hcomes : s.Comes env t place h)
    (hrest : ∀ s' : Turns τ, s'.At t place h → s'.Comes env t place' h') :
    s.Comes env t place' h' := by
  obtain ⟨s', hleads, hat⟩ := hcomes
  obtain ⟨s'', hleads', hat'⟩ := hrest s' hat
  exact ⟨s'', hleads.trans hleads', hat'⟩

/-! ## Step by step -/

/-- Taking the mutex, which is free. -/
theorem Turns.At.next_locking (env : Env) {place place' : Phase} (hat : s.At t place h)
    (hplace : place = .locking ∧ place' = .applying ∨ place = .relocking ∧ place' = .streaming) :
    (s.next env t).At t place' h := by
  obtain ⟨howner, ⟨snapshot, hclient⟩, hkernel, -, hcalls⟩ := hat
  rcases hplace with ⟨rfl, rfl⟩ | ⟨rfl, rfl⟩
  all_goals
    have hfree : s.world.owner = none := howner
    constructor
    all_goals simp [Turns.next, World.step, Env.move, World.put, hclient, hfree, hkernel, hcalls,
      Phase.Holds]

/-- Freeing the mutex. -/
theorem Turns.At.next_unlocking (env : Env) {place place' : Phase} (hat : s.At t place h)
    (hplace : place = .applied ∧ place' = .relocking ∨ place = .streamed ∧ place' = .closing) :
    (s.next env t).At t place' h := by
  obtain ⟨-, ⟨snapshot, hclient⟩, hkernel, -, hcalls⟩ := hat
  rcases hplace with ⟨rfl, rfl⟩ | ⟨rfl, rfl⟩
  all_goals
    constructor
    all_goals simp [Turns.next, World.step, Env.move, World.put, hclient, hkernel, hcalls,
      Phase.Holds]

/-- The packet is applied. -/
theorem Turns.At.next_applying (env : Env) (hat : s.At t .applying h) :
    (s.next env t).At t .applied { h with
      device := h.device.applyData (env.device h.calls) h.data, calls := h.calls + 1 } := by
  obtain ⟨howner, ⟨snapshot, hclient⟩, hkernel, -, hcalls⟩ := hat
  have howned : s.world.owner = some t := howner
  constructor
  all_goals simp [Turns.next, World.step, Env.move, World.put, hclient, howned, hkernel, hcalls,
    Phase.Holds]

/-- The device file is closed. -/
theorem Turns.At.next_closing (env : Env) (hat : s.At t .closing h) :
    (s.next env t).At t .done { h with device := h.device.close (env.device h.calls) } := by
  obtain ⟨howner, ⟨snapshot, hclient⟩, hkernel, -, hcalls⟩ := hat
  have hfree : s.world.owner = none := howner
  constructor
  all_goals simp [Turns.next, World.step, Env.move, World.put, hclient, hfree, hkernel, hcalls,
    Phase.Holds]

/-- The device file is opened, or not. -/
theorem Turns.At.next_opening (env : Env) (hat : s.At t .opening h) (hrounds : s.rounds = h.rounds) :
    (s.next env t).At t (if env.opens = false then .done
      else if env.fstats = false then .closing else .receiving) h := by
  obtain ⟨howner, ⟨snapshot, hclient⟩, hkernel, -, hcalls⟩ := hat
  have hfree : s.world.owner = none := howner
  cases hopens : env.opens <;> cases hfstats : env.fstats
  all_goals
    constructor
    all_goals simp [Turns.next, World.step, Env.move, World.put, hclient, hfree, hkernel, hcalls,
      Phase.Holds, hopens, hfstats, hrounds]

/-- The loop is left before anything is received. -/
theorem Turns.At.next_leaving (hat : s.At t .receiving h)
    (hleaves : env.exitRequested h.rounds = true ∨ env.recv h.rounds = none) :
    (s.next env t).At t .closing h := by
  obtain ⟨howner, ⟨snapshot, hclient⟩, hkernel, hrounds, hcalls⟩ := hat
  have hfree : s.world.owner = none := howner
  have hround : s.rounds = h.rounds := hrounds rfl
  rcases hleaves with hexit | hrecv
  · constructor
    all_goals simp [Turns.next, World.step, Env.move, World.put, hclient, hfree, hkernel, hcalls,
      Phase.Holds, hround, hexit]
  · constructor
    all_goals simp [Turns.next, World.step, Env.move, World.put, hclient, hfree, hkernel, hcalls,
      Phase.Holds, hround, hrecv]

/-- A failing `realloc` ends the thread. -/
theorem Turns.At.next_realloc (hat : s.At t .receiving h)
    (hstays : env.exitRequested h.rounds = false) {bytes : List UInt8}
    (hrecv : env.recv h.rounds = some bytes) (hfails : env.realloc h.rounds = false) :
    (s.next env t).At t .done h := by
  obtain ⟨howner, ⟨snapshot, hclient⟩, hkernel, hrounds, hcalls⟩ := hat
  have hround : s.rounds = h.rounds := hrounds rfl
  constructor
  all_goals simp [Turns.next, World.step, Env.move, World.put, hclient, hkernel, hcalls,
    Phase.Holds, hround, hstays, hrecv, hfails]

/-- Something is received. -/
theorem Turns.At.next_receiving (hat : s.At t .receiving h)
    (hstays : env.exitRequested h.rounds = false) {bytes : List UInt8}
    (hrecv : env.recv h.rounds = some bytes) (hrealloc : env.realloc h.rounds = true) :
    (s.next env t).At t
      (if strchr (h.data ++ bytes) newline then .locking
        else if h.endOfPacket then .relocking else .receiving)
      { h with
        data := h.data ++ bytes
        rounds := h.rounds + 1
        endOfPacket := strchr (h.data ++ bytes) newline || h.endOfPacket } := by
  obtain ⟨howner, ⟨snapshot, hclient⟩, hkernel, hrounds, hcalls⟩ := hat
  have hfree : s.world.owner = none := howner
  have hround : s.rounds = h.rounds := hrounds rfl
  cases hfound : strchr (h.data ++ bytes) newline <;> cases hend : h.endOfPacket
  all_goals
    constructor
    all_goals simp [Turns.next, World.step, Env.move, World.put, Client.receive, hclient, hfree,
      hkernel, hcalls, Phase.Holds, hround, hstays, hrecv, hrealloc, hfound, hend]

/-- A piece is read and sent, or the end is found. -/
theorem Turns.At.next_streaming (hat : s.At t .streaming h) {bytesRead : Int}
    {buffer : List UInt8} {device : DeviceFile}
    (hread : h.device.read (env.device h.calls) (bufferSize - 1) = (bytesRead, buffer, device)) :
    (s.next env t).At t (if 0 < bytesRead then .streaming else .streamed)
      { h with
        device := device
        calls := h.calls + 1
        accepted := if 0 < bytesRead then h.accepted ++ buffer.take bytesRead.toNat
          else h.accepted } := by
  obtain ⟨howner, ⟨snapshot, hclient⟩, hkernel, -, hcalls⟩ := hat
  have howned : s.world.owner = some t := howner
  have hfile : (⟨s.world.kernel, h.device.file⟩ : DeviceFile) = h.device := by rw [hkernel]
  by_cases hmore : 0 < bytesRead
  · constructor
    all_goals simp [Turns.next, World.step, Env.move, World.put, hclient, howned, hfile, hcalls,
      hread, hmore, Phase.Holds]
  · constructor
    all_goals simp [Turns.next, World.step, Env.move, World.put, hclient, howned, hfile, hcalls,
      hread, hmore, Phase.Holds]

/-! ## The loops -/

/-- **`stream_file_reader`**, when the socket takes everything. -/
theorem Turns.At.streams (hsend : ∀ i, (env.send i).isSome) {fuel : Nat} {stream last : Stream}
    (hrun : streamFileReader env.send env.device fuel stream = some last)
    (hat : s.At t .streaming { h with
      device := stream.device, calls := stream.calls, accepted := stream.accepted }) :
    s.Comes env t .streamed { h with
      device := last.device, calls := last.calls, accepted := last.accepted } := by
  induction fuel generalizing s stream with
  | zero => cases hrun
  | succ fuel ih =>
      rcases hread : stream.device.read (env.device stream.calls) (bufferSize - 1) with
        ⟨bytesRead, buffer, device⟩
      have hnext := hat.next_streaming hread
      simp only [streamFileReader, hread] at hrun
      by_cases hmore : 0 < bytesRead
      · rw [if_pos hmore, sendPiece_fst hsend _ _ (List.length_take_le _ _)] at hrun
        rw [if_pos hmore, if_pos hmore] at hnext
        exact .of_next (ih hrun hnext)
      · rw [if_neg hmore] at hrun
        rw [if_neg hmore, if_neg hmore] at hnext
        obtain rfl := Option.some.inj hrun
        exact .of_next hnext.comes

/-- **The answer.** -/
theorem Turns.At.answers (hsend : ∀ i, (env.send i).isSome) {fuel : Nat}
    (hrun : answerClient env fuel h = some h') (hat : s.At t .relocking h) :
    s.Comes env t .closing h' := by
  rw [answerClient_eq] at hrun
  obtain ⟨last, hstream, rfl⟩ := Option.map_eq_some_iff.1 hrun
  have hlocked := hat.next_locking env (.inr ⟨rfl, rfl⟩)
  refine .of_next ((hlocked.streams (h := h) hsend hstream).trans ?_)
  intro s' hat'
  have hunlocked := hat'.next_unlocking env (.inr ⟨rfl, rfl⟩)
  exact .of_next (hunlocked.stands (by decide) rfl rfl rfl rfl rfl)

/-- **The packet.** -/
theorem Turns.At.applies (hat : s.At t .locking h) :
    s.Comes env t .relocking (applyPacket env h) := by
  have hlocked := hat.next_locking env (.inl ⟨rfl, rfl⟩)
  have happlied := hlocked.next_applying env
  have hunlocked := happlied.next_unlocking env (.inl ⟨rfl, rfl⟩)
  rw [applyPacket_eq]
  exact .of_next (.of_next (.of_next (hunlocked.stands (by decide) rfl rfl rfl rfl rfl)))

/-- The loop ends behind an answer. -/
theorem answered_of_loop {fuel : Nat} {goesOn : Bool}
    (hrun : (answerClient env fuel h).bind (receiveLoop env fuel) = some (goesOn, h')) :
    answerClient env fuel h = some h' ∧ goesOn = true := by
  obtain ⟨last, hanswer, hrest⟩ := Option.bind_eq_some_iff.1 hrun
  have hinactive : last.connectionActive = false := by
    rw [answerClient_eq] at hanswer
    obtain ⟨stream, -, rfl⟩ := Option.map_eq_some_iff.1 hanswer
    rfl
  cases fuel with
  | zero => cases hrest
  | succ fuel =>
      rw [receiveLoop_inactive hinactive (Nat.succ_pos fuel)] at hrest
      obtain ⟨rfl, rfl⟩ := Prod.mk.inj (Option.some.inj hrest)
      exact ⟨hanswer, rfl⟩

/-- **The receive loop** comes to the clean-up, or to the exit behind a failing
`realloc`. -/
theorem Turns.At.loops (hsend : ∀ i, (env.send i).isSome) {fuel : Nat} {goesOn : Bool}
    (hrun : receiveLoop env fuel h = some (goesOn, h')) (hactive : h.connectionActive = true)
    (hat : s.At t .receiving h) :
    s.Comes env t (if goesOn then .closing else .done) h' := by
  induction fuel generalizing s h with
  | zero => cases hrun
  | succ fuel ih =>
      cases hexit : env.exitRequested h.rounds with
      | true =>
          simp only [receiveLoop, hexit, true_or, if_true] at hrun
          obtain ⟨rfl, rfl⟩ := Prod.mk.inj (Option.some.inj hrun)
          exact .of_next (hat.next_leaving (.inl hexit)).comes
      | false =>
          cases hrecv : env.recv h.rounds with
          | none =>
              simp only [receiveLoop, hexit, hactive, hrecv, Bool.false_eq_true,
                Bool.true_eq_false, or_self, if_false] at hrun
              obtain ⟨rfl, rfl⟩ := Prod.mk.inj (Option.some.inj hrun)
              have hleft := hat.next_leaving (.inr hrecv)
              exact .of_next (hleft.stands (by decide) rfl rfl rfl rfl rfl)
          | some bytes =>
              cases hrealloc : env.realloc h.rounds with
              | false =>
                  simp only [receiveLoop, hexit, hactive, hrecv, hrealloc, Bool.false_eq_true,
                    Bool.true_eq_false, or_self, if_false, if_true] at hrun
                  obtain ⟨rfl, rfl⟩ := Prod.mk.inj (Option.some.inj hrun)
                  have hleft := hat.next_realloc hexit hrecv hrealloc
                  exact .of_next (hleft.stands (by decide) rfl rfl rfl rfl rfl)
              | true =>
                  rw [receiveLoop_step hexit hactive hrecv hrealloc] at hrun
                  have hnext := hat.next_receiving hexit hrecv hrealloc
                  cases hfound : strchr (h.data ++ bytes) newline with
                  | true =>
                      rw [receiveRound_applies hfound, applyPacket_eq, if_pos rfl,
                        ← applyPacket_eq env { h with
                          data := h.data ++ bytes, rounds := h.rounds + 1
                          endOfPacket := true }] at hrun
                      obtain ⟨hanswer, rfl⟩ := answered_of_loop hrun
                      rw [hfound, if_pos rfl, Bool.true_or] at hnext
                      exact .of_next (hnext.applies.trans fun _ hat' => hat'.answers hsend hanswer)
                  | false =>
                      rw [receiveRound_waits env hfound] at hrun
                      rw [hfound, if_neg Bool.false_ne_true, Bool.false_or] at hnext
                      cases hend : h.endOfPacket with
                      | true =>
                          simp only [hend, if_true] at hrun hnext
                          obtain ⟨hanswer, rfl⟩ := answered_of_loop hrun
                          exact .of_next (hnext.answers hsend hanswer)
                      | false =>
                          simp only [hend, Bool.false_eq_true, if_false] at hrun hnext
                          exact .of_next (ih hrun hactive hnext)

/-! ## The whole thread -/

/-- The other handlers are left where they are. -/
theorem Turns.Leads.others {s' : Turns τ} (hleads : Turns.Leads env t s s') {u : τ} (hu : u ≠ t) :
    s'.world.clients u = s.world.clients u := by
  induction hleads with
  | refl => rfl
  | tail _ hstep ih =>
      rw [hstep, ← ih]
      exact World.step_clients_of_ne hu.symm

/-- **The clean-up.** -/
theorem Turns.At.cleansUp (hat : s.At t .closing h) : s.Comes env t .done (cleanUp env h) := by
  have hclosed := hat.next_closing env
  exact .of_next (hclosed.stands (by decide) rfl rfl rfl rfl rfl)

/-- **The thread**, from its beginning. -/
theorem Turns.At.runs (hsend : ∀ i, (env.send i).isSome) {fuel : Nat} {kernel : Kernel}
    {endOfPacket : Bool} (hrun : dataProcessing env fuel kernel endOfPacket = some h')
    (hat : s.At t .opening (.start kernel endOfPacket)) (hrounds : s.rounds = 0) :
    s.Comes env t .done h' := by
  have hnext := hat.next_opening env hrounds
  cases hopens : env.opens with
  | false =>
      simp only [dataProcessing, hopens, if_true] at hrun
      obtain rfl := Option.some.inj hrun
      rw [if_pos hopens] at hnext
      exact .of_next hnext.comes
  | true =>
      have hopened : ¬env.opens = false := by simp [hopens]
      rw [if_neg hopened] at hnext
      cases hfstats : env.fstats with
      | false =>
          simp only [dataProcessing, hopens, hfstats, Bool.true_eq_false, if_false, if_true]
            at hrun
          obtain rfl := Option.some.inj hrun
          rw [if_pos hfstats] at hnext
          have hclosed := hnext.next_closing env
          exact .of_next (.of_next (hclosed.stands (by decide) rfl rfl rfl rfl rfl))
      | true =>
          have hstated : ¬env.fstats = false := by simp [hfstats]
          rw [if_neg hstated] at hnext
          rw [dataProcessing_eq hopens hfstats] at hrun
          obtain ⟨⟨goesOn, last⟩, hloop, rfl⟩ := Option.map_eq_some_iff.1 hrun
          have hcomes := hnext.loops hsend hloop rfl
          cases goesOn with
          | false => exact .of_next hcomes
          | true => exact .of_next (hcomes.trans fun _ hat' => hat'.cleansUp)

/-- **A handler alone** does what `data_processing` does: from any state of the handlers in
which nobody holds the mutex and this one has not started, its own steps lead it to its
end, with the device, the packet and the bytes sent that `dataProcessing` computes from the
same answers of the system; and the others stay where they are. -/
theorem handler_alone (env : Env) (hsend : ∀ i, (env.send i).isSome) (fuel : Nat)
    (w : World τ) (t : τ) (endOfPacket : Bool) (hfree : w.owner = none)
    (hclient : w.clients t = (World.start w.kernel fun _ : τ => endOfPacket).clients t)
    (h : Handler) (hrun : dataProcessing env fuel w.kernel endOfPacket = some h) :
    ∃ s, Turns.Leads env t ⟨w, 0, 0⟩ s ∧ s.At t .done h ∧
      ∀ u ≠ t, s.world.clients u = w.clients u := by
  have hat : Turns.At t .opening (.start w.kernel endOfPacket) ⟨w, 0, 0⟩ :=
    { owner := hfree
      client := ⟨none, hclient⟩
      kernel := rfl
      rounds := fun _ => rfl
      calls := rfl }
  obtain ⟨s, hleads, hdone⟩ := hat.runs hsend hrun rfl
  exact ⟨s, hleads, hdone, fun u hu => hleads.others hu⟩

/-- A client that sends a line in two segments. -/
theorem handler_alone_line :
    ∃ s : Turns (Fin 2), Turns.Leads (.calm [[97], [10]]) 0
        ⟨World.start (runCalls (fun _ _ => 0) []) fun _ => false, 0, 0⟩ s ∧
      (s.world.clients 0).accepted = [97, 10] := by
  obtain ⟨h, hrun⟩ := Option.isSome_iff_exists.1 (show (dataProcessing (.calm [[97], [10]]) 9
    (runCalls (fun _ _ => 0) []) false).isSome by decide +kernel)
  obtain ⟨s, hleads, hat, -⟩ := handler_alone (.calm [[97], [10]]) (fun _ => rfl) 9
    (World.start (runCalls (fun _ _ => 0) []) fun _ : Fin 2 => false) 0 false rfl rfl h hrun
  refine ⟨s, hleads, ?_⟩
  obtain ⟨snapshot, hclient⟩ := hat.client
  have hsent : (some h).map Handler.accepted = some [97, 10] := by
    rw [← hrun]
    decide +kernel
  rw [hclient]
  exact Option.some.inj hsent

end Aesd.Server
