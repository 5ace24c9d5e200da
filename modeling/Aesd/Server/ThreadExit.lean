import Aesd.Server.PacketEnd
import Aesd.Verified.MutexSections

/-!
# How a handler thread ends

A handler thread owns its client socket, its device file, and the blocks that
`client_handler` has allocated for it.  `data_processing` has one clean-up and three
exits that do not reach it: a failing `open`, a failing `fstat`, and a failing `realloc`
in any round, which also frees `file_mutex` without holding it.  So the thread releases
what it owns exactly when none of the three is taken.
-/

namespace Aesd.Server

open Aesd.Driver
open Aesd.Verified.MutexSections

variable {env : Env} {endOfPacket : Bool}

/-! ## What a thread owes -/

/-- What an event does to `file_mutex`. -/
def Event.onMutex : Event → Option Bool
  | .lock => some true
  | .unlock => some false
  | _ => none

/-- The events that release a descriptor or a block. -/
def Event.releases : Event → Bool
  | .lock | .unlock | .seek _ | .write _ => false
  | _ => true

/-- The events of a thread that has released everything once: its client socket, its
device descriptor if the device was opened, and its four blocks; and that has freed
`file_mutex` only while it held it, and does not hold it any more. -/
structure ReleasesOnce (opened : Bool) (events : List Event) : Prop where
  socket : events.count .closeSocket = 1
  device : opened = true → events.count .closeDevice = 1
  data : events.count .freeData = 1
  packet : events.count .freePacket = 1
  connectionInfo : events.count .freeConnectionInfo = 1
  socketProcessing : events.count .freeSocketProcessing = 1
  mutex : WellLocked Event.onMutex false events

/-! ## The rounds that fail -/

/-- What the first `n` rounds receive. -/
def Env.received (env : Env) : Nat → List UInt8
  | 0 => []
  | n + 1 => env.received n ++ (env.recv n).getD []

/-- Round `i` only waits for the rest of its packet. -/
structure Env.Waits (env : Env) (endOfPacket : Bool) (i : Nat) : Prop where
  stays : env.exitRequested i = false
  receives : (env.recv i).isSome = true
  reallocs : env.realloc i = true
  missing : strchr (env.received (i + 1)) newline = false
  flag : endOfPacket = false

/-- The thread comes to the `realloc` of round `n`, and it fails. -/
structure Env.ReallocFails (env : Env) (endOfPacket : Bool) (n : Nat) : Prop where
  waits : ∀ i < n, env.Waits endOfPacket i
  stays : env.exitRequested n = false
  receives : (env.recv n).isSome = true
  fails : env.realloc n = false

/-- Round `n` ends the loop, and not because of its `realloc`: the exit is requested, `recv`
fails, or the packet is complete. -/
def Env.Stops (env : Env) (endOfPacket : Bool) (n : Nat) : Prop :=
  env.exitRequested n = true ∨ env.recv n = none ∨
    env.realloc n = true ∧ ¬env.Waits endOfPacket n

theorem Env.Stops.not_waits {n : Nat} (h : env.Stops endOfPacket n) :
    ¬env.Waits endOfPacket n := by
  intro hwaits
  rcases h with hexit | hrecv | hcomplete
  · rw [hwaits.stays] at hexit
    cases hexit
  · have hsome := hwaits.receives
    rw [hrecv] at hsome
    cases hsome
  · exact hcomplete.2 hwaits

theorem Env.Stops.not_fails {n : Nat} (h : env.Stops endOfPacket n) :
    ¬env.ReallocFails endOfPacket n := by
  intro hfails
  rcases h with hexit | hrecv | hcomplete
  · rw [hfails.stays] at hexit
    cases hexit
  · have hsome := hfails.receives
    rw [hrecv] at hsome
    cases hsome
  · have hgranted := hcomplete.1
    rw [hfails.fails] at hgranted
    cases hgranted

/-- A thread that stops in round `n` comes to no `realloc` that fails. -/
theorem Env.Stops.none_fails {n : Nat} (h : env.Stops endOfPacket n)
    (hwaits : ∀ i < n, env.Waits endOfPacket i) (m : Nat) : ¬env.ReallocFails endOfPacket m := by
  intro hfails
  rcases Nat.lt_trichotomy m n with hlt | heq | hgt
  · have hgranted := (hwaits m hlt).reallocs
    rw [hfails.fails] at hgranted
    cases hgranted
  · exact h.not_fails (heq ▸ hfails)
  · exact h.not_waits (hfails.waits n hgt)

/-! ## The receive loop -/

/-- Events that release nothing, in sections of `file_mutex`. -/
structure Working (events : List Event) : Prop where
  mutex : WellLocked Event.onMutex false events
  keeps : ∀ e ∈ events, e.releases = false

theorem working_nil : Working [] :=
  { mutex := wellLocked_nil
    keeps := by simp }

theorem Working.append {events more : List Event} (h : Working events) (hmore : Working more) :
    Working (events ++ more) :=
  { mutex := h.mutex.append hmore.mutex
    keeps := fun e he => (List.mem_append.1 he).elim (h.keeps e) (hmore.keeps e) }

/-- The section of a packet. -/
theorem working_packet (packet : List UInt8) :
    Working [.lock, deviceAction packet, .unlock] := by
  have haction : (deviceAction packet).onMutex = none ∧ (deviceAction packet).releases = false := by
    unfold deviceAction
    cases seekCommand packet <;> exact ⟨rfl, rfl⟩
  exact
    { mutex := wellLocked_section rfl haction.1 rfl
      keeps := List.forall_mem_cons.2 ⟨rfl, List.forall_mem_cons.2
        ⟨haction.2, List.forall_mem_singleton.2 rfl⟩⟩ }

/-- The section of an answer. -/
theorem working_answer : Working [.lock, .unlock] :=
  { mutex := wellLocked_pair rfl rfl
    keeps := by simp [Event.releases] }

/-- A handler all of whose rounds have only waited. -/
structure Handler.Waiting (h : Handler) (env : Env) (endOfPacket : Bool) : Prop where
  active : h.connectionActive = true
  data : h.data = env.received h.rounds
  flag : h.endOfPacket = endOfPacket
  waits : ∀ i < h.rounds, env.Waits endOfPacket i
  working : Working h.events

theorem waiting_start (kernel : Kernel) (endOfPacket : Bool) :
    (Handler.start kernel endOfPacket).Waiting env endOfPacket :=
  { active := rfl
    data := rfl
    flag := rfl
    waits := fun i hi => absurd hi (Nat.not_lt_zero i)
    working := working_nil }

namespace Handler.Waiting

variable {h : Handler} {bytes : List UInt8}

/-- A round works, whatever it receives. -/
theorem working_round (hw : h.Waiting env endOfPacket) (bytes : List UInt8) :
    Working (receiveRound env h bytes).events := by
  rw [events_receiveRound]
  refine hw.working.append ?_
  split
  · exact working_packet _
  · exact working_nil

/-- What has been received with the bytes of the next round. -/
theorem data_append (hw : h.Waiting env endOfPacket) (hrecv : env.recv h.rounds = some bytes) :
    h.data ++ bytes = env.received (h.rounds + 1) := by
  rw [hw.data, Env.received, hrecv, Option.getD_some]

/-- A round that does not end the packet only waits. -/
theorem waits_round (hw : h.Waiting env endOfPacket)
    (hstays : env.exitRequested h.rounds = false) (hrecv : env.recv h.rounds = some bytes)
    (hrealloc : env.realloc h.rounds = true)
    (hend : (receiveRound env h bytes).endOfPacket = false) : env.Waits endOfPacket h.rounds := by
  rw [endOfPacket_receiveRound, hw.flag, hw.data_append hrecv, Bool.or_eq_false_iff] at hend
  exact
    { stays := hstays
      receives := by rw [hrecv]; rfl
      reallocs := hrealloc
      missing := hend.2
      flag := hend.1 }

/-- A round that ends the packet does not only wait. -/
theorem not_waits_round (hw : h.Waiting env endOfPacket)
    (hrecv : env.recv h.rounds = some bytes)
    (hend : (receiveRound env h bytes).endOfPacket = true) : ¬env.Waits endOfPacket h.rounds := by
  intro hwaits
  rw [endOfPacket_receiveRound, hw.flag, hw.data_append hrecv, hwaits.flag, hwaits.missing] at hend
  cases hend

/-- **The step lemma.**  A round that only waits leaves a waiting handler. -/
theorem round (hw : h.Waiting env endOfPacket) (hrecv : env.recv h.rounds = some bytes)
    (hwaits : env.Waits endOfPacket h.rounds) :
    (receiveRound env h bytes).Waiting env endOfPacket := by
  have hmissing := hwaits.missing
  rw [← hw.data_append hrecv] at hmissing
  rw [receiveRound_waits env hmissing]
  exact
    { active := hw.active
      data := hw.data_append hrecv
      flag := hw.flag
      waits := fun i hi => by
        rcases Nat.lt_succ_iff_lt_or_eq.1 hi with hlt | heq
        · exact hw.waits i hlt
        · exact heq ▸ hwaits
      working := hw.working }

end Handler.Waiting

/-- How the receive loop is left: for the clean-up when no `realloc` that it comes to fails,
and else from the round whose `realloc` fails. -/
inductive LoopExit (env : Env) (endOfPacket : Bool) : Bool × Handler → Prop
  | ends {h : Handler} (hworking : Working h.events)
      (hnone : ∀ n, ¬env.ReallocFails endOfPacket n) : LoopExit env endOfPacket (true, h)
  | fails {h : Handler} {events : List Event} {n : Nat} (hworking : Working events)
      (hevents : h.events = events ++ [.unlock])
      (hfails : env.ReallocFails endOfPacket n) : LoopExit env endOfPacket (false, h)

/-- **The run lemma.**  A receive loop that ends is left in one of the two ways. -/
theorem Handler.Waiting.loopExit {fuel : Nat} {h : Handler} {r : Bool × Handler}
    (hw : h.Waiting env endOfPacket) (hrun : receiveLoop env fuel h = some r) :
    LoopExit env endOfPacket r := by
  induction fuel generalizing h with
  | zero => cases hrun
  | succ fuel ih =>
      cases hexit : env.exitRequested h.rounds with
      | true =>
          have hstops : env.Stops endOfPacket h.rounds := .inl hexit
          rw [receiveLoop, if_pos (.inl hexit)] at hrun
          obtain rfl := Option.some.inj hrun
          exact .ends hw.working (hstops.none_fails hw.waits)
      | false =>
          have hmore : ¬(env.exitRequested h.rounds ∨ h.connectionActive = false) := by
            simp [hexit, hw.active]
          cases hrecv : env.recv h.rounds with
          | none =>
              have hstops : env.Stops endOfPacket h.rounds := .inr (.inl hrecv)
              rw [receiveLoop, if_neg hmore, hrecv] at hrun
              obtain rfl := Option.some.inj hrun
              exact .ends hw.working (hstops.none_fails hw.waits)
          | some bytes =>
              cases hrealloc : env.realloc h.rounds with
              | false =>
                  simp only [receiveLoop, if_neg hmore, hrecv, hrealloc, if_true] at hrun
                  obtain rfl := Option.some.inj hrun
                  exact .fails hw.working rfl
                    { waits := hw.waits
                      stays := hexit
                      receives := by rw [hrecv]; rfl
                      fails := hrealloc }
              | true =>
                  rw [receiveLoop_step hexit hw.active hrecv hrealloc] at hrun
                  cases hend : (receiveRound env h bytes).endOfPacket with
                  | false =>
                      rw [hend, if_neg Bool.false_ne_true] at hrun
                      exact ih (hw.round hrecv (hw.waits_round hexit hrecv hrealloc hend)) hrun
                  | true =>
                      have hstops : env.Stops endOfPacket h.rounds :=
                        .inr (.inr ⟨hrealloc, hw.not_waits_round hrecv hend⟩)
                      rw [hend, if_pos rfl] at hrun
                      rcases r with ⟨goesOn, h'⟩
                      obtain ⟨rfl, -, hevents⟩ := receiveLoop_answered hrun
                      refine .ends ?_ (hstops.none_fails hw.waits)
                      rw [hevents]
                      exact (hw.working_round bytes).append working_answer

/-! ## The exits of the thread -/

/-- A thread that has worked and cleans up releases everything once. -/
theorem Working.releasesOnce {events : List Event} (h : Working events) (opened : Bool) :
    ReleasesOnce opened (events ++ [.closeDevice, .closeSocket, .freeData, .freePacket,
      .freeConnectionInfo, .freeSocketProcessing]) := by
  have hnone : ∀ e : Event, e.releases = true → events.count e = 0 := by
    intro e hreleases
    refine List.count_eq_zero.2 fun hmem => ?_
    rw [h.keeps e hmem] at hreleases
    cases hreleases
  exact
    { socket := by rw [List.count_append, hnone _ rfl]; rfl
      device := fun _ => by rw [List.count_append, hnone _ rfl]; rfl
      data := by rw [List.count_append, hnone _ rfl]; rfl
      packet := by rw [List.count_append, hnone _ rfl]; rfl
      connectionInfo := by rw [List.count_append, hnone _ rfl]; rfl
      socketProcessing := by rw [List.count_append, hnone _ rfl]; rfl
      mutex := h.mutex.append (wellLocked_of_none (by simp [Event.onMutex])) }

/-- No exit in the way of the clean-up is taken. -/
structure Env.ReachesCleanUp (env : Env) (endOfPacket : Bool) : Prop where
  opens : env.opens = true
  fstats : env.fstats = true
  reallocs : ∀ n, ¬env.ReallocFails endOfPacket n

/-- The exits of `data_processing`, and what the thread has done by then. -/
inductive ThreadExit (env : Env) (endOfPacket : Bool) (h : Handler) : Prop
  | openFails (hopens : env.opens = false) (hevents : h.events = [])
  | fstatFails (hfstats : env.fstats = false) (hevents : h.events = [.closeDevice])
  | reallocFails {events : List Event} {n : Nat} (hworking : Working events)
      (hfails : env.ReallocFails endOfPacket n) (hevents : h.events = events ++ [.unlock])
  | cleansUp {events : List Event} (hworking : Working events)
      (hreaches : env.ReachesCleanUp endOfPacket)
      (hevents : h.events = events ++ [.closeDevice, .closeSocket, .freeData, .freePacket,
        .freeConnectionInfo, .freeSocketProcessing])

/-- A thread that ends takes one of the exits. -/
theorem dataProcessing_exit {fuel : Nat} {kernel : Kernel} {h : Handler}
    (hrun : dataProcessing env fuel kernel endOfPacket = some h) :
    ThreadExit env endOfPacket h := by
  cases hopens : env.opens with
  | false =>
      simp only [dataProcessing, hopens, if_true] at hrun
      obtain rfl := Option.some.inj hrun
      exact .openFails hopens rfl
  | true =>
      cases hfstats : env.fstats with
      | false =>
          simp only [dataProcessing, hopens, hfstats, Bool.true_eq_false, if_false, if_true]
            at hrun
          obtain rfl := Option.some.inj hrun
          exact .fstatFails hfstats rfl
      | true =>
          rw [dataProcessing_eq hopens hfstats, Option.map_eq_some_iff] at hrun
          rcases hrun with ⟨r, hloop, rfl⟩
          cases (waiting_start kernel endOfPacket).loopExit hloop with
          | ends hworking hnone =>
              exact .cleansUp hworking
                { opens := hopens
                  fstats := hfstats
                  reallocs := hnone }
                (events_cleanUp _)
          | fails hworking hevents hfails => exact .reallocFails hworking hfails hevents

/-- **The exits of a handler thread.**  A thread that ends has released everything it
owns once, and has kept to its sections of `file_mutex`, exactly when `open` and `fstat`
succeed and so does every `realloc` it comes to. -/
theorem releases_once_iff (env : Env) (fuel : Nat) (kernel : Kernel) (endOfPacket : Bool)
    (h : Handler) (hrun : dataProcessing env fuel kernel endOfPacket = some h) :
    ReleasesOnce env.opens h.events ↔ env.ReachesCleanUp endOfPacket := by
  cases dataProcessing_exit hrun with
  | openFails hopens hevents =>
      rw [hevents]
      refine iff_of_false (fun hreleases => ?_) (fun hreaches => ?_)
      · have hnone : 0 = 1 := hreleases.socket
        cases hnone
      · exact Bool.false_ne_true (hopens.symm.trans hreaches.opens)
  | fstatFails hfstats hevents =>
      rw [hevents]
      refine iff_of_false (fun hreleases => ?_) (fun hreaches => ?_)
      · have hnone : 0 = 1 := hreleases.socket
        cases hnone
      · exact Bool.false_ne_true (hfstats.symm.trans hreaches.fstats)
  | reallocFails hworking hfails hevents =>
      rw [hevents]
      refine iff_of_false (fun hreleases => ?_) (fun hreaches => ?_)
      · exact hworking.mutex.not_concat rfl hreleases.mutex
      · exact hreaches.reallocs _ hfails
  | cleansUp hworking hreaches hevents =>
      rw [hevents]
      exact iff_of_true (hworking.releasesOnce env.opens) hreaches

/-- A client that sends a line in two segments. -/
theorem releases_once_line :
    ∃ h, dataProcessing (.calm [[97], [10]]) 9 (runCalls (fun _ _ => 0) []) false = some h ∧
      ReleasesOnce true h.events := by
  have hends : (dataProcessing (.calm [[97], [10]]) 9 (runCalls (fun _ _ => 0) []) false).isSome =
      true := by decide +kernel
  rcases Option.isSome_iff_exists.1 hends with ⟨h, hrun⟩
  refine ⟨h, hrun, (releases_once_iff (.calm [[97], [10]]) 9 (runCalls (fun _ _ => 0) []) false h
    hrun).2 ?_⟩
  exact
    { opens := rfl
      fstats := rfl
      reallocs := fun n hfails => Bool.noConfusion hfails.fails }

/-- A thread that runs out of memory in its first round leaves everything behind, and frees
`file_mutex`, which it does not hold. -/
theorem failed_realloc_releases_nothing :
    ¬∀ (env : Env) (fuel : Nat) (kernel : Kernel) (endOfPacket : Bool) (h : Handler),
      dataProcessing env fuel kernel endOfPacket = some h → ReleasesOnce env.opens h.events := by
  intro hall
  have hreleases := hall { Env.calm [[97, 10]] with realloc := fun _ => false } 1
    (runCalls (fun _ _ => 0) []) false _ rfl
  have hnone : 0 = 1 := hreleases.socket
  cases hnone

end Aesd.Server
