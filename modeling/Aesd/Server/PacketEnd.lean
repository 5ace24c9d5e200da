import Aesd.Server.Answers
import Aesd.Server.Streaming
import Aesd.Verified.Loops

/-!
# When a packet ends

A handler acts once `strchr` finds a newline, and `strchr` stops at the first NUL.  So a
NUL in front of the newline keeps the handler waiting; and a handler whose
`end_of_packet` has been left true by the memory it stands in answers after its first
`recv`, whatever that has brought.  The loop has no other end than an answer or a failing
`recv`: a peer that has closed without a newline keeps it going round.
-/

namespace Aesd.Server

open Aesd.Driver
open Aesd.Verified.Loops

variable {env : Env}

/-! ## What `strchr` finds -/

/-- A NUL stands in front of the first newline. -/
def NulFirst (bytes : List UInt8) : Prop := 0 ∈ bytes.takeWhile (· ≠ newline)

instance (bytes : List UInt8) : Decidable (NulFirst bytes) := inferInstanceAs (Decidable (_ ∈ _))

/-- `strchr` finds a newline with no NUL in front of it, and no other. -/
theorem strchr_newline_iff_first (bytes : List UInt8) :
    strchr bytes newline = true ↔ newline ∈ bytes ∧ ¬NulFirst bytes := by
  induction bytes with
  | nil => simp [strchr, cString]
  | cons c bytes ih =>
      rw [strchr, cString, List.contains_iff_mem] at ih
      rw [strchr, cString, List.contains_iff_mem]
      unfold NulFirst at *
      by_cases hnul : c = 0
      · subst hnul
        have hnot : (0 : UInt8) ≠ newline := by decide
        simp [hnot]
      · by_cases hnl : c = newline
        · subst hnl
          simp [hnul]
        · have hnot : newline ≠ c := fun h => hnl h.symm
          have hzero : (0 : UInt8) ≠ c := fun h => hnul h.symm
          simpa [hnul, hnl, hnot, hzero] using ih

/-- What `strchr` has found is found again when more has been received. -/
theorem strchr_append {bytes : List UInt8} (h : strchr bytes newline = true)
    (more : List UInt8) : strchr (bytes ++ more) newline = true := by
  rw [strchr, List.contains_iff_mem] at *
  rw [cString, List.takeWhile_append]
  split
  · exact List.mem_append_left _ ((List.takeWhile_subset _) h)
  · exact h

/-- When `strchr` finds a newline in the end, there is a first time that it does. -/
theorem exists_packetSeen {received : List UInt8} {segments : List (List UInt8)}
    (hmissing : strchr received newline = false)
    (hfound : strchr (received ++ segments.flatten) newline = true) :
    ∃ packet, packetSeen received segments = some packet := by
  induction segments generalizing received with
  | nil =>
      rw [List.flatten_nil, List.append_nil, hmissing] at hfound
      cases hfound
  | cons segment segments ih =>
      rw [packetSeen]
      by_cases hfirst : strchr (received ++ segment) newline = true
      · exact ⟨_, if_pos hfirst⟩
      · rw [if_neg hfirst]
        apply ih (Bool.not_eq_true _ ▸ hfirst)
        rwa [List.append_assoc]

/-! ## What a round does -/

/-- A round of the loop: what has been received by then, what the round does to the
device, and whether it calls `stream_file_reader`. -/
structure Iteration where
  received : List UInt8
  actions : List Event
  answers : Bool

/-- The round in which the handler `h` receives `bytes`. -/
def iteration (env : Env) (h : Handler) (bytes : List UInt8) : Iteration :=
  let h' := receiveRound env h bytes
  { received := h'.data
    actions := deviceActions (h'.events.drop h.events.length)
    answers := h'.endOfPacket }

/-- The rounds that `receiveLoop` makes, those left out whose `recv` or `realloc` fails. -/
def iterations (env : Env) : Nat → Handler → List Iteration
  | 0, _ => []
  | fuel + 1, h =>
      if env.exitRequested h.rounds ∨ h.connectionActive = false then []
      else
        match env.recv h.rounds with
        | none => []
        | some bytes =>
            if env.realloc h.rounds = false then []
            else
              iteration env h bytes ::
                if (receiveRound env h bytes).endOfPacket then
                  match answerClient env fuel (receiveRound env h bytes) with
                  | none => []
                  | some h => iterations env fuel h
                else iterations env fuel (receiveRound env h bytes)

/-- The events of a round. -/
theorem events_receiveRound (h : Handler) (bytes : List UInt8) :
    (receiveRound env h bytes).events = h.events ++
      if strchr (h.data ++ bytes) newline then
        [.lock, deviceAction (h.data ++ bytes), .unlock] else [] := by
  cases hfound : strchr (h.data ++ bytes) newline with
  | false => simp [receiveRound_waits env hfound]
  | true => rw [receiveRound_applies hfound, applyPacket_eq, if_pos rfl]

/-- A round does not end the connection. -/
theorem connectionActive_receiveRound (env : Env) (h : Handler) (bytes : List UInt8) :
    (receiveRound env h bytes).connectionActive = h.connectionActive := by
  cases hfound : strchr (h.data ++ bytes) newline with
  | false => rw [receiveRound_waits env hfound]
  | true => rw [receiveRound_applies hfound, applyPacket_eq]

/-- A round is told by what `strchr` finds. -/
theorem iteration_eq (h : Handler) (bytes : List UInt8) :
    iteration env h bytes =
      { received := h.data ++ bytes
        actions := if strchr (h.data ++ bytes) newline then [deviceAction (h.data ++ bytes)] else []
        answers := h.endOfPacket || strchr (h.data ++ bytes) newline } := by
  rw [iteration, events_receiveRound, List.drop_left]
  cases hfound : strchr (h.data ++ bytes) newline with
  | false => simp [receiveRound_waits env hfound, deviceActions]
  | true =>
      have haction := deviceActions_packet (h.data ++ bytes) [.lock] [.unlock] rfl rfl
      simp only [if_true, Bool.or_true]
      rw [receiveRound_applies hfound, applyPacket_eq]
      simpa using haction

/-- What an answer leaves, whatever the streaming does. -/
theorem answerClient_eq_some {fuel : Nat} {h h' : Handler}
    (hanswer : answerClient env fuel h = some h') :
    h'.connectionActive = false ∧ h'.events = h.events ++ [.lock, .unlock] := by
  rw [answerClient_eq, Option.map_eq_some_iff] at hanswer
  rcases hanswer with ⟨s, -, rfl⟩
  exact ⟨rfl, rfl⟩

/-- Once the answer is given, the next test of the loop ends it. -/
theorem receiveLoop_answered {fuel : Nat} {h : Handler} {r : Bool × Handler}
    (hrun : (answerClient env fuel h).bind (receiveLoop env fuel) = some r) :
    r.1 = true ∧ r.2.connectionActive = false ∧ r.2.events = h.events ++ [.lock, .unlock] := by
  rw [Option.bind_eq_some_iff] at hrun
  rcases hrun with ⟨h', hanswer, hrun⟩
  have hdone := answerClient_eq_some hanswer
  cases fuel with
  | zero => cases hrun
  | succ fuel =>
      rw [receiveLoop_inactive hdone.1 (Nat.succ_pos fuel)] at hrun
      obtain rfl := Option.some.inj hrun
      exact ⟨rfl, hdone⟩

/-- No device action stands among the events of an answer. -/
theorem deviceActions_append_answer (events : List Event) :
    deviceActions (events ++ [.lock, .unlock]) = deviceActions events := by
  simp [deviceActions]

/-- The device actions of a round are those it appends. -/
theorem deviceActions_receiveRound (h : Handler) (bytes : List UInt8) :
    deviceActions (receiveRound env h bytes).events =
      deviceActions h.events ++ (iteration env h bytes).actions := by
  rw [iteration, events_receiveRound, List.drop_left, deviceActions, List.filter_append]
  rfl

/-- The rounds from one that is answered on. -/
theorem iterations_answered (henv : env.Undisturbed) {h : Handler}
    (hactive : h.connectionActive = true) {bytes : List UInt8}
    (hrecv : env.recv h.rounds = some bytes)
    (hend : (receiveRound env h bytes).endOfPacket = true) (fuel : Nat) :
    iterations env (fuel + 1) h = [iteration env h bytes] := by
  rw [iterations]
  simp only [henv.stays, hactive, hrecv, henv.reallocs, hend, Bool.false_eq_true,
    Bool.true_eq_false, or_self, if_false, if_true]
  cases hanswer : answerClient env fuel (receiveRound env h bytes) with
  | none => rfl
  | some h' =>
      cases fuel with
      | zero => rfl
      | succ fuel => simp [iterations, (answerClient_eq_some hanswer).1]

/-- The rounds from one that waits on. -/
theorem iterations_waiting (henv : env.Undisturbed) {h : Handler}
    (hactive : h.connectionActive = true) {bytes : List UInt8}
    (hrecv : env.recv h.rounds = some bytes)
    (hend : (receiveRound env h bytes).endOfPacket = false) (fuel : Nat) :
    iterations env (fuel + 1) h =
      iteration env h bytes :: iterations env fuel (receiveRound env h bytes) := by
  rw [iterations]
  simp only [henv.stays, hactive, hrecv, henv.reallocs, hend, Bool.false_eq_true,
    Bool.true_eq_false, or_self, if_false]

/-- No round is made once `recv` fails. -/
theorem iterations_failed {h : Handler} (hrecv : env.recv h.rounds = none) (fuel : Nat) :
    iterations env fuel h = [] := by
  cases fuel with
  | zero => rfl
  | succ fuel => simp [iterations, hrecv]

/-- **The rounds are those of the loop**: they do to the device what it does, and one of
them answers when it has ended the connection. -/
theorem iterations_spec (henv : env.Undisturbed) {fuel : Nat} {h h' : Handler} {goesOn : Bool}
    (hactive : h.connectionActive = true) (hrun : receiveLoop env fuel h = some (goesOn, h')) :
    deviceActions h'.events =
        deviceActions h.events ++ (iterations env fuel h).flatMap Iteration.actions ∧
      (h'.connectionActive = false ↔ ∃ r ∈ iterations env fuel h, r.answers = true) := by
  induction fuel generalizing h with
  | zero => cases hrun
  | succ fuel ih =>
      cases hrecv : env.recv h.rounds with
      | none =>
          have hmore : ¬(env.exitRequested h.rounds ∨ h.connectionActive = false) := by
            simp [henv.stays, hactive]
          rw [receiveLoop, if_neg hmore, hrecv] at hrun
          obtain ⟨rfl, rfl⟩ := Prod.mk.inj (Option.some.inj hrun)
          rw [iterations_failed hrecv]
          simp [hactive]
      | some bytes =>
          rw [receiveLoop_round henv hactive hrecv] at hrun
          have hanswers : (iteration env h bytes).answers =
              (receiveRound env h bytes).endOfPacket := rfl
          cases hend : (receiveRound env h bytes).endOfPacket with
          | false =>
              have hstill := (connectionActive_receiveRound env h bytes).trans hactive
              rw [hend, if_neg Bool.false_ne_true] at hrun
              rw [iterations_waiting henv hactive hrecv hend, List.flatMap_cons,
                List.exists_mem_cons_iff, ← List.append_assoc, ← deviceActions_receiveRound,
                hanswers, hend]
              simpa using ih hstill hrun
          | true =>
              rw [hend, if_pos rfl] at hrun
              have hdone := receiveLoop_answered hrun
              rw [iterations_answered henv hactive hrecv hend, List.flatMap_singleton,
                ← deviceActions_receiveRound, hdone.2.2, deviceActions_append_answer]
              exact ⟨rfl, iff_of_true hdone.2.1 ⟨_, List.mem_singleton_self _, hanswers.trans hend⟩⟩

/-! ## When every round is right -/

/-- The round applies and answers what has been received exactly when that holds a
newline. -/
def Iteration.Right (r : Iteration) : Prop :=
  if newline ∈ r.received then r.actions = [deviceAction r.received] ∧ r.answers = true
  else r.actions = [] ∧ r.answers = false

instance (r : Iteration) : Decidable r.Right :=
  inferInstanceAs (Decidable (if newline ∈ r.received then
    r.actions = [deviceAction r.received] ∧ r.answers = true
    else r.actions = [] ∧ r.answers = false))

theorem iteration_right_iff (env : Env) (h : Handler) (bytes : List UInt8) :
    (iteration env h bytes).Right ↔
      (newline ∈ h.data ++ bytes → ¬NulFirst (h.data ++ bytes)) ∧
        (h.endOfPacket = true → newline ∈ h.data ++ bytes) := by
  have hfinds := strchr_newline_iff_first (h.data ++ bytes)
  rw [iteration_eq, Iteration.Right]
  by_cases hnl : newline ∈ h.data ++ bytes
  · cases hfound : strchr (h.data ++ bytes) newline <;> simp_all
  · have hmissing : strchr (h.data ++ bytes) newline = false := by
      rw [← Bool.not_eq_true, hfinds]
      exact fun hboth => hnl hboth.1
    simp only [hnl, hmissing, if_false, Bool.false_eq_true, true_and, Bool.or_false, false_implies,
      imp_false, Bool.not_eq_true]

theorem endOfPacket_receiveRound (h : Handler) (bytes : List UInt8) :
    (receiveRound env h bytes).endOfPacket =
      (h.endOfPacket || strchr (h.data ++ bytes) newline) :=
  congrArg Iteration.answers (iteration_eq h bytes)

/-- The rounds of a handler whose first `recv` succeeds. -/
theorem iterations_right_cons_iff (henv : env.Undisturbed) {h : Handler}
    (hactive : h.connectionActive = true) {bytes : List UInt8}
    (hrecv : env.recv h.rounds = some bytes) :
    (∀ fuel, ∀ r ∈ iterations env fuel h, r.Right) ↔ (iteration env h bytes).Right ∧
      ((receiveRound env h bytes).endOfPacket = false →
        ∀ fuel, ∀ r ∈ iterations env fuel (receiveRound env h bytes), r.Right) := by
  cases hend : (receiveRound env h bytes).endOfPacket with
  | true =>
      have hiterations := iterations_answered henv hactive hrecv hend
      constructor
      · intro hall
        exact ⟨hall 1 _ (by rw [hiterations]; exact List.mem_singleton_self _), fun h => nomatch h⟩
      · intro hfirst fuel r hr
        cases fuel with
        | zero => cases hr
        | succ fuel =>
            rw [hiterations, List.mem_singleton] at hr
            exact hr ▸ hfirst.1
  | false =>
      have hiterations := iterations_waiting henv hactive hrecv hend
      constructor
      · intro hall
        constructor
        · exact hall 1 _ (by rw [hiterations]; exact List.mem_cons_self)
        · intro _ fuel r hr
          exact hall (fuel + 1) r (by rw [hiterations]; exact List.mem_cons_of_mem _ hr)
      · intro hboth fuel r hr
        cases fuel with
        | zero => cases hr
        | succ fuel =>
            rw [hiterations, List.mem_cons] at hr
            rcases hr with rfl | hr
            · exact hboth.1
            · exact hboth.2 rfl fuel r hr

/-- A handler whose flag is clear makes no wrong round when no NUL hides a newline. -/
theorem iterations_right_of_seen (henv : env.Undisturbed) {h : Handler}
    (hactive : h.connectionActive = true) (hend : h.endOfPacket = false)
    (hseen : ∀ segments, env.Receives h.rounds segments →
      newline ∈ h.data ++ segments.flatten → ¬NulFirst (h.data ++ segments.flatten))
    (fuel : Nat) : ∀ r ∈ iterations env fuel h, r.Right := by
  induction fuel generalizing h with
  | zero => simp [iterations]
  | succ fuel ih =>
      cases hrecv : env.recv h.rounds with
      | none => simp [iterations_failed hrecv]
      | some bytes =>
          have hfirst := hseen [bytes] (.cons hrecv (Env.receives_nil _))
          rw [List.flatten_singleton] at hfirst
          have hright := (iteration_right_iff env h bytes).2 ⟨hfirst, by simp [hend]⟩
          cases hend' : (receiveRound env h bytes).endOfPacket with
          | true =>
              rw [iterations_answered henv hactive hrecv hend']
              exact List.forall_mem_singleton.2 hright
          | false =>
              rw [iterations_waiting henv hactive hrecv hend']
              have hmissing : strchr (h.data ++ bytes) newline = false := by
                rw [endOfPacket_receiveRound, hend, Bool.false_or] at hend'
                exact hend'
              rw [List.forall_mem_cons, receiveRound_waits env hmissing]
              refine ⟨hright, ih hactive hend fun segments hrest => ?_⟩
              have hmore := hseen (bytes :: segments) (.cons hrecv hrest)
              rwa [List.flatten_cons, ← List.append_assoc] at hmore

/-- When no round is wrong, no NUL hides a newline. -/
theorem seen_of_iterations_right (henv : env.Undisturbed) {h : Handler}
    (hactive : h.connectionActive = true) (hend : h.endOfPacket = false)
    (hnone : newline ∉ h.data) (hright : ∀ fuel, ∀ r ∈ iterations env fuel h, r.Right)
    {segments : List (List UInt8)} (hrecv : env.Receives h.rounds segments)
    (hnl : newline ∈ h.data ++ segments.flatten) : ¬NulFirst (h.data ++ segments.flatten) := by
  induction segments generalizing h with
  | nil => exact absurd (by simpa using hnl) hnone
  | cons bytes segments ih =>
      rw [iterations_right_cons_iff henv hactive hrecv.head, iteration_right_iff] at hright
      rw [List.flatten_cons, ← List.append_assoc] at hnl ⊢
      by_cases hfirst : newline ∈ h.data ++ bytes
      · have hfound := (strchr_newline_iff_first _).2 ⟨hfirst, hright.1.1 hfirst⟩
        exact ((strchr_newline_iff_first _).1 (strchr_append hfound segments.flatten)).2
      · have hmissing : strchr (h.data ++ bytes) newline = false := by
          rw [← Bool.not_eq_true, strchr_newline_iff_first]
          exact fun hboth => hfirst hboth.1
        have hwaits := receiveRound_waits env hmissing
        have hrest := hright.2 (by rw [hwaits]; exact hend)
        rw [hwaits] at hrest
        exact ih (h := { h with data := h.data ++ bytes, rounds := h.rounds + 1 }) hactive hend
          hfirst hrest hrecv.tail hnl

/-- Which handlers make no wrong round. -/
theorem iterations_right_iff (henv : env.Undisturbed) (kernel : Kernel) (endOfPacket : Bool) :
    (∀ fuel, ∀ r ∈ iterations env fuel (.start kernel endOfPacket), r.Right) ↔
      (∀ segments, env.Receives 0 segments → newline ∈ segments.flatten →
        endOfPacket = false → ¬NulFirst segments.flatten) ∧
      ∀ bytes, env.recv 0 = some bytes → endOfPacket = true →
        newline ∈ bytes ∧ ¬NulFirst bytes := by
  cases endOfPacket with
  | false =>
      have hseen := iterations_right_of_seen henv (h := .start kernel false) rfl rfl
      have hright := seen_of_iterations_right henv (h := .start kernel false) rfl rfl
        List.not_mem_nil
      constructor
      · intro hall
        exact ⟨fun segments hrecv hnl _ => hright hall hrecv hnl, fun _ _ h => nomatch h⟩
      · intro hboth
        exact hseen fun segments hrecv hnl => hboth.1 segments hrecv hnl rfl
  | true =>
      cases hrecv : env.recv 0 with
      | none =>
          have hnone := iterations_failed (h := .start kernel true) hrecv
          simp [hnone]
      | some bytes =>
          rw [iterations_right_cons_iff henv rfl hrecv, iteration_right_iff,
            endOfPacket_receiveRound]
          constructor
          · intro hall
            refine ⟨fun _ _ _ h => (nomatch h), fun bytes' hbytes _ => ?_⟩
            obtain rfl := Option.some.inj hbytes
            exact ⟨hall.1.2 rfl, hall.1.1 (hall.1.2 rfl)⟩
          · intro hboth
            have hfirst := hboth.2 bytes rfl rfl
            exact ⟨⟨fun _ => hfirst.2, fun _ => hfirst.1⟩, fun h => nomatch h⟩

/-- **The end of a packet.**  Whatever the memory of the packet holds and `recv` returns,
every round applies and answers what has been received exactly when it holds a newline, if
and only if no NUL stands in front of the first newline and, where `end_of_packet` starts
out true, the first `recv` brings that newline.  The rounds are those of the receive loop:
when it ends, the device has been asked for what they ask for, in their order, and the
connection has been ended by an answer exactly if one of them answers. -/
theorem packet_end_iff (env : Env) (henv : env.Undisturbed) (kernel : Kernel)
    (endOfPacket : Bool) :
    ((∀ fuel, ∀ r ∈ iterations env fuel (.start kernel endOfPacket), r.Right) ↔
      (∀ segments, env.Receives 0 segments → newline ∈ segments.flatten →
        endOfPacket = false → ¬NulFirst segments.flatten) ∧
      ∀ bytes, env.recv 0 = some bytes → endOfPacket = true →
        newline ∈ bytes ∧ ¬NulFirst bytes) ∧
    ∀ fuel goesOn h, receiveLoop env fuel (.start kernel endOfPacket) = some (goesOn, h) →
      deviceActions h.events =
          (iterations env fuel (.start kernel endOfPacket)).flatMap Iteration.actions ∧
        (h.connectionActive = false ↔
          ∃ r ∈ iterations env fuel (.start kernel endOfPacket), r.answers = true) :=
  ⟨iterations_right_iff henv kernel endOfPacket, fun _ _ _ hrun => iterations_spec henv rfl hrun⟩

/-- A client that sends a line in two segments. -/
theorem packet_end_two_segments :
    ((iterations (.calm [[97], [98, 10]]) 2 (.start (runCalls (fun _ _ => 0) []) false)).all
      fun r => decide r.Right) = true := by
  have hclean : ∀ segments, (Env.calm [[97], [98, 10]]).Receives 0 segments →
      newline ∈ segments.flatten → false = false → ¬NulFirst segments.flatten := by
    intro segments hrecv _ _ hnul
    have hbegins : segments <+: [[97], [98, 10]] := List.prefix_iff_getElem?.2 fun i hi => by
      have hnext := hrecv i hi
      rwa [Nat.zero_add] at hnext
    obtain ⟨segment, hsegment, hmem⟩ := List.mem_flatten.1 (List.takeWhile_subset _ hnul)
    have hline : (0 : UInt8) ∈ [[97], [98, 10]].flatten :=
      List.mem_flatten.2 ⟨segment, hbegins.subset hsegment, hmem⟩
    exact absurd hline (by decide)
  have hall := (packet_end_iff (.calm [[97], [98, 10]]) ⟨fun _ => rfl, fun _ => rfl⟩
    (runCalls (fun _ _ => 0) []) false).1.2 ⟨hclean, fun _ _ h => nomatch h⟩
  exact List.all_eq_true.2 fun r hr => decide_eq_true (hall 2 r hr)

/-- A flag left true answers a client that has sent no newline; and behind a NUL, a newline
is not seen. -/
theorem packet_end_wrong :
    (¬∀ env : Env, env.Undisturbed → ∀ fuel,
      ∀ r ∈ iterations env fuel (.start (runCalls (fun _ _ => 0) []) true), r.Right) ∧
    ¬∀ env : Env, env.Undisturbed → ∀ fuel,
      ∀ r ∈ iterations env fuel (.start (runCalls (fun _ _ => 0) []) false), r.Right := by
  constructor
  · intro hall
    have hright := hall (.calm [[97]]) ⟨fun _ => rfl, fun _ => rfl⟩ 1 _ List.mem_cons_self
    rw [iteration_right_iff] at hright
    exact absurd (hright.2 rfl) (by decide)
  · intro hall
    have hright := hall (.calm [[0, 10]]) ⟨fun _ => rfl, fun _ => rfl⟩ 1 _ List.mem_cons_self
    rw [iteration_right_iff] at hright
    exact absurd (hright.1 (by decide)) (by decide)

/-! ## A packet is answered -/

/-- A packet leaves the file at a stored byte or at the end, whatever fails. -/
theorem DeviceFile.Ready.exists_applyData {d : DeviceFile} (h : d.Ready 0) {sched : Schedule}
    (hreal : sched.Realistic) (packet : List UInt8) :
    ∃ p, (d.applyData sched packet).Ready p ∧
      p ≤ (log (d.applyData sched packet).kernel).contents.length := by
  unfold DeviceFile.applyData
  cases seekCommand packet with
  | none => exact ⟨0, (h.write hreal packet).1, Nat.zero_le _⟩
  | some seekto =>
      have hlt := h.sound.wf.contents_lt
      obtain ⟨hready, hlog⟩ := h.ioctl_or_fault hreal seekto
      have hle : (if sched.copy 0 then ((log d.kernel).seekTarget seekto.writeCmd.toNat
          seekto.writeCmdOffset.toNat).getD 0 else 0) ≤ (log d.kernel).contents.length := by
        cases sched.copy 0 with
        | false => exact Nat.zero_le _
        | true =>
            cases htarget : (log d.kernel).seekTarget seekto.writeCmd.toNat
                seekto.writeCmdOffset.toNat with
            | none => exact Nat.zero_le _
            | some p => exact (LineLog.seekTarget_lt htarget).le
      simp only [h.lseek_cur (Nat.two_pow_pos 63), hready.lseek_cur (Nat.lt_of_le_of_lt hle hlt)]
      exact ⟨_, hready, by rw [hlog]; exact hle⟩

/-- **A packet is answered.**  Whatever the device and the socket answer, the loop ends once
`strchr` has found a newline, and has acted on the packet, once. -/
theorem receiveLoop_acts (henv : env.Undisturbed) (hreal : ∀ i, (env.device i).Realistic)
    {segments : List (List UInt8)} {h : Handler} {packet : List UInt8}
    (hpacket : packetSeen h.data segments = some packet)
    (hrecv : env.Receives h.rounds segments) (hactive : h.connectionActive = true)
    (hend : h.endOfPacket = false) (hready : h.device.Ready 0) :
    ∃ enough, ∀ fuel ≥ enough, ∃ h', receiveLoop env fuel h = some (true, h') ∧
      h'.events = h.events ++ [.lock, deviceAction packet, .unlock, .lock, .unlock] := by
  rcases receiveLoop_packet henv hpacket hrecv hactive hend with ⟨n, -, hrun⟩
  rcases hready.exists_applyData (hreal h.calls) packet with ⟨p, hready', hp⟩
  refine ⟨(log (h.device.applyData (env.device h.calls) packet).kernel).contents.length + 1 + n,
    fun fuel hfuel => ?_⟩
  obtain ⟨fuel, rfl⟩ : ∃ m, fuel = m + n := ⟨fuel - n, by omega⟩
  have hends : (streamFileReader env.send env.device fuel
      ⟨h.device.applyData (env.device h.calls) packet, h.calls + 1, h.sends, h.accepted⟩).isSome :=
    streamFileReader_ends env.send hreal hready' hp (by simp only; omega)
  rcases Option.isSome_iff_exists.1 hends with ⟨s, hs⟩
  refine ⟨{ h with
    device := s.device, data := packet, endOfPacket := true, connectionActive := false
    rounds := h.rounds + n, calls := s.calls, sends := s.sends, accepted := s.accepted
    events := h.events ++ [.lock, deviceAction packet, .unlock] ++ [.lock, .unlock] }, ?_, ?_⟩
  · rw [hrun, applyPacket_eq, answerClient_eq]
    simp only
    rw [hs, Option.map_some, Option.bind_some]
    exact receiveLoop_inactive rfl (by omega)
  · simp

/-! ## A peer that closes -/

/-- The peer sends the segments and closes: from then on `recv` returns 0. -/
def Env.ClosesAfter (env : Env) (segments : List (List UInt8)) : Prop :=
  ∀ i, env.recv i = some (segments.getD i [])

theorem Env.ClosesAfter.receives {segments : List (List UInt8)} (h : env.ClosesAfter segments) :
    env.Receives 0 segments := by
  intro i hi
  rw [Nat.zero_add, h i, List.getD_eq_getElem?_getD, List.getElem?_eq_getElem hi, Option.getD_some]

/-- What has been received in each round begins the stream. -/
theorem flatten_take_succ (segments : List (List UInt8)) (i : Nat) :
    (segments.take (i + 1)).flatten = (segments.take i).flatten ++ segments.getD i [] := by
  rw [List.take_add_one, List.flatten_append, List.getD_eq_getElem?_getD]
  cases segments[i]? <;> simp

/-- Without a newline for `strchr` to find, the loop goes round for ever. -/
theorem receiveLoop_never_ends (henv : env.Undisturbed) {segments : List (List UInt8)}
    (hclose : env.ClosesAfter segments) (hmissing : strchr segments.flatten newline = false)
    (kernel : Kernel) (fuel : Nat) : receiveLoop env fuel (.start kernel false) = none := by
  apply never_ends (fun h : Handler => h.connectionActive = true ∧ h.endOfPacket = false ∧
    h.data = (segments.take h.rounds).flatten) (fun _ => rfl) ?_ fuel ⟨rfl, rfl, rfl⟩
  intro h hwaiting
  rcases hwaiting with ⟨hactive, hend, hdata⟩
  have hnext : h.data ++ segments.getD h.rounds [] = (segments.take (h.rounds + 1)).flatten := by
    rw [hdata, flatten_take_succ]
  have hnone : strchr (h.data ++ segments.getD h.rounds []) newline = false := by
    rw [← Bool.not_eq_true]
    intro hfound
    rw [hnext] at hfound
    have hlater := strchr_append hfound (segments.drop (h.rounds + 1)).flatten
    rw [← List.flatten_append, List.take_append_drop, hmissing] at hlater
    cases hlater
  have hwaits := receiveRound_waits env hnone
  refine ⟨receiveRound env h (segments.getD h.rounds []), ?_, fun fuel => ?_⟩
  · rw [hwaits]
    exact ⟨hactive, hend, hnext⟩
  · rw [receiveLoop_round henv hactive (hclose h.rounds), endOfPacket_receiveRound, hend, hnone]
    rfl

/-- A newline that `strchr` finds is acted on, and the loop goes on to its end. -/
theorem receiveLoop_ends (henv : env.Undisturbed) (hdevice : ∀ i, (env.device i).Realistic)
    {segments : List (List UInt8)} (hclose : env.ClosesAfter segments)
    (hfound : strchr segments.flatten newline = true) {kernel : Kernel} (hk : Sound kernel) :
    ∃ fuel h, receiveLoop env fuel (.start kernel false) = some (true, h) := by
  have hempty : strchr [] newline = false := rfl
  rcases exists_packetSeen hempty hfound with ⟨packet, hpacket⟩
  rcases receiveLoop_acts (h := .start kernel false) henv hdevice hpacket hclose.receives rfl rfl
    (DeviceFile.ready_opened hk) with ⟨enough, hacts⟩
  rcases hacts enough (Nat.le_refl enough) with ⟨h, hrun, -⟩
  exact ⟨enough, h, hrun⟩

/-- **The peer closes.**  After any history of the device, whatever the device and the
socket answer, the receive loop of a handler whose peer has closed ends exactly when a
newline has been received with no NUL in front of it; and exactly then the thread reaches
its clean-up, which closes the device and the socket. -/
theorem closed_peer_ends_iff (garbage : Nat → Nat → UInt8) (history : List Call)
    (hreal : ∀ c ∈ history, c.sched.Realistic) (env : Env) (henv : env.Undisturbed)
    (hdevice : ∀ i, (env.device i).Realistic) (segments : List (List UInt8))
    (hclose : env.ClosesAfter segments) :
    ((∃ fuel h, receiveLoop env fuel (.start (runCalls garbage history) false) = some (true, h)) ↔
      newline ∈ segments.flatten ∧ ¬NulFirst segments.flatten) ∧
    (env.opens = true → env.fstats = true →
      ((∃ fuel h, dataProcessing env fuel (runCalls garbage history) false = some h ∧
          .closeDevice ∈ h.events ∧ .closeSocket ∈ h.events) ↔
        newline ∈ segments.flatten ∧ ¬NulFirst segments.flatten)) := by
  have hk := runCalls_sound garbage hreal
  have hnever : ∀ fuel, (receiveLoop env fuel (.start (runCalls garbage history) false)).isSome →
      strchr segments.flatten newline = true := by
    intro fuel hends
    by_contra hmissing
    rw [Bool.not_eq_true] at hmissing
    rw [receiveLoop_never_ends henv hclose hmissing] at hends
    cases hends
  rw [← strchr_newline_iff_first]
  constructor
  · constructor
    · rintro ⟨fuel, h, hrun⟩
      exact hnever fuel (by rw [hrun]; rfl)
    · exact fun hfound => receiveLoop_ends henv hdevice hclose hfound hk
  · intro hopens hfstats
    constructor
    · rintro ⟨fuel, h, hrun, -⟩
      rw [dataProcessing_eq hopens hfstats, Option.map_eq_some_iff] at hrun
      rcases hrun with ⟨r, hloop, -⟩
      exact hnever fuel (by rw [hloop]; rfl)
    · intro hfound
      rcases receiveLoop_ends henv hdevice hclose hfound hk with ⟨fuel, h, hrun⟩
      refine ⟨fuel, cleanUp env h, ?_, ?_, ?_⟩
      · rw [dataProcessing_eq hopens hfstats, hrun]
        rfl
      · rw [events_cleanUp]
        simp
      · rw [events_cleanUp]
        simp

/-- A client that sends `segments` and closes, on a system in which nothing fails. -/
def Env.calmUntilClosed (segments : List (List UInt8)) : Env :=
  { Env.calm segments with recv := fun i => some (segments.getD i []) }

/-- A client that sends a line and closes. -/
theorem closed_peer_ends_line :
    ∃ fuel h, dataProcessing (.calmUntilClosed [[97], [10]]) fuel (runCalls (fun _ _ => 0) [])
        false = some h ∧
      .closeDevice ∈ h.events ∧ .closeSocket ∈ h.events :=
  ((closed_peer_ends_iff (fun _ _ => 0) [] (by simp) (.calmUntilClosed [[97], [10]])
    ⟨fun _ => rfl, fun _ => rfl⟩ (fun _ => Schedule.realistic_limited [] []) [[97], [10]]
    (fun _ => rfl)).2 rfl rfl).2 (by decide)

/-- A client that sends a byte and closes is never let go. -/
theorem closed_peer_never_ends :
    ¬∀ (segments : List (List UInt8)) (env : Env), env.Undisturbed →
      (∀ i, (env.device i).Realistic) → env.ClosesAfter segments →
        ∃ fuel h, receiveLoop env fuel (.start (runCalls (fun _ _ => 0) []) false) =
          some (true, h) := by
  intro hall
  rcases hall [[97]] (.calmUntilClosed [[97]]) ⟨fun _ => rfl, fun _ => rfl⟩
    (fun _ => Schedule.realistic_limited [] []) (fun _ => rfl) with ⟨fuel, h, hrun⟩
  have hclose : (Env.calmUntilClosed [[97]]).ClosesAfter [[97]] := fun _ => rfl
  rw [receiveLoop_never_ends ⟨fun _ => rfl, fun _ => rfl⟩ hclose (by decide)] at hrun
  cases hrun

end Aesd.Server
