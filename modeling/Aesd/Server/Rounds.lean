import Aesd.Server.DataProcessing

/-!
# The rounds of the receive loop

A round appends what it has received and looks for a newline with `strchr`.  Up to the
round that finds one the handler only waits; that round acts on everything received so
far.  None of this depends on the device.
-/

namespace Aesd.Server

open Aesd.Driver

variable {env : Env}

/-! ## The two sections of a handler -/

/-- What the packet's section leaves. -/
theorem applyPacket_eq (env : Env) (h : Handler) :
    applyPacket env h =
      { h with
        device := h.device.applyData (env.device h.calls) h.data
        calls := h.calls + 1
        events := h.events ++ [.lock, deviceAction h.data, .unlock] } := by
  simp [applyPacket, Handler.emit]

/-- What the answer's section leaves. -/
theorem answerClient_eq (env : Env) (fuel : Nat) (h : Handler) :
    answerClient env fuel h =
      (streamFileReader env.send env.device fuel
        { device := h.device, calls := h.calls, sends := h.sends, accepted := h.accepted }).map
      fun s =>
        { h with
          device := s.device, connectionActive := false, calls := s.calls, sends := s.sends
          accepted := s.accepted, events := h.events ++ [.lock, .unlock] } := by
  rw [answerClient]
  simp only [Handler.emit]
  cases streamFileReader env.send env.device fuel
    { device := h.device, calls := h.calls, sends := h.sends, accepted := h.accepted } with
  | none => rfl
  | some s => simp

/-! ## One round -/

/-- Nobody requests the exit, and every `realloc` succeeds. -/
structure Env.Undisturbed (env : Env) : Prop where
  stays : ∀ i, env.exitRequested i = false
  reallocs : ∀ i, env.realloc i = true

/-- From the round `first` on, `recv` returns the segments one by one. -/
def Env.Receives (env : Env) (first : Nat) (segments : List (List UInt8)) : Prop :=
  ∀ i (hi : i < segments.length), env.recv (first + i) = some segments[i]

theorem Env.Receives.head {first : Nat} {segment : List UInt8} {segments : List (List UInt8)}
    (h : env.Receives first (segment :: segments)) : env.recv first = some segment :=
  h 0 (by simp)

theorem Env.Receives.tail {first : Nat} {segment : List UInt8} {segments : List (List UInt8)}
    (h : env.Receives first (segment :: segments)) : env.Receives (first + 1) segments := by
  intro i hi
  have hnext := h (i + 1) (Nat.succ_lt_succ hi)
  rw [show first + 1 + i = first + (i + 1) by omega, hnext, List.getElem_cons_succ]

theorem Env.Receives.cons {first : Nat} {segment : List UInt8} {segments : List (List UInt8)}
    (hhead : env.recv first = some segment) (htail : env.Receives (first + 1) segments) :
    env.Receives first (segment :: segments) := by
  intro i hi
  cases i with
  | zero => exact hhead
  | succ i =>
      have hnext := htail i (Nat.lt_of_succ_lt_succ hi)
      rw [show first + (i + 1) = first + 1 + i by omega, hnext, List.getElem_cons_succ]

theorem Env.receives_nil (first : Nat) : env.Receives first [] := fun _ hi => absurd hi (by simp)

/-- Lines 210 to 236: what has been received is appended, and applied if a newline is
found in it. -/
def receiveRound (env : Env) (h : Handler) (bytes : List UInt8) : Handler :=
  let h := { h with data := h.data ++ bytes, rounds := h.rounds + 1 }
  if strchr h.data newline then applyPacket env { h with endOfPacket := true } else h

/-- A round of the loop that nothing cuts short. -/
theorem receiveLoop_step {h : Handler} (hstays : env.exitRequested h.rounds = false)
    (hactive : h.connectionActive = true) {bytes : List UInt8}
    (hrecv : env.recv h.rounds = some bytes) (hrealloc : env.realloc h.rounds = true) (fuel : Nat) :
    receiveLoop env (fuel + 1) h =
      if (receiveRound env h bytes).endOfPacket then
        (answerClient env fuel (receiveRound env h bytes)).bind (receiveLoop env fuel)
      else receiveLoop env fuel (receiveRound env h bytes) := by
  simp only [receiveLoop, receiveRound, hstays, hactive, hrecv, hrealloc,
    Bool.false_eq_true, Bool.true_eq_false, or_self, if_false]
  congr 1
  cases answerClient env fuel _ <;> rfl

/-- A round of the loop. -/
theorem receiveLoop_round (henv : env.Undisturbed) {h : Handler}
    (hactive : h.connectionActive = true) {bytes : List UInt8}
    (hrecv : env.recv h.rounds = some bytes) (fuel : Nat) :
    receiveLoop env (fuel + 1) h =
      if (receiveRound env h bytes).endOfPacket then
        (answerClient env fuel (receiveRound env h bytes)).bind (receiveLoop env fuel)
      else receiveLoop env fuel (receiveRound env h bytes) :=
  receiveLoop_step (henv.stays _) hactive hrecv (henv.reallocs _) fuel

/-- A loop whose connection is no longer active ends. -/
theorem receiveLoop_inactive {h : Handler} (hactive : h.connectionActive = false)
    {fuel : Nat} (hfuel : 0 < fuel) : receiveLoop env fuel h = some (true, h) := by
  cases fuel with
  | zero => exact absurd hfuel (Nat.lt_irrefl 0)
  | succ fuel => simp [receiveLoop, hactive]

/-- A round that finds no newline only waits. -/
theorem receiveRound_waits (env : Env) {h : Handler} {bytes : List UInt8}
    (hmissing : strchr (h.data ++ bytes) newline = false) :
    receiveRound env h bytes = { h with data := h.data ++ bytes, rounds := h.rounds + 1 } := by
  simp [receiveRound, hmissing]

/-- A round that finds a newline applies everything received so far. -/
theorem receiveRound_applies {h : Handler} {bytes : List UInt8}
    (hfound : strchr (h.data ++ bytes) newline = true) :
    receiveRound env h bytes =
      applyPacket env
        { h with data := h.data ++ bytes, rounds := h.rounds + 1, endOfPacket := true } := by
  simp [receiveRound, hfound]

/-- The handler in front of the loop, with whatever stands in `end_of_packet`. -/
def Handler.start (kernel : Kernel) (endOfPacket : Bool) : Handler :=
  { device := { kernel := kernel, file := .opened }
    data := []
    endOfPacket := endOfPacket
    connectionActive := true
    rounds := 0, calls := 0, sends := 0
    accepted := [], events := [] }

/-- The thread is its loop and the clean-up, once the device has been opened. -/
theorem dataProcessing_eq (hopens : env.opens = true) (hfstats : env.fstats = true) (fuel : Nat)
    (kernel : Kernel) (endOfPacket : Bool) :
    dataProcessing env fuel kernel endOfPacket =
      (receiveLoop env fuel (.start kernel endOfPacket)).map fun r =>
        if r.1 then cleanUp env r.2 else r.2 := by
  simp only [dataProcessing, hopens, hfstats, Bool.true_eq_false, if_false, Handler.start]
  cases receiveLoop env fuel _ with
  | none => rfl
  | some r =>
      rcases r with ⟨goesOn, h⟩
      cases goesOn <;> rfl

/-! ## The round that acts -/

/-- What has been received, behind the bytes `received` before, when `strchr` first finds
a newline. -/
def packetSeen (received : List UInt8) : List (List UInt8) → Option (List UInt8)
  | [] => none
  | segment :: segments =>
      if strchr (received ++ segment) newline then some (received ++ segment)
      else packetSeen (received ++ segment) segments

/-- **The receive loop waits for the packet** and then applies and answers it. -/
theorem receiveLoop_packet (henv : env.Undisturbed) {segments : List (List UInt8)} {h : Handler}
    {packet : List UInt8} (hpacket : packetSeen h.data segments = some packet)
    (hrecv : env.Receives h.rounds segments)
    (hactive : h.connectionActive = true) (hend : h.endOfPacket = false) :
    ∃ n ≤ segments.length, ∀ fuel, receiveLoop env (fuel + n) h =
      (answerClient env fuel (applyPacket env
        { h with data := packet, rounds := h.rounds + n, endOfPacket := true })).bind
          (receiveLoop env fuel) := by
  induction segments generalizing h with
  | nil => cases hpacket
  | cons segment segments ih =>
      rw [packetSeen] at hpacket
      by_cases hfound : strchr (h.data ++ segment) newline = true
      · rw [if_pos hfound] at hpacket
        obtain rfl := Option.some.inj hpacket
        refine ⟨1, by simp, fun fuel => ?_⟩
        rw [receiveLoop_round henv hactive hrecv.head, receiveRound_applies hfound]
        rfl
      · rw [if_neg hfound] at hpacket
        rw [Bool.not_eq_true] at hfound
        have hround := receiveRound_waits env hfound
        have hwaits : (receiveRound env h segment).endOfPacket = false := by
          rw [hround]
          exact hend
        rcases ih (h := { h with data := h.data ++ segment, rounds := h.rounds + 1 }) hpacket
          hrecv.tail hactive hend with ⟨n, hn, hrun⟩
        refine ⟨n + 1, Nat.succ_le_succ hn, fun fuel => ?_⟩
        rw [← Nat.add_assoc, receiveLoop_round henv hactive hrecv.head, hwaits,
          if_neg Bool.false_ne_true, hround, hrun]
        simp only [Nat.add_assoc, Nat.add_comm 1]

end Aesd.Server
