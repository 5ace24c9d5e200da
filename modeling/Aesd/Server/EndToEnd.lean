import Aesd.Server.Answers

/-!
# The server over the driver

A connection that is served alone, on a device with any history.  Data becomes one
write and the client receives everything stored; a seek command in plain decimal
changes nothing and the client receives what is stored from the sought byte on.
-/

namespace Aesd.Server

open Aesd.Driver
open Aesd.Verified.Lines

/-- When only the last segment brings a newline, the packet is the whole stream. -/
theorem packetOf_of_last {received last : List UInt8} {before : List (List UInt8)}
    (hreceived : newline ∉ received) (hbefore : newline ∉ before.flatten)
    (hlast : newline ∈ last) :
    packetOf received (before ++ [last]) = some (received ++ (before.flatten ++ last)) := by
  induction before generalizing received with
  | nil =>
      rw [List.nil_append, packetOf, if_pos (List.mem_append_right received hlast)]
      rfl
  | cons segment before ih =>
      rw [List.flatten_cons, List.mem_append, not_or] at hbefore
      have hnl : newline ∉ received ++ segment := by
        rw [List.mem_append, not_or]
        exact ⟨hreceived, hbefore.1⟩
      rw [List.cons_append, packetOf, if_neg hnl, ih hnl hbefore.2]
      simp only [List.flatten_cons, List.append_assoc]

/-- The line log after a write that is refused nothing. -/
theorem log_aesdWrite {env : Env} {bound : Nat} (henv : env.Succeeds bound) {k : Kernel}
    (hk : Sound k) {chunk : List UInt8} (hfit : (log k).pending.length + chunk.length ≤ bound)
    (i : Nat) :
    log (aesdWrite (k.enter (env.device i)) .opened chunk).2 = (log k).append chunk := by
  have hlog := (exec_spec hk (c := ⟨env.device i, .opened, .write chunk⟩)
    (henv.realistic i)).2.1
  rw [Call.effect] at hlog
  simp only [File.opened, aesdOpen, if_true, henv.writeOutcome_eq hfit i] at hlog
  exact hlog

/-- **End to end.**  After any history of the device, a connection served alone is
answered with everything stored once its bytes are written, or with the stored bytes
from the sought one on. -/
theorem connection_answered (garbage : Nat → Nat → UInt8) (history : List Call)
    (hreal : ∀ c ∈ history, c.sched.Realistic) (env : Env) (before : List (List UInt8))
    (last : List UInt8)
    (hsucceeds : env.Succeeds ((log (runCalls garbage history)).pending.length +
      (before.flatten ++ last).length))
    (hrecv : ∀ i (hi : i < (before ++ [last]).length), env.recv i = some (before ++ [last])[i])
    (hbefore : newline ∉ before.flatten) (hlast : newline ∈ last)
    (hnul : 0 ∉ before.flatten ++ last) :
    ∃ enough, ∀ fuel ≥ enough, ∃ h,
      dataProcessing env fuel (runCalls garbage history) false = some h ∧
      (¬seektoPrefix <+: before.flatten ++ last →
        log h.device.kernel = log (aesdWrite ((runCalls garbage history).enter (env.device 0))
          .opened (before.flatten ++ last)).2 ∧
        h.accepted = (log h.device.kernel).contents) ∧
      ∀ xs ys, IsDecimal xs → IsDecimal ys → decimalValue xs < maxWriteOperationsSupported →
        decimalValue ys < 2 ^ 32 →
        before.flatten ++ last = seektoPrefix ++ xs ++ 44 :: ys ++ [newline] →
          log h.device.kernel = log (runCalls garbage history) ∧
          h.accepted = (log (runCalls garbage history)).suffixFrom (decimalValue xs)
            (decimalValue ys) := by
  have hsound := runCalls_sound garbage hreal
  generalize runCalls garbage history = k at *
  have hpacket : packetOf [] (before ++ [last]) = some (before.flatten ++ last) :=
    packetOf_of_last (List.not_mem_nil) hbefore hlast
  generalize before.flatten ++ last = bytes at *
  refine ⟨(before ++ [last]).length + (afterPacket (log k) bytes).1.contents.length + 2, ?_⟩
  intro fuel hfuel
  obtain ⟨h, hrun, hlog, haccepted, -⟩ :=
    dataProcessing_spec hsucceeds hsound hpacket hrecv hnul (Nat.le_refl _) fuel (by omega)
  refine ⟨h, hrun, ?_, ?_⟩
  · intro hdata
    rw [afterPacket, seekCommand_of_not_prefix hnul hdata] at hlog haccepted
    constructor
    · rw [hlog, log_aesdWrite hsucceeds hsound (Nat.le_refl _)]
    · rw [haccepted, hlog, List.drop_zero]
  · intro xs ys hx hy hxv hyv hbytes
    subst hbytes
    have hX : (UInt32.ofNat (decimalValue xs)).toNat = decimalValue xs :=
      UInt32.toNat_ofNat_of_lt' (hxv.trans (by decide))
    have hY : (UInt32.ofNat (decimalValue ys)).toNat = decimalValue ys :=
      UInt32.toNat_ofNat_of_lt' hyv
    rw [afterPacket, seekCommand_plain hx hy hxv hyv hnul] at hlog haccepted
    simp only [hX, hY, LineLog.drop_seekTarget] at hlog haccepted
    exact ⟨hlog, haccepted⟩

/-- The line `x` and a pending `y` are stored; a client sends `ab` and `c` with its
newline. -/
theorem connection_answered_example :
    ∃ fuel h, dataProcessing (.calm [[97, 98], [99, 10]]) fuel
        (runCalls (fun _ _ => 0) [⟨.limited [] [], .opened, .write [120, 10, 121]⟩]) false =
          some h ∧
      h.accepted = [120, 10, 121, 97, 98, 99, 10] := by
  obtain ⟨enough, hall⟩ := connection_answered (fun _ _ => 0)
    [⟨.limited [] [], .opened, .write [120, 10, 121]⟩]
    (by simpa using Schedule.realistic_limited [] []) (.calm [[97, 98], [99, 10]]) [[97, 98]]
    [99, 10] (Env.calm_succeeds _ (by decide +kernel))
    (fun i hi => List.getElem?_eq_getElem hi) (by decide) (by decide) (by decide)
  obtain ⟨h, hrun, hdata, -⟩ := hall enough (Nat.le_refl _)
  obtain ⟨hlog, haccepted⟩ := hdata (by decide)
  refine ⟨enough, h, hrun, ?_⟩
  rw [haccepted, hlog]
  decide +kernel

end Aesd.Server
