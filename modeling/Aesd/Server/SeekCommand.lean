import Aesd.Server.PacketEnd

/-!
# Which packets are taken for seek commands

The format of line 220 says nothing about what follows the second number, allows white
space and signs in front of both, and cuts them to 32 bits.  So it takes more packets for
commands than the plain ones, and the data in those is neither sought to nor written.
`parse_seekto_command`, which nobody calls, looks at what follows.
-/

namespace Aesd.Server

open Aesd.Driver

/-- The plain command: the name, a small decimal number, a comma, a decimal number that
fits an `unsigned int`, and the newline. -/
def PlainCommand (packet : List UInt8) (seekto : AesdSeekto) : Prop :=
  ∃ xs ys, packet = seektoPrefix ++ xs ++ 44 :: ys ++ [newline] ∧ IsDecimal xs ∧ IsDecimal ys ∧
    decimalValue xs < maxWriteOperationsSupported ∧ decimalValue ys < 2 ^ 32 ∧
    seekto.writeCmd.toNat = decimalValue xs ∧ seekto.writeCmdOffset.toNat = decimalValue ys

theorem PlainCommand.seekCommand_eq {packet : List UInt8} {seekto : AesdSeekto}
    (h : PlainCommand packet seekto) (hnul : 0 ∉ packet) : seekCommand packet = some seekto := by
  rcases h with ⟨xs, ys, rfl, hx, hy, hxv, hyv, hcmd, hoffset⟩
  rw [seekCommand_plain hx hy hxv hyv hnul, ← hcmd, ← hoffset, UInt32.ofNat_toNat,
    UInt32.ofNat_toNat]

/-- A packet is written exactly when it is not taken for a command. -/
theorem deviceAction_eq_write_iff {packet : List UInt8} (hnul : 0 ∉ packet) :
    deviceAction packet = .write packet ↔ ¬∃ seekto, ReadsCommand packet seekto := by
  simp only [← seekCommand_eq_some_iff hnul]
  rw [deviceAction]
  cases seekCommand packet with
  | none => simp
  | some seekto => simp

/-- What a handler does with a packet is right when it is a plain command or nothing that
the format reads. -/
theorem deviceAction_right_iff {packet : List UInt8} (hnul : 0 ∉ packet) :
    ((∀ seekto, PlainCommand packet seekto → deviceAction packet = .seek seekto) ∧
        ((¬∃ seekto, PlainCommand packet seekto) → deviceAction packet = .write packet)) ↔
      (∃ seekto, PlainCommand packet seekto) ∨ ¬∃ seekto, ReadsCommand packet seekto := by
  have hplain : ∀ seekto, PlainCommand packet seekto → deviceAction packet = .seek seekto := by
    intro seekto hcmd
    rw [deviceAction, hcmd.seekCommand_eq hnul]
  rw [and_iff_right hplain, deviceAction_eq_write_iff hnul, Classical.or_iff_not_imp_left]

/-- **Seek commands.**  On a device with any history, whatever the socket and the device
answer, the handler sends the plain commands to the driver with their numbers and writes
every other packet, exactly when the packet is plain or nothing that the format reads. -/
theorem seek_recognised_iff (garbage : Nat → Nat → UInt8) (history : List Call)
    (hreal : ∀ c ∈ history, c.sched.Realistic) (env : Env) (hopens : env.opens = true)
    (hfstats : env.fstats = true) (henv : env.Undisturbed)
    (hdevice : ∀ i, (env.device i).Realistic) (segments : List (List UInt8))
    (hrecv : env.Receives 0 segments) (packet : List UInt8)
    (hpacket : packetOf [] segments = some packet) (hnul : 0 ∉ packet) :
    ∃ enough, ∀ fuel ≥ enough, ∃ h,
      dataProcessing env fuel (runCalls garbage history) false = some h ∧
      (((∀ seekto, PlainCommand packet seekto → deviceActions h.events = [.seek seekto]) ∧
          ((¬∃ seekto, PlainCommand packet seekto) →
            deviceActions h.events = [.write packet])) ↔
        (∃ seekto, PlainCommand packet seekto) ∨ ¬∃ seekto, ReadsCommand packet seekto) := by
  have hready := DeviceFile.ready_opened (runCalls_sound garbage hreal)
  rcases receiveLoop_acts (h := .start (runCalls garbage history) false) henv hdevice
    (packetSeen_of_packetOf hpacket hnul) hrecv rfl rfl hready with ⟨enough, hacts⟩
  refine ⟨enough, fun fuel hfuel => ?_⟩
  rcases hacts fuel hfuel with ⟨h, hrun, hevents⟩
  refine ⟨cleanUp env h, ?_, ?_⟩
  · rw [dataProcessing_eq hopens hfstats, hrun]
    rfl
  · rw [deviceActions_cleanUp hevents, ← deviceAction_right_iff hnul]
    simp only [List.cons.injEq, and_true]

/-- The command to seek to byte 3 of line 1, in two segments. -/
theorem seek_recognised_plain :
    ∃ fuel h, dataProcessing (.calm [seektoPrefix, [49, 44, 51, 10]]) fuel
        (runCalls (fun _ _ => 0) []) false = some h ∧ deviceActions h.events = [.seek ⟨1, 3⟩] := by
  have hone : IsDecimal [49] := ⟨by decide, List.forall_mem_singleton.2 rfl⟩
  have hthree : IsDecimal [51] := ⟨by decide, List.forall_mem_singleton.2 rfl⟩
  have hplain : PlainCommand (seektoPrefix ++ [49, 44, 51, 10]) ⟨1, 3⟩ :=
    ⟨[49], [51], rfl, hone, hthree, by decide, by decide, rfl, rfl⟩
  obtain ⟨enough, hall⟩ := seek_recognised_iff (fun _ _ => 0) [] (by simp)
    (.calm [seektoPrefix, [49, 44, 51, 10]]) rfl rfl ⟨fun _ => rfl, fun _ => rfl⟩
    (fun _ => Schedule.realistic_limited [] []) [seektoPrefix, [49, 44, 51, 10]]
    (fun i hi => by rw [Nat.zero_add]; exact List.getElem?_eq_getElem hi)
    (seektoPrefix ++ [49, 44, 51, 10]) (by decide) (by decide)
  obtain ⟨h, hrun, hiff⟩ := hall enough (Nat.le_refl enough)
  exact ⟨enough, h, hrun, (hiff.2 (.inl ⟨_, hplain⟩)).1 _ hplain⟩

/-- A command and a line of data that arrive together: the line is not written. -/
theorem line_behind_command_lost :
    ¬∀ (segments : List (List UInt8)) (packet : List UInt8),
      packetOf [] segments = some packet → 0 ∉ packet → packet.getLast? = some newline →
      (¬∃ seekto, PlainCommand packet seekto) →
      ∀ fuel h, dataProcessing (.calm segments) fuel (runCalls (fun _ _ => 0) []) false = some h →
        deviceActions h.events = [.write packet] := by
  intro hall
  have hnotplain : ¬∃ seekto, PlainCommand (seektoPrefix ++ [48, 44, 48, 10, 97, 10]) seekto := by
    intro hplain
    rcases hplain with ⟨-, xs, ys, heq, hx, hy, -⟩
    have hmem : (97 : UInt8) ∈ seektoPrefix ++ xs ++ 44 :: ys ++ [newline] := by
      rw [← heq]
      decide
    simp only [List.mem_append, List.mem_cons, List.not_mem_nil, or_false] at hmem
    rcases hmem with (((hname | hmem) | hcomma | hmem) | hline)
    · exact absurd hname (by decide)
    · exact absurd (hx.2 97 hmem) (by decide)
    · exact absurd hcomma (by decide)
    · exact absurd (hy.2 97 hmem) (by decide)
    · exact absurd hline (by decide)
  obtain ⟨h, hrun⟩ := Option.isSome_iff_exists.1 (show (dataProcessing
    (.calm [seektoPrefix ++ [48, 44, 48, 10, 97, 10]]) 10 (runCalls (fun _ _ => 0) [])
      false).isSome by decide +kernel)
  have hwritten := hall [seektoPrefix ++ [48, 44, 48, 10, 97, 10]] _ (by decide +kernel)
    (by decide) (by decide) hnotplain 10 h hrun
  have hwritten' : (some h).map (fun h => deviceActions h.events) = _ := congrArg some hwritten
  rw [← hrun] at hwritten'
  exact absurd hwritten' (by decide +kernel)

end Aesd.Server
