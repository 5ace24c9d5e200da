import Aesd.Server.Rounds

/-!
# What a client is answered

When nothing fails, a handler acts on the bytes received up to and with the segment
that brings the first newline.  `afterPacket` is what the packet does to the line log
and to the position of the handler's file, and the answer is what is stored from that
position on.
-/

namespace Aesd.Server

open Aesd.Driver
open Aesd.Verified.BlockHeap
open Aesd.Verified.Lines

/-! ## Packets -/

/-- The line log and the position that a packet leaves, on a file at position 0. -/
def afterPacket (log : LineLog) (packet : List UInt8) : LineLog × Nat :=
  match seekCommand packet with
  | some seekto =>
      (log, (log.seekTarget seekto.writeCmd.toNat seekto.writeCmdOffset.toNat).getD 0)
  | none => (log.append packet, 0)

/-- The bytes received up to and with the first segment that brings a newline, behind
the bytes `received` before. -/
def packetOf (received : List UInt8) : List (List UInt8) → Option (List UInt8)
  | [] => none
  | segment :: segments =>
      if newline ∈ received ++ segment then some (received ++ segment)
      else packetOf (received ++ segment) segments

/-- The device actions among the events of a handler. -/
def deviceActions (events : List Event) : List Event :=
  events.filter fun
    | .seek _ | .write _ => true
    | _ => false

/-! ## Nothing fails -/

/-- Everything a handler asks for succeeds, requests of up to `bound` bytes included,
and nobody requests the exit. -/
structure Env.Succeeds (env : Env) (bound : Nat) : Prop where
  opens : env.opens = true
  fstats : env.fstats = true
  stays : ∀ i, env.exitRequested i = false
  reallocs : ∀ i, env.realloc i = true
  sends : ∀ i, (env.send i).isSome
  realistic : ∀ i, (env.device i).Realistic
  copies : ∀ i j, (env.device i).copy j = true
  kmallocs : ∀ i j n, n ≤ bound → (env.device i).kmalloc j n = true

/-- A client that sends `segments`, and a system in which nothing fails but requests
beyond `KMALLOC_MAX_SIZE`; the socket takes two bytes at a time. -/
def Env.calm (segments : List (List UInt8)) : Env :=
  { opens := true
    fstats := true
    exitRequested := fun _ => false
    recv := fun i => segments[i]?
    realloc := fun _ => true
    send := fun _ => some 1
    device := fun _ => .limited [] [] }

theorem Env.Succeeds.undisturbed {env : Env} {bound : Nat} (h : env.Succeeds bound) :
    env.Undisturbed :=
  { stays := h.stays, reallocs := h.reallocs }

theorem Env.calm_succeeds (segments : List (List UInt8)) {bound : Nat} (h : bound ≤ 2 ^ 22) :
    (Env.calm segments).Succeeds bound :=
  { opens := rfl
    fstats := rfl
    stays := fun _ => rfl
    reallocs := fun _ => rfl
    sends := fun _ => rfl
    realistic := fun _ => Schedule.realistic_limited _ _
    copies := fun _ _ => rfl
    kmallocs := fun _ _ n hn => by
      show decide ((_ : Nat) ∉ [] ∧ n ≤ 2 ^ 22) = true
      exact decide_eq_true ⟨List.not_mem_nil, hn.trans h⟩ }

variable {env : Env} {bound : Nat}

theorem firstRefused_eq_none {sched : Schedule} {ls : List (List UInt8)} {i : Nat}
    (h : ∀ l ∈ ls, ∀ j, sched.kmalloc j l.length = true) : firstRefused sched i ls = none := by
  induction ls generalizing i with
  | nil => rfl
  | cons l ls ih =>
      rw [firstRefused, if_pos (h l (by simp) i), ih fun l hl => h l (by simp [hl])]
      rfl

/-- A write that fits is not refused anything. -/
theorem Env.Succeeds.writeOutcome_eq (h : env.Succeeds bound) {log : LineLog}
    {chunk : List UInt8} (hfit : log.pending.length + chunk.length ≤ bound) (i : Nat) :
    writeOutcome (env.device i) log chunk = .done := by
  have hall : ∀ n ≤ bound, ∀ j, (env.device i).kmalloc j n = true := fun n hn j =>
    h.kmallocs i j n hn
  have hlines : ∀ l ∈ lines newline (log.pending ++ chunk), ∀ j,
      (env.device i).kmalloc j l.length = true := by
    intro l hl
    have hlen := (List.sublist_flatten_of_mem hl).length_le
    have hsplit := congrArg List.length
      (flatten_lines_append_rest newline (log.pending ++ chunk))
    simp only [List.length_append] at hsplit
    exact hall _ (by omega)
  rw [writeOutcome, lockedOutcome, hall _ (by omega), h.copies,
    hall _ (by rw [List.length_append]; omega), firstRefused_eq_none hlines]
  rfl

/-- The line log that a packet leaves when the kernel answers by `sched`. -/
def packetLog (sched : Schedule) (log : LineLog) (packet : List UInt8) : LineLog :=
  match seekCommand packet with
  | some _ => log
  | none => (writeOutcome sched log packet).log log packet

theorem packetLog_eq {sched : Schedule} {log : LineLog} {packet : List UInt8}
    (h : writeOutcome sched log packet = .done) :
    packetLog sched log packet = (afterPacket log packet).1 := by
  unfold packetLog afterPacket
  cases seekCommand packet with
  | none =>
      rw [h]
      rfl
  | some seekto => rfl

theorem afterPacket_le (log : LineLog) (packet : List UInt8) :
    (afterPacket log packet).2 ≤ (afterPacket log packet).1.contents.length := by
  unfold afterPacket
  cases seekCommand packet with
  | none => exact Nat.zero_le _
  | some seekto =>
      show (log.seekTarget _ _).getD 0 ≤ log.contents.length
      cases htarget : log.seekTarget seekto.writeCmd.toNat seekto.writeCmdOffset.toNat with
      | none => exact Nat.zero_le _
      | some p => exact (LineLog.seekTarget_lt htarget).le

/-- The position is one the driver can count. -/
theorem afterPacket_lt {log : LineLog} (h : log.Wf) (packet : List UInt8) :
    (afterPacket log packet).2 < 2 ^ 63 := by
  have hle := afterPacket_le log packet
  have hcontents := h.contents_lt
  unfold afterPacket at *
  cases hcmd : seekCommand packet with
  | none =>
      show 0 < 2 ^ 63
      omega
  | some seekto =>
      simp only [hcmd] at hle ⊢
      omega

/-- **A packet on the device file**, whether a write succeeds or not. -/
theorem DeviceFile.Ready.applyData {d : DeviceFile} (h : d.Ready 0) {sched : Schedule}
    (hreal : sched.Realistic) (hcopy : sched.copy 0 = true) (packet : List UInt8) :
    (d.applyData sched packet).Ready (afterPacket (log d.kernel) packet).2 ∧
      log (d.applyData sched packet).kernel = packetLog sched (log d.kernel) packet := by
  unfold DeviceFile.applyData afterPacket packetLog
  cases hcmd : seekCommand packet with
  | none => exact h.write hreal packet
  | some seekto =>
      obtain ⟨hready, hlog⟩ := h.ioctl hreal hcopy seekto
      have hlt := afterPacket_lt h.sound.wf packet
      simp only [afterPacket, hcmd] at hlt
      simp only [h.lseek_cur (by omega), hready.lseek_cur hlt]
      exact ⟨hready, hlog⟩

/-- **The packet is applied.** -/
theorem applyPacket_spec (henv : env.Succeeds bound) {h : Handler} (hready : h.device.Ready 0)
    (hfit : (log h.device.kernel).pending.length + h.data.length ≤ bound) :
    ∃ device, applyPacket env h =
        { h with
          device := device
          calls := h.calls + 1
          events := h.events ++ [.lock, deviceAction h.data, .unlock] } ∧
      device.Ready (afterPacket (log h.device.kernel) h.data).2 ∧
      log device.kernel = (afterPacket (log h.device.kernel) h.data).1 := by
  obtain ⟨hready', hlog⟩ := hready.applyData (henv.realistic h.calls) (henv.copies h.calls 0)
    h.data
  exact ⟨_, applyPacket_eq env h, hready',
    hlog.trans (packetLog_eq (henv.writeOutcome_eq hfit h.calls))⟩

/-- **The answer is streamed.** -/
theorem answerClient_spec (henv : env.Succeeds bound) {h : Handler} {p : Nat}
    (hready : h.device.Ready p) (hp : p ≤ (log h.device.kernel).contents.length) (fuel : Nat)
    (hfuel : (log h.device.kernel).contents.length - p < fuel) :
    ∃ h', answerClient env fuel h = some h' ∧
      h'.connectionActive = false ∧ Sound h'.device.kernel ∧
      log h'.device.kernel = log h.device.kernel ∧
      h'.accepted = h.accepted ++ (log h.device.kernel).contents.drop p ∧
      h'.events = h.events ++ [.lock, .unlock] := by
  obtain ⟨s, hrun, haccepted, hready', hlog⟩ := streamFileReader_spec henv.sends henv.realistic
    henv.copies (s := ⟨h.device, h.calls, h.sends, h.accepted⟩) hready hp hfuel
  refine ⟨{ h with
    device := s.device, connectionActive := false, calls := s.calls, sends := s.sends
    accepted := s.accepted, events := h.events ++ [.lock, .unlock] }, ?_, rfl, hready'.sound,
    hlog, haccepted, rfl⟩
  rw [answerClient_eq, hrun, Option.map_some]

/-! ## The receive loop -/

theorem strchr_newline_iff {bytes : List UInt8} (hnul : 0 ∉ bytes) :
    strchr bytes newline = true ↔ newline ∈ bytes := by
  rw [strchr, cString_of_not_mem hnul, List.contains_iff_mem]

theorem begins_packetOf_cons {received segment packet : List UInt8}
    {segments : List (List UInt8)}
    (h : packetOf received (segment :: segments) = some packet) :
    received ++ segment <+: packet := by
  induction segments generalizing received segment with
  | nil =>
      rw [packetOf] at h
      split at h
      · exact (Option.some.inj h).symm ▸ List.prefix_rfl
      · cases h
  | cons next segments ih =>
      rw [packetOf] at h
      split at h
      · exact (Option.some.inj h).symm ▸ List.prefix_rfl
      · exact (List.prefix_append ..).trans (ih h)

/-- Without NUL bytes, the packet is what has been received with the first newline. -/
theorem packetSeen_of_packetOf {received packet : List UInt8} {segments : List (List UInt8)}
    (h : packetOf received segments = some packet) (hnul : 0 ∉ packet) :
    packetSeen received segments = some packet := by
  induction segments generalizing received with
  | nil => cases h
  | cons segment segments ih =>
      have hbegins : received ++ segment <+: packet := begins_packetOf_cons h
      have hfound := strchr_newline_iff fun h0 => hnul (hbegins.subset h0)
      rw [packetOf] at h
      rw [packetSeen]
      by_cases hnl : newline ∈ received ++ segment
      · rw [if_pos hnl] at h
        rw [if_pos (hfound.2 hnl), h]
      · rw [if_neg hnl] at h
        rw [if_neg (hfound.not.2 hnl)]
        exact ih h

/-- **The receive loop** acts on the packet, once, and answers it. -/
theorem receiveLoop_spec (henv : env.Succeeds bound) {segments : List (List UInt8)}
    {h : Handler} {packet : List UInt8} (hpacket : packetOf h.data segments = some packet)
    (hrecv : env.Receives h.rounds segments)
    (hactive : h.connectionActive = true) (hend : h.endOfPacket = false) (hnul : 0 ∉ packet)
    (hready : h.device.Ready 0)
    (hfit : (log h.device.kernel).pending.length + packet.length ≤ bound) (fuel : Nat)
    (hfuel : segments.length +
      (afterPacket (log h.device.kernel) packet).1.contents.length + 1 < fuel) :
    ∃ h', receiveLoop env fuel h = some (true, h') ∧ Sound h'.device.kernel ∧
      log h'.device.kernel = (afterPacket (log h.device.kernel) packet).1 ∧
      h'.accepted = h.accepted ++ (afterPacket (log h.device.kernel) packet).1.contents.drop
        (afterPacket (log h.device.kernel) packet).2 ∧
      h'.events = h.events ++ [.lock, deviceAction packet, .unlock, .lock, .unlock] := by
  obtain ⟨n, hn, hrun⟩ := receiveLoop_packet henv.undisturbed
    (packetSeen_of_packetOf hpacket hnul) hrecv hactive hend
  obtain ⟨fuel, rfl⟩ : ∃ m, fuel = m + n := ⟨fuel - n, by omega⟩
  obtain ⟨device', happly, hready', hlog⟩ := applyPacket_spec henv
    (h := { h with data := packet, rounds := h.rounds + n, endOfPacket := true }) hready hfit
  simp only at hready' hlog
  have hle := afterPacket_le (log h.device.kernel) packet
  obtain ⟨h', hanswer, hinactive, hsound, hlog', haccepted, hevents⟩ := answerClient_spec henv
    (h := { h with
      device := device', data := packet, endOfPacket := true, rounds := h.rounds + n
      calls := h.calls + 1, events := h.events ++ [.lock, deviceAction packet, .unlock] })
    hready' (by rw [hlog]; exact hle) fuel (by rw [hlog]; omega)
  refine ⟨h', ?_, hsound, hlog'.trans hlog, ?_, ?_⟩
  · rw [hrun, happly, hanswer, Option.bind_some]
    exact receiveLoop_inactive hinactive (by omega)
  · rw [haccepted, hlog]
  · rw [hevents, List.append_assoc]
    rfl

/-! ## The whole thread -/

/-- A packet is one action on the device, among calls that are none. -/
theorem deviceActions_packet (packet : List UInt8) (before after : List Event)
    (hbefore : deviceActions before = []) (hafter : deviceActions after = []) :
    deviceActions (before ++ deviceAction packet :: after) = [deviceAction packet] := by
  unfold deviceActions at *
  rw [List.filter_append, hbefore, List.filter_cons, hafter, deviceAction]
  cases seekCommand packet <;> rfl

theorem events_cleanUp (h : Handler) : (cleanUp env h).events =
    h.events ++ [.closeDevice, .closeSocket, .freeData, .freePacket, .freeConnectionInfo,
      .freeSocketProcessing] := by
  simp [cleanUp, Handler.emit]

/-- A handler that has acted on a packet and answered it has done one device action. -/
theorem deviceActions_cleanUp {h : Handler} {packet : List UInt8}
    (hevents : h.events = [.lock, deviceAction packet, .unlock, .lock, .unlock]) :
    deviceActions (cleanUp env h).events = [deviceAction packet] := by
  rw [events_cleanUp, hevents]
  exact deviceActions_packet packet [.lock] [.unlock, .lock, .unlock, .closeDevice, .closeSocket,
    .freeData, .freePacket, .freeConnectionInfo, .freeSocketProcessing] rfl rfl

/-- Closing the device file keeps what is stored. -/
theorem log_cleanUp (henv : env.Succeeds bound) {h : Handler} (hsound : Sound h.device.kernel) :
    log (cleanUp env h).device.kernel = log h.device.kernel :=
  (DeviceFile.close_spec hsound (henv.realistic h.calls)).2

/-- **`data_processing`.**  A handler that is not disturbed applies its packet to the
device, once, and its client receives what is stored from the resulting position on. -/
theorem dataProcessing_spec (henv : env.Succeeds bound) {kernel : Kernel} (hk : Sound kernel)
    {segments : List (List UInt8)} {packet : List UInt8}
    (hpacket : packetOf [] segments = some packet)
    (hrecv : ∀ i (hi : i < segments.length), env.recv i = some segments[i])
    (hnul : 0 ∉ packet) (hfit : (log kernel).pending.length + packet.length ≤ bound) (fuel : Nat)
    (hfuel : segments.length + (afterPacket (log kernel) packet).1.contents.length + 1 < fuel) :
    ∃ h, dataProcessing env fuel kernel false = some h ∧
      log h.device.kernel = (afterPacket (log kernel) packet).1 ∧
      h.accepted = (afterPacket (log kernel) packet).1.contents.drop
        (afterPacket (log kernel) packet).2 ∧
      deviceActions h.events = [deviceAction packet] := by
  have hreceives : env.Receives 0 segments := by
    intro i hi
    rw [Nat.zero_add]
    exact hrecv i hi
  obtain ⟨h, hrun, hsound, hlog, haccepted, hevents⟩ :=
    receiveLoop_spec henv (h := .start kernel false) hpacket hreceives rfl rfl hnul
      (DeviceFile.ready_opened hk) hfit fuel hfuel
  refine ⟨cleanUp env h, ?_, (log_cleanUp henv hsound).trans hlog, haccepted,
    deviceActions_cleanUp hevents⟩
  rw [dataProcessing_eq henv.opens henv.fstats, hrun]
  rfl

end Aesd.Server
