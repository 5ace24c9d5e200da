import Aesd.Server.ThreadExit
import Aesd.Verified.GrownBlocks

/-!
# The packet in memory

`data_processing` keeps what it has received in a block that it grows in each round, with a
NUL behind the last byte, and reads it back with `strchr`, `sscanf` and `write`.  The model
of the thread elsewhere works on the bytes themselves.  `dataProcessingOn` is the thread on
memory: it is stuck when an access leaves its block.  `dataProcessingOn_refines` says that
this never happens, and that the thread does the same as on the bytes.
-/

namespace Aesd.Server

open Aesd.Driver
open Aesd.Verified.BlockHeap

/-! ## The thread on memory -/

/-- The heap, and `data` and `length` of `struct data_packet`. -/
structure PacketMemory where
  heap : Heap UInt8
  data : Option Nat
  length : Nat

namespace PacketMemory

/-- Lines 202 to 212: the block grows by what has been received and a NUL. -/
def receive (m : PacketMemory) (bytes : List UInt8) : PacketMemory :=
  let heap := m.heap.realloc m.data ((m.length + bytes.length + 1) % sizeMod)
  let data := some m.heap.next
  let heap := heap.write data m.length bytes
  let length := (m.length + bytes.length) % sizeMod
  { heap := heap.write data length [0], data := data, length := length }

/-- `strchr(data, c)`: whether the walk up to `c` or NUL ends at `c`. -/
def strchr (m : PacketMemory) (c : UInt8) : Option Bool :=
  (m.heap.walk m.data (fun b => b = c ∨ b = 0) (m.length + 1) 0).map fun r => r.2 = c

/-- The string that `sscanf` reads: what stands before the first NUL. -/
def string (m : PacketMemory) : Option (List UInt8) :=
  (m.heap.walk m.data (· = 0) (m.length + 1) 0).bind fun r => m.heap.read m.data 0 r.1

/-- What `write` is given. -/
def written (m : PacketMemory) : Option (List UInt8) := m.heap.read m.data 0 m.length

end PacketMemory

/-- The condition of line 220 on the string. -/
def commandOf (s : List UInt8) : Option AesdSeekto :=
  match sscanfSeekto s with
  | some (x, y) =>
      if x.toNat < maxWriteOperationsSupported then some { writeCmd := x, writeCmdOffset := y }
      else none
  | none => none

/-- Lines 219 to 233 on memory. -/
def applyPacketOn (env : Env) (m : PacketMemory) (h : Handler) : Option Handler :=
  match m.string with
  | none => none
  | some s =>
      match commandOf s with
      | some seekto =>
          let d := (h.device.lseek 0 SEEK_CUR).2
          let d := (d.ioctl (env.device h.calls) AESDCHAR_IOCSEEKTO seekto).2
          let d := (d.lseek 0 SEEK_CUR).2
          some (({ (h.emit .lock).emit (.seek seekto) with
            device := d, calls := h.calls + 1 } : Handler).emit .unlock)
      | none =>
          match m.written with
          | none => none
          | some bytes =>
              some (({ (h.emit .lock).emit (.write bytes) with
                device := (h.device.write (env.device h.calls) bytes).2
                calls := h.calls + 1 } : Handler).emit .unlock)

/-- The receive loop on memory.  The `data` of the handler is left alone. -/
def receiveLoopOn (env : Env) : Nat → PacketMemory → Handler →
    Option (Bool × PacketMemory × Handler)
  | 0, _, _ => none
  | fuel + 1, m, h =>
      if env.exitRequested h.rounds ∨ h.connectionActive = false then some (true, m, h)
      else
        match env.recv h.rounds with
        | none => some (true, m, { h with rounds := h.rounds + 1 })
        | some bytes =>
            if env.realloc h.rounds = false then
              some (false, { m with data := none }, { h with rounds := h.rounds + 1 }.emit .unlock)
            else
              let m := m.receive bytes
              let h := { h with rounds := h.rounds + 1 }
              match m.strchr newline with
              | none => none
              | some found =>
                  match
                    if found then applyPacketOn env m { h with endOfPacket := true } else some h with
                  | none => none
                  | some h =>
                      if h.endOfPacket then
                        match answerClient env fuel h with
                        | none => none
                        | some h => receiveLoopOn env fuel m h
                      else receiveLoopOn env fuel m h

/-- `data_processing` on memory.  The clean-up frees the packet's block. -/
def dataProcessingOn (env : Env) (fuel : Nat) (kernel : Kernel) (endOfPacket : Bool)
    (heap : Heap UInt8) : Option (Heap UInt8 × Handler) :=
  let h := Handler.start kernel endOfPacket
  if env.opens = false then some (heap, h)
  else if env.fstats = false then
    some (heap, { h with device := h.device.close (env.device 0) }.emit .closeDevice)
  else
    match receiveLoopOn env fuel { heap := heap, data := none, length := 0 } h with
    | none => none
    | some (false, m, h) => some (m.heap, h)
    | some (true, m, h) => some (m.heap.free m.data, cleanUp env h)

/-! ## The packet's block -/

/-- `realloc` serves no request beyond the address space. -/
def Env.Fits (env : Env) : Prop :=
  ∀ n, env.realloc n = true → (env.received (n + 1)).length + 1 < sizeMod

/-- The memory holds `bytes` with a NUL behind, in a block of its own beside the blocks
`rest`; before anything has been received, there is no block. -/
inductive PacketMemory.Holds (m : PacketMemory) (rest : List (Nat × List UInt8)) :
    List UInt8 → Prop
  | unset (hdata : m.data = none) (hlength : m.length = 0) (hheap : Owns m.heap rest) :
      Holds m rest []
  | block {bytes : List UInt8} {p : Nat} (hdata : m.data = some p) (hlength : m.length = bytes.length)
      (hheap : Owns m.heap ((p, bytes ++ [0]) :: rest)) : Holds m rest bytes

namespace PacketMemory

variable {m : PacketMemory} {rest : List (Nat × List UInt8)} {data bytes : List UInt8}

/-- The block before it is grown. -/
theorem Holds.exists_block (h : m.Holds rest data) :
    ∃ block : Option (Nat × List UInt8), m.data = block.map Prod.fst ∧ m.length = data.length ∧
      Owns m.heap (block.toList ++ rest) ∧ data <+: (block.map Prod.snd).getD [] := by
  cases h with
  | unset hdata hlength hheap => exact ⟨none, hdata, hlength, hheap, List.nil_prefix⟩
  | @block _ p hdata hlength hheap =>
      exact ⟨some (p, data ++ [0]), hdata, hlength, hheap, List.prefix_append _ _⟩

/-- **One round** puts what it has received behind what there was, inside the block. -/
theorem Holds.receive (h : m.Holds rest data) (hfits : (data ++ bytes).length + 1 < sizeMod) :
    ∃ p, (m.receive bytes).data = some p ∧
      (m.receive bytes).length = (data ++ bytes).length ∧
      Owns (m.receive bytes).heap ((p, data ++ bytes ++ [0]) :: rest) := by
  obtain ⟨block, hdata, hlength, hheap, hbegins⟩ := h.exists_block
  rw [List.length_append] at hfits
  have hsize : (m.length + bytes.length + 1) % sizeMod = data.length + bytes.length + 1 := by
    rw [hlength]
    exact Nat.mod_eq_of_lt hfits
  have hend : (m.length + bytes.length) % sizeMod = data.length + bytes.length := by
    rw [hlength]
    exact Nat.mod_eq_of_lt (Nat.lt_of_succ_lt hfits)
  -- The old bytes are at the front of the new block, whatever else has been kept.
  have hgrown := hheap.realloc (List.Perm.refl _) (data.length + bytes.length + 1)
  have hlen : (splice (m.heap.fresh (data.length + bytes.length + 1)) 0
      (kept block (data.length + bytes.length + 1))).length = data.length + bytes.length + 1 := by
    rw [length_splice]
    · simp [Heap.fresh]
    · have hle := length_kept_le block (data.length + bytes.length + 1)
      simpa [Heap.fresh] using hle
  have hfront : data <+: splice (m.heap.fresh (data.length + bytes.length + 1)) 0
      (kept block (data.length + bytes.length + 1)) := by
    rw [splice, List.take_zero, List.nil_append]
    refine List.IsPrefix.trans ?_ (List.prefix_append _ _)
    rw [kept]
    exact List.prefix_take_iff.2 ⟨hbegins, by omega⟩
  obtain ⟨junk, hjunk⟩ := hfront
  rw [← hjunk, List.length_append] at hlen
  rw [← hjunk] at hgrown
  obtain ⟨old, last, rfl, hold⟩ : ∃ old last, junk = old ++ [last] ∧ old.length = bytes.length := by
    refine ⟨junk.dropLast, junk.getLast (List.ne_nil_of_length_pos (by omega)),
      (List.dropLast_append_getLast _).symm, ?_⟩
    rw [List.length_dropLast]
    omega
  have hcopied := hgrown.write (List.Perm.refl _)
    (show data.length + bytes.length ≤ (data ++ (old ++ [last])).length by
      simp only [List.length_append, List.length_singleton, hold]
      omega)
  rw [← List.append_assoc, splice_behind hold] at hcopied
  have hclosed := hcopied.write (List.Perm.refl _)
    (show (data ++ bytes).length + [(0 : UInt8)].length ≤ (data ++ bytes ++ [last]).length by
      simp [Nat.add_assoc])
  rw [splice_at_end (show [last].length = [(0 : UInt8)].length from rfl), List.length_append]
    at hclosed
  refine ⟨m.heap.next, rfl, ?_, ?_⟩
  · rw [List.length_append]
    exact hend
  · simp only [PacketMemory.receive, hsize, hend]
    rw [hdata, hlength]
    exact hclosed

/-! ## Reading the packet back -/

/-- A NUL behind a buffer does not change the string in it. -/
theorem cString_append_nul (bytes : List UInt8) : cString (bytes ++ [0]) = cString bytes := by
  induction bytes with
  | nil => rfl
  | cons b bytes ih =>
      simp only [cString, List.cons_append, List.takeWhile_cons] at ih ⊢
      split
      · rw [ih]
      · rfl

theorem cString_front {before : List UInt8} (h : 0 ∉ before) (after : List UInt8) :
    cString (before ++ after) = before ++ cString after := by
  rw [cString, cString, List.takeWhile_append_of_pos]
  intro y hy
  have hne : y ≠ 0 := fun heq => h (heq ▸ hy)
  simpa using hne

/-- A walk over the packet stops inside its block, at the NUL behind the bytes at the
latest. -/
private theorem exists_walk {p : Nat} (stop : UInt8 → Bool) (hnul : stop 0 = true)
    (hlength : m.length = bytes.length) (hheap : Owns m.heap ((p, bytes ++ [0]) :: rest)) :
    ∃ before x after, bytes ++ [0] = before ++ x :: after ∧ (∀ y ∈ before, stop y = false) ∧
      stop x = true ∧ m.heap.walk (some p) stop (m.length + 1) 0 = some (before.length, x) := by
  have hfound : ((bytes ++ [0]).find? stop).isSome = true :=
    List.find?_isSome.2 ⟨0, by simp, hnul⟩
  obtain ⟨x, hx⟩ := Option.isSome_iff_exists.1 hfound
  obtain ⟨hstop, before, after, hsplit, hbefore⟩ := List.find?_eq_some_iff_append.1 hx
  have hbefore' : ∀ y ∈ before, stop y = false := fun y hy => by simpa using hbefore y hy
  refine ⟨before, x, after, hsplit, hbefore', hstop, ?_⟩
  have hlen := congrArg List.length hsplit
  simp only [List.length_append, List.length_cons, List.length_nil] at hlen
  exact hheap.walk (by rw [hsplit]; exact List.mem_cons_self ..) hbefore' hstop (by omega)

/-- **`strchr`** on the memory is `strchr` on the bytes. -/
theorem strchr_eq {p : Nat} (hdata : m.data = some p) (hlength : m.length = bytes.length)
    (hheap : Owns m.heap ((p, bytes ++ [0]) :: rest)) {c : UInt8} (hc : c ≠ 0) :
    m.strchr c = some (Server.strchr bytes c) := by
  obtain ⟨before, x, after, hsplit, hbefore, hstop, hwalk⟩ :=
    exists_walk (fun b => b = c ∨ b = 0) (by simp) hlength hheap
  have hnot : 0 ∉ before ∧ c ∉ before := by
    constructor
    · intro hmem
      simpa using hbefore 0 hmem
    · intro hmem
      simpa using hbefore c hmem
  rw [PacketMemory.strchr, hdata, hwalk, Option.map_some, Server.strchr, ← cString_append_nul,
    hsplit, cString_front hnot.1]
  have hcases : x = c ∨ x = 0 := by simpa using hstop
  congr 1
  rcases hcases with rfl | rfl
  · have hgoes : cString (x :: after) = x :: cString after := by
      simp [cString, hc]
    simp [hgoes]
  · have hstops : cString (0 :: after) = [] := rfl
    simp [hstops, hnot.2, Ne.symm hc]

/-- **The string that `sscanf` reads** is the string in the bytes. -/
theorem string_eq {p : Nat} (hdata : m.data = some p) (hlength : m.length = bytes.length)
    (hheap : Owns m.heap ((p, bytes ++ [0]) :: rest)) : m.string = some (cString bytes) := by
  obtain ⟨before, x, after, hsplit, hbefore, hstop, hwalk⟩ :=
    exists_walk (fun b => b = 0) (by simp) hlength hheap
  obtain rfl : x = 0 := by simpa using hstop
  have hnot : 0 ∉ before := by
    intro hmem
    simpa using hbefore 0 hmem
  have hread := hheap.read (b := (p, bytes ++ [0])) (by simp)
    (show 0 + before.length ≤ (bytes ++ [0]).length by
      rw [hsplit, List.length_append]
      omega)
  have hstring : cString (before ++ 0 :: after) = before := by
    rw [cString_front hnot]
    exact List.append_nil _
  rw [hsplit, List.drop_zero, List.take_left] at hread
  rw [PacketMemory.string, hdata, hwalk, Option.bind_some, ← cString_append_nul, hsplit, hstring]
  exact hread

/-- **What `write` is given** is the bytes. -/
theorem written_eq {p : Nat} (hdata : m.data = some p) (hlength : m.length = bytes.length)
    (hheap : Owns m.heap ((p, bytes ++ [0]) :: rest)) : m.written = some bytes := by
  have hread := hheap.read (b := (p, bytes ++ [0])) (by simp)
    (show 0 + bytes.length ≤ (bytes ++ [0]).length by simp)
  rw [List.drop_zero, List.take_left] at hread
  rw [PacketMemory.written, hdata, hlength]
  exact hread

end PacketMemory

/-! ## The thread -/

variable {env : Env}

/-- The handler without the bytes that are in memory. -/
def Handler.bare (h : Handler) : Handler := { h with data := [] }

/-- **The packet's section** does the same on memory. -/
theorem applyPacketOn_eq {m : PacketMemory} {rest : List (Nat × List UInt8)} {h : Handler} {p : Nat}
    (hdata : m.data = some p) (hlength : m.length = h.data.length)
    (hheap : Owns m.heap ((p, h.data ++ [0]) :: rest)) :
    applyPacketOn env m h.bare = some (applyPacket env h).bare := by
  rw [applyPacketOn, m.string_eq hdata hlength hheap]
  have hcommand : commandOf (cString h.data) = seekCommand h.data := rfl
  simp only [hcommand, m.written_eq hdata hlength hheap, applyPacket, deviceAction,
    DeviceFile.applyData, Handler.emit]
  cases seekCommand h.data with
  | none => rfl
  | some seekto => rfl

/-- The answer does not look at the bytes. -/
theorem answerClient_bare (env : Env) (fuel : Nat) (h : Handler) :
    answerClient env fuel h.bare = (answerClient env fuel h).map Handler.bare := by
  rw [answerClient_eq, answerClient_eq]
  simp only [Handler.bare]
  cases streamFileReader env.send env.device fuel
    { device := h.device, calls := h.calls, sends := h.sends, accepted := h.accepted } with
  | none => rfl
  | some s => rfl

/-- What the memory is when the loop is left: the packet, or after a failing `realloc` a
block that nobody points to any more. -/
def LeftIn (rest : List (Nat × List UInt8)) (m : PacketMemory) (h : Handler) : Bool → Prop
  | true => m.Holds rest h.data
  | false => ∃ lost : List (Nat × List UInt8), m.data = none ∧ Owns m.heap (lost ++ rest)

theorem receiveRound_data (env : Env) (h : Handler) (bytes : List UInt8) :
    (receiveRound env h bytes).data = h.data ++ bytes ∧
      (receiveRound env h bytes).rounds = h.rounds + 1 := by
  unfold receiveRound
  simp only
  split
  · rw [applyPacket_eq]
    exact ⟨rfl, rfl⟩
  · exact ⟨rfl, rfl⟩

/-- A round of the loop on memory. -/
theorem receiveLoopOn_step {m : PacketMemory} {rest : List (Nat × List UInt8)} {h : Handler}
    {bytes : List UInt8} (hstays : env.exitRequested h.rounds = false)
    (hactive : h.connectionActive = true) (hrecv : env.recv h.rounds = some bytes)
    (hrealloc : env.realloc h.rounds = true) {p : Nat} (hdata : (m.receive bytes).data = some p)
    (hlength : (m.receive bytes).length = (h.data ++ bytes).length)
    (hheap : Owns (m.receive bytes).heap ((p, h.data ++ bytes ++ [0]) :: rest)) (fuel : Nat) :
    receiveLoopOn env (fuel + 1) m h.bare =
      if (receiveRound env h bytes).endOfPacket then
        (answerClient env fuel (receiveRound env h bytes).bare).bind
          (receiveLoopOn env fuel (m.receive bytes))
      else receiveLoopOn env fuel (m.receive bytes) (receiveRound env h bytes).bare := by
  have hfound := PacketMemory.strchr_eq hdata hlength hheap (show newline ≠ 0 by decide)
  have hround : (if strchr (h.data ++ bytes) newline then
        applyPacketOn env (m.receive bytes)
          { h.bare with rounds := h.rounds + 1, endOfPacket := true }
      else some { h.bare with rounds := h.rounds + 1 }) = some (receiveRound env h bytes).bare := by
    unfold receiveRound
    simp only
    split
    · exact applyPacketOn_eq
        (h := { h with data := h.data ++ bytes, rounds := h.rounds + 1, endOfPacket := true })
        hdata hlength hheap
    · rfl
  have hmore : ¬(env.exitRequested h.bare.rounds ∨ h.bare.connectionActive = false) := by
    show ¬(env.exitRequested h.rounds ∨ h.connectionActive = false)
    simp [hstays, hactive]
  have hrecv' : env.recv h.bare.rounds = some bytes := hrecv
  have hrealloc' : ¬env.realloc h.bare.rounds = false := by
    show ¬env.realloc h.rounds = false
    simp [hrealloc]
  rw [receiveLoopOn, if_neg hmore, hrecv']
  simp only [if_neg hrealloc', hfound]
  have hbare : h.bare.rounds = h.rounds := rfl
  rw [hbare, hround]
  simp only
  have hend :
      (receiveRound env h bytes).bare.endOfPacket = (receiveRound env h bytes).endOfPacket :=
    rfl
  rw [hend]
  congr 1
  cases answerClient env fuel (receiveRound env h bytes).bare <;> rfl

/-- **The receive loop on memory** does what the loop on the bytes does, and leaves no
block. -/
theorem receiveLoopOn_eq (hfits : env.Fits) {rest : List (Nat × List UInt8)} (fuel : Nat)
    {m : PacketMemory} {h : Handler} (hm : m.Holds rest h.data)
    (hreceived : h.connectionActive = true → h.data = env.received h.rounds) :
    match receiveLoop env fuel h with
    | none => receiveLoopOn env fuel m h.bare = none
    | some (goesOn, h') => ∃ m', receiveLoopOn env fuel m h.bare = some (goesOn, m', h'.bare) ∧
        LeftIn rest m' h' goesOn := by
  induction fuel generalizing m h with
  | zero => rfl
  | succ fuel ih =>
      by_cases hexit : env.exitRequested h.rounds ∨ h.connectionActive = false
      · have hexit' : env.exitRequested h.bare.rounds ∨ h.bare.connectionActive = false := hexit
        rw [receiveLoop, if_pos hexit]
        refine ⟨m, ?_, hm⟩
        rw [receiveLoopOn, if_pos hexit']
      simp only [not_or, Bool.not_eq_true, Bool.not_eq_false] at hexit
      obtain ⟨hstays, hactive⟩ := hexit
      have hmore : ¬(env.exitRequested h.rounds ∨ h.connectionActive = false) := by
        simp [hstays, hactive]
      have hmore' : ¬(env.exitRequested h.bare.rounds ∨ h.bare.connectionActive = false) := hmore
      cases hrecv : env.recv h.rounds with
      | none =>
          have hrecv' : env.recv h.bare.rounds = none := hrecv
          rw [receiveLoop, if_neg hmore, hrecv]
          refine ⟨m, ?_, hm⟩
          rw [receiveLoopOn, if_neg hmore', hrecv']
          rfl
      | some bytes =>
          have hrecv' : env.recv h.bare.rounds = some bytes := hrecv
          cases hrealloc : env.realloc h.rounds with
          | false =>
              have hrealloc' : env.realloc h.bare.rounds = false := hrealloc
              obtain ⟨block, -, -, hheap, -⟩ := hm.exists_block
              rw [receiveLoop, if_neg hmore, hrecv]
              simp only [hrealloc, if_true]
              refine ⟨{ m with data := none }, ?_, block.toList, rfl, hheap⟩
              rw [receiveLoopOn, if_neg hmore', hrecv']
              simp only [hrealloc', if_true]
              rfl
          | true =>
              have hnext : h.data ++ bytes = env.received (h.rounds + 1) := by
                rw [hreceived hactive, Env.received, hrecv, Option.getD_some]
              have hfit : (h.data ++ bytes).length + 1 < sizeMod := by
                rw [hnext]
                exact hfits _ hrealloc
              obtain ⟨p, hdata, hlength, hheap⟩ := hm.receive hfit
              obtain ⟨hdata', hrounds⟩ := receiveRound_data env h bytes
              have hround : (m.receive bytes).Holds rest (receiveRound env h bytes).data := by
                rw [hdata']
                exact .block hdata hlength hheap
              rw [receiveLoop_step hstays hactive hrecv hrealloc,
                receiveLoopOn_step hstays hactive hrecv hrealloc hdata hlength hheap]
              cases hend : (receiveRound env h bytes).endOfPacket with
              | false =>
                  simp only [Bool.false_eq_true, if_false]
                  refine ih hround ?_
                  intro _
                  rw [hdata', hrounds]
                  exact hnext
              | true =>
                  simp only [if_true]
                  rw [answerClient_bare]
                  cases hanswer : answerClient env fuel (receiveRound env h bytes) with
                  | none => rfl
                  | some h' =>
                      rw [Option.map_some, Option.bind_some, Option.bind_some]
                      have hsame : h'.data = (receiveRound env h bytes).data := by
                        rw [answerClient_eq, Option.map_eq_some_iff] at hanswer
                        obtain ⟨s, -, rfl⟩ := hanswer
                        rfl
                      refine ih (hsame ▸ hround) fun hon => ?_
                      rw [(answerClient_eq_some hanswer).1] at hon
                      cases hon

/-- **The thread on memory.**  From any heap, `data_processing` on memory does what it does
on the bytes received, whatever its environment answers: no access leaves a live block, and
when it has come to its clean-up it has freed the blocks it has allocated. -/
theorem dataProcessingOn_refines (env : Env) (hfits : env.Fits) (fuel : Nat) (kernel : Kernel)
    (endOfPacket : Bool) (heap : Heap UInt8) (rest : List (Nat × List UInt8))
    (hheap : Owns heap rest) :
    match dataProcessing env fuel kernel endOfPacket with
    | none => dataProcessingOn env fuel kernel endOfPacket heap = none
    | some h => ∃ heap' lost, dataProcessingOn env fuel kernel endOfPacket heap =
          some (heap', h.bare) ∧ Owns heap' (lost ++ rest) ∧
        (env.ReachesCleanUp endOfPacket → lost = []) := by
  cases hopens : env.opens with
  | false =>
      simp only [dataProcessing, dataProcessingOn, hopens, if_true]
      exact ⟨heap, [], rfl, hheap, fun _ => rfl⟩
  | true =>
      cases hfstats : env.fstats with
      | false =>
          simp only [dataProcessing, dataProcessingOn, hopens, hfstats, Bool.true_eq_false, if_false,
            if_true]
          exact ⟨heap, [], rfl, hheap, fun _ => rfl⟩
      | true =>
          have hstart : (⟨heap, none, 0⟩ : PacketMemory).Holds rest
              (Handler.start kernel endOfPacket).data := .unset rfl rfl hheap
          have hloop := receiveLoopOn_eq hfits fuel hstart fun _ => rfl
          have hbare : (Handler.start kernel endOfPacket).bare = .start kernel endOfPacket := rfl
          rw [hbare] at hloop
          rw [dataProcessing_eq hopens hfstats]
          cases hrun : receiveLoop env fuel (.start kernel endOfPacket) with
          | none =>
              rw [hrun] at hloop
              simp only [Option.map_none, dataProcessingOn, hopens, hfstats, Bool.true_eq_false,
                if_false, hloop]
          | some r =>
              rcases r with ⟨goesOn, h⟩
              rw [hrun] at hloop
              obtain ⟨m, hrunOn, hleft⟩ := hloop
              simp only [Option.map_some, dataProcessingOn, hopens, hfstats, Bool.true_eq_false,
                if_false, hrunOn]
              cases goesOn with
              | false =>
                  obtain ⟨lost, -, howns⟩ := hleft
                  refine ⟨m.heap, lost, rfl, howns, fun hreaches => ?_⟩
                  cases (waiting_start kernel endOfPacket).loopExit hrun with
                  | fails hworking hevents hfails => exact absurd hfails (hreaches.reallocs _)
              | true =>
                  refine ⟨m.heap.free m.data, [], rfl, ?_, fun _ => rfl⟩
                  obtain ⟨block, hblock, -, howns, -⟩ := PacketMemory.Holds.exists_block hleft
                  rw [hblock]
                  cases block with
                  | none => exact howns
                  | some b => exact howns.free (List.Perm.refl _)

theorem Env.calm_received (segments : List (List UInt8)) (n : Nat) :
    (Env.calm segments).received n = (segments.take n).flatten := by
  induction n with
  | zero => rfl
  | succ n ih =>
      rw [Env.received, ih, List.take_add_one, List.flatten_append]
      show _ ++ (segments[n]?).getD [] = _ ++ (segments[n]?).toList.flatten
      cases segments[n]? <;> simp

theorem Env.calm_fits {segments : List (List UInt8)} (h : segments.flatten.length + 1 < sizeMod) :
    (Env.calm segments).Fits := by
  intro n _
  have hsplit := congrArg (fun l => l.flatten.length) (List.take_append_drop (n + 1) segments)
  simp only [List.flatten_append, List.length_append] at hsplit
  rw [Env.calm_received]
  omega

/-- A line in two segments, on an empty heap. -/
theorem dataProcessingOn_refines_line :
    ∃ heap h, dataProcessingOn (.calm [[97], [10]]) 9 (runCalls (fun _ _ => 0) []) false
      (.empty fun _ _ => 0) = some (heap, h) ∧ Owns heap [] := by
  have h := dataProcessingOn_refines (.calm [[97], [10]]) (Env.calm_fits (by decide)) 9
    (runCalls (fun _ _ => 0) []) false (.empty fun _ _ => 0) [] (Owns.empty _)
  have hends : (dataProcessing (.calm [[97], [10]]) 9 (runCalls (fun _ _ => 0) []) false).isSome =
      true := by decide +kernel
  obtain ⟨h', hrun⟩ := Option.isSome_iff_exists.1 hends
  rw [hrun] at h
  obtain ⟨heap, lost, hruns, howns, hlost⟩ := h
  rw [hlost
    { opens := rfl, fstats := rfl, reallocs := fun n hfails => Bool.noConfusion hfails.fails }]
    at howns
  exact ⟨heap, h'.bare, hruns, howns⟩

end Aesd.Server
