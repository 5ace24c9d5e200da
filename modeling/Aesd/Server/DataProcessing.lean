import Aesd.Server.DeviceFile
import Aesd.Server.Scan

/-!
# `data_processing`

The thread that serves one client: it opens the device, receives until a newline
has arrived, applies what it has received as a seek command or as a write, streams
the device back, and cleans up.  What the system answers is the thread's `Env`; what
the thread does to locks, descriptors and blocks is its list of events.  Log lines
are left out, but for the two `lseek` calls inside them.
-/

namespace Aesd.Server

open Aesd.Driver

/-- What the system answers to one handler thread.  The `i`-th round of the receive
loop reads `exit_requested`, receives and reallocates; `device j` answers the `j`-th
call on the device file, `send j` the `j`-th call on the socket. -/
structure Env where
  opens : Bool
  fstats : Bool
  exitRequested : Nat → Bool
  recv : Nat → Option (List UInt8)
  realloc : Nat → Bool
  send : Nat → Option Nat
  device : Nat → Schedule

/-- What a handler thread does to the device, to `file_mutex`, to its descriptors and
to its blocks. -/
inductive Event
  | lock
  | unlock
  | seek (seekto : AesdSeekto)
  | write (data : List UInt8)
  | closeDevice
  | closeSocket
  | freeData
  | freePacket
  | freeConnectionInfo
  | freeSocketProcessing
  deriving DecidableEq

/-- A handler thread: its device file, its packet and flags, the rounds it has made
and the calls on the device and the socket, what the socket has taken, and what it
has done. -/
structure Handler where
  device : DeviceFile
  data : List UInt8
  endOfPacket : Bool
  connectionActive : Bool
  rounds : Nat
  calls : Nat
  sends : Nat
  accepted : List UInt8
  events : List Event

def Handler.emit (h : Handler) (e : Event) : Handler := { h with events := h.events ++ [e] }

/-- What the handler does to the device with a packet. -/
def deviceAction (packet : List UInt8) : Event :=
  match seekCommand packet with
  | some seekto => .seek seekto
  | none => .write packet

/-- Lines 220 to 232 on the device file: the packet is a seek command or is written
whole.  Neither result is looked at. -/
def DeviceFile.applyData (d : DeviceFile) (sched : Schedule) (packet : List UInt8) : DeviceFile :=
  match seekCommand packet with
  | some seekto =>
      let d := (d.lseek 0 SEEK_CUR).2
      let d := (d.ioctl sched AESDCHAR_IOCSEEKTO seekto).2
      (d.lseek 0 SEEK_CUR).2
  | none => (d.write sched packet).2

/-- Lines 217 to 233: the packet is applied under `file_mutex`. -/
def applyPacket (env : Env) (h : Handler) : Handler :=
  let h := h.emit .lock
  let device := h.device.applyData (env.device h.calls) h.data
  let h := { h.emit (deviceAction h.data) with device := device, calls := h.calls + 1 }
  h.emit .unlock

/-- Lines 239 to 250: the answer. -/
def answerClient (env : Env) (fuel : Nat) (h : Handler) : Option Handler :=
  let h := { h with connectionActive := false }.emit .lock
  match streamFileReader env.send env.device fuel
      { device := h.device, calls := h.calls, sends := h.sends, accepted := h.accepted } with
  | none => none
  | some s =>
      some ({ h with
        device := s.device, calls := s.calls, sends := s.sends, accepted := s.accepted }.emit
          .unlock)

/-- The receive loop, lines 192 to 252.  The flag tells whether the thread goes on to
its clean-up: it does not after a failing `realloc`. -/
def receiveLoop (env : Env) : Nat → Handler → Option (Bool × Handler)
  | 0, _ => none
  | fuel + 1, h =>
      if env.exitRequested h.rounds ∨ h.connectionActive = false then some (true, h)
      else
        match env.recv h.rounds with
        | none => some (true, { h with rounds := h.rounds + 1 })
        | some bytes =>
            if env.realloc h.rounds = false then
              some (false, { h with rounds := h.rounds + 1 }.emit .unlock)
            else
              let h := { h with data := h.data ++ bytes, rounds := h.rounds + 1 }
              let h :=
                if strchr h.data newline then applyPacket env { h with endOfPacket := true }
                else h
              if h.endOfPacket then
                match answerClient env fuel h with
                | none => none
                | some h => receiveLoop env fuel h
              else receiveLoop env fuel h

/-- Lines 254 to 259. -/
def cleanUp (env : Env) (h : Handler) : Handler :=
  let h := { h with device := h.device.close (env.device h.calls) }.emit .closeDevice
  ((((h.emit .closeSocket).emit .freeData).emit .freePacket).emit .freeConnectionInfo).emit
    .freeSocketProcessing

/-- `data_processing` on a packet whose `end_of_packet` has not been set by anybody;
nothing when the fuel does not suffice. -/
def dataProcessing (env : Env) (fuel : Nat) (kernel : Kernel) (endOfPacket : Bool) :
    Option Handler :=
  let h : Handler :=
    { device := { kernel := kernel, file := .opened }
      data := []
      endOfPacket := endOfPacket
      connectionActive := true
      rounds := 0, calls := 0, sends := 0
      accepted := [], events := [] }
  if env.opens = false then some h
  else if env.fstats = false then
    some ({ h with device := h.device.close (env.device 0) }.emit .closeDevice)
  else
    match receiveLoop env fuel h with
    | none => none
    | some (false, h) => some h
    | some (true, h) => some (cleanUp env h)

end Aesd.Server
