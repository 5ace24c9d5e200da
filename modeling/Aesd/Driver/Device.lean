import Aesd.Driver.KernelState

/-!
# The character device of `main.c`

The file operations of the driver, line by line.  A system call takes the kernel
state and the open file and returns its result with the new states.  `printk` is
left out.

The loops run on fuel that the code itself bounds: a line leaves the pending
buffer with each round of `commitLines`, a byte at least leaves `count` with each
round of `readLoop`.
-/

namespace Aesd.Driver

open Aesd.Verified.BlockHeap

/-! ## Numbers of the C side -/

def ENOMEM : Int := 12
def EFAULT : Int := 14
def ENODEV : Int := 19
def EINVAL : Int := 22
def ENOTTY : Int := 25

/-- `loff_t` and `ssize_t`: 64-bit two's complement, wrapping. -/
def wrap64 (x : Int) : Int := x.bmod sizeMod

/-- A `loff_t` passed where a `size_t` is expected. -/
def toSize (x : Int) : Nat := (x % sizeMod).toNat

theorem wrap64_of_range {x : Int} (hlo : -2 ^ 63 ≤ x) (hhi : x < 2 ^ 63) : wrap64 x = x := by
  rw [wrap64, sizeMod]
  exact Int.bmod_eq_of_le (by omega) (by omega)

theorem toSize_lt (x : Int) : toSize x < sizeMod := by
  simp only [toSize, sizeMod]
  omega

/-- A `loff_t` that falls below `2 ^ 63` as a `size_t` is that number. -/
theorem eq_toSize_of_lt {x : Int} (hlo : -2 ^ 63 ≤ x) (hhi : x < 2 ^ 63)
    (h : toSize x < 2 ^ 63) : x = toSize x := by
  simp only [toSize, sizeMod] at *
  omega

theorem toSize_natCast {n : Nat} (h : n < sizeMod) : toSize n = n := by
  simp only [toSize, sizeMod] at *
  omega

/-- The byte `'\n'`. -/
def newline : UInt8 := 10

/-- `struct file`: whether `private_data` points to the device, and `f_pos`. -/
structure File where
  privateData : Bool
  fPos : Int
  deriving DecidableEq

/-! ## Module entry and exit -/

/-- `aesd_init_module`: the device after `memset` and the initialisers. -/
def aesdInitModule (garbage : Nat → Nat → UInt8) : Kernel :=
  { dev :=
      { lock := ⟨false, []⟩
        circularBuffer := aesdCircularBufferInit
        partialWriteBuffer := none
        partialWriteSize := 0 }
    heap := .empty garbage
    call := .fresh .generous }

/-- One round of `AESD_CIRCULAR_BUFFER_FOREACH` in `aesd_cleanup_module`. -/
def cleanupEntry (k : Kernel) (index : Nat) : Kernel :=
  let entry := k.dev.circularBuffer.entry index
  if entry.buffptr.isSome then
    let k := k.kfree entry.buffptr
    { k with dev := { k.dev with circularBuffer := { k.dev.circularBuffer with
        entry := Function.update k.dev.circularBuffer.entry index
          { entry with buffptr := none } } } }
  else k

/-- `aesd_cleanup_module`. -/
def aesdCleanupModule (k : Kernel) : Kernel :=
  let k := (List.range maxWriteOperationsSupported).foldl cleanupEntry k
  k.kfree k.dev.partialWriteBuffer

/-! ## `aesd_open` and `aesd_release` -/

/-- `aesd_open`. -/
def aesdOpen (filp : File) : Int × File := (0, { filp with privateData := true })

/-- A file that has just been opened. -/
def File.opened : File := (aesdOpen { privateData := false, fPos := 0 }).2

/-- `aesd_release`. -/
def aesdRelease (k : Kernel) (filp : File) : Int × Kernel × File :=
  if filp.privateData = false then (-ENODEV, k, filp)
  else (0, k.mutexUnlock, { filp with privateData := false })

/-! ## `aesd_read` -/

/-- What `aesd_read` leaves: its result, `*f_pos`, and the bytes it has put into
the user buffer. -/
structure ReadResult where
  ret : Int
  pos : Int
  delivered : List UInt8
  kernel : Kernel

/-- Lines 115 to 118. -/
def readDone (k : Kernel) (pos retval : Int) (buf : List UInt8) : ReadResult :=
  { ret := retval, pos := pos, delivered := buf, kernel := k.mutexUnlock }

/-- The loop of `aesd_read`, lines 85 to 113, and what follows it. -/
def readLoop : Nat → Kernel → Int → Nat → Int → List UInt8 → ReadResult
  | 0, k, pos, _, retval, buf => readDone k pos retval buf
  | fuel + 1, k, pos, count, retval, buf =>
      if count = 0 then readDone k pos retval buf
      else
        match aesdCircularBufferFindEntryOffsetForFpos k.dev.circularBuffer (toSize pos) with
        -- The lock is released here and once more after the loop.
        | none => readDone k.mutexUnlock pos retval buf
        | some (slot, entryOffsetByte) =>
            let entry := k.dev.circularBuffer.entry slot
            let bytesLeftInEntry := (entry.size + sizeMod - entryOffsetByte) % sizeMod
            let toCopy := if count < bytesLeftInEntry then count else bytesLeftInEntry
            match k.copyToUser entry.buffptr entryOffsetByte toCopy with
            | (none, k) =>
                { ret := -EFAULT, pos := pos, delivered := buf, kernel := k.mutexUnlock }
            | (some bytes, k) =>
                readLoop fuel k (wrap64 (pos + toCopy)) (count - toCopy)
                  (wrap64 (retval + toCopy)) (buf ++ bytes)

/-- `aesd_read`. -/
def aesdRead (k : Kernel) (filp : File) (count : Nat) (pos : Int) : ReadResult :=
  if filp.privateData = false then
    { ret := -ENODEV, pos := pos, delivered := [], kernel := k }
  else readLoop count k.mutexLock pos count 0 []

/-! ## `aesd_write` -/

/-- Set `_partial_write_buffer` and `_partial_write_size`. -/
def setPartial (k : Kernel) (buffer : Option Nat) (size : Nat) : Kernel :=
  { k with dev := { k.dev with partialWriteBuffer := buffer, partialWriteSize := size } }

/-- Lines 160 to 170: the old pending bytes and the new chunk go into `combined`,
which becomes the pending buffer. -/
def combine (k : Kernel) (kbuf combined : Option Nat) (count newSize : Nat) : Kernel :=
  let k :=
    if k.dev.partialWriteBuffer.isSome then
      (k.memcpy combined 0 k.dev.partialWriteBuffer 0 k.dev.partialWriteSize).kfree
        k.dev.partialWriteBuffer
    else k
  let k := k.memcpy combined k.dev.partialWriteSize kbuf 0 count
  let k := k.kfree kbuf
  setPartial k combined newSize

/-- Lines 189 to 219: one line of `entrySize` bytes moves from the pending buffer
into the circular buffer. -/
def commitLine (k : Kernel) (buffptr : Option Nat) (entrySize : Nat) : Kernel :=
  let k := k.memcpy buffptr 0 k.dev.partialWriteBuffer 0 entrySize
  let added :=
    aesdCircularBufferAddEntry k.dev.circularBuffer k.heap { buffptr, size := entrySize }
  let k := { k with dev := { k.dev with circularBuffer := added.1 }, heap := added.2 }
  let remainingSize := k.dev.partialWriteSize - entrySize
  let k :=
    if 0 < remainingSize then
      k.memcpy k.dev.partialWriteBuffer 0 k.dev.partialWriteBuffer entrySize remainingSize
    else k
  if remainingSize = 0 then setPartial (k.kfree k.dev.partialWriteBuffer) none remainingSize
  else setPartial k k.dev.partialWriteBuffer remainingSize

/-- Lines 182 to 185: a line finds no block, and the pending buffer is dropped. -/
def dropPending (k : Kernel) : Kernel :=
  (setPartial (k.kfree k.dev.partialWriteBuffer) none 0).mutexUnlock

/-- The loop of `aesd_write`, lines 174 to 220.  The flag tells whether the loop
ran to its end. -/
def commitLines : Nat → Kernel → Bool × Kernel
  | 0, k => (true, k)
  | fuel + 1, k =>
      match k.memchr k.dev.partialWriteBuffer newline k.dev.partialWriteSize with
      | (none, k) => (true, k)
      | (some newlinePos, k) =>
          let entrySize := newlinePos + 1
          match k.kmalloc entrySize with
          | (none, k) => (false, dropPending k)
          | (some buffptr, k) => commitLines fuel (commitLine k (some buffptr) entrySize)

/-- Lines 149 to 226: everything `aesd_write` does under the lock. -/
def writeLocked (k : Kernel) (kbuf : Option Nat) (count : Nat) : Int × Kernel :=
  let k := k.mutexLock
  let newSize := (k.dev.partialWriteSize + count) % sizeMod
  match k.kmalloc newSize with
  | (none, k) => (-ENOMEM, k.mutexUnlock.kfree kbuf)
  | (some combined, k) =>
      match commitLines newSize (combine k kbuf (some combined) count newSize) with
      | (false, k) => (-ENOMEM, k)
      | (true, k) => (wrap64 count, k.mutexUnlock)

/-- `aesd_write` of the bytes `buf`. -/
def aesdWrite (k : Kernel) (filp : File) (buf : List UInt8) : Int × Kernel :=
  if filp.privateData = false then (-ENODEV, k)
  else
    let count := buf.length
    match k.kmalloc count with
    | (none, k) => (-ENOMEM, k)
    | (some kbuf, k) =>
        match k.copyFromUser (some kbuf) buf with
        | (false, k) => (-EFAULT, k.kfree (some kbuf))
        | (true, k) => writeLocked k (some kbuf) count

/-! ## `aesd_llseek` -/

/-- The whence of `lseek`. -/
def SEEK_SET : Int := 0
def SEEK_CUR : Int := 1
def SEEK_END : Int := 2

/-- `aesd_llseek`. -/
def aesdLlseek (filp : File) (offset whence : Int) : Int × File :=
  if filp.privateData = false then (-ENODEV, filp)
  else
    let newPos :=
      if whence = SEEK_SET then some offset
      else if whence = SEEK_CUR then some (wrap64 (filp.fPos + offset))
      else if whence = SEEK_END then some (wrap64 (maxWriteOperationsSupported + offset))
      else none
    match newPos with
    | none => (-EINVAL, filp)
    | some newPos =>
        if newPos < 0 then (-EINVAL, filp) else (newPos, { filp with fPos := newPos })

/-! ## The seek ioctl -/

/-- `struct aesd_seekto`. -/
structure AesdSeekto where
  writeCmd : UInt32
  writeCmdOffset : UInt32
  deriving DecidableEq

/-- Lines 283 to 292: the sizes of the entries before the sought one. -/
def seekLoop (buffer : AesdCircularBuffer) : Nat → Nat → Nat → Option Nat
  | 0, _, pos => some pos
  | remaining + 1, i, pos =>
      let entry := buffer.entry ((buffer.outOffs + i) % maxWriteOperationsSupported)
      if entry.buffptr.isNone then none
      else seekLoop buffer remaining (i + 1) ((pos + entry.size) % sizeMod)

/-- `aesd_ioctl_set_pos` on a user structure holding `seekto`. -/
def aesdIoctlSetPos (k : Kernel) (filp : File) (seekto : AesdSeekto) : Int × Kernel × File :=
  match k.userCopy with
  | (false, k) => (-EFAULT, k, filp)
  | (true, k) =>
      let k := k.mutexLock
      let buffer := k.dev.circularBuffer
      let writeCmd := seekto.writeCmd.toNat
      let writeCmdOffset := seekto.writeCmdOffset.toNat
      if maxWriteOperationsSupported ≤ writeCmd then (-EINVAL, k.mutexUnlock, filp)
      else
        let cmdCount := if buffer.full then maxWriteOperationsSupported else buffer.inOffs
        if cmdCount ≤ writeCmd then (-EINVAL, k.mutexUnlock, filp)
        else
          match seekLoop buffer writeCmd 0 0 with
          | none => (-EINVAL, k.mutexUnlock, filp)
          | some pos =>
              let entry :=
                buffer.entry ((buffer.outOffs + writeCmd) % maxWriteOperationsSupported)
              if entry.buffptr.isNone ∨ entry.size ≤ writeCmdOffset then
                (-EINVAL, k.mutexUnlock, filp)
              else
                let pos := (pos + writeCmdOffset) % sizeMod
                (0, k.mutexUnlock, { filp with fPos := wrap64 pos })

/-- `AESDCHAR_IOCSEEKTO`, that is `_IOWR(0x16, 1, struct aesd_seekto)`. -/
def AESDCHAR_IOCSEEKTO : Nat := 3 <<< 30 ||| 8 <<< 16 ||| 0x16 <<< 8 ||| 1

/-- `unlocked_ioctl`. -/
def unlockedIoctl (k : Kernel) (filp : File) (cmd : Nat) (arg : AesdSeekto) :
    Int × Kernel × File :=
  if filp.privateData = false then (-ENODEV, k, filp)
  else if cmd = AESDCHAR_IOCSEEKTO then aesdIoctlSetPos k filp arg
  else (-ENOTTY, k, filp)

end Aesd.Driver
