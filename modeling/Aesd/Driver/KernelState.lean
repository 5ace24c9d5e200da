import Aesd.Driver.CircularBuffer

/-!
# The kernel under the driver

The state the driver works on (`struct aesd_dev` and the heap its blocks live in)
and the kernel calls it makes: `kmalloc` and `kfree`, the user copies, `memcpy`,
`memmove`, `memchr` and the mutex.

Calls that can fail ask the `Schedule` of the running system call.  The counters
next to it are bookkeeping for the statements: how many requests and copies the
call has made so far and how many of them were refused.  The mutex likewise
remembers the calls made on it.
-/

namespace Aesd.Driver

open Aesd.Verified.BlockHeap

/-- How the kernel answers during one system call: whether the `i`-th `kmalloc`,
which asks for `n` bytes, gets a block, and whether the `i`-th user copy goes
through. -/
structure Schedule where
  kmalloc : Nat → Nat → Bool
  copy : Nat → Bool

/-- Nothing fails. -/
def Schedule.generous : Schedule := { kmalloc := fun _ _ => true, copy := fun _ => true }

/-- `kmalloc` serves no request beyond `KMALLOC_MAX_SIZE`, a few megabytes; the
bound here is far above it on every 64-bit configuration. -/
def Schedule.Realistic (sched : Schedule) : Prop :=
  ∀ i n, sched.kmalloc i n = true → n < 2 ^ 59

/-- Every request up to `KMALLOC_MAX_SIZE` is served but those in `refused`, and
every user copy goes through but those in `broken`. -/
def Schedule.limited (refused broken : List Nat) : Schedule :=
  { kmalloc := fun i n => i ∉ refused ∧ n ≤ 2 ^ 22, copy := fun i => i ∉ broken }

theorem Schedule.realistic_limited (refused broken : List Nat) :
    (Schedule.limited refused broken).Realistic := by
  intro i n h
  simp only [Schedule.limited, Bool.decide_and, Bool.and_eq_true, decide_eq_true_eq] at h
  omega

/-- The running system call: how the kernel answers it, the `kmalloc` requests and
user copies it has made so far, and how many of the two were refused. -/
structure SysCall where
  sched : Schedule
  kmallocs : Nat
  copies : Nat
  refused : Nat

/-- A system call that has not asked for anything yet. -/
def SysCall.fresh (sched : Schedule) : SysCall :=
  { sched := sched, kmallocs := 0, copies := 0, refused := 0 }

/-- A call on the mutex. -/
inductive LockCall
  | lock
  | unlock
  deriving DecidableEq

/-- `struct mutex`: whether it is held, and the calls made on it since the
running system call began.  Unlocking frees it whoever holds it. -/
structure Mutex where
  held : Bool
  calls : List LockCall

/-- `struct aesd_dev`, without `cdev` and `_device`, which no operation reads. -/
structure AesdDev where
  lock : Mutex
  circularBuffer : AesdCircularBuffer
  partialWriteBuffer : Option Nat
  partialWriteSize : Nat

/-- The device, the heap its blocks live in, and the running system call. -/
structure Kernel where
  dev : AesdDev
  heap : Heap UInt8
  call : SysCall

namespace Kernel

/-- Begin a system call that the kernel answers by `sched`. -/
def enter (k : Kernel) (sched : Schedule) : Kernel :=
  { k with
    dev := { k.dev with lock := { k.dev.lock with calls := [] } }
    call := .fresh sched }

/-! ## Memory -/

/-- `kmalloc`. -/
def kmalloc (k : Kernel) (n : Nat) : Option Nat × Kernel :=
  if k.call.sched.kmalloc k.call.kmallocs n then
    (some k.heap.next,
      { k with heap := k.heap.alloc n, call := { k.call with kmallocs := k.call.kmallocs + 1 } })
  else
    (none, { k with call := { k.call with
      kmallocs := k.call.kmallocs + 1, refused := k.call.refused + 1 } })

/-- `kfree`. -/
def kfree (k : Kernel) (p : Option Nat) : Kernel := { k with heap := k.heap.free p }

/-- `memcpy`, and `memmove` when the two blocks are the same. -/
def memcpy (k : Kernel) (dst : Option Nat) (doff : Nat) (src : Option Nat) (soff n : Nat) :
    Kernel :=
  { k with heap := k.heap.copy dst doff src soff n }

/-- `memchr`: the offset of the first `c` among the first `n` bytes of `p`. -/
def memchr (k : Kernel) (p : Option Nat) (c : UInt8) (n : Nat) : Option Nat × Kernel :=
  match k.heap.read p 0 n with
  | none => (none, { k with heap := k.heap.fault })
  | some bytes => (bytes.idxOf? c, k)

/-! ## User copies

Both functions return whether the copy went through.  What a failing copy has
moved before it failed is not modelled: the callers use none of it. -/

/-- The outcome of the next user copy. -/
def userCopy (k : Kernel) : Bool × Kernel :=
  if k.call.sched.copy k.call.copies then
    (true, { k with call := { k.call with copies := k.call.copies + 1 } })
  else
    (false, { k with call := { k.call with
      copies := k.call.copies + 1, refused := k.call.refused + 1 } })

/-- `copy_from_user` of `bytes` into the block `dst`. -/
def copyFromUser (k : Kernel) (dst : Option Nat) (bytes : List UInt8) : Bool × Kernel :=
  match k.userCopy with
  | (false, k) => (false, k)
  | (true, k) => (true, { k with heap := k.heap.write dst 0 bytes })

/-- `copy_to_user` of `n` bytes of the block `src` from offset `off` on. -/
def copyToUser (k : Kernel) (src : Option Nat) (off n : Nat) : Option (List UInt8) × Kernel :=
  match k.userCopy with
  | (false, k) => (none, k)
  | (true, k) =>
      match k.heap.read src off n with
      | none => (some [], { k with heap := k.heap.fault })
      | some bytes => (some bytes, k)

/-! ## The mutex -/

/-- `mutex_lock`. -/
def mutexLock (k : Kernel) : Kernel :=
  { k with dev := { k.dev with lock := ⟨true, k.dev.lock.calls ++ [.lock]⟩ } }

/-- `mutex_unlock`. -/
def mutexUnlock (k : Kernel) : Kernel :=
  { k with dev := { k.dev with lock := ⟨false, k.dev.lock.calls ++ [.unlock]⟩ } }

/-! ## What each call leaves alone -/

@[simp] theorem kfree_dev (k : Kernel) (p : Option Nat) : (k.kfree p).dev = k.dev := rfl

@[simp] theorem kfree_call (k : Kernel) (p : Option Nat) : (k.kfree p).call = k.call := rfl

@[simp] theorem memcpy_dev (k : Kernel) (dst : Option Nat) (doff : Nat) (src : Option Nat)
    (soff n : Nat) : (k.memcpy dst doff src soff n).dev = k.dev := rfl

@[simp] theorem mutexLock_call (k : Kernel) : k.mutexLock.call = k.call := rfl

@[simp] theorem mutexUnlock_call (k : Kernel) : k.mutexUnlock.call = k.call := rfl

theorem kmalloc_dev (k : Kernel) (n : Nat) : (k.kmalloc n).2.dev = k.dev := by
  rw [kmalloc]
  split <;> rfl

theorem memchr_dev (k : Kernel) (p : Option Nat) (c : UInt8) (n : Nat) :
    (k.memchr p c n).2.dev = k.dev := by
  rw [memchr]
  split <;> rfl

theorem userCopy_dev (k : Kernel) : k.userCopy.2.dev = k.dev := by
  rw [userCopy]
  split <;> rfl

theorem copyFromUser_dev (k : Kernel) (dst : Option Nat) (bytes : List UInt8) :
    (k.copyFromUser dst bytes).2.dev = k.dev := by
  have hdev := k.userCopy_dev
  rw [copyFromUser]
  split
  next hcopy => rwa [hcopy] at hdev
  next hcopy => rwa [hcopy] at hdev

theorem copyToUser_dev (k : Kernel) (src : Option Nat) (off n : Nat) :
    (k.copyToUser src off n).2.dev = k.dev := by
  have hdev := k.userCopy_dev
  rw [copyToUser]
  split
  next hcopy => rwa [hcopy] at hdev
  next k' hcopy =>
    rw [hcopy] at hdev
    split <;> exact hdev

end Kernel

end Aesd.Driver
