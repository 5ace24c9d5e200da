import Aesd.Driver.Ownership
import Aesd.Server.LogFiles
import Mathlib.Data.Fintype.Basic

/-!
# Loading and unloading the driver

The module is loaded and unloaded any number of times, loading may fail at any call, and
its files come and go in between; a module with open files cannot be unloaded.  To its
users this is a device that is there or not, and that starts with an empty line log each
time.  While it is not there, no block, no major number and no `cdev` is left of it.
-/

namespace Aesd.Server

open Aesd.Driver
open Aesd.Verified.BlockHeap
open Aesd.Verified.Bystanders

/-! ## The module -/

/-- What the kernel keeps about character devices: the major numbers handed out and those
with a `cdev`.  `misuses` counts what is given back that is not held. -/
structure CharDevs where
  regions : List Nat
  cdevs : List Nat
  misuses : Nat
  deriving DecidableEq

namespace CharDevs

/-- `unregister_chrdev_region`. -/
def unregisterRegion (s : CharDevs) (major : Nat) : CharDevs :=
  if major ∈ s.regions then { s with regions := s.regions.erase major }
  else { s with misuses := s.misuses + 1 }

/-- `cdev_del`. -/
def cdevDel (s : CharDevs) (major : Nat) : CharDevs :=
  if major ∈ s.cdevs then { s with cdevs := s.cdevs.erase major }
  else { s with misuses := s.misuses + 1 }

/-- `mutex_destroy`, which wants a mutex that nobody holds. -/
def mutexDestroy (s : CharDevs) (lock : Mutex) : CharDevs :=
  if lock.held then { s with misuses := s.misuses + 1 } else s

end CharDevs

/-- What the kernel answers while the module is loaded: a major number, or an error from
`alloc_chrdev_region`, which is the successor of the number here; and the result of
`cdev_add`, without its sign. -/
structure LoadAnswers where
  region : Except Nat Nat
  cdevAdd : Nat

/-- The module: `aesd_major`, what it holds of the kernel, whether it is loaded, and the
device with its files. -/
structure Module (ι : Type) where
  aesdMajor : Nat
  devs : CharDevs
  loaded : Bool
  files : OpenFiles ι

/-- What happens to the module or to a file. -/
inductive ModuleEvent (ι : Type)
  | load (a : LoadAnswers)
  | unload
  | file (i : ι) (e : FileStep)

def EEXIST : Int := 17
def ENOENT : Int := 2
def EWOULDBLOCK : Int := 11

/-- No such device or address. -/
def noSuchDevice : Int := 6

variable {ι : Type}

namespace Module

/-- Before the module is loaded for the first time. -/
def boot (garbage : Nat → Nat → UInt8) : Module ι :=
  { aesdMajor := 0
    devs := { regions := [], cdevs := [], misuses := 0 }
    loaded := false
    files := .closed (aesdInitModule garbage) }

/-- `aesd_setup_cdev`. -/
def aesdSetupCdev (m : Module ι) (a : LoadAnswers) : Int × Module ι :=
  if a.cdevAdd = 0 then
    (0, { m with devs := { m.devs with cdevs := m.aesdMajor :: m.devs.cdevs } })
  else (-a.cdevAdd, m)

/-- `aesd_init_module` on the heap that is there.  A failing `alloc_chrdev_region` leaves
the major number of a `dev_t` that is zero. -/
def aesdInit (m : Module ι) (a : LoadAnswers) : Int × Module ι :=
  match a.region with
  | .error e => (-(e + 1), { m with aesdMajor := 0 })
  | .ok major =>
      let kernel := { m.files.kernel with dev := (aesdInitModule fun _ _ => 0).dev }
      let (result, m) := aesdSetupCdev { m with
        aesdMajor := major
        devs := { m.devs with regions := major :: m.devs.regions }
        files := { m.files with kernel := kernel } } a
      if result ≠ 0 then (result, { m with devs := m.devs.unregisterRegion major })
      else (result, m)

/-- `aesd_cleanup_module`.  `_device` has stayed `NULL`. -/
def aesdCleanup (m : Module ι) : Module ι :=
  let devs := m.devs.cdevDel m.aesdMajor
  let kernel := aesdCleanupModule m.files.kernel
  let devs := devs.mutexDestroy kernel.dev.lock
  { m with devs := devs.unregisterRegion m.aesdMajor, files := { m.files with kernel := kernel } }

variable [Fintype ι] [DecidableEq ι]

/-- An event, and its answer.  The kernel does not load a module twice, unloads none that
has open files, and finds no device while the module is not loaded: every file is closed
then, and whatever is asked of it is answered like an `open` that finds no driver.  While
the module is loaded, a closed file is answered as the driver answers one whose
`private_data` is `NULL`. -/
def handle (m : Module ι) : ModuleEvent ι → (Int × List UInt8) × Module ι
  | .load a =>
      if m.loaded then ((-EEXIST, []), m)
      else
        let r := m.aesdInit a
        ((r.1, []), { r.2 with loaded := decide (r.1 = 0) })
  | .unload =>
      if m.loaded = false then ((-ENOENT, []), m)
      else if ∃ i, (m.files.file i).privateData = true then ((-EWOULDBLOCK, []), m)
      else ((0, []), { m.aesdCleanup with loaded := false })
  | .file i e =>
      if m.loaded = false then ((-noSuchDevice, []), m)
      else
        let r := m.files.handle (i, e)
        (r.1.2, { m with files := r.2 })

end Module

/-! ## The device that comes and goes -/

/-- What loading is answered. -/
def LoadAnswers.result (a : LoadAnswers) : Int :=
  match a.region with
  | .error e => -(e + 1)
  | .ok _ => -a.cdevAdd

/-- An event on a device that is not there, or holds a line log and has its files at
positions. -/
def deviceLife [Fintype ι] [DecidableEq ι] (s : Option (LineLog × (ι → Option Nat))) :
    ModuleEvent ι → (Int × List UInt8) × Option (LineLog × (ι → Option Nat))
  | .load a =>
      match s with
      | some s => ((-EEXIST, []), some s)
      | none => ((a.result, []), if a.result = 0 then some (.empty, fun _ => none) else none)
  | .unload =>
      match s with
      | none => ((-ENOENT, []), none)
      | some s =>
          if ∃ i, (s.2 i).isSome = true then ((-EWOULDBLOCK, []), some s) else ((0, []), none)
  | .file i e =>
      match s with
      | none => ((-noSuchDevice, []), none)
      | some s =>
          let r := turn FileStep.act s (i, e)
          (r.1.2, some r.2)

/-- The module is where the device is.  While there is none, nothing is left of it. -/
def Module.Stands (m : Module ι) : Option (LineLog × (ι → Option Nat)) → Prop
  | none => m.loaded = false ∧ m.devs = { regions := [], cdevs := [], misuses := 0 } ∧
      Owns m.files.kernel.heap [] ∧ ∀ i, (m.files.file i).privateData = false
  | some s => m.loaded = true ∧
      m.devs = { regions := [m.aesdMajor], cdevs := [m.aesdMajor], misuses := 0 } ∧
      m.files.Refines s

/-! ## Loading -/

/-- A device that is set up on a heap without blocks is sound and empty. -/
theorem sound_reinit {k : Kernel} (h : Owns k.heap []) :
    Sound { k with dev := (aesdInitModule fun _ _ => 0).dev } ∧
      log { k with dev := (aesdInitModule fun _ _ => 0).dev } = .empty := by
  have hrep : Rep { k with dev := (aesdInitModule fun _ _ => 0).dev } [] none [] [] :=
    { wf := wf_init
      stored := rfl
      buffer := rfl
      size := rfl
      bytes := List.prefix_refl _
      heap := h }
  have hlog := hrep.log_eq
  refine ⟨⟨⟨_, _, _, hrep⟩, ?_, rfl⟩, hlog⟩
  rw [hlog]
  exact LineLog.wf_empty

/-- **`aesd_init_module`** on a device that is not there. -/
theorem Module.Stands.init {m : Module ι} (h : m.Stands none) (a : LoadAnswers) :
    (m.aesdInit a).1 = a.result ∧
      Module.Stands { (m.aesdInit a).2 with loaded := decide ((m.aesdInit a).1 = 0) }
        (if a.result = 0 then some (.empty, fun _ => none) else none) := by
  obtain ⟨hloaded, hdevs, hheap, hclosed⟩ := h
  obtain ⟨hsound, hlog⟩ := sound_reinit hheap
  rcases a with ⟨region, cdevAdd⟩
  cases region with
  | error e =>
      have hfails : ¬(-((e : Int) + 1) = 0) := by omega
      simp only [Module.aesdInit, LoadAnswers.result, hfails, if_false, decide_false]
      exact ⟨trivial, rfl, hdevs, hheap, hclosed⟩
  | ok major =>
      by_cases hadd : cdevAdd = 0
      · subst hadd
        have hinit : (m.aesdInit ⟨.ok major, 0⟩) = (0, { m with
            aesdMajor := major
            devs := { m.devs with
              regions := major :: m.devs.regions, cdevs := major :: m.devs.cdevs }
            files := { m.files with
              kernel := { m.files.kernel with dev := (aesdInitModule fun _ _ => 0).dev } } }) := rfl
        rw [hinit, hdevs]
        exact ⟨rfl, rfl, rfl, hsound, hlog, hclosed⟩
      · have hfails : ¬(-(cdevAdd : Int) = 0) := by omega
        simp only [Module.aesdInit, Module.aesdSetupCdev, LoadAnswers.result, if_neg hadd, ne_eq,
          hfails, not_false_eq_true, if_true, if_false, decide_false]
        refine ⟨trivial, rfl, ?_, hheap, hclosed⟩
        simp [CharDevs.unregisterRegion, hdevs]

/-! ## Unloading -/

theorem cleanupEntry_lock (k : Kernel) (index : Nat) :
    (cleanupEntry k index).dev.lock = k.dev.lock := by
  simp only [cleanupEntry]
  split <;> rfl

theorem aesdCleanupModule_lock (k : Kernel) : (aesdCleanupModule k).dev.lock = k.dev.lock := by
  have hloop : ∀ (slots : List Nat) (k : Kernel),
      (slots.foldl cleanupEntry k).dev.lock = k.dev.lock := by
    intro slots
    induction slots with
    | nil => exact fun _ => rfl
    | cons i slots ih =>
        intro k
        rw [List.foldl_cons, ih, cleanupEntry_lock]
  exact hloop _ k

/-- **`aesd_cleanup_module`** when no file is open. -/
theorem Module.Stands.cleanup {m : Module ι} {s : LineLog × (ι → Option Nat)}
    (h : m.Stands (some s)) (hclosed : ∀ i, (m.files.file i).privateData = false) :
    Module.Stands { m.aesdCleanup with loaded := false } none := by
  obtain ⟨hloaded, hdevs, hfiles⟩ := h
  obtain ⟨pend, own, pending, hrep⟩ := hfiles.sound.rep
  refine ⟨rfl, ?_, hrep.cleanup, hclosed⟩
  simp [Module.aesdCleanup, CharDevs.cdevDel, CharDevs.mutexDestroy, CharDevs.unregisterRegion,
    hdevs, aesdCleanupModule_lock, hfiles.sound.lockFree]

/-! ## Whole lives -/

/-- What happens to a file is answered by a kernel that serves no absurd request. -/
def ModuleEvent.Realistic : ModuleEvent ι → Prop
  | .file _ e => e.sched.Realistic
  | _ => True

theorem StandsAt.privateData_eq {f : File} {p : Option Nat} (h : StandsAt f p) :
    f.privateData = p.isSome := by
  cases p with
  | none => exact h
  | some p => rw [h.1, Option.isSome_some]

variable [Fintype ι] [DecidableEq ι]

/-- **The step lemma.**  Every event is answered by the module as by the device. -/
theorem Module.Stands.handle {m : Module ι} {s : Option (LineLog × (ι → Option Nat))}
    (h : m.Stands s) {e : ModuleEvent ι} (hreal : e.Realistic) :
    (m.handle e).1 = (deviceLife s e).1 ∧ (m.handle e).2.Stands (deviceLife s e).2 := by
  cases s with
  | none =>
      have hloaded : m.loaded = false := h.1
      cases e with
      | load a =>
          obtain ⟨hresult, hstands⟩ := h.init a
          simp only [Module.handle, hloaded, Bool.false_eq_true, if_false]
          exact ⟨by rw [hresult]; rfl, hstands⟩
      | unload =>
          simp only [Module.handle, hloaded, if_true]
          exact ⟨rfl, h⟩
      | file i e =>
          simp only [Module.handle, hloaded, if_true]
          exact ⟨rfl, h⟩
  | some s =>
      have hloaded : m.loaded = true := h.1
      cases e with
      | load a =>
          simp only [Module.handle, hloaded, if_true]
          exact ⟨rfl, h⟩
      | unload =>
          have hopen : (∃ i, (m.files.file i).privateData = true) ↔
              ∃ i, (s.2 i).isSome = true :=
            exists_congr fun i => by rw [(h.2.2.file i).privateData_eq]
          simp only [Module.handle, deviceLife, hloaded, Bool.true_eq_false, if_false, hopen]
          by_cases hany : ∃ i, (s.2 i).isSome = true
          · rw [if_pos hany, if_pos hany]
            exact ⟨rfl, h⟩
          · rw [if_neg hany, if_neg hany]
            refine ⟨rfl, h.cleanup fun i => ?_⟩
            rw [← Bool.not_eq_true]
            exact fun hi => hany (hopen.1 ⟨i, hi⟩)
      | file i e =>
          obtain ⟨hanswer, hfiles⟩ := OpenFiles.refines_handle (e := (i, e)) h.2.2 hreal
          simp only [Module.handle, hloaded, Bool.true_eq_false, if_false]
          exact ⟨congrArg Prod.snd hanswer, rfl, h.2.1, hfiles⟩

/-- **The life of the module.**  However often it is loaded and unloaded, whatever loading
fails at, and whatever happens to its files in between: every answer is that of a device
that is there between a successful loading and the next unloading, and has an empty line
log at first; while it is not there, no block is live and no major number and no `cdev` is
held; and nothing is ever given back that is not held. -/
theorem module_life (garbage : Nat → Nat → UInt8) (events : List (ModuleEvent ι))
    (hreal : ∀ e ∈ events, e.Realistic) :
    let m := transcript Module.handle (.boot garbage) events
    let s := transcript deviceLife none events
    m.1 = s.1 ∧ m.2.Stands s.2 := by
  intro m s
  have hboot : (Module.boot garbage : Module ι).Stands none :=
    ⟨rfl, rfl, Owns.empty garbage, fun _ => rfl⟩
  exact transcript_simulates (fun _ _ _ h he => h.handle he) hreal hboot

/-- Loading fails at `cdev_add` first; a file keeps the module loaded; and the line that
was stored is gone when the module has been loaded again. -/
theorem module_life_twice :
    (transcript Module.handle (Module.boot fun _ _ => 0)
      [.load ⟨.ok 240, 12⟩, .load ⟨.ok 240, 0⟩, .file (0 : Fin 1) ⟨.limited [] [], .openFile⟩,
        .file 0 ⟨.limited [] [], .call (.write [97, 10])⟩, .unload,
        .file 0 ⟨.limited [] [], .call (.read 5)⟩, .file 0 ⟨.limited [] [], .close⟩, .unload,
        .file 0 ⟨.limited [] [], .openFile⟩, .load ⟨.ok 241, 0⟩,
        .file 0 ⟨.limited [] [], .openFile⟩, .file 0 ⟨.limited [] [], .call (.read 5)⟩]).1 =
      [(-12, []), (0, []), (0, []), (2, []), (-11, []), (2, [97, 10]), (0, []), (0, []), (-6, []),
        (0, []), (0, []), (0, [])] := by
  have hlife := (module_life (fun _ _ => 0)
    [.load ⟨.ok 240, 12⟩, .load ⟨.ok 240, 0⟩, .file (0 : Fin 1) ⟨.limited [] [], .openFile⟩,
      .file 0 ⟨.limited [] [], .call (.write [97, 10])⟩, .unload,
      .file 0 ⟨.limited [] [], .call (.read 5)⟩, .file 0 ⟨.limited [] [], .close⟩, .unload,
      .file 0 ⟨.limited [] [], .openFile⟩, .load ⟨.ok 241, 0⟩,
      .file 0 ⟨.limited [] [], .openFile⟩, .file 0 ⟨.limited [] [], .call (.read 5)⟩]
    (by simp [ModuleEvent.Realistic, Schedule.realistic_limited])).1
  rw [hlife]
  decide +kernel

end Aesd.Server
