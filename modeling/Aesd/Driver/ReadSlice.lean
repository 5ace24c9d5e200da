import Aesd.Driver.History
import Aesd.Verified.Loops

/-!
# What a read delivers and what it reports

A read whose copies go through is a slice of the stored lines laid end to end, and
the loop of `aesd_read` ends on it.  Its result accounts for the position it leaves
unless a copy fails after an earlier one has gone through: the position has moved by
then, and the error forgets it.
-/

namespace Aesd.Driver

open Aesd.Verified.BlockHeap
open Aesd.Verified.Loops
open Aesd.Verified.Segments

/-! ## The loop, round by round -/

/-- The variables of the loop of `aesd_read`. -/
structure ReadState where
  kernel : Kernel
  pos : Int
  count : Nat
  retval : Int
  buf : List UInt8

/-- One round, lines 85 to 113: the loop is left, or there is another round. -/
def readRound (s : ReadState) : ReadResult ⊕ ReadState :=
  if s.count = 0 then .inl (readDone s.kernel s.pos s.retval s.buf)
  else
    match aesdCircularBufferFindEntryOffsetForFpos s.kernel.dev.circularBuffer
        (toSize s.pos) with
    | none => .inl (readDone s.kernel.mutexUnlock s.pos s.retval s.buf)
    | some (slot, entryOffsetByte) =>
        let entry := s.kernel.dev.circularBuffer.entry slot
        let bytesLeftInEntry := (entry.size + sizeMod - entryOffsetByte) % sizeMod
        let toCopy := if s.count < bytesLeftInEntry then s.count else bytesLeftInEntry
        match s.kernel.copyToUser entry.buffptr entryOffsetByte toCopy with
        | (none, k) =>
            .inl { ret := -EFAULT, pos := s.pos, delivered := s.buf, kernel := k.mutexUnlock }
        | (some bytes, k) =>
            .inr { kernel := k
                   pos := wrap64 (s.pos + toCopy)
                   count := s.count - toCopy
                   retval := wrap64 (s.retval + toCopy)
                   buf := s.buf ++ bytes }

/-- The loop on fuel, on the variables as one value. -/
def readFrom (fuel : Nat) (s : ReadState) : ReadResult :=
  readLoop fuel s.kernel s.pos s.count s.retval s.buf

theorem readFrom_succ (fuel : Nat) (s : ReadState) :
    readFrom (fuel + 1) s = (readRound s).elim id (readFrom fuel) := by
  rw [readFrom, readLoop, readRound]
  by_cases hcount : s.count = 0
  · rw [if_pos hcount, if_pos hcount, Sum.elim_inl, id]
  rw [if_neg hcount, if_neg hcount]
  cases aesdCircularBufferFindEntryOffsetForFpos s.kernel.dev.circularBuffer (toSize s.pos) with
  | none => simp only [Sum.elim_inl, id]
  | some hit =>
      rcases hit with ⟨slot, entryOffsetByte⟩
      dsimp only
      generalize ((s.kernel.dev.circularBuffer.entry slot).size + sizeMod - entryOffsetByte) %
        sizeMod = bytesLeftInEntry
      cases s.kernel.copyToUser (s.kernel.dev.circularBuffer.entry slot).buffptr entryOffsetByte
          (if s.count < bytesLeftInEntry then s.count else bytesLeftInEntry) with
      | mk copied k =>
          cases copied with
          | none => simp only [Sum.elim_inl, id]
          | some bytes => simp only [Sum.elim_inr, readFrom]

/-- The representation holds, and the stored lines fit a position. -/
def ReadState.Ok (s : ReadState) : Prop :=
  ∃ pend own pending, Rep s.kernel [] pend own pending ∧
    (linesOf own).flatten.length < 2 ^ 63

/-- **Every further round has copied a byte.** -/
theorem readRound_progress {s s' : ReadState} (hs : s.Ok) (h : readRound s = .inr s') :
    s'.Ok ∧ s'.count < s.count := by
  rcases hs with ⟨pend, own, pending, hrep, hfit⟩
  unfold readRound at h
  by_cases hcount : s.count = 0
  · rw [if_pos hcount] at h
    cases h
  rw [if_neg hcount] at h
  rcases hrep.find (by simp only [sizeMod]; omega) (toSize_lt s.pos) with
    ⟨hfind, -⟩ | ⟨slot, o, b, segs, hfind, hentry, hb, ho, -⟩
  · simp only [hfind] at h
    cases h
  · have hlen := (List.sublist_flatten_of_mem (List.mem_map_of_mem (f := Prod.snd) hb)).length_le
    have hleft : (b.2.length + sizeMod - o) % sizeMod = b.2.length - o := by
      rw [show b.2.length + sizeMod - o = b.2.length - o + sizeMod by omega, Nat.add_mod_right]
      exact Nat.mod_eq_of_lt (by simp only [sizeMod, linesOf] at hfit ⊢; omega)
    simp only [hfind, hentry, entryOf, hleft, Kernel.copyToUser, Kernel.userCopy] at h
    cases hcopy : s.kernel.call.sched.copy s.kernel.call.copies with
    | false =>
        simp only [hcopy] at h
        cases h
    | true =>
        generalize hn : (if s.count < b.2.length - o then s.count else b.2.length - o) = n at h
        have hsome : 0 < n ∧ o + n ≤ b.2.length := by
          split at hn <;> omega
        simp only [hcopy, if_true, hrep.heap.read (b := b) (by simp [hb]) hsome.2,
          Sum.inr.injEq] at h
        subst h
        constructor
        · exact ⟨pend, own, pending, hrep.congr rfl rfl rfl rfl, hfit⟩
        · show s.count - n < s.count
          omega

/-- The loop ends, with the result computed on enough fuel. -/
theorem readLoop_ends {s : ReadState} (hs : s.Ok) {fuel : Nat} (hfuel : s.count ≤ fuel) :
    Ends readRound s (readFrom fuel s) := by
  apply ends_of_fuel ReadState.Ok ReadState.count ?_ readFrom_succ
    (fun s s' hs h => readRound_progress hs h) hs hfuel
  intro s _ hzero
  rw [readRound, if_pos hzero]
  rfl

/-! ## A read is a slice -/

/-- Where `aesd_read` enters its loop. -/
def ReadState.start (k : Kernel) (sched : Schedule) (count : Nat) (pos : Int) : ReadState :=
  { kernel := (k.enter sched).mutexLock, pos := pos, count := count, retval := 0, buf := [] }

/-- `aesd_read` of an open file is its loop. -/
theorem aesdRead_eq_readFrom {k : Kernel} {sched : Schedule} {filp : File}
    (hopen : filp.privateData = true) (count : Nat) (pos : Int) :
    aesdRead (k.enter sched) filp count pos =
      readFrom count (ReadState.start k sched count pos) := by
  simp only [aesdRead, hopen, Bool.true_eq_false, if_false]
  rfl

/-- A sound device at the start of a read. -/
theorem Sound.readState_ok {k : Kernel} (h : Sound k) (sched : Schedule) (count : Nat)
    (pos : Int) : (ReadState.start k sched count pos).Ok := by
  rcases h.rep with ⟨pend, own, pending, hrep⟩
  have hentries : linesOf own = (log k).entries := hrep.log_entries.symm
  exact ⟨pend, own, pending, (hrep.enter sched).mutexLock, hentries ▸ h.wf.contents_lt⟩

/-- `aesd_read` on a sound device, as the walk over its line log. -/
theorem Sound.aesdRead {k : Kernel} (h : Sound k) (sched : Schedule) {filp : File}
    (hopen : filp.privateData = true) (count : Nat) (pos : Int) (hlo : -2 ^ 63 ≤ pos)
    (hhi : pos < 2 ^ 63) :
    ReadSpec (k.enter sched).mutexLock pos []
        (readEntries sched.copy 0 (segmentsFrom (log k).entries (toSize pos)) count)
        (aesdRead (k.enter sched) filp count pos) ∧
      log (Driver.aesdRead (k.enter sched) filp count pos).kernel = log k := by
  rcases h.rep with ⟨pend, own, pending, hrep⟩
  have hentries : linesOf own = (log k).entries := hrep.log_entries.symm
  have hspec := aesdRead_spec hrep (by rw [hentries]; exact h.wf.entries_ne_nil)
    (hentries ▸ h.wf.contents_lt) sched hopen count pos hlo hhi
  have hrep' := hrep.congr hspec.ring hspec.buffer hspec.size hspec.heap
  rw [hentries] at hspec
  exact ⟨hspec, hrep'.log_eq.trans hrep.log_eq.symm⟩

/-- A read whose copies go through, on a sound device. -/
theorem Sound.read_delivers {k : Kernel} (h : Sound k) {sched : Schedule}
    (hcopy : ∀ i, sched.copy i = true) {filp : File} (hopen : filp.privateData = true)
    (count p : Nat) (hp : p < 2 ^ 63) :
    let r := Driver.aesdRead (k.enter sched) filp count p
    r.delivered = ((log k).contents.drop p).take count ∧ r.ret = r.delivered.length ∧
      r.pos = p + r.delivered.length ∧ log r.kernel = log k := by
  intro r
  obtain ⟨hspec, hlog⟩ := h.aesdRead sched hopen count p (by omega) (by omega)
  have hnofault := readEntries_ne_fault hcopy 0 (segmentsFrom (log k).entries (toSize p)) count
  have hwalk := readEntries_fst hnofault
  rw [flatten_segmentsFrom, toSize_natCast (by rw [sizeMod]; omega)] at hwalk
  refine ⟨?_, ?_, ?_, hlog⟩
  · rw [hspec.delivered, List.nil_append, toSize_natCast (by rw [sizeMod]; omega)]
    exact hwalk
  · rw [hspec.ret, if_neg hnofault, hspec.delivered]
  · rw [hspec.pos, hspec.delivered, List.nil_append]

/-- **A read is a slice of the concatenation.**  On every device with a history, the loop
of a read whose copies go through ends, and delivers the next `count` bytes of the stored
entries laid end to end. -/
theorem read_slice (garbage : Nat → Nat → UInt8) (history : List Call)
    (hreal : ∀ c ∈ history, c.sched.Realistic) (sched : Schedule)
    (hcopy : ∀ i, sched.copy i = true) (filp : File) (hopen : filp.privateData = true)
    (count p : Nat) (hp : p < 2 ^ 63) :
    let k := runCalls garbage history
    let r := aesdRead (k.enter sched) filp count p
    Ends readRound (ReadState.start k sched count p) r ∧
      r.delivered = ((log k).contents.drop p).take count ∧
      r.ret = r.delivered.length ∧ r.pos = p + r.delivered.length ∧ log r.kernel = log k := by
  intro k r
  have hsound : Sound k := runCalls_sound garbage hreal
  constructor
  · rw [show r = readFrom count _ from aesdRead_eq_readFrom hopen count p]
    exact readLoop_ends (hsound.readState_ok sched count p) (Nat.le_refl count)
  · exact hsound.read_delivers hcopy hopen count p hp

/-- The lines `ab` and `cd` and a pending `e`: five bytes from position 1 on stop at the
end of the second line. -/
theorem read_slice_across :
    (aesdRead ((runCalls (fun _ _ => 0)
        [⟨.limited [] [], .opened, .write [97, 98, 10, 99, 100, 10, 101]⟩]).enter
          (.limited [] [])) .opened 9 (1 : Nat)).delivered = [98, 10, 99, 100, 10] := by
  have hslice := read_slice (fun _ _ => 0)
    [⟨.limited [] [], .opened, .write [97, 98, 10, 99, 100, 10, 101]⟩]
    (by simpa using Schedule.realistic_limited [] []) (.limited [] []) (fun _ => rfl) .opened rfl
    9 1 (by decide)
  rw [hslice.2.1]
  decide +kernel

/-! ## What a read reports -/

/-- How many of the entries `segs` a request for `count` bytes touches. -/
def touched {α : Type*} : List (List α) → Nat → Nat
  | _, 0 => 0
  | [], _ + 1 => 0
  | s :: segs, count + 1 => touched segs (count + 1 - s.length) + 1

/-- A read faults when one of the copies it needs fails. -/
theorem readEntries_fault_iff (copy : Nat → Bool) (i : Nat) (segs : List (List UInt8))
    (count : Nat) :
    (readEntries copy i segs count).2 = .fault ↔
      ∃ j < touched segs count, copy (i + j) = false := by
  fun_induction readEntries copy i segs count with
  | case1 => simp [touched]
  | case2 => simp [touched]
  | case3 i s segs count hcopy r ih =>
      rw [ih, touched]
      constructor
      · rintro ⟨j, hj, hfail⟩
        exact ⟨j + 1, by omega, by rw [← hfail]; congr 1; omega⟩
      · rintro ⟨j, hj, hfail⟩
        cases j with
        | zero =>
            rw [Nat.add_zero, hcopy] at hfail
            cases hfail
        | succ j => exact ⟨j, by omega, by rw [← hfail]; congr 1; omega⟩
  | case4 i s segs count hcopy =>
      rw [touched]
      constructor
      · intro _
        exact ⟨0, by omega, by simpa using hcopy⟩
      · intro _
        rfl

/-- A read that faults has delivered nothing only if its first copy failed. -/
theorem readEntries_fault_nil_iff {copy : Nat → Bool} {i count : Nat}
    {segs : List (List UInt8)} (hne : ∀ s ∈ segs, s ≠ [])
    (h : (readEntries copy i segs count).2 = .fault) :
    (readEntries copy i segs count).1 = [] ↔ copy i = false := by
  cases segs with
  | nil => cases count <;> cases h
  | cons s segs =>
      cases count with
      | zero => cases h
      | succ count =>
          cases hcopy : copy i with
          | false => simp [readEntries, hcopy]
          | true => simp [readEntries, hcopy, hne s (by simp)]

/-- The first copy fails, or none of the copies that the request needs does. -/
def Schedule.CopiesAllOrNone (sched : Schedule) (needed : Nat) : Prop :=
  sched.copy 0 = false ∨ ∀ i < needed, sched.copy i = true

/-- **The position a read leaves** is accounted for by its result exactly when the first
user copy fails or every copy that the request needs goes through. -/
theorem read_accounts_iff (garbage : Nat → Nat → UInt8) (history : List Call)
    (hreal : ∀ c ∈ history, c.sched.Realistic) (sched : Schedule) (filp : File)
    (hopen : filp.privateData = true) (count : Nat) (pos : Loff) :
    let k := runCalls garbage history
    let r := aesdRead (k.enter sched) filp count pos
    r.pos - pos = (if 0 ≤ r.ret then r.ret else 0) ↔
      sched.CopiesAllOrNone (touched (segmentsFrom (log k).entries (toSize pos)) count) := by
  intro k r
  have hsound : Sound k := runCalls_sound garbage hreal
  obtain ⟨hspec, -⟩ := hsound.aesdRead sched hopen count pos pos.2.1 pos.2.2
  have hne : ∀ s ∈ segmentsFrom (log k).entries (toSize pos), s ≠ [] :=
    ne_nil_of_mem_segmentsFrom hsound.wf.entries_ne_nil
  have hfault := readEntries_fault_iff sched.copy 0
    (segmentsFrom (log k).entries (toSize pos)) count
  have hnil := @readEntries_fault_nil_iff sched.copy 0 count _ hne
  rw [hspec.pos, hspec.ret, List.nil_append]
  generalize touched (segmentsFrom (log k).entries (toSize pos)) count = needed at *
  generalize readEntries sched.copy 0 (segmentsFrom (log k).entries (toSize pos)) count = walk
    at *
  by_cases h : walk.2 = .fault
  · have hmoved : (pos : Int) + walk.1.length - pos = 0 ↔ walk.1 = [] := by
      rw [← List.length_eq_zero_iff]
      omega
    rw [if_pos h, if_neg (by decide), hmoved, hnil h, Schedule.CopiesAllOrNone]
    constructor
    · exact Or.inl
    · rintro (hfirst | hall)
      · exact hfirst
      · rcases hfault.1 h with ⟨j, hj, hfail⟩
        rw [Nat.zero_add, hall j hj] at hfail
        cases hfail
  · rw [if_neg h, if_pos (Int.natCast_nonneg _)]
    have hall : ∀ i < needed, sched.copy i = true := by
      intro i hi
      cases hcopy : sched.copy i with
      | false => exact absurd (hfault.2 ⟨i, hi, by rw [Nat.zero_add]; exact hcopy⟩) h
      | true => rfl
    constructor
    · intro _
      exact Or.inr hall
    · intro _
      omega

/-- Four bytes out of two lines, with every copy going through. -/
theorem read_accounts_two_lines :
    let k := runCalls (fun _ _ => 0) [⟨.limited [] [], .opened, .write [97, 10, 98, 10]⟩]
    let r := aesdRead (k.enter (.limited [] [])) .opened 4 0
    r.pos - 0 = (if 0 ≤ r.ret then r.ret else 0) := by
  exact (read_accounts_iff (fun _ _ => 0)
    [⟨.limited [] [], .opened, .write [97, 10, 98, 10]⟩]
    (by simpa using Schedule.realistic_limited [] []) (.limited [] []) .opened rfl 4
    ⟨0, by decide⟩).2 (Or.inr fun _ _ => rfl)

/-- Two lines are asked for, and the copy of the second fails: the read reports an error
and leaves the position behind the first. -/
theorem late_fault_moves_position :
    ¬∀ (history : List Call), (∀ c ∈ history, c.sched.Realistic) →
      ∀ (sched : Schedule) (count : Nat) (pos : Loff),
        let r := aesdRead ((runCalls (fun _ _ => 0) history).enter sched) .opened count pos
        r.pos - pos = (if 0 ≤ r.ret then r.ret else 0) := by
  intro hall
  have hread := hall [⟨.limited [] [], .opened, .write [97, 10, 98, 10]⟩]
    (by simpa using Schedule.realistic_limited [] []) (.limited [] [1]) 4 ⟨0, by decide⟩
  exact absurd hread (by decide +kernel)

end Aesd.Driver
