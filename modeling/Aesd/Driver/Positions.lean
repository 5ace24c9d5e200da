import Aesd.Driver.Lookup
import Aesd.Driver.ReadSlice

/-!
# Positions and the bytes of the ring

Three operations move a file position, in three integer types: `aesd_llseek` adds signed
64-bit numbers and looks at the sign of the sum, the seek ioctl adds `size_t` sizes, and
`aesd_read` adds the bytes it has copied.  A position that is set from the ring stays
within the bytes of the ring, so nothing wraps while these are fewer than `2 ^ 63`.  None
of this depends on what the blocks hold, and no answer of the kernel matters.
-/

namespace Aesd.Driver

open Aesd.Verified.BlockHeap
open Aesd.Verified.Loops
open Aesd.Verified.Runs
open Aesd.Verified.Segments

/-- The bytes that the stored entries hold together. -/
def storedBytes (buffer : AesdCircularBuffer) : Nat := ((stored buffer).map weight).sum

variable {buffer : AesdCircularBuffer}

theorem weight_of_isSome {e : AesdBufferEntry} (h : e.buffptr.isSome = true) :
    weight e = e.size := if_pos h

/-- An entry with a byte in it has a block. -/
theorem weight_of_lt {e : AesdBufferEntry} {o : Nat} (h : o < weight e) : weight e = e.size := by
  unfold weight at *
  split at h
  · rw [if_pos ‹_›]
  · exact absurd h (Nat.not_lt_zero o)

/-! ## The lookup and the seek stay inside the ring -/

/-- What the lookup finds ends below the bytes of the ring. -/
theorem Wf.find_le (h : Wf buffer) (hfit : storedBytes buffer < sizeMod) {p : Nat}
    (hp : p < sizeMod) {slot o : Nat}
    (hfind : aesdCircularBufferFindEntryOffsetForFpos buffer p = some (slot, o)) :
    o < (buffer.entry slot).size ∧ p + ((buffer.entry slot).size - o) ≤ storedBytes buffer := by
  rw [find_eq_map_locate h hp hfit, Option.map_eq_some_iff] at hfind
  rcases hfind with ⟨⟨i, o'⟩, hloc, heq⟩
  obtain ⟨rfl, rfl⟩ := Prod.mk.inj heq
  have hfound := locate_eq_some_iff.1 hloc
  rcases mem_bytes.1 hfound.1 with ⟨hi, ho⟩
  have hplace := place_add_le hi ho.le
  rw [hfound.2] at hplace
  simp only [List.getElem_map] at ho hplace
  rw [List.length_map] at hi
  have hsize := weight_of_lt ho
  rw [hsize] at ho hplace
  rw [entry_slotOf hi]
  exact ⟨ho, hplace⟩

/-- The loop of the seek ioctl adds up the entries it passes. -/
theorem seekLoop_eq_some {remaining q : Nat} (i pos : Nat)
    (hrange : i + remaining ≤ (stored buffer).length)
    (hfit : pos + (((stored buffer).drop i).map weight).sum < sizeMod)
    (hseek : seekLoop buffer remaining i pos = some q) :
    q + (((stored buffer).drop (i + remaining)).map weight).sum =
      pos + (((stored buffer).drop i).map weight).sum := by
  induction remaining generalizing i pos with
  | zero =>
      obtain rfl := Option.some.inj hseek
      rfl
  | succ remaining ih =>
      have hi : i < (stored buffer).length := by omega
      rw [List.drop_eq_getElem_cons hi, List.map_cons, List.sum_cons] at hfit ⊢
      rw [seekLoop] at hseek
      change (if (buffer.entry (slotOf buffer i)).buffptr.isNone then none
        else seekLoop buffer remaining (i + 1)
          ((pos + (buffer.entry (slotOf buffer i)).size) % sizeMod)) = some q at hseek
      rw [entry_slotOf hi] at hseek
      cases hptr : (stored buffer)[i].buffptr with
      | none =>
          rw [hptr] at hseek
          cases hseek
      | some b =>
          have hweight := weight_of_isSome (e := (stored buffer)[i]) (by rw [hptr]; rfl)
          rw [hptr, Option.isNone_some, if_neg Bool.false_ne_true,
            Nat.mod_eq_of_lt (by omega)] at hseek
          have hrest := ih (i + 1) _ (by omega) (by omega) hseek
          rw [show i + 1 + remaining = i + (remaining + 1) by omega] at hrest
          omega

/-- The byte that a seek names is one of the ring. -/
theorem seekTarget_lt (hfit : storedBytes buffer < 2 ^ 63) {x y pos : Nat}
    (hcount : x < storedCount buffer) (hseek : seekLoop buffer x 0 0 = some pos)
    (hptr : (buffer.entry (slotOf buffer x)).buffptr.isNone = false)
    (hy : y < (buffer.entry (slotOf buffer x)).size) : pos + y < storedBytes buffer := by
  rw [← length_stored] at hcount
  have hsum := seekLoop_eq_some 0 0 (by omega)
    (by rw [List.drop_zero, Nat.zero_add, sizeMod]; exact hfit.trans (by decide)) hseek
  rw [List.drop_zero, Nat.zero_add, Nat.zero_add, List.drop_eq_getElem_cons hcount,
    List.map_cons, List.sum_cons, ← entry_slotOf hcount,
    weight_of_isSome (Option.isNone_eq_false_iff.1 hptr)] at hsum
  rw [storedBytes]
  omega

/-- What the seek ioctl does: it refuses, or it moves to a byte of a stored entry. -/
theorem aesdIoctlSetPos_cases (k : Kernel) (filp : File) (seekto : AesdSeekto) :
    (aesdIoctlSetPos k filp seekto).2.1.dev.circularBuffer = k.dev.circularBuffer ∧
      ((aesdIoctlSetPos k filp seekto).2.2 = filp ∨
        ∃ x y pos, x < storedCount k.dev.circularBuffer ∧
          seekLoop k.dev.circularBuffer x 0 0 = some pos ∧
          (k.dev.circularBuffer.entry (slotOf k.dev.circularBuffer x)).buffptr.isNone = false ∧
          y < (k.dev.circularBuffer.entry (slotOf k.dev.circularBuffer x)).size ∧
          (aesdIoctlSetPos k filp seekto).2.2 =
            { filp with fPos := wrap64 ((pos + y) % sizeMod : Nat) }) := by
  have hdev := k.userCopy_dev
  rw [aesdIoctlSetPos]
  generalize seekto.writeCmd.toNat = x
  generalize seekto.writeCmdOffset.toNat = y
  cases hcopy : k.userCopy with
  | mk copied k' =>
      rw [hcopy] at hdev
      have hring : k'.mutexLock.dev.circularBuffer = k.dev.circularBuffer := by
        show k'.dev.circularBuffer = k.dev.circularBuffer
        exact congrArg AesdDev.circularBuffer hdev
      cases copied with
      | false => exact ⟨hring, .inl rfl⟩
      | true =>
          dsimp only
          rw [← storedCount, ← hring]
          split_ifs with hmax hcount hbad
          · exact ⟨rfl, .inl rfl⟩
          · exact ⟨rfl, .inl rfl⟩
          · cases seekLoop k'.mutexLock.dev.circularBuffer x 0 0 <;> exact ⟨rfl, .inl rfl⟩
          · cases hseek : seekLoop k'.mutexLock.dev.circularBuffer x 0 0 with
            | none => exact ⟨rfl, .inl rfl⟩
            | some pos =>
                rw [not_or, Bool.not_eq_true] at hbad
                exact ⟨rfl, .inr ⟨x, y, pos, Nat.lt_of_not_le hcount, hseek, hbad.1,
                  Nat.lt_of_not_le hbad.2, rfl⟩⟩

/-- **The seek ioctl** moves to a byte of the ring or not at all. -/
theorem aesdIoctlSetPos_moves {k : Kernel} (hfit : storedBytes k.dev.circularBuffer < 2 ^ 63)
    (filp : File) (seekto : AesdSeekto) :
    (aesdIoctlSetPos k filp seekto).2.2 = filp ∨
      ∃ q : Nat, q < storedBytes k.dev.circularBuffer ∧
        (aesdIoctlSetPos k filp seekto).2.2 = { filp with fPos := (q : Int) } := by
  rcases (aesdIoctlSetPos_cases k filp seekto).2 with
    hstays | ⟨x, y, pos, hcount, hseek, hptr, hy, hmoves⟩
  · exact .inl hstays
  · have hlt := seekTarget_lt hfit hcount hseek hptr hy
    refine .inr ⟨pos + y, hlt, ?_⟩
    rw [hmoves, Nat.mod_eq_of_lt (by rw [sizeMod]; omega), wrap64_of_range (by omega) (by omega)]

/-- So does every `ioctl`. -/
theorem unlockedIoctl_moves {k : Kernel} (hfit : storedBytes k.dev.circularBuffer < 2 ^ 63)
    (filp : File) (cmd : Nat) (arg : AesdSeekto) :
    (unlockedIoctl k filp cmd arg).2.2 = filp ∨
      ∃ q : Nat, q < storedBytes k.dev.circularBuffer ∧
        (unlockedIoctl k filp cmd arg).2.2 = { filp with fPos := (q : Int) } := by
  rw [unlockedIoctl]
  split_ifs
  · exact .inl rfl
  · exact aesdIoctlSetPos_moves hfit filp arg
  · exact .inl rfl

/-! ## Relative seeks -/

theorem wrap64_sub (x : Int) : wrap64 (x - sizeMod) = wrap64 x := Int.sub_bmod_right x sizeMod

/-- **`SEEK_CUR` is exact.**  From a position that counts, the sum is set and returned when
it is a position that counts, and refused when it is not. -/
theorem aesdLlseek_cur {filp : File} (hopen : filp.privateData = true) (hlo : 0 ≤ filp.fPos)
    (hhi : filp.fPos < 2 ^ 63) (offset : Loff) :
    aesdLlseek filp offset SEEK_CUR =
      if 0 ≤ filp.fPos + offset ∧ filp.fPos + offset < 2 ^ 63 then
        (filp.fPos + offset, { filp with fPos := filp.fPos + offset })
      else (-EINVAL, filp) := by
  rcases offset with ⟨offset, hoffset⟩
  have hcur : aesdLlseek filp offset SEEK_CUR =
      if wrap64 (filp.fPos + offset) < 0 then (-EINVAL, filp)
      else (wrap64 (filp.fPos + offset), { filp with fPos := wrap64 (filp.fPos + offset) }) := by
    simp [aesdLlseek, hopen, SEEK_CUR, SEEK_SET]
  simp only [hcur]
  by_cases hlt : filp.fPos + offset < 2 ^ 63
  · rw [wrap64_of_range (by omega) hlt]
    by_cases hneg : filp.fPos + offset < 0
    · rw [if_pos hneg, if_neg (by omega)]
    · rw [if_neg hneg, if_pos ⟨Int.not_lt.1 hneg, hlt⟩]
  · -- The sum wraps once, and what it wraps to is negative.
    rw [← wrap64_sub, wrap64_of_range (by simp only [sizeMod]; omega)
      (by simp only [sizeMod]; omega), if_pos (by simp only [sizeMod]; omega), if_neg (by omega)]

/-! ## The ring in every operation

Only `aesd_write` changes the ring, and only through `aesd_circular_buffer_add_entry`, so
whatever the kernel answers it stays well formed. -/

/-- A round that has copied `n` bytes of the entry in `slot`, from its byte `o` on. -/
structure ReadState.Copies (s s' : ReadState) (slot o n : Nat) : Prop where
  asked : s.count ≠ 0
  found : aesdCircularBufferFindEntryOffsetForFpos s.kernel.dev.circularBuffer (toSize s.pos) =
    some (slot, o)
  amount : n = min s.count
    (((s.kernel.dev.circularBuffer.entry slot).size + sizeMod - o) % sizeMod)
  pos : s'.pos = wrap64 (s.pos + n)
  count : s'.count = s.count - n
  ring : s'.kernel.dev.circularBuffer = s.kernel.dev.circularBuffer

/-- **What a round can do.**  It leaves the loop with the position where it is, or it has
copied bytes and moved on by as many.  The ring stays as it is. -/
theorem readRound_cases (s : ReadState) :
    (∃ r, readRound s = .inl r ∧ r.pos = s.pos ∧
      r.kernel.dev.circularBuffer = s.kernel.dev.circularBuffer) ∨
    ∃ s' slot o n, readRound s = .inr s' ∧ s.Copies s' slot o n := by
  unfold readRound
  by_cases hcount : s.count = 0
  · rw [if_pos hcount]
    exact .inl ⟨_, rfl, rfl, rfl⟩
  rw [if_neg hcount]
  cases hfind : aesdCircularBufferFindEntryOffsetForFpos s.kernel.dev.circularBuffer
      (toSize s.pos) with
  | none => exact .inl ⟨_, rfl, rfl, rfl⟩
  | some hit =>
      rcases hit with ⟨slot, o⟩
      dsimp only
      generalize hleft : ((s.kernel.dev.circularBuffer.entry slot).size + sizeMod - o) % sizeMod =
        left
      generalize hn : (if s.count < left then s.count else left) = n
      have hdev := s.kernel.copyToUser_dev (s.kernel.dev.circularBuffer.entry slot).buffptr o n
      cases hcopy : s.kernel.copyToUser (s.kernel.dev.circularBuffer.entry slot).buffptr o n with
      | mk copied k =>
          rw [hcopy] at hdev
          have hring : k.dev.circularBuffer = s.kernel.dev.circularBuffer :=
            congrArg AesdDev.circularBuffer hdev
          cases copied with
          | none => exact .inl ⟨_, rfl, rfl, hring⟩
          | some bytes =>
              have hmin : n = min s.count left := by
                split at hn <;> omega
              exact .inr ⟨_, slot, o, n, rfl,
                { asked := hcount
                  found := hfind
                  amount := by rw [hleft, hmin]
                  pos := rfl
                  count := rfl
                  ring := hring }⟩

theorem readFrom_ring (fuel : Nat) (s : ReadState) :
    (readFrom fuel s).kernel.dev.circularBuffer = s.kernel.dev.circularBuffer := by
  induction fuel generalizing s with
  | zero => rfl
  | succ fuel ih =>
      rw [readFrom_succ]
      rcases readRound_cases s with ⟨r, hround, -, hring⟩ | ⟨s', _, _, _, hround, hcopies⟩
      · rw [hround]
        exact hring
      · rw [hround]
        exact (ih s').trans hcopies.ring

theorem aesdRead_ring (k : Kernel) (filp : File) (count : Nat) (pos : Int) :
    (aesdRead k filp count pos).kernel.dev.circularBuffer = k.dev.circularBuffer := by
  rw [aesdRead]
  split
  · rfl
  · exact readFrom_ring count ⟨k.mutexLock, pos, count, 0, []⟩

theorem unlockedIoctl_ring (k : Kernel) (filp : File) (cmd : Nat) (arg : AesdSeekto) :
    (unlockedIoctl k filp cmd arg).2.1.dev.circularBuffer = k.dev.circularBuffer := by
  rw [unlockedIoctl]
  split_ifs
  · rfl
  · exact (aesdIoctlSetPos_cases k filp arg).1
  · rfl

theorem wf_commitLine {k : Kernel} (h : Wf k.dev.circularBuffer) (p : Option Nat) (n : Nat) :
    Wf (commitLine k p n).dev.circularBuffer := by
  simp only [commitLine]
  split <;> split <;> exact wf_addEntry h _ _

theorem wf_commitLines (fuel : Nat) {k : Kernel} (h : Wf k.dev.circularBuffer) :
    Wf (commitLines fuel k).2.dev.circularBuffer := by
  induction fuel generalizing k with
  | zero => exact h
  | succ fuel ih =>
      rw [commitLines]
      have hdev := k.memchr_dev k.dev.partialWriteBuffer newline k.dev.partialWriteSize
      cases hfound : k.memchr k.dev.partialWriteBuffer newline k.dev.partialWriteSize with
      | mk newlinePos k' =>
          rw [hfound] at hdev
          have hwf : Wf k'.dev.circularBuffer := hdev ▸ h
          cases newlinePos with
          | none => exact hwf
          | some newlinePos =>
              dsimp only
              have hdev' := k'.kmalloc_dev (newlinePos + 1)
              cases hgrant : k'.kmalloc (newlinePos + 1) with
              | mk buffptr k'' =>
                  rw [hgrant] at hdev'
                  have hwf' : Wf k''.dev.circularBuffer := hdev' ▸ hwf
                  cases buffptr with
                  | none => exact hwf'
                  | some buffptr => exact ih (wf_commitLine hwf' _ _)

theorem combine_ring (k : Kernel) (kbuf combined : Option Nat) (count newSize : Nat) :
    (combine k kbuf combined count newSize).dev.circularBuffer = k.dev.circularBuffer := by
  rw [combine]
  split <;> rfl

theorem wf_writeLocked {k : Kernel} (h : Wf k.dev.circularBuffer) (kbuf : Option Nat)
    (count : Nat) : Wf (writeLocked k kbuf count).2.dev.circularBuffer := by
  rw [writeLocked]
  generalize (k.mutexLock.dev.partialWriteSize + count) % sizeMod = newSize
  have hdev := k.mutexLock.kmalloc_dev newSize
  cases hgrant : k.mutexLock.kmalloc newSize with
  | mk combined k' =>
      rw [hgrant] at hdev
      have hwf : Wf k'.dev.circularBuffer := hdev ▸ h
      cases combined with
      | none => exact hwf
      | some combined =>
          have hcombined := combine_ring k' kbuf (some combined) count newSize
          have hcommit := wf_commitLines newSize (hcombined.symm ▸ hwf)
          dsimp only
          cases hlines : commitLines newSize (combine k' kbuf (some combined) count newSize) with
          | mk done k'' =>
              rw [hlines] at hcommit
              cases done <;> exact hcommit

theorem wf_aesdWrite {k : Kernel} (h : Wf k.dev.circularBuffer) (filp : File)
    (buf : List UInt8) : Wf (aesdWrite k filp buf).2.dev.circularBuffer := by
  rw [aesdWrite]
  by_cases hopen : filp.privateData = false
  · rw [if_pos hopen]
    exact h
  rw [if_neg hopen]
  have hdev := k.kmalloc_dev buf.length
  dsimp only
  cases hgrant : k.kmalloc buf.length with
  | mk kbuf k' =>
      rw [hgrant] at hdev
      have hwf : Wf k'.dev.circularBuffer := hdev ▸ h
      cases kbuf with
      | none => exact hwf
      | some kbuf =>
          have hdev' := k'.copyFromUser_dev (some kbuf) buf
          dsimp only
          cases hcopy : k'.copyFromUser (some kbuf) buf with
          | mk copied k'' =>
              rw [hcopy] at hdev'
              have hwf' : Wf k''.dev.circularBuffer := hdev' ▸ hwf
              cases copied with
              | false => exact hwf'
              | true => exact wf_writeLocked hwf' (some kbuf) buf.length

/-- **The ring stays well formed** in every operation. -/
theorem wf_exec {k : Kernel} (h : Wf k.dev.circularBuffer) (c : Call) :
    Wf (exec k c).dev.circularBuffer := by
  rcases c with ⟨sched, filp, op⟩
  have henter : Wf (k.enter sched).dev.circularBuffer := h
  cases op with
  | write chunk => exact wf_aesdWrite henter filp chunk
  | read count pos =>
      show Wf (aesdRead (k.enter sched) filp count pos).kernel.dev.circularBuffer
      rw [aesdRead_ring]
      exact henter
  | ioctl cmd arg =>
      show Wf (unlockedIoctl (k.enter sched) filp cmd arg).2.1.dev.circularBuffer
      rw [unlockedIoctl_ring]
      exact henter
  | llseek offset whence => exact henter
  | release =>
      simp only [exec, aesdRelease]
      split <;> exact henter

/-- The ring of a device with any history. -/
theorem wf_runCalls (garbage : Nat → Nat → UInt8) (calls : List Call) :
    Wf (runCalls garbage calls).dev.circularBuffer := by
  have halong : Along exec (fun _ _ => True) (aesdInitModule garbage) calls :=
    along_of_forall fun _ _ => trivial
  exact @invariant _ _ exec _ (fun k => Wf k.dev.circularBuffer) _ _ (fun _ c h _ => wf_exec h c)
    wf_init halong

/-! ## Reads -/

/-- A position that counts is passed to the lookup as it is. -/
theorem toSize_eq_self {x : Int} (hlo : 0 ≤ x) (hhi : x < 2 ^ 63) : (toSize x : Int) = x := by
  simp only [toSize, sizeMod]
  omega

/-- A round of a read on the ring `buffer`, at a position that counts. -/
structure ReadState.Counts (s : ReadState) (buffer : AesdCircularBuffer) : Prop where
  ring : s.kernel.dev.circularBuffer = buffer
  nonneg : 0 ≤ s.pos
  lt : s.pos < 2 ^ 63

/-- **The step lemma.**  A further round has moved on by a byte at least, and its position
still counts. -/
theorem ReadState.Counts.round (hwf : Wf buffer) (hfit : storedBytes buffer < 2 ^ 63)
    {s s' : ReadState} (h : s.Counts buffer) (hround : readRound s = .inr s') :
    s'.Counts buffer ∧ s'.count < s.count := by
  rcases readRound_cases s with ⟨r, hleave, -⟩ | ⟨s'', slot, o, n, hagain, hcopies⟩
  · rw [hleave] at hround
    cases hround
  · rw [hagain] at hround
    obtain rfl := Sum.inr.inj hround
    rcases hcopies with ⟨hcount, hfind, hn, hpos, hleft, hring⟩
    rw [h.ring] at hfind hn hring
    have hfound := hwf.find_le (by rw [sizeMod]; omega) (toSize_lt s.pos) hfind
    have hself := toSize_eq_self h.nonneg h.lt
    have hlo := h.nonneg
    have hentry : ((buffer.entry slot).size + sizeMod - o) % sizeMod =
        (buffer.entry slot).size - o := by
      rw [show (buffer.entry slot).size + sizeMod - o = (buffer.entry slot).size - o + sizeMod by
        omega, Nat.add_mod_right]
      exact Nat.mod_eq_of_lt (by simp only [sizeMod]; omega)
    rw [hentry] at hn
    rw [wrap64_of_range (by omega) (by omega)] at hpos
    exact ⟨⟨hring, by omega, by omega⟩, by omega⟩

/-- **The run lemma.**  The loop ends, every round passes its position to the lookup as a
number, and so does the position count that is left. -/
theorem ReadState.Counts.run (hwf : Wf buffer) (hfit : storedBytes buffer < 2 ^ 63)
    {s : ReadState} (h : s.Counts buffer) {fuel : Nat} (hfuel : s.count ≤ fuel) :
    Ends readRound s (readFrom fuel s) ∧
      (∀ s', Relation.ReflTransGen (Again readRound) s s' → s'.Counts buffer) ∧
      0 ≤ (readFrom fuel s).pos ∧ (readFrom fuel s).pos < 2 ^ 63 := by
  have hstep : ∀ s s' : ReadState, s.Counts buffer → readRound s = .inr s' → s'.Counts buffer :=
    fun s s' hs hround => (hs.round hwf hfit hround).1
  have hends : Ends readRound s (readFrom fuel s) := by
    apply ends_of_fuel (fun s => s.Counts buffer) ReadState.count ?_ readFrom_succ
      (fun s s' hs hround => hs.round hwf hfit hround) h hfuel
    intro s _ hzero
    rw [readRound, if_pos hzero]
    rfl
  rcases hends.leaves hstep h with ⟨last, hlast, hleave⟩
  rcases readRound_cases last with ⟨r, hround, hpos, -⟩ | ⟨s', _, _, _, hround, -⟩
  · obtain rfl := Sum.inl.inj (hleave.symm.trans hround)
    exact ⟨hends, fun s' hs' => invariant_rounds hstep h hs', hpos ▸ hlast.nonneg,
      hpos ▸ hlast.lt⟩
  · rw [hleave] at hround
    cases hround

end Aesd.Driver
