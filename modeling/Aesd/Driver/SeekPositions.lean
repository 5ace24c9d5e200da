import Aesd.Driver.Lookup
import Aesd.Driver.ReadSlice

/-!
# Positions that seeks set

The seek ioctl adds up the entries before the one it is given, the lookup searches for
the entry at a position: `seek_inverts_lookup` says that each undoes the other.
`SEEK_END` counts from ten, the capacity of the ring, instead of the number of bytes
stored; `seek_end_iff` says when that makes no difference.
-/

namespace Aesd.Driver

open Aesd.Verified.Segments

/-! ## The seek ioctl and the lookup -/

/-- A command names a byte of a stored entry. -/
def AesdSeekto.Names (seekto : AesdSeekto) (entries : List AesdBufferEntry) : Prop :=
  ∃ e, entries[seekto.writeCmd.toNat]? = some e ∧ seekto.writeCmdOffset.toNat < e.size

variable {k : Kernel} {temps own : List (Nat × List UInt8)}
  {pend : Option (Nat × List UInt8)} {pending : List UInt8}

/-- The target of a command is the place of the byte it names. -/
theorem Rep.seekTarget_eq (h : Rep k temps pend own pending) (seekto : AesdSeekto) :
    (seekto.Names (Driver.stored k.dev.circularBuffer) →
      (log k).seekTarget seekto.writeCmd.toNat seekto.writeCmdOffset.toNat =
        some (place ((Driver.stored k.dev.circularBuffer).map weight)
          (seekto.writeCmd.toNat, seekto.writeCmdOffset.toNat))) ∧
      (¬seekto.Names (Driver.stored k.dev.circularBuffer) →
        (log k).seekTarget seekto.writeCmd.toNat seekto.writeCmdOffset.toNat = none) := by
  unfold AesdSeekto.Names LineLog.seekTarget
  rw [h.weights, h.stored, h.log_entries]
  generalize seekto.writeCmd.toNat = x
  generalize seekto.writeCmdOffset.toNat = y
  rw [List.getElem?_map, List.getElem?_map]
  cases own[x]? with
  | none => simp
  | some b =>
      constructor
      · rintro ⟨e, he, hy⟩
        obtain rfl : entryOf b = e := by simpa using he
        have hlt : y < b.2.length := hy
        simp only [Option.map_some]
        rw [if_pos hlt]
        simp only [place, List.length_flatten, List.map_take]
      · intro hnot
        have hy : ¬y < b.2.length := fun hy => hnot ⟨entryOf b, rfl, hy⟩
        simp only [Option.map_some]
        rw [if_neg hy]

/-- What `aesd_ioctl_set_pos` returns and sets, on a sound device. -/
theorem Sound.seek (h : Sound k) (sched : Schedule) (filp : File) (seekto : AesdSeekto) :
    let r := aesdIoctlSetPos (k.enter sched) filp seekto
    (r.1 = 0 ↔ sched.copy 0 = true ∧ seekto.Names (stored k.dev.circularBuffer)) ∧
      (r.1 = 0 → r.2.2.fPos = place ((stored k.dev.circularBuffer).map weight)
        (seekto.writeCmd.toNat, seekto.writeCmdOffset.toNat)) ∧
      (r.1 ≠ 0 → r.2.2 = filp) ∧
      r.2.1.dev.circularBuffer = k.dev.circularBuffer ∧ log r.2.1 = log k := by
  intro r
  rcases h.rep with ⟨pend, own, pending, hrep⟩
  have hentries : linesOf own = (log k).entries := hrep.log_entries.symm
  have henter := hrep.enter sched
  have hspec := aesdIoctlSetPos_spec henter (hentries ▸ h.wf.contents_lt) filp seekto
  have hrep' := hrep.congr hspec.ring hspec.buffer hspec.size hspec.heap
  have hlogk : log (k.enter sched) = log k := henter.log_eq.trans hrep.log_eq.symm
  have hret := hspec.ret_eq_zero_iff
  have hfile := hspec.file_eq
  obtain ⟨hnamed, hunnamed⟩ := hrep.seekTarget_eq seekto
  rw [hlogk] at hret hfile
  have hiff : ((log k).seekTarget seekto.writeCmd.toNat seekto.writeCmdOffset.toNat).isSome =
      true ↔ seekto.Names (stored k.dev.circularBuffer) := by
    by_cases hn : seekto.Names (stored k.dev.circularBuffer)
    · simp [hnamed hn, hn]
    · simp [hunnamed hn, hn]
  refine ⟨hret.trans (and_congr_right fun _ => hiff), fun hzero => ?_, fun hfail => ?_,
    hspec.ring, hrep'.log_eq.trans hrep.log_eq.symm⟩
  · have hn := hiff.1 (hret.1 hzero).2
    rw [hfile, if_pos hzero, hnamed hn]
    rfl
  · rw [hfile, if_neg hfail]

/-- A stored entry contributes its size. -/
theorem Rep.weight_eq (h : Rep k temps pend own pending) {e : AesdBufferEntry}
    (he : e ∈ Driver.stored k.dev.circularBuffer) : weight e = e.size := by
  rw [h.stored] at he
  rcases List.mem_map.1 he with ⟨b, -, rfl⟩
  rfl

/-- The stored entries hold less than `2 ^ 63` bytes. -/
theorem Sound.weights_lt (h : Sound k) :
    ((stored k.dev.circularBuffer).map weight).sum < 2 ^ 63 := by
  rcases h.rep with ⟨pend, own, pending, hrep⟩
  have hlines : linesOf own = (log k).entries := hrep.log_entries.symm
  rw [hrep.weights, ← List.length_flatten, hlines]
  exact h.wf.contents_lt

/-- **The lookup at a sought position** returns the entry and the byte of the command. -/
theorem Sound.find_seek (h : Sound k) {sched : Schedule} {filp : File} {seekto : AesdSeekto}
    (hzero : (aesdIoctlSetPos (k.enter sched) filp seekto).1 = 0) :
    aesdCircularBufferFindEntryOffsetForFpos k.dev.circularBuffer
        (toSize (aesdIoctlSetPos (k.enter sched) filp seekto).2.2.fPos) =
      some (slotOf k.dev.circularBuffer seekto.writeCmd.toNat, seekto.writeCmdOffset.toNat) ∧
    (stored k.dev.circularBuffer)[seekto.writeCmd.toNat]? =
      some (k.dev.circularBuffer.entry
        (slotOf k.dev.circularBuffer seekto.writeCmd.toNat)) := by
  rcases h.rep with ⟨pend, own, pending, hrep⟩
  have htotal := h.weights_lt
  obtain ⟨hiff, hset, -⟩ := h.seek sched filp seekto
  rcases (hiff.1 hzero).2 with ⟨e, hget, hoffset⟩
  rcases List.getElem?_eq_some_iff.1 hget with ⟨hlt, rfl⟩
  have hbyte : (seekto.writeCmd.toNat, seekto.writeCmdOffset.toNat) ∈
      Bytes ((stored k.dev.circularBuffer).map weight) := by
    rw [← hrep.weight_eq (List.getElem_mem hlt)] at hoffset
    simpa [mem_bytes, hlt] using hoffset
  have hplace := place_lt_sum hbyte
  rw [hset hzero, toSize_natCast (by rw [sizeMod]; omega)]
  constructor
  · rw [find_eq_map_locate hrep.wf (by rw [sizeMod]; omega) (by rw [sizeMod]; omega),
      locate_eq_some_iff.2 ⟨hbyte, rfl⟩]
    rfl
  · rw [entry_slotOf hlt, hget]

/-- **The seek ioctl and the lookup are inverse.**  A seek succeeds exactly when it names a
byte of a stored entry; the lookup at the position it sets returns that entry and byte, so
that different commands set different positions; and a seek that fails has not moved. -/
theorem seek_inverts_lookup (garbage : Nat → Nat → UInt8) (history : List Call)
    (hreal : ∀ c ∈ history, c.sched.Realistic) :
    let k := runCalls garbage history
    let buffer := k.dev.circularBuffer
    (∀ sched filp seekto,
      let r := aesdIoctlSetPos (k.enter sched) filp seekto
      (r.1 = 0 ↔ sched.copy 0 = true ∧ seekto.Names (stored buffer)) ∧
      (r.1 = 0 →
        aesdCircularBufferFindEntryOffsetForFpos buffer (toSize r.2.2.fPos) =
          some (slotOf buffer seekto.writeCmd.toNat, seekto.writeCmdOffset.toNat) ∧
        (stored buffer)[seekto.writeCmd.toNat]? =
          some (buffer.entry (slotOf buffer seekto.writeCmd.toNat))) ∧
      (r.1 ≠ 0 → r.2.2 = filp) ∧
      r.2.1.dev.circularBuffer = buffer ∧ log r.2.1 = log k) ∧
    ∀ sched filp seekto sched' filp' seekto',
      let r := aesdIoctlSetPos (k.enter sched) filp seekto
      let r' := aesdIoctlSetPos (k.enter sched') filp' seekto'
      r.1 = 0 → r'.1 = 0 → r.2.2.fPos = r'.2.2.fPos → seekto = seekto' := by
  intro k buffer
  have hsound : Sound k := runCalls_sound garbage hreal
  constructor
  · intro sched filp seekto r
    obtain ⟨hiff, -, hfail, hring, hlog⟩ := hsound.seek sched filp seekto
    exact ⟨hiff, hsound.find_seek, hfail, hring, hlog⟩
  · intro sched filp seekto sched' filp' seekto' r r' hzero hzero' hpos
    obtain ⟨hfind, hget⟩ := hsound.find_seek hzero
    obtain ⟨hfind', hget'⟩ := hsound.find_seek hzero'
    have hlt := (List.getElem?_eq_some_iff.1 hget).1
    have hlt' := (List.getElem?_eq_some_iff.1 hget').1
    have hcount : (stored buffer).length ≤ maxWriteOperationsSupported := by
      rcases hsound.rep with ⟨pend, own, pending, hrep⟩
      exact hrep.wf.length_stored_le
    change r.2.2.fPos = r'.2.2.fPos at hpos
    rw [hpos, hfind', Option.some.injEq, Prod.mk.injEq] at hfind
    have hcmd := slotOf_inj (Nat.lt_of_lt_of_le hlt' hcount) (Nat.lt_of_lt_of_le hlt hcount)
      hfind.1
    cases seekto
    cases seekto'
    simp only [AesdSeekto.mk.injEq]
    exact ⟨(UInt32.toNat_inj.1 hcmd).symm, (UInt32.toNat_inj.1 hfind.2).symm⟩

/-- Eleven lines wrap the ring; byte 1 of the last. -/
theorem seek_inverts_lookup_wrapped :
    let k := runCalls (fun _ _ => 0)
      [⟨.limited [] [], .opened, .write [10, 10, 10, 10, 10, 10, 10, 10, 10, 97, 10, 98, 98, 10]⟩]
    let r := aesdIoctlSetPos (k.enter (.limited [] [])) .opened ⟨9, 1⟩
    aesdCircularBufferFindEntryOffsetForFpos k.dev.circularBuffer (toSize r.2.2.fPos) =
      some (slotOf k.dev.circularBuffer 9, 1) := by
  have hseek := (seek_inverts_lookup (fun _ _ => 0)
    [⟨.limited [] [], .opened, .write [10, 10, 10, 10, 10, 10, 10, 10, 10, 97, 10, 98, 98, 10]⟩]
    (by simpa using Schedule.realistic_limited [] [])).1 (.limited [] []) .opened ⟨9, 1⟩
  exact (hseek.2.1 (by decide +kernel)).1

/-! ## The end of the data -/

/-- `SEEK_END` with `offset` on a device holding `total` bytes sets and returns the sum, or
refuses it when it is not a position. -/
def SeeksFromEnd (filp : File) (total : Nat) (offset : Int) : Prop :=
  aesdLlseek filp offset SEEK_END =
    if 0 ≤ total + offset ∧ total + offset < 2 ^ 63 then
      (total + offset, { filp with fPos := total + offset })
    else (-EINVAL, filp)

/-- A read behind `SEEK_END` with offset 0 is empty, and a read of `n` bytes behind it with
offset `-n` delivers the last `n` bytes. -/
def ReadsFromEnd (k : Kernel) (filp : File) (offset : Int) : Prop :=
  ∀ sched : Schedule, (∀ i, sched.copy i = true) →
    let sought := (aesdLlseek filp offset SEEK_END).2
    let read := fun count => aesdRead (k.enter sched) sought count sought.fPos
    (offset = 0 → ∀ count, (read count).ret = 0 ∧ (read count).delivered = []) ∧
      ∀ n ≤ (log k).contents.length, offset = -n →
        (read n).delivered = (log k).contents.drop ((log k).contents.length - n)

/-- **The code counts from ten.** -/
theorem llseek_end {filp : File} (hopen : filp.privateData = true) (offset : Loff) :
    SeeksFromEnd filp maxWriteOperationsSupported offset := by
  rcases offset with ⟨offset, hlo, hhi⟩
  have hneg : SEEK_END ≠ SEEK_SET ∧ SEEK_END ≠ SEEK_CUR := by decide
  unfold SeeksFromEnd
  simp only [aesdLlseek, hopen, Bool.true_eq_false, if_false, hneg.1, hneg.2, if_true,
    maxWriteOperationsSupported, Nat.cast_ofNat]
  by_cases hover : 10 + offset < 2 ^ 63
  · rw [wrap64_of_range (by omega) hover]
    by_cases hpos : 10 + offset < 0
    · rw [if_pos hpos, if_neg (by omega)]
    · rw [if_neg hpos, if_pos ⟨by omega, hover⟩]
  · have hwrap : wrap64 (10 + offset) = 10 + offset - 2 ^ 64 := by
      rw [wrap64, sizeMod, Int.bmod]
      split <;> omega
    rw [hwrap, if_pos (by omega), if_neg (by omega)]

/-- When counting from ten makes no difference: ten bytes are stored, or both sums fall
below the first position, or both exceed the last one. -/
def SeekEndAgrees (total : Nat) (offset : Int) : Prop :=
  total = maxWriteOperationsSupported ∨
    (total + offset < 0 ∧ maxWriteOperationsSupported + offset < 0) ∨
    (2 ^ 63 ≤ total + offset ∧ 2 ^ 63 ≤ maxWriteOperationsSupported + offset)

theorem seeksFromEnd_iff {filp : File} (hopen : filp.privateData = true) {total : Nat}
    (hlt : total < 2 ^ 63) (offset : Loff) :
    SeeksFromEnd filp total offset ↔ SeekEndAgrees total offset := by
  have hcode := llseek_end hopen offset
  unfold SeeksFromEnd SeekEndAgrees at *
  rw [hcode]
  have hsmall : maxWriteOperationsSupported = 10 := rfl
  generalize maxWriteOperationsSupported = ten at hsmall ⊢
  by_cases hten : 0 ≤ ten + (offset : Int) ∧ ten + (offset : Int) < 2 ^ 63
  · by_cases htotal : 0 ≤ total + (offset : Int) ∧ total + (offset : Int) < 2 ^ 63
    · rw [if_pos hten, if_pos htotal]
      simp only [Prod.mk.injEq, File.mk.injEq, true_and]
      omega
    · rw [if_pos hten, if_neg htotal, Prod.mk.injEq, EINVAL]
      omega
  · by_cases htotal : 0 ≤ total + (offset : Int) ∧ total + (offset : Int) < 2 ^ 63
    · rw [if_neg hten, if_pos htotal, Prod.mk.injEq, EINVAL]
      omega
    · rw [if_neg hten, if_neg htotal, eq_self_iff_true, true_iff]
      omega

/-- A seek to the end of the data is followed by reads of its last bytes. -/
theorem Sound.readsFromEnd (h : Sound k) {filp : File} (hopen : filp.privateData = true)
    {offset : Int} (hseek : SeeksFromEnd filp (log k).contents.length offset) :
    ReadsFromEnd k filp offset := by
  intro sched hcopy sought read
  have hlt := h.wf.contents_lt
  -- A position within the data is set, and the read there delivers what follows.
  have hread : ∀ p ≤ (log k).contents.length, (log k).contents.length + offset = p →
      ∀ count, (read count).delivered = ((log k).contents.drop p).take count ∧
        (read count).ret = (read count).delivered.length := by
    intro p hp hsum count
    have hsought : sought = { filp with fPos := (p : Int) } := by
      show (aesdLlseek filp offset SEEK_END).2 = _
      rw [hseek, if_pos (by omega), hsum]
    have hdelivers := h.read_delivers hcopy (show sought.privateData = true by rw [hsought, hopen])
      count p (by omega)
    have hpos : sought.fPos = p := by rw [hsought]
    have hcount : read count = Driver.aesdRead (k.enter sched) sought count p := by
      rw [← hpos]
    rw [hcount]
    exact ⟨hdelivers.1, hdelivers.2.1⟩
  constructor
  · intro hzero count
    have hend := hread (log k).contents.length (Nat.le_refl _) (by omega) count
    rw [List.drop_length, List.take_nil] at hend
    rw [hend.2, hend.1]
    exact ⟨rfl, rfl⟩
  · intro n hn hback
    have hlast := hread ((log k).contents.length - n) (by omega) (by omega) n
    rw [hlast.1]
    apply List.take_of_length_le
    rw [List.length_drop]
    omega

/-- **`SEEK_END` means the end of the data** exactly when counting from ten makes no
difference. -/
theorem seek_end_iff (garbage : Nat → Nat → UInt8) (history : List Call)
    (hreal : ∀ c ∈ history, c.sched.Realistic) (filp : File) (hopen : filp.privateData = true)
    (offset : Loff) :
    let k := runCalls garbage history
    (SeeksFromEnd filp (log k).contents.length offset ∧ ReadsFromEnd k filp offset) ↔
      SeekEndAgrees (log k).contents.length offset := by
  intro k
  have hsound : Sound k := runCalls_sound garbage hreal
  rw [← seeksFromEnd_iff hopen hsound.wf.contents_lt]
  constructor
  · exact fun h => h.1
  · intro hseek
    exact ⟨hseek, hsound.readsFromEnd hopen hseek⟩

/-- Ten bytes are stored, the line of nine letters: the last four of them. -/
theorem seek_end_ten_bytes :
    let k := runCalls (fun _ _ => 0)
      [⟨.limited [] [], .opened, .write [97, 97, 97, 97, 97, 97, 98, 98, 98, 10]⟩]
    ReadsFromEnd k .opened (-4) := by
  intro k
  exact ((seek_end_iff (fun _ _ => 0)
    [⟨.limited [] [], .opened, .write [97, 97, 97, 97, 97, 97, 98, 98, 98, 10]⟩]
    (by simpa using Schedule.realistic_limited [] []) .opened rfl ⟨-4, by decide⟩).2
    (Or.inl (by decide +kernel))).2

/-- Two bytes are stored: the end is at 2, and `SEEK_END` moves to 10. -/
theorem seek_end_passes_end :
    ¬∀ (history : List Call), (∀ c ∈ history, c.sched.Realistic) → ∀ offset : Loff,
      SeeksFromEnd .opened (log (runCalls (fun _ _ => 0) history)).contents.length offset := by
  intro hall
  have hseek := hall [⟨.limited [] [], .opened, .write [97, 10]⟩]
    (by simpa using Schedule.realistic_limited [] []) ⟨0, by decide⟩
  rw [seeksFromEnd_iff rfl (by decide +kernel)] at hseek
  exact absurd hseek (by unfold SeekEndAgrees; decide +kernel)

end Aesd.Driver
