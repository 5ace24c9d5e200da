import Aesd.Driver.CircularBuffer

/-!
# The offset lookup after any additions

An initialised circular buffer to which any entries have been added keeps the last
ten of them.  The lookup tells, for each offset in their concatenation, which entry
holds it and where: `lookup_exact` is the lookup and its inverse, at both edges of
every entry, for entries of any size and entries without a block.
-/

namespace Aesd.Driver

open Aesd.Verified.BlockHeap
open Aesd.Verified.Lines
open Aesd.Verified.RingView
open Aesd.Verified.Segments

/-! ## Runs of additions -/

/-- The buffer after `aesd_circular_buffer_init` and an `aesd_circular_buffer_add_entry`
for each of `entries`. -/
def addEntries (heap : Heap UInt8) (entries : List AesdBufferEntry) :
    AesdCircularBuffer × Heap UInt8 :=
  entries.foldl (fun s e => aesdCircularBufferAddEntry s.1 s.2 e) (aesdCircularBufferInit, heap)

theorem addEntries_concat (heap : Heap UInt8) (entries : List AesdBufferEntry)
    (e : AesdBufferEntry) :
    addEntries heap (entries ++ [e]) =
      aesdCircularBufferAddEntry (addEntries heap entries).1 (addEntries heap entries).2 e := by
  simp [addEntries]

/-- Any additions keep the representation invariant. -/
theorem wf_addEntries (heap : Heap UInt8) (entries : List AesdBufferEntry) :
    Wf (addEntries heap entries).1 := by
  induction entries using List.reverseRecOn with
  | nil => exact wf_init
  | append_singleton entries e ih =>
      rw [addEntries_concat]
      exact wf_addEntry ih _ e

/-- **The last ten entries are retained**, in the order of their addition. -/
theorem stored_addEntries (heap : Heap UInt8) (entries : List AesdBufferEntry) :
    stored (addEntries heap entries).1 = entries.rtake maxWriteOperationsSupported := by
  induction entries using List.reverseRecOn with
  | nil => rfl
  | append_singleton entries e ih =>
      rw [addEntries_concat, stored_addEntry (wf_addEntries heap entries), ih,
        rtake_rtake_append]

/-! ## Slots and entries -/

/-- The slot of the `i`-th oldest entry. -/
def slotOf (buffer : AesdCircularBuffer) (i : Nat) : Nat :=
  (buffer.outOffs + i) % maxWriteOperationsSupported

theorem entry_slotOf {buffer : AesdCircularBuffer} {i : Nat} (h : i < (stored buffer).length) :
    buffer.entry (slotOf buffer i) = (stored buffer)[i] := (getElem_view h).symm

/-- Different entries stand in different slots. -/
theorem slotOf_inj {buffer : AesdCircularBuffer} {i j : Nat}
    (hi : i < maxWriteOperationsSupported) (hj : j < maxWriteOperationsSupported)
    (h : slotOf buffer i = slotOf buffer j) : i = j := by
  rcases Nat.lt_trichotomy i j with hlt | heq | hgt
  · exact absurd h (mod_ne_mod (by omega) (by omega))
  · exact heq
  · exact absurd h.symm (mod_ne_mod (by omega) (by omega))

/-- The lookup on the sizes of the stored entries. -/
theorem find_eq_map_locate {buffer : AesdCircularBuffer} (h : Wf buffer) {charOffset : Nat}
    (hoff : charOffset < sizeMod) (hfit : ((stored buffer).map weight).sum < sizeMod) :
    aesdCircularBufferFindEntryOffsetForFpos buffer charOffset =
      (locate ((stored buffer).map weight) charOffset).map (Prod.map (slotOf buffer) id) :=
  find_eq_locate h hoff hfit

/-- A hit names the entry and the byte that stand at the offset. -/
theorem find_eq_some_iff {buffer : AesdCircularBuffer} (h : Wf buffer) {charOffset : Nat}
    (hoff : charOffset < sizeMod) (hfit : ((stored buffer).map weight).sum < sizeMod)
    {i : Nat} (hi : i < (stored buffer).length) (o : Nat) :
    aesdCircularBufferFindEntryOffsetForFpos buffer charOffset = some (slotOf buffer i, o) ↔
      (((stored buffer).take i).map weight).sum + o = charOffset ∧
        o < weight (stored buffer)[i] := by
  have hle := h.length_stored_le
  have hback : (locate ((stored buffer).map weight) charOffset).map
        (Prod.map (slotOf buffer) id) = some (slotOf buffer i, o) ↔
      locate ((stored buffer).map weight) charOffset = some (i, o) := by
    constructor
    · intro hfind
      obtain ⟨⟨j, o'⟩, hloc, heq⟩ := Option.map_eq_some_iff.1 hfind
      obtain ⟨hj, -⟩ := mem_bytes.1 (locate_eq_some_iff.1 hloc).1
      rw [List.length_map] at hj
      simp only [Prod.map, id, Prod.mk.injEq] at heq
      rw [hloc, slotOf_inj (by omega) (by omega) heq.1, heq.2]
    · intro hloc
      rw [hloc]
      rfl
  have hbyte : (i, o) ∈ Bytes ((stored buffer).map weight) ↔ o < weight (stored buffer)[i] := by
    simp [mem_bytes, hi]
  rw [find_eq_map_locate h hoff hfit, hback, locate_eq_some_iff, hbyte, place, List.map_take]
  exact and_comm

/-! ## The lookup is exact -/

/-- A byte of an entry: its slot and an offset inside it. -/
def Hits (buffer : AesdCircularBuffer) (retained : List AesdBufferEntry) :
    Set (Option (Nat × Nat)) :=
  {r | ∃ i o, ∃ hi : i < retained.length, o < weight retained[i] ∧ r = some (slotOf buffer i, o)}

/-- Naming an entry by its slot loses nothing. -/
theorem slots_bijOn {buffer : AesdCircularBuffer} {retained : List AesdBufferEntry}
    (hle : retained.length ≤ maxWriteOperationsSupported) :
    Set.BijOn (Option.map (Prod.map (slotOf buffer) id))
      (some '' Bytes (retained.map weight)) (Hits buffer retained) := by
  have hbyte : ∀ i o, (i, o) ∈ Bytes (retained.map weight) ↔
      ∃ hi : i < retained.length, o < weight retained[i] := by
    simp [mem_bytes]
  refine ⟨?_, ?_, ?_⟩
  · rintro _ ⟨⟨i, o⟩, hr, rfl⟩
    rcases (hbyte i o).1 hr with ⟨hi, ho⟩
    exact ⟨i, o, hi, ho, rfl⟩
  · rintro _ ⟨⟨i, o⟩, hr, rfl⟩ _ ⟨⟨j, o'⟩, hr', rfl⟩ heq
    rcases (hbyte i o).1 hr with ⟨hi, -⟩
    rcases (hbyte j o').1 hr' with ⟨hj, -⟩
    simp only [Option.map_some, Prod.map, id, Option.some.injEq, Prod.mk.injEq] at heq
    rw [slotOf_inj (by omega) (by omega) heq.1, heq.2]
  · rintro _ ⟨i, o, hi, ho, rfl⟩
    exact ⟨some (i, o), ⟨(i, o), (hbyte i o).2 ⟨hi, ho⟩, rfl⟩, rfl⟩

/-- **The lookup is exact.**  After any additions, the lookup returns the entry and the
byte at the offset, nothing behind the last byte, and each pair of an entry and a byte
in it for one offset. -/
theorem lookup_exact (heap : Heap UInt8) (entries : List AesdBufferEntry)
    (hfit : ((entries.rtake maxWriteOperationsSupported).map weight).sum < sizeMod) :
    let buffer := (addEntries heap entries).1
    let retained := entries.rtake maxWriteOperationsSupported
    (∀ i (hi : i < retained.length), buffer.entry (slotOf buffer i) = retained[i]) ∧
      (∀ charOffset < sizeMod,
        (∀ i (hi : i < retained.length) o,
          aesdCircularBufferFindEntryOffsetForFpos buffer charOffset =
              some (slotOf buffer i, o) ↔
            ((retained.take i).map weight).sum + o = charOffset ∧ o < weight retained[i]) ∧
        (aesdCircularBufferFindEntryOffsetForFpos buffer charOffset = none ↔
          (retained.map weight).sum ≤ charOffset)) ∧
      Set.BijOn (aesdCircularBufferFindEntryOffsetForFpos buffer)
        (Set.Iio (retained.map weight).sum) (Hits buffer retained) := by
  have hwf := wf_addEntries heap entries
  rw [← stored_addEntries heap entries] at hfit ⊢
  generalize (addEntries heap entries).1 = buffer at hwf hfit ⊢
  have hle := hwf.length_stored_le
  refine ⟨fun i hi => entry_slotOf hi, fun charOffset hoff => ⟨fun i hi o => ?_, ?_⟩, ?_⟩
  · exact find_eq_some_iff hwf hoff hfit hi o
  · rw [find_eq_map_locate hwf hoff hfit, Option.map_eq_none_iff, locate_eq_none_iff]
  · have hcongr : Set.EqOn (fun p => (locate ((stored buffer).map weight) p).map
          (Prod.map (slotOf buffer) id)) (aesdCircularBufferFindEntryOffsetForFpos buffer)
        (Set.Iio ((stored buffer).map weight).sum) := by
      intro p hp
      have hlt : p < ((stored buffer).map weight).sum := hp
      exact (find_eq_map_locate hwf (by omega) hfit).symm
    exact ((slots_bijOn hle).comp (locate_bijOn _)).congr hcongr

/-- Eleven additions, one of them without a block and one of them empty: the first is
evicted, and byte 1 of the last entry stands at offset 8. -/
theorem lookup_exact_wrapped :
    let sizes : List Nat := [5, 1, 1, 0, 1, 1, 1, 1, 1, 7, 3]
    let entries : List AesdBufferEntry := sizes.map fun n =>
      { buffptr := if n = 7 then none else some n, size := n }
    let buffer := (addEntries (.empty fun _ _ => 0) entries).1
    aesdCircularBufferFindEntryOffsetForFpos buffer 8 = some (slotOf buffer 9, 1) := by
  intro sizes entries buffer
  have hexact := lookup_exact (.empty fun _ _ => 0) entries (by decide)
  exact ((hexact.2.1 8 (by decide)).1 9 (by decide) 1).2 (by decide)

end Aesd.Driver
