import Aesd.Driver.Lookup

/-!
# The representation of the ring, call by call

In a ring `in_offs = out_offs` means both empty and full, and `full` is recomputed from
the offsets by each `aesd_circular_buffer_add_entry`.  `BuiltBy` says what the offsets,
the flag and the slots are in terms of the entries added so far; it holds of the
initialised buffer, and every call keeps it, through the fill-up and all wraps.  The
reader, the seek ioctl and the release of evicted lines rest on what follows from it.
-/

namespace Aesd.Driver

open Aesd.Verified.BlockHeap
open Aesd.Verified.Lines
open Aesd.Verified.RingView

/-! ## The invariant in terms of the entries added -/

/-- The buffer that the additions of `entries`, in this order, have built. -/
structure BuiltBy (entries : List AesdBufferEntry) (buffer : AesdCircularBuffer) : Prop where
  wf : Wf buffer
  inOffs : buffer.inOffs = entries.length % maxWriteOperationsSupported
  full_iff : buffer.full = true ↔ maxWriteOperationsSupported ≤ entries.length
  stored : stored buffer = entries.rtake maxWriteOperationsSupported

theorem builtBy_nil : BuiltBy [] aesdCircularBufferInit :=
  { wf := wf_init
    inOffs := rfl
    full_iff := by decide
    stored := rfl }

/-- **The step lemma.** -/
theorem BuiltBy.addEntry {entries : List AesdBufferEntry} {buffer : AesdCircularBuffer}
    (h : BuiltBy entries buffer) (heap : Heap UInt8) (e : AesdBufferEntry) :
    BuiltBy (entries ++ [e]) (aesdCircularBufferAddEntry buffer heap e).1 :=
  { wf := wf_addEntry h.wf heap e
    inOffs := by
      rw [addEntry_fst, h.inOffs, List.length_append, List.length_singleton, Nat.mod_add_mod]
    full_iff := by
      rw [addEntry_fst, List.length_append, List.length_singleton, beq_iff_eq]
      by_cases hfull : buffer.full = true
      · have hlen := h.full_iff.1 hfull
        rw [if_pos hfull, h.wf.offs_of_full hfull]
        exact iff_of_true rfl (Nat.le_succ_of_le hlen)
      · have hlen := mt h.full_iff.2 hfull
        rw [Bool.not_eq_true] at hfull
        rw [hfull, if_neg Bool.false_ne_true, h.wf.outOffs_of_not_full hfull, h.inOffs]
        simp only [maxWriteOperationsSupported] at hlen ⊢
        omega
    stored := by rw [stored_addEntry h.wf, h.stored, rtake_rtake_append] }

/-- **The run lemma.** -/
theorem builtBy_addEntries (heap : Heap UInt8) (entries : List AesdBufferEntry) :
    BuiltBy entries (addEntries heap entries).1 := by
  induction entries using List.reverseRecOn with
  | nil => exact builtBy_nil
  | append_singleton entries e ih =>
      rw [addEntries_concat]
      exact ih.addEntry _ e

/-- A slot that no call has written is still as `memset` left it. -/
theorem entry_of_unwritten (heap : Heap UInt8) (entries : List AesdBufferEntry) (j : Nat)
    (h : ∀ i < entries.length, (addEntries heap (entries.take i)).1.inOffs ≠ j) :
    (addEntries heap entries).1.entry j = .zero := by
  induction entries using List.reverseRecOn with
  | nil => rfl
  | append_singleton entries e ih =>
      have hlast := h entries.length (by simp)
      rw [List.take_left] at hlast
      rw [addEntries_concat, addEntry_fst]
      simp only [Function.update_of_ne hlast.symm]
      refine ih fun i hi => ?_
      have hearlier := h i (by simp only [List.length_append, List.length_singleton]; omega)
      rwa [List.take_append_of_le_length hi.le] at hearlier

namespace BuiltBy

variable {entries : List AesdBufferEntry} {buffer : AesdCircularBuffer}

/-- What the seek ioctl counts. -/
theorem storedCount (h : BuiltBy entries buffer) :
    Driver.storedCount buffer = min entries.length maxWriteOperationsSupported := by
  rw [← length_stored, h.stored, List.rtake_eq_reverse_take_reverse]
  simp [Nat.min_comm]

/-- The slots behind the first `n` are zero as long as there are any. -/
theorem blank (h : BuiltBy entries buffer) (j : Nat) (hj : entries.length ≤ j)
    (hlt : j < maxWriteOperationsSupported) : buffer.entry j = .zero := by
  have hlen := Nat.lt_of_le_of_lt hj hlt
  have hfull : buffer.full = false := Bool.not_eq_true _ ▸ mt h.full_iff.1 (Nat.not_le.2 hlen)
  refine h.wf.blank hfull j ?_ hlt
  rwa [h.inOffs, Nat.mod_eq_of_lt hlen]

/-- The entries are read off from `out_offs` on. -/
theorem cyclic (h : BuiltBy entries buffer) :
    (List.range (min entries.length maxWriteOperationsSupported)).map
        (fun i => buffer.entry (slotOf buffer i)) =
      entries.rtake maxWriteOperationsSupported := by
  rw [← h.stored, ← h.storedCount]
  rfl

end BuiltBy

/-! ## The slots that the lookup reaches -/

/-- The slots that the search loop looks at as long as it finds nothing, with `remaining`
iterations to go: from `index` on, up to the stop rule. -/
def walk (buffer : AesdCircularBuffer) : Nat → Nat → List Nat
  | 0, _ => []
  | remaining + 1, index =>
      let next := (index + 1) % maxWriteOperationsSupported
      index :: if ¬buffer.full ∧ next = buffer.inOffs then [] else walk buffer remaining next

/-- The search of the loop along a list of slots. -/
def findAlong (buffer : AesdCircularBuffer) (charOffset : Nat) :
    Nat → List Nat → Option (Nat × Nat)
  | _, [] => none
  | totalSize, index :: slots =>
      let entry := buffer.entry index
      if entry.buffptr.isSome ∧ charOffset < (totalSize + entry.size) % sizeMod then
        some (index, (charOffset + sizeMod - totalSize) % sizeMod)
      else
        findAlong buffer charOffset
          (if entry.buffptr.isSome then (totalSize + entry.size) % sizeMod else totalSize) slots

/-- **The lookup looks at the slots of its walk**, in this order and at no others. -/
theorem findEntryLoop_eq_findAlong (buffer : AesdCircularBuffer)
    (charOffset remaining totalSize index : Nat) :
    findEntryLoop buffer charOffset remaining totalSize index =
      findAlong buffer charOffset totalSize (walk buffer remaining index) := by
  induction remaining generalizing totalSize index with
  | zero => rfl
  | succ remaining ih =>
      simp only [findEntryLoop, walk, findAlong]
      split
      · rfl
      · split
        · rfl
        · exact ih _ _

/-- The slot behind a slot. -/
theorem slotOf_succ (buffer : AesdCircularBuffer) (i : Nat) :
    (slotOf buffer i + 1) % maxWriteOperationsSupported = slotOf buffer (i + 1) := by
  rw [slotOf, Nat.mod_add_mod, Nat.add_assoc]
  rfl

/-- The stop rule of a ring that is not full: the slot behind the newest entry. -/
theorem Wf.slotOf_eq_inOffs_iff {buffer : AesdCircularBuffer} (h : Wf buffer)
    (hfull : buffer.full = false) {i : Nat} (hi : i ≤ storedCount buffer) :
    slotOf buffer i = buffer.inOffs ↔ i = storedCount buffer := by
  rw [storedCount_of_not_full hfull] at hi ⊢
  have hlt := h.inOffs_lt
  rw [slotOf, h.outOffs_of_not_full hfull, Nat.zero_add, Nat.mod_eq_of_lt (by omega)]

/-- The walk over the entries from the `i`-th oldest on. -/
theorem walk_eq {buffer : AesdCircularBuffer} (h : Wf buffer) {m : Nat} (i : Nat) (hm : 0 < m)
    (hcount : i + m = storedCount buffer) {remaining : Nat} (hrem : m ≤ remaining)
    (hfull : buffer.full = true → remaining = m) :
    walk buffer remaining (slotOf buffer i) = (List.range' i m).map (slotOf buffer) := by
  induction m generalizing i remaining with
  | zero => exact absurd hm (Nat.lt_irrefl 0)
  | succ m ih =>
      obtain ⟨remaining, rfl⟩ : ∃ r, remaining = r + 1 := ⟨remaining - 1, by omega⟩
      rw [walk, List.range'_succ, List.map_cons, slotOf_succ]
      congr 1
      cases m with
      | zero =>
          -- The newest entry: a full ring has no iteration left, any other meets its stop rule.
          rw [List.range'_zero, List.map_nil]
          cases hflag : buffer.full with
          | true =>
              obtain rfl : remaining = 0 := Nat.succ.inj (hfull hflag)
              simp [walk]
          | false =>
              have hstop := (h.slotOf_eq_inOffs_iff hflag (i := i + 1) (by omega)).2 (by omega)
              rw [if_pos ⟨Bool.false_ne_true, hstop⟩]
      | succ m =>
          have hgo : ¬(¬buffer.full = true ∧ slotOf buffer (i + 1) = buffer.inOffs) := by
            intro hstop
            have hflag := Bool.not_eq_true _ ▸ hstop.1
            have hend := (h.slotOf_eq_inOffs_iff hflag (i := i + 1) (by omega)).1 hstop.2
            omega
          rw [if_neg hgo]
          exact ih (i + 1) (Nat.succ_pos m) (by omega) (by omega)
            fun hflag => Nat.succ.inj (hfull hflag)

/-- **The reach of the lookup.**  Once anything has been added, the slots before the stop
rule are those of the stored entries. -/
theorem BuiltBy.walk {entries : List AesdBufferEntry} {buffer : AesdCircularBuffer}
    (h : BuiltBy entries buffer) (hne : 0 < entries.length) :
    Driver.walk buffer maxWriteOperationsSupported buffer.outOffs =
      (List.range (min entries.length maxWriteOperationsSupported)).map (slotOf buffer) := by
  have hcount := h.storedCount
  have hfirst : slotOf buffer 0 = buffer.outOffs := Nat.mod_eq_of_lt h.wf.outOffs_lt
  rw [← hfirst, List.range_eq_range']
  refine walk_eq h.wf 0 ?_ ?_ (Nat.min_le_right ..) ?_
  · exact Nat.lt_min.2 ⟨hne, by decide⟩
  · rw [hcount, Nat.zero_add]
  · intro hfull
    exact (Nat.min_eq_right (h.full_iff.1 hfull)).symm

/-! ## The ring after any number of calls -/

/-- What a further call retires: nothing as long as there are slots that no call has
written, and else the oldest entry. -/
structure Retires (entries : List AesdBufferEntry) (s : AesdCircularBuffer × Heap UInt8)
    (e : AesdBufferEntry) : Prop where
  keeps : entries.length < maxWriteOperationsSupported →
    s.1.entry s.1.inOffs = .zero ∧ (aesdCircularBufferAddEntry s.1 s.2 e).2 = s.2 ∧
      stored (aesdCircularBufferAddEntry s.1 s.2 e).1 = stored s.1 ++ [e]
  retires : maxWriteOperationsSupported ≤ entries.length → ∃ oldest newer,
    stored s.1 = oldest :: newer ∧ s.1.entry s.1.inOffs = oldest ∧
      (aesdCircularBufferAddEntry s.1 s.2 e).2 = s.2.free oldest.buffptr ∧
      stored (aesdCircularBufferAddEntry s.1 s.2 e).1 = newer ++ [e]

theorem BuiltBy.retires {entries : List AesdBufferEntry} {buffer : AesdCircularBuffer}
    (h : BuiltBy entries buffer) (heap : Heap UInt8) (e : AesdBufferEntry) :
    Retires entries (buffer, heap) e :=
  { keeps := by
      intro hlen
      have hfull : buffer.full = false :=
        Bool.not_eq_true _ ▸ mt h.full_iff.1 (Nat.not_le.2 hlen)
      refine ⟨h.wf.blank hfull _ (Nat.le_refl _) h.wf.inOffs_lt, ?_, ?_⟩
      · rw [addEntry_snd, hfull, if_neg Bool.false_ne_true]
      · have hcount := h.storedCount
        rw [stored_addEntry h.wf, rtake_of_length_le]
        rw [List.length_append, length_stored, hcount, List.length_singleton]
        omega
    retires := by
      intro hlen
      have hfull := h.full_iff.2 hlen
      rcases h.wf.oldest hfull with ⟨newer, hnewer⟩
      have hcount := congrArg List.length hnewer
      rw [length_stored, storedCount_of_full hfull, List.length_cons] at hcount
      refine ⟨_, newer, hnewer, rfl, ?_, ?_⟩
      · rw [addEntry_snd, hfull, if_pos rfl]
      · rw [stored_addEntry h.wf, hnewer, List.cons_append,
          ← List.singleton_append (x := buffer.entry buffer.inOffs),
          rtake_append_of_length_le, rtake_of_length_le]
        · rw [List.length_append, List.length_singleton, ← hcount]
        · rw [List.length_append, List.length_singleton, ← hcount] }

/-- What the offsets, the flag and the slots say after the additions of `entries`. -/
structure RingInvariant (entries : List AesdBufferEntry) (buffer : AesdCircularBuffer) :
    Prop where
  inOffs_lt : buffer.inOffs < maxWriteOperationsSupported
  outOffs_lt : buffer.outOffs < maxWriteOperationsSupported
  full_iff : buffer.full = true ↔ maxWriteOperationsSupported ≤ entries.length
  outOffs_of_not_full : buffer.full = false → buffer.outOffs = 0
  outOffs_of_full : buffer.full = true → buffer.outOffs = buffer.inOffs
  blank : ∀ j, entries.length ≤ j → j < maxWriteOperationsSupported → buffer.entry j = .zero
  cyclic : (List.range (min entries.length maxWriteOperationsSupported)).map
      (fun i => buffer.entry (slotOf buffer i)) = entries.rtake maxWriteOperationsSupported
  once : Set.InjOn (slotOf buffer) (Set.Iio (min entries.length maxWriteOperationsSupported))
  count : storedCount buffer = min entries.length maxWriteOperationsSupported
  reach : 1 ≤ entries.length →
    walk buffer maxWriteOperationsSupported buffer.outOffs =
      (List.range (min entries.length maxWriteOperationsSupported)).map (slotOf buffer)

/-- **The ring.**  After any calls of `aesd_circular_buffer_add_entry` on an initialised
buffer, the invariant holds; slots that no call has written are zero; the lookup searches
the slots of its walk; and a further call retires the oldest entry, once there are ten. -/
theorem ring_invariant (heap : Heap UInt8) (entries : List AesdBufferEntry) :
    let s := addEntries heap entries
    RingInvariant entries s.1 ∧
      (∀ j, (∀ i < entries.length, (addEntries heap (entries.take i)).1.inOffs ≠ j) →
        s.1.entry j = .zero) ∧
      (∀ charOffset, aesdCircularBufferFindEntryOffsetForFpos s.1 charOffset =
        findAlong s.1 charOffset 0 (walk s.1 maxWriteOperationsSupported s.1.outOffs)) ∧
      ∀ e, Retires entries s e := by
  intro s
  have h : BuiltBy entries s.1 := builtBy_addEntries heap entries
  refine ⟨?_, entry_of_unwritten heap entries, ?_, h.retires s.2⟩
  · exact
      { inOffs_lt := h.wf.inOffs_lt
        outOffs_lt := h.wf.outOffs_lt
        full_iff := h.full_iff
        outOffs_of_not_full := h.wf.outOffs_of_not_full
        outOffs_of_full := h.wf.offs_of_full
        blank := h.blank
        cyclic := h.cyclic
        once := fun i hi j hj heq => slotOf_inj (Nat.lt_of_lt_of_le hi (Nat.min_le_right ..))
          (Nat.lt_of_lt_of_le hj (Nat.min_le_right ..)) heq
        count := h.storedCount
        reach := h.walk }
  · intro charOffset
    exact findEntryLoop_eq_findAlong s.1 charOffset _ 0 _

end Aesd.Driver
