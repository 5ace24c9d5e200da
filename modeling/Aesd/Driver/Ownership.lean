import Aesd.Driver.History

/-!
# Who owns the blocks

Between two calls the live blocks are those of the stored entries and of the
partial write buffer, each referred to once; unloading the module gives all of
them back.  The heap counts every release of a block that is not live and every
access outside a live block, and the count stays zero.
-/

namespace Aesd.Driver

open Aesd.Verified.BlockHeap

/-! ## The owners -/

/-- The blocks the device refers to: one for each stored entry, and the partial
write buffer if there is one. -/
def owners (k : Kernel) : List Nat :=
  (stored k.dev.circularBuffer).filterMap (·.buffptr) ++ k.dev.partialWriteBuffer.toList

/-- Every stored entry has a block, no block is referred to twice, the slots refer
to nothing else, and the blocks referred to are the live ones. -/
structure OwnsLive (k : Kernel) : Prop where
  entries : ∀ e ∈ stored k.dev.circularBuffer, e.buffptr.isSome
  distinct : (owners k).Nodup
  slots : ∀ i < maxWriteOperationsSupported, ∀ p,
    (k.dev.circularBuffer.entry i).buffptr = some p → p ∈ owners k
  live : ∀ p, (k.heap.blocks p).isSome ↔ p ∈ owners k

variable {k : Kernel} {own : List (Nat × List UInt8)} {pend : Option (Nat × List UInt8)}
  {pending : List UInt8}

theorem Rep.stored_buffptr (h : Rep k [] pend own pending) :
    (Driver.stored k.dev.circularBuffer).filterMap (·.buffptr) = own.map Prod.fst := by
  rw [h.stored, List.filterMap_map]
  exact congrFun List.filterMap_eq_map own

theorem Rep.owners_perm (h : Rep k [] pend own pending) :
    (owners k).Perm ((pend.toList ++ own).map Prod.fst) := by
  have hpend : (pend.map Prod.fst).toList = pend.toList.map Prod.fst := by cases pend <;> rfl
  rw [owners, h.stored_buffptr, h.buffer, List.map_append, hpend]
  exact List.perm_append_comm

theorem Rep.ownsLive (h : Rep k [] pend own pending) : OwnsLive k :=
  { entries := by
      rw [h.stored, List.forall_mem_map]
      exact fun _ _ => rfl
    distinct := h.owners_perm.nodup_iff.2 h.heap.nodup
    slots := fun i hi p hp => List.mem_append_left _ (h.wf.slots_perm.mem_iff.1
      (List.mem_filterMap.2 ⟨i, List.mem_range.2 hi, hp⟩))
    live := fun p => (h.heap.isSome_blocks_iff p).trans h.owners_perm.mem_iff.symm }

/-! ## Unloading -/

theorem cleanupEntry_partial (k : Kernel) (index : Nat) :
    (cleanupEntry k index).dev.partialWriteBuffer = k.dev.partialWriteBuffer := by
  simp only [cleanupEntry]
  split <;> rfl

/-- Cleaning a slot leaves the others alone. -/
theorem cleanupEntry_entry {index j : Nat} (h : j ≠ index) :
    (cleanupEntry k index).dev.circularBuffer.entry j = k.dev.circularBuffer.entry j := by
  simp only [cleanupEntry]
  split
  · exact Function.update_of_ne h _ _
  · rfl

/-- The loop of `aesd_cleanup_module` over distinct slots gives back the blocks
they refer to. -/
theorem foldl_cleanupEntry (rest : List (Nat × List UInt8)) {slots : List Nat}
    (hslots : slots.Nodup) (blocks : List (Nat × List UInt8))
    (hblocks : blocks.map Prod.fst =
      slots.filterMap fun i => (k.dev.circularBuffer.entry i).buffptr)
    (hown : Owns k.heap (blocks ++ rest)) :
    Owns (slots.foldl cleanupEntry k).heap rest ∧
      (slots.foldl cleanupEntry k).dev.partialWriteBuffer = k.dev.partialWriteBuffer := by
  induction slots generalizing k blocks with
  | nil =>
      obtain rfl : blocks = [] := by simpa using hblocks
      exact ⟨hown, rfl⟩
  | cons i slots ih =>
      obtain ⟨hi, hslots⟩ := List.nodup_cons.1 hslots
      have hothers : (slots.filterMap fun j =>
            ((cleanupEntry k i).dev.circularBuffer.entry j).buffptr) =
          slots.filterMap fun j => (k.dev.circularBuffer.entry j).buffptr := by
        refine List.filterMap_congr fun j hj => ?_
        have hne : j ≠ i := fun heq => hi (heq ▸ hj)
        rw [cleanupEntry_entry hne]
      rw [List.foldl_cons, ← cleanupEntry_partial k i]
      cases hptr : (k.dev.circularBuffer.entry i).buffptr with
      | none =>
          have hkeep : cleanupEntry k i = k := by simp [cleanupEntry, hptr]
          simp only [List.filterMap_cons, hptr] at hblocks
          exact ih hslots _ (hblocks.trans hothers.symm) (by rwa [hkeep])
      | some p =>
          simp only [List.filterMap_cons, hptr] at hblocks
          obtain ⟨⟨q, bytes⟩, blocks, rfl⟩ : ∃ b bs, blocks = b :: bs := by
            cases blocks with
            | nil => simp at hblocks
            | cons b bs => exact ⟨b, bs, rfl⟩
          simp only [List.map_cons, List.cons.injEq] at hblocks
          obtain ⟨rfl, hblocks⟩ := hblocks
          refine ih hslots _ (hblocks.trans hothers.symm) ?_
          have hfree := hown.free (List.Perm.refl ((q, bytes) :: (blocks ++ rest)))
          simpa [cleanupEntry, hptr, Kernel.kfree] using hfree

/-- Unloading gives everything back. -/
theorem Rep.cleanup (h : Rep k [] pend own pending) : Owns (aesdCleanupModule k).heap [] := by
  -- The blocks of the stored entries, in the order of their slots.
  have hcontent : own = (own.map Prod.fst).map fun p => (p, (k.heap.blocks p).getD []) := by
    rw [List.map_map]
    refine (List.map_id own).symm.trans (List.map_congr_left fun b hb => ?_)
    simp [h.heap.blocks_eq (b := b) (by simp [hb])]
  have hperm := (h.wf.slots_perm.trans (.of_eq h.stored_buffptr)).map
    fun p => (p, (k.heap.blocks p).getD [])
  rw [← hcontent] at hperm
  obtain ⟨hloop, hpartial⟩ := foldl_cleanupEntry (k := k) pend.toList
    List.nodup_range (((List.range maxWriteOperationsSupported).filterMap
      fun i => (k.dev.circularBuffer.entry i).buffptr).map
        fun p => (p, (k.heap.blocks p).getD []))
    (by rw [List.map_map]; exact List.map_id _)
    (h.heap.perm (by
      rw [List.nil_append]
      exact List.perm_append_comm.trans (hperm.symm.append_right _)))
  rw [aesdCleanupModule]
  simp only [Kernel.kfree, hpartial, h.buffer]
  cases pend with
  | none => exact hloop
  | some b => exact hloop.free (List.Perm.refl _)

/-- **Every block has one owner.**  After any history of calls the live blocks are
exactly those the device refers to, each referred to once, and nothing was
released or accessed that was not live; unloading the module then leaves no live
block and releases none twice. -/
theorem blocks_have_one_owner (garbage : Nat → Nat → UInt8) (calls : List Call)
    (hreal : ∀ c ∈ calls, c.sched.Realistic) :
    OwnsLive (runCalls garbage calls) ∧
    (runCalls garbage calls).heap.faults = 0 ∧
    (∀ p, (aesdCleanupModule (runCalls garbage calls)).heap.blocks p = none) ∧
    (aesdCleanupModule (runCalls garbage calls)).heap.faults = 0 := by
  obtain ⟨pend, own, pending, hrep⟩ := (runCalls_sound garbage hreal).rep
  have hclean := hrep.cleanup
  refine ⟨hrep.ownsLive, hrep.heap.faultless, fun p => ?_, hclean.faultless⟩
  rw [← Option.not_isSome_iff_eq_none, hclean.isSome_blocks_iff]
  simp

/-- A history with a refused line and a line still unfinished. -/
theorem blocks_have_one_owner_example :
    OwnsLive (runCalls (fun _ _ => 0)
      [⟨.limited [2] [], .opened, .write [97, 10]⟩, ⟨.limited [] [], .opened, .write [98]⟩]) :=
  (blocks_have_one_owner (fun _ _ => 0)
    [⟨.limited [2] [], .opened, .write [97, 10]⟩, ⟨.limited [] [], .opened, .write [98]⟩]
    (by
      simp only [List.mem_cons, List.not_mem_nil, or_false, forall_eq_or_imp, forall_eq]
      exact ⟨Schedule.realistic_limited _ _, Schedule.realistic_limited _ _⟩)).1

end Aesd.Driver
