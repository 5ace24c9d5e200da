import Mathlib.Data.List.Perm.Basic
import Mathlib.Data.List.Nodup
import Mathlib.Logic.Function.Basic

/-!
# A heap of blocks and who owns them

A heap hands out blocks under identities that are never used again.  A pointer
is an `Option Nat`: the identity of a block, or NULL.  The operations are
total: what C leaves undefined (an access outside a live block, releasing a
block that is not live) changes nothing but is counted in `faults`.

`Owns h own` lists the live blocks with their contents, and each operation has
one rule that turns the list before into the list after.  A program proof then
never looks inside the heap: it carries the list of blocks it still owns.
-/

namespace Aesd.Verified.BlockHeap

/-- A heap over bytes of type `β`.  `garbage` is what a fresh block holds. -/
structure Heap (β : Type*) where
  blocks : Nat → Option (List β)
  next : Nat
  garbage : Nat → Nat → β
  faults : Nat

/-- `old` with `bytes` written over it from offset `off` on. -/
def splice {β : Type*} (old : List β) (off : Nat) (bytes : List β) : List β :=
  old.take off ++ bytes ++ old.drop (off + bytes.length)

namespace Heap

variable {β : Type*}

/-- The heap before the first allocation. -/
def empty (garbage : Nat → Nat → β) : Heap β :=
  { blocks := fun _ => none, next := 0, garbage := garbage, faults := 0 }

/-- Something undefined happened. -/
def fault (h : Heap β) : Heap β := { h with faults := h.faults + 1 }

/-- What the next block of `n` bytes holds until it is written. -/
def fresh (h : Heap β) (n : Nat) : List β := (List.range n).map (h.garbage h.next)

/-- Hand out a block of `n` bytes under the identity `h.next`. -/
def alloc (h : Heap β) (n : Nat) : Heap β :=
  { h with
    blocks := Function.update h.blocks h.next (some (h.fresh n))
    next := h.next + 1 }

/-- Retire a block.  Releasing NULL does nothing. -/
def free (h : Heap β) : Option Nat → Heap β
  | none => h
  | some p =>
      if (h.blocks p).isSome then { h with blocks := Function.update h.blocks p none }
      else h.fault

/-- The `n` bytes from offset `off` of the block `p`, if they are all there.
An access of length zero touches nothing, whatever the pointer. -/
def read (h : Heap β) (p : Option Nat) (off n : Nat) : Option (List β) :=
  if n = 0 then some []
  else (p.bind h.blocks).bind fun bytes =>
    if off + n ≤ bytes.length then some ((bytes.drop off).take n) else none

/-- Write `bytes` into the block `p` from offset `off` on. -/
def write (h : Heap β) (p : Option Nat) (off : Nat) (bytes : List β) : Heap β :=
  if bytes.isEmpty then h
  else match p with
    | none => h.fault
    | some p =>
        match h.blocks p with
        | none => h.fault
        | some old =>
            if off + bytes.length ≤ old.length then
              { h with blocks := Function.update h.blocks p (some (splice old off bytes)) }
            else h.fault

/-- Copy `n` bytes between two blocks, or within one. -/
def copy (h : Heap β) (dst : Option Nat) (doff : Nat) (src : Option Nat) (soff n : Nat) :
    Heap β :=
  match h.read src soff n with
  | none => h.fault
  | some bytes => h.write dst doff bytes

end Heap

/-! ## Splicing -/

section Splice

variable {β : Type*}

@[simp] theorem length_splice {old bytes : List β} {off : Nat}
    (h : off + bytes.length ≤ old.length) : (splice old off bytes).length = old.length := by
  simp only [splice, List.length_append, List.length_take, List.length_drop]
  omega

@[simp] theorem splice_nil (old : List β) (off : Nat) : splice old off [] = old := by
  simp [splice]

/-- Two adjacent writes are one write of both pieces. -/
theorem splice_splice (old a b : List β) :
    splice (splice old 0 a) a.length b = splice old 0 (a ++ b) := by
  simp only [splice, List.take_zero, List.nil_append, Nat.zero_add, List.take_left',
    List.length_append, List.append_assoc, List.drop_append, List.drop_drop,
    Nat.add_sub_cancel_left]
  rw [List.drop_eq_nil_iff.2 (show a.length ≤ a.length + b.length by omega), List.nil_append]

/-- A write that covers the whole block. -/
theorem splice_eq_of_length {old bytes : List β} (h : bytes.length = old.length) :
    splice old 0 bytes = bytes := by
  simp [splice, h]

end Splice

/-! ## Ownership -/

open Heap

variable {β : Type*}

/-- The live blocks of `h` are exactly those listed, each once, and nothing
undefined has happened so far. -/
structure Owns (h : Heap β) (own : List (Nat × List β)) : Prop where
  nodup : (own.map Prod.fst).Nodup
  live : ∀ p bytes, h.blocks p = some bytes ↔ (p, bytes) ∈ own
  unborn : ∀ p, h.next ≤ p → h.blocks p = none
  faultless : h.faults = 0

namespace Owns

variable {h : Heap β} {own own' : List (Nat × List β)} {p : Nat} {bytes old : List β}

theorem empty (garbage : Nat → Nat → β) : Owns (Heap.empty garbage) [] :=
  { nodup := by simp
    live := by simp [Heap.empty]
    unborn := fun _ _ => rfl
    faultless := rfl }

theorem perm (ho : Owns h own) (hp : own.Perm own') : Owns h own' :=
  { nodup := ((hp.map Prod.fst).nodup_iff).1 ho.nodup
    live := fun p bytes => (ho.live p bytes).trans hp.mem_iff
    unborn := ho.unborn
    faultless := ho.faultless }

theorem blocks_eq (ho : Owns h own) {b : Nat × List β} (hb : b ∈ own) : h.blocks b.1 = some b.2 :=
  (ho.live b.1 b.2).2 hb

/-- The identities of owned blocks have all been handed out. -/
theorem lt_next (ho : Owns h own) (hm : (p, bytes) ∈ own) : p < h.next := by
  by_contra hge
  have := ho.unborn p (Nat.le_of_not_lt hge)
  simp [ho.blocks_eq hm] at this

/-- Live and listed are the same. -/
theorem isSome_blocks_iff (ho : Owns h own) (p : Nat) :
    (h.blocks p).isSome ↔ p ∈ own.map Prod.fst := by
  rw [Option.isSome_iff_exists, List.mem_map]
  constructor
  · rintro ⟨bytes, hb⟩
    exact ⟨(p, bytes), (ho.live p bytes).1 hb, rfl⟩
  · rintro ⟨⟨q, bytes⟩, hm, rfl⟩
    exact ⟨bytes, ho.blocks_eq hm⟩

theorem alloc (ho : Owns h own) (n : Nat) :
    Owns (h.alloc n) ((h.next, h.fresh n) :: own) :=
  { nodup := by
      rw [List.map_cons, List.nodup_cons]
      refine ⟨fun hm => ?_, ho.nodup⟩
      obtain ⟨⟨q, bytes⟩, hq, hqn⟩ := List.mem_map.1 hm
      have hlt := ho.lt_next hq
      simp only at hqn
      omega
    live := by
      intro q bytes
      rw [List.mem_cons, Prod.mk.injEq]
      by_cases hq : q = h.next
      · subst hq
        have hout : (h.next, bytes) ∉ own := fun hm => Nat.lt_irrefl _ (ho.lt_next hm)
        simp [Heap.alloc, hout, eq_comm]
      · simp [Heap.alloc, hq, ho.live]
    unborn := by
      intro q hq
      simp only [Heap.alloc] at hq ⊢
      rw [Function.update_of_ne (by omega)]
      exact ho.unborn q (by omega)
    faultless := ho.faultless }

/-- No other block has the identity of the first. -/
theorem not_mem_tail (ho : Owns h ((p, old) :: own')) (bytes : List β) : (p, bytes) ∉ own' :=
  fun hm => (List.nodup_cons.1 ho.nodup).1 (List.mem_map.2 ⟨_, hm, rfl⟩)

/-- Changing the first block leaves the identities that have not been handed out alone. -/
theorem unborn_update (ho : Owns h ((p, old) :: own')) (block : Option (List β)) :
    ∀ q, h.next ≤ q → Function.update h.blocks p block q = none := by
  intro q hq
  have hlt := ho.lt_next (List.mem_cons_self ..)
  rw [Function.update_of_ne (by omega)]
  exact ho.unborn q hq

theorem free (ho : Owns h own) (hp : own.Perm ((p, bytes) :: own')) :
    Owns (h.free (some p)) own' := by
  have ho' := ho.perm hp
  have hlive := ho'.blocks_eq (List.mem_cons_self ..)
  simp only [Heap.free, hlive, Option.isSome_some, if_true]
  exact
    { nodup := (List.nodup_cons.1 ho'.nodup).2
      live := by
        intro q bs
        by_cases hq : q = p
        · subst hq
          simp [ho'.not_mem_tail bs]
        · simp [ho'.live, hq]
      unborn := ho'.unborn_update none
      faultless := ho.faultless }

theorem read (ho : Owns h own) {b : Nat × List β} (hb : b ∈ own) {off n : Nat}
    (hn : off + n ≤ b.2.length) :
    h.read (some b.1) off n = some ((b.2.drop off).take n) := by
  by_cases hz : n = 0
  · simp [Heap.read, hz]
  · simp [Heap.read, hz, ho.blocks_eq hb, hn]

theorem write (ho : Owns h own) (hp : own.Perm ((p, old) :: own')) {off : Nat}
    (hn : off + bytes.length ≤ old.length) :
    Owns (h.write (some p) off bytes) ((p, splice old off bytes) :: own') := by
  have ho' := ho.perm hp
  by_cases hz : bytes = []
  · subst hz
    simpa [Heap.write] using ho'
  · have hlive := ho'.blocks_eq (List.mem_cons_self ..)
    simp only [Heap.write, List.isEmpty_iff, hz, if_false, hlive, hn, if_true]
    exact
      { nodup := by simpa using ho'.nodup
        live := by
          intro q bs
          by_cases hq : q = p
          · subst hq
            simp [ho'.not_mem_tail bs, eq_comm]
          · simp [ho'.live, hq]
        unborn := ho'.unborn_update _
        faultless := ho.faultless }

/-- A copy from the owned block `b` into the owned block `p`; the two may be the
same block. -/
theorem copy (ho : Owns h own) (hp : own.Perm ((p, old) :: own')) (b : Nat × List β)
    (doff soff n : Nat) (hb : b ∈ own) (hs : soff + n ≤ b.2.length)
    (hd : doff + n ≤ old.length) :
    Owns (h.copy (some p) doff (some b.1) soff n)
      ((p, splice old doff ((b.2.drop soff).take n)) :: own') := by
  rw [Heap.copy, ho.read hb hs]
  refine ho.write hp ?_
  rw [List.length_take, List.length_drop]
  omega

end Owns

/-! ## Blocks without contents -/

/-- The live blocks are those listed, and nothing is kept in them. -/
def OwnsIds (h : Heap β) (ids : List Nat) : Prop := Owns h (ids.map fun p => (p, []))

namespace OwnsIds

variable {h : Heap β} {ids ids' : List Nat} {p : Nat}

theorem empty (garbage : Nat → Nat → β) : OwnsIds (Heap.empty garbage) [] := Owns.empty garbage

theorem perm (ho : OwnsIds h ids) (hp : ids.Perm ids') : OwnsIds h ids' := Owns.perm ho (hp.map _)

theorem alloc (ho : OwnsIds h ids) : OwnsIds (h.alloc 0) (h.next :: ids) := Owns.alloc ho 0

theorem free (ho : OwnsIds h ids) (hp : ids.Perm (p :: ids')) :
    OwnsIds (h.free (some p)) ids' :=
  Owns.free ho (hp.map _)

end OwnsIds

end Aesd.Verified.BlockHeap
