import Aesd.Verified.BlockHeap

/-!
# Blocks that grow, and walks along a block

`Heap.realloc` moves a block to a larger one, and `Heap.walk` reads a block element by
element up to the first one that a condition accepts.  A walk that leaves its block finds
nothing.  The rules state both on the list of owned blocks.
-/

namespace Aesd.Verified.BlockHeap

variable {β : Type*} {h : Heap β} {own own' : List (Nat × List β)}

/-! ## `realloc` -/

namespace Heap

/-- A new block of `n` bytes with what there was in the old one, which is retired.  The new
block is `h.next`. -/
def realloc (h : Heap β) (p : Option Nat) (n : Nat) : Heap β :=
  ((h.alloc n).write (some h.next) 0 (((p.bind h.blocks).getD []).take n)).free p

/-- The first element that `stop` accepts from offset `off` on, and where it is, within so
many reads. -/
def walk (h : Heap β) (p : Option Nat) (stop : β → Bool) : Nat → Nat → Option (Nat × β)
  | 0, _ => none
  | fuel + 1, off =>
      match h.read p off 1 with
      | some [x] => if stop x then some (off, x) else walk h p stop fuel (off + 1)
      | _ => none

end Heap

/-- The contents that `realloc` keeps. -/
def kept (block : Option (Nat × List β)) (n : Nat) : List β :=
  ((block.map Prod.snd).getD []).take n

theorem length_kept_le (block : Option (Nat × List β)) (n : Nat) : (kept block n).length ≤ n :=
  List.length_take_le ..

/-- Writing behind the front of a block. -/
theorem splice_behind {front old back bytes : List β} (h : old.length = bytes.length) :
    splice (front ++ old ++ back) front.length bytes = front ++ bytes ++ back := by
  rw [splice, List.append_assoc front, List.take_left, ← h, List.drop_length_add_append,
    List.drop_left]

theorem splice_at_end {front old bytes : List β} (h : old.length = bytes.length) :
    splice (front ++ old) front.length bytes = front ++ bytes := by
  have hbehind : splice (front ++ old ++ []) front.length bytes = front ++ bytes ++ [] :=
    splice_behind h
  rwa [List.append_nil, List.append_nil] at hbehind

namespace Owns

/-- **`realloc`** hands the old block in for the new one. -/
theorem realloc (ho : Owns h own) {block : Option (Nat × List β)}
    (hp : own.Perm (block.toList ++ own')) (n : Nat) :
    Owns (h.realloc (block.map Prod.fst) n)
      ((h.next, splice (h.fresh n) 0 (kept block n)) :: own') := by
  have hfit : 0 + (kept block n).length ≤ (h.fresh n).length := by
    have hle := length_kept_le block n
    simp only [Heap.fresh, List.length_map, List.length_range]
    omega
  have hwritten := (ho.alloc n).write (List.Perm.refl _) hfit
  cases block with
  | none =>
      have hempty : ((none : Option Nat).bind h.blocks).getD [] = [] := rfl
      rw [Option.map_none, Heap.realloc, hempty]
      exact hwritten.perm (hp.cons _)
  | some b =>
      have hlive : ((some b.1).bind h.blocks).getD [] = b.2 := by
        have hblock := ho.blocks_eq (hp.symm.subset (List.mem_cons_self ..))
        rw [Option.bind_some, hblock, Option.getD_some]
      rw [Option.map_some, Heap.realloc, hlive]
      exact hwritten.free ((hp.cons _).trans (List.Perm.swap ..))

/-! ## Walks -/

/-- A walk inside a block, from behind `skipped` on. -/
theorem walk_from (ho : Owns h own) {p : Nat} {skipped before after : List β} {x : β}
    (hb : (p, skipped ++ before ++ x :: after) ∈ own) {stop : β → Bool}
    (hbefore : ∀ y ∈ before, stop y = false) (hx : stop x = true) {fuel : Nat}
    (hfuel : before.length < fuel) :
    h.walk (some p) stop fuel skipped.length = some (skipped.length + before.length, x) := by
  induction before generalizing skipped fuel with
  | nil =>
      obtain ⟨fuel, rfl⟩ : ∃ n, fuel = n + 1 := ⟨fuel - 1, by simp at hfuel; omega⟩
      have hread : h.read (some p) skipped.length 1 = _ := ho.read hb (by simp)
      simp only [List.append_nil, List.drop_left, List.take_succ_cons, List.take_zero] at hread
      simp only [Heap.walk, hread, hx, if_true, List.length_nil, Nat.add_zero]
  | cons y before ih =>
      obtain ⟨fuel, rfl⟩ : ∃ n, fuel = n + 1 := ⟨fuel - 1, by simp at hfuel; omega⟩
      have hread : h.read (some p) skipped.length 1 = _ := ho.read hb (by simp)
      simp only [List.append_assoc, List.drop_left, List.cons_append, List.take_succ_cons,
        List.take_zero] at hread
      have hmem : (p, skipped ++ [y] ++ before ++ x :: after) ∈ own := by simpa using hb
      have hrest := ih hmem
        (fun z hz => hbefore z (List.mem_cons_of_mem _ hz)) (Nat.lt_of_succ_lt_succ hfuel)
      simp only [Heap.walk, hread, hbefore y (List.mem_cons_self ..), Bool.false_eq_true, if_false]
      rw [List.length_append, List.length_singleton] at hrest
      rw [hrest, List.length_cons, Nat.add_assoc, Nat.add_comm 1]

/-- **A walk** stops at the first element that is accepted. -/
theorem walk (ho : Owns h own) {p : Nat} {before after : List β} {x : β}
    (hb : (p, before ++ x :: after) ∈ own) {stop : β → Bool}
    (hbefore : ∀ y ∈ before, stop y = false) (hx : stop x = true) {fuel : Nat}
    (hfuel : before.length < fuel) :
    h.walk (some p) stop fuel 0 = some (before.length, x) := by
  have hwalk : h.walk (some p) stop fuel ([] : List β).length = _ :=
    ho.walk_from hb hbefore hx hfuel
  rwa [List.length_nil, Nat.zero_add] at hwalk

end Owns

end Aesd.Verified.BlockHeap
