import Mathlib.Data.List.DropRight
import Mathlib.Logic.Function.Basic
import Aesd.Verified.Lines

/-!
# Reading a ring

A ring of capacity `cap` stores its elements in the slots `0 … cap − 1` and wraps
around.  `view` is the list read off `n` slots from `out` on.  The two ways a
ring grows are `view_push`, which writes the first free slot, and
`view_overwrite`, which writes over the oldest element of a full ring.
-/

namespace Aesd.Verified.RingView

open Aesd.Verified.Lines

variable {α : Type*}

/-- The `n` elements of a ring of capacity `cap`, from slot `out` on. -/
def view (cap : Nat) (slots : Nat → α) (out n : Nat) : List α :=
  (List.range n).map fun i => slots ((out + i) % cap)

@[simp] theorem length_view (cap : Nat) (slots : Nat → α) (out n : Nat) :
    (view cap slots out n).length = n := by
  simp [view]

@[simp] theorem view_zero (cap : Nat) (slots : Nat → α) (out : Nat) :
    view cap slots out 0 = [] := rfl

theorem getElem_view {cap : Nat} {slots : Nat → α} {out n i : Nat}
    (h : i < (view cap slots out n).length) :
    (view cap slots out n)[i] = slots ((out + i) % cap) := by
  simp [view]

/-- A view starts with the slot it starts at. -/
theorem view_succ (cap : Nat) (slots : Nat → α) (out n : Nat) :
    view cap slots out (n + 1) =
      slots (out % cap) :: view cap slots ((out + 1) % cap) n := by
  simp only [view, List.range_succ_eq_map, List.map_cons, List.map_map, Nat.add_zero]
  congr 1
  refine List.map_congr_left fun i _ => ?_
  simp only [Function.comp, Nat.succ_eq_add_one, Nat.mod_add_mod]
  congr 2
  omega

/-- A view ends with the slot it ends at. -/
theorem view_concat (cap : Nat) (slots : Nat → α) (out n : Nat) :
    view cap slots out (n + 1) = view cap slots out n ++ [slots ((out + n) % cap)] := by
  simp [view, List.range_succ]

theorem view_append (cap : Nat) (slots : Nat → α) (out m n : Nat) :
    view cap slots out (m + n) = view cap slots out m ++ view cap slots (out + m) n := by
  simp [view, List.range_add, Nat.add_assoc]

/-- A view that starts at the first slot and does not wrap. -/
theorem view_first {cap n : Nat} (slots : Nat → α) (h : n ≤ cap) :
    view cap slots 0 n = (List.range n).map slots := by
  refine List.map_congr_left fun i hi => ?_
  have hlt := List.mem_range.1 hi
  rw [Nat.zero_add, Nat.mod_eq_of_lt (by omega)]

/-- A view of the whole ring shows every slot once. -/
theorem view_perm {cap : Nat} (slots : Nat → α) {out : Nat} (h : out ≤ cap) :
    (view cap slots out cap).Perm ((List.range cap).map slots) := by
  obtain ⟨m, rfl⟩ := Nat.exists_eq_add_of_le h
  have hwrap : view (out + m) slots (out + m) out = view (out + m) slots 0 out := by
    refine List.map_congr_left fun i _ => ?_
    rw [Nat.add_mod_left, Nat.zero_add]
  have hsplit : view (out + m) slots out (out + m) =
      view (out + m) slots out m ++ view (out + m) slots 0 out := by
    rw [← hwrap, ← view_append, Nat.add_comm m out]
  rw [hsplit, ← view_first slots (Nat.le_refl _), view_append, Nat.zero_add]
  exact List.perm_append_comm

/-- Slots less than one revolution apart are different slots. -/
theorem mod_ne_mod {cap a b : Nat} (hlt : a < b) (hcap : b < a + cap) :
    a % cap ≠ b % cap := by
  intro h
  have hdvd : cap ∣ b - a := Nat.dvd_of_mod_eq_zero (Nat.sub_mod_eq_zero_of_mod_eq h.symm)
  have := Nat.le_of_dvd (by omega) hdvd
  omega

/-- Writing a slot outside the view leaves the view as it is. -/
theorem view_update_of_ne {cap : Nat} {slots : Nat → α} {out n j : Nat} (x : α)
    (h : ∀ i, i < n → (out + i) % cap ≠ j) :
    view cap (Function.update slots j x) out n = view cap slots out n := by
  refine List.map_congr_left fun i hi => ?_
  exact Function.update_of_ne (h i (List.mem_range.1 hi)) _ _

/-- Writing the first free slot appends. -/
theorem view_push (cap : Nat) (slots : Nat → α) (out : Nat) {n : Nat} (x : α) (h : n < cap) :
    view cap (Function.update slots ((out + n) % cap) x) out (n + 1) =
      view cap slots out n ++ [x] := by
  rw [view_concat, Function.update_self, view_update_of_ne]
  intro i hi
  exact mod_ne_mod (by omega) (by omega)

/-- Writing over the oldest element of a full ring evicts it. -/
theorem view_overwrite {cap : Nat} (slots : Nat → α) {out : Nat} (x : α) (hout : out < cap) :
    view cap (Function.update slots out x) ((out + 1) % cap) cap =
      (view cap slots out cap ++ [x]).rtake cap := by
  obtain ⟨n, rfl⟩ : ∃ n, cap = n + 1 := ⟨cap - 1, by omega⟩
  have hslot : ((out + 1) % (n + 1) + n) % (n + 1) = out := by
    rw [Nat.mod_add_mod, show out + 1 + n = out + (n + 1) by omega, Nat.add_mod_right,
      Nat.mod_eq_of_lt hout]
  have hpush := view_push (n + 1) slots ((out + 1) % (n + 1)) x (Nat.lt_succ_self n)
  rw [hslot] at hpush
  rw [hpush, view_succ, List.cons_append, ← List.singleton_append (x := slots (out % (n + 1))),
    rtake_append_of_length_le (by simp), rtake_of_length_le (by simp)]

end Aesd.Verified.RingView
