import Mathlib.Algebra.Ring.Nat
import Mathlib.Data.List.DropRight
import Mathlib.Algebra.BigOperators.Group.List.Basic
import Mathlib.Data.Set.Function
import Mathlib.Order.Interval.Set.Defs

/-!
# Positions in a concatenation

A list of segments laid end to end is one sequence.  `locate` finds the segment
that holds a position and the offset inside it, and `segmentsFrom` cuts the list at
a position.  `place` is the way back: `locate_eq_some_iff` says that the two are
inverse, and `locate_bijOn` that every byte of every segment has a position of its
own.
-/

namespace Aesd.Verified.Segments

/-- The segment holding position `p` and the offset of `p` inside it. -/
def locate : List Nat → Nat → Option (Nat × Nat)
  | [], _ => none
  | s :: ss, p =>
      if p < s then some (0, p) else (locate ss (p - s)).map fun r => (r.1 + 1, r.2)

/-- The position of byte `r.2` of segment `r.1`. -/
def place (sizes : List Nat) (r : Nat × Nat) : Nat := (sizes.take r.1).sum + r.2

/-- The bytes of the segments, each named by its segment and its offset in it. -/
def Bytes (sizes : List Nat) : Set (Nat × Nat) := {r | ∃ h : r.1 < sizes.length, r.2 < sizes[r.1]}

/-- The segments from position `p` on, the first one without what stands before `p`. -/
def segmentsFrom {α : Type*} : List (List α) → Nat → List (List α)
  | [], _ => []
  | s :: ss, p => if p < s.length then s.drop p :: ss else segmentsFrom ss (p - s.length)

/-! ## Finding a position -/

theorem mem_bytes {sizes : List Nat} {r : Nat × Nat} :
    r ∈ Bytes sizes ↔ ∃ h : r.1 < sizes.length, r.2 < sizes[r.1] := Iff.rfl

theorem mem_bytes_zero {s o : Nat} {ss : List Nat} : (0, o) ∈ Bytes (s :: ss) ↔ o < s := by
  simp [mem_bytes]

theorem mem_bytes_succ {s i o : Nat} {ss : List Nat} :
    (i + 1, o) ∈ Bytes (s :: ss) ↔ (i, o) ∈ Bytes ss := by
  simp [mem_bytes]

@[simp] theorem place_zero (s o : Nat) (ss : List Nat) : place (s :: ss) (0, o) = o := by
  simp [place]

@[simp] theorem place_succ (s i o : Nat) (ss : List Nat) :
    place (s :: ss) (i + 1, o) = s + place ss (i, o) := by
  simp [place, Nat.add_assoc]

/-- **Finding and placing are inverse.** -/
theorem locate_eq_some_iff {sizes : List Nat} {p : Nat} {r : Nat × Nat} :
    locate sizes p = some r ↔ r ∈ Bytes sizes ∧ place sizes r = p := by
  induction sizes generalizing p r with
  | nil => simp [locate, mem_bytes]
  | cons s ss ih =>
      rw [locate]
      rcases r with ⟨_ | i, o⟩
      · rw [mem_bytes_zero, place_zero]
        by_cases hp : p < s
        · rw [if_pos hp, Option.some.injEq, Prod.mk.injEq]
          constructor
          · rintro ⟨-, rfl⟩
            exact ⟨hp, rfl⟩
          · exact fun h => ⟨rfl, h.2.symm⟩
        · rw [if_neg hp, Option.map_eq_some_iff]
          constructor
          · rintro ⟨r, -, heq⟩
            cases heq
          · rintro ⟨ho, rfl⟩
            exact absurd ho hp
      · rw [mem_bytes_succ, place_succ]
        by_cases hp : p < s
        · rw [if_pos hp, Option.some.injEq, Prod.mk.injEq]
          constructor
          · rintro ⟨hzero, -⟩
            cases hzero
          · rintro ⟨-, h⟩
            omega
        · rw [if_neg hp, Option.map_eq_some_iff]
          constructor
          · rintro ⟨⟨j, o'⟩, hloc, heq⟩
            simp only [Prod.mk.injEq, Nat.add_right_cancel_iff] at heq
            obtain ⟨rfl, rfl⟩ := heq
            have hfound := ih.1 hloc
            exact ⟨hfound.1, by omega⟩
          · rintro ⟨hr, hplace⟩
            exact ⟨(i, o), ih.2 ⟨hr, by omega⟩, rfl⟩

/-- A position is found unless it lies behind the last segment. -/
theorem locate_eq_none_iff {sizes : List Nat} {p : Nat} :
    locate sizes p = none ↔ sizes.sum ≤ p := by
  induction sizes generalizing p with
  | nil => simp [locate]
  | cons s ss ih =>
      rw [locate, List.sum_cons]
      by_cases hp : p < s
      · rw [if_pos hp]
        constructor
        · intro h
          cases h
        · intro h
          omega
      · rw [if_neg hp, Option.map_eq_none_iff, ih]
        omega

/-- Every byte has its place below the total. -/
theorem place_lt_sum {sizes : List Nat} {r : Nat × Nat} (hr : r ∈ Bytes sizes) :
    place sizes r < sizes.sum := by
  have hloc : locate sizes (place sizes r) = some r := locate_eq_some_iff.2 ⟨hr, rfl⟩
  apply Nat.lt_of_not_le
  intro hle
  rw [locate_eq_none_iff.2 hle] at hloc
  cases hloc

/-- What is left of a segment behind one of its bytes ends below the total. -/
theorem place_add_le {sizes : List Nat} {i o : Nat} (hi : i < sizes.length)
    (ho : o ≤ sizes[i]) : place sizes (i, o) + (sizes[i] - o) ≤ sizes.sum := by
  have hsplit := congrArg List.sum (List.take_append_drop i sizes)
  rw [List.drop_eq_getElem_cons hi, List.sum_append, List.sum_cons] at hsplit
  show (sizes.take i).sum + o + (sizes[i] - o) ≤ sizes.sum
  omega

/-- **Positions below the total and bytes of segments correspond one to one.** -/
theorem locate_bijOn (sizes : List Nat) :
    Set.BijOn (locate sizes) (Set.Iio sizes.sum) (some '' Bytes sizes) := by
  refine ⟨fun p hp => ?_, fun p hp q hq heq => ?_, ?_⟩
  · cases hloc : locate sizes p with
    | none => exact absurd (locate_eq_none_iff.1 hloc) (Nat.not_le.2 hp)
    | some r => exact ⟨r, (locate_eq_some_iff.1 hloc).1, rfl⟩
  · cases hloc : locate sizes p with
    | none => exact absurd (locate_eq_none_iff.1 hloc) (Nat.not_le.2 hp)
    | some r =>
        have hp' : place sizes r = p := (locate_eq_some_iff.1 hloc).2
        have hq' : place sizes r = q := (locate_eq_some_iff.1 (heq ▸ hloc)).2
        exact hp'.symm.trans hq'
  · rintro _ ⟨r, hr, rfl⟩
    exact ⟨place sizes r, place_lt_sum hr, locate_eq_some_iff.2 ⟨hr, rfl⟩⟩

/-! ## Cutting at a position -/

variable {α : Type*} {segs : List (List α)} {p : Nat}

theorem flatten_segmentsFrom (segs : List (List α)) (p : Nat) :
    (segmentsFrom segs p).flatten = segs.flatten.drop p := by
  induction segs generalizing p with
  | nil => simp [segmentsFrom]
  | cons s ss ih =>
      by_cases hp : p < s.length
      · rw [segmentsFrom, if_pos hp, List.flatten_cons, List.flatten_cons,
          List.drop_append_of_le_length hp.le]
      · have hnil : s.drop p = [] := List.drop_eq_nil_of_le (by omega)
        rw [segmentsFrom, if_neg hp, ih, List.flatten_cons, List.drop_append, hnil,
          List.nil_append]

theorem segmentsFrom_of_locate_none (h : locate (segs.map List.length) p = none) :
    segmentsFrom segs p = [] := by
  induction segs generalizing p with
  | nil => rfl
  | cons s ss ih =>
      by_cases hp : p < s.length
      · simp [locate, hp] at h
      · simp only [List.map_cons, locate, hp, if_false, Option.map_eq_none_iff] at h
        rw [segmentsFrom, if_neg hp, ih h]

theorem segmentsFrom_of_locate {i o : Nat} (h : locate (segs.map List.length) p = some (i, o)) :
    ∃ hi : i < segs.length, o < segs[i].length ∧
      segmentsFrom segs p = segs[i].drop o :: segs.drop (i + 1) := by
  induction segs generalizing p i with
  | nil => simp [locate] at h
  | cons s ss ih =>
      by_cases hp : p < s.length
      · simp only [List.map_cons, locate, hp, if_true, Option.some.injEq,
          Prod.mk.injEq] at h
        obtain ⟨rfl, rfl⟩ := h
        exact ⟨by simp, hp, by rw [segmentsFrom, if_pos hp]; rfl⟩
      · simp only [List.map_cons, locate, hp, if_false, Option.map_eq_some_iff,
          Prod.mk.injEq, Prod.exists] at h
        obtain ⟨j, o', hloc, rfl, rfl⟩ := h
        obtain ⟨hj, ho, hfrom⟩ := ih hloc
        exact ⟨by simpa using hj, ho, by rw [segmentsFrom, if_neg hp, hfrom]; rfl⟩

/-- Cutting non-empty segments leaves non-empty segments. -/
theorem ne_nil_of_mem_segmentsFrom (hne : ∀ s ∈ segs, s ≠ []) :
    ∀ s ∈ segmentsFrom segs p, s ≠ [] := by
  induction segs generalizing p with
  | nil => simp [segmentsFrom]
  | cons s ss ih =>
      have hss : ∀ t ∈ ss, t ≠ [] := fun t ht => hne t (by simp [ht])
      by_cases hp : p < s.length
      · rw [segmentsFrom, if_pos hp]
        intro t ht
        rcases List.mem_cons.1 ht with rfl | ht
        · simpa using hp
        · exact hss t ht
      · rw [segmentsFrom, if_neg hp]
        exact ih hss

theorem segmentsFrom_zero (hne : ∀ s ∈ segs, s ≠ []) : segmentsFrom segs 0 = segs := by
  cases segs with
  | nil => rfl
  | cons s ss =>
      rw [segmentsFrom, if_pos (List.length_pos_of_ne_nil (hne s (by simp))), List.drop_zero]

/-- Past the first of the segments from `p` on stand the others. -/
theorem segmentsFrom_add_length {s : List α} {ss : List (List α)} (hne : ∀ s ∈ segs, s ≠ [])
    (h : segmentsFrom segs p = s :: ss) : segmentsFrom segs (p + s.length) = ss := by
  induction segs generalizing p with
  | nil => cases h
  | cons t ts ih =>
      have hts : ∀ s ∈ ts, s ≠ [] := fun s hs => hne s (by simp [hs])
      by_cases hp : p < t.length
      · rw [segmentsFrom, if_pos hp, List.cons.injEq] at h
        obtain ⟨rfl, rfl⟩ := h
        rw [List.length_drop, Nat.add_sub_cancel' hp.le, segmentsFrom,
          if_neg (Nat.lt_irrefl _), Nat.sub_self, segmentsFrom_zero hts]
      · rw [segmentsFrom, if_neg hp] at h
        rw [segmentsFrom, if_neg (by omega), Nat.sub_add_comm (by omega)]
        exact ih hts h

end Aesd.Verified.Segments
