import Mathlib.Data.List.DropRight

/-!
# Terminated lines of a stream

A stream over any alphabet is read as a sequence of lines, each closed by the
terminator `nl`, followed by an unfinished tail.  `lines` and `rest` are that
reading.  Everything a consumer needs when the stream arrives in pieces is in
`lines_append` and `rest_append`: only the unfinished tail of what came before
is remembered.

A log with eviction keeps the last `n` elements of a growing list;
`rtake_rtake_append` says that evicting early loses nothing that evicting late
would have kept.
-/

namespace Aesd.Verified.Lines

variable {α : Type*}

/-- One whole line: the terminator closes it and occurs nowhere before. -/
def IsLine (nl : α) (l : List α) : Prop := ∃ body, nl ∉ body ∧ l = body ++ [nl]

theorem IsLine.pos {nl : α} {l : List α} (h : IsLine nl l) : 0 < l.length := by
  obtain ⟨body, -, rfl⟩ := h
  simp

/-- The first terminator cuts a stream into a line and a remainder. -/
theorem exists_first_line {nl : α} {s : List α} (h : nl ∈ s) :
    ∃ body t, nl ∉ body ∧ s = body ++ nl :: t := by
  obtain ⟨body, t, hs, hbody⟩ := List.eq_append_cons_of_mem h
  exact ⟨body, t, hbody, hs⟩

/-- Induction along the lines of a stream. -/
theorem lines_induction (nl : α) {motive : List α → Prop}
    (tail : ∀ s, nl ∉ s → motive s)
    (line : ∀ body s, nl ∉ body → motive s → motive (body ++ nl :: s)) (s : List α) :
    motive s := by
  induction hn : s.length using Nat.strong_induction_on generalizing s with
  | _ n ih =>
      by_cases h : nl ∈ s
      · obtain ⟨body, t, hbody, rfl⟩ := exists_first_line h
        refine line body t hbody (ih t.length ?_ t rfl)
        simp at hn
        omega
      · exact tail s h

/-! ## Keeping the last elements -/

theorem rtake_append_of_length_le {n : Nat} {a b : List α} (h : n ≤ b.length) :
    (a ++ b).rtake n = b.rtake n := by
  rw [List.rtake, List.rtake, List.length_append, List.drop_append,
    List.drop_eq_nil_of_le (by omega), List.nil_append]
  congr 1
  omega

theorem rtake_of_length_le {n : Nat} {a : List α} (h : a.length ≤ n) : a.rtake n = a := by
  simp [List.rtake, Nat.sub_eq_zero_of_le h]

@[simp] theorem length_rtake (n : Nat) (a : List α) : (a.rtake n).length = min n a.length := by
  simp only [List.rtake, List.length_drop]
  omega

/-- What has been kept of a list keeps its last elements. -/
theorem suffix_rtake_append {n : Nat} (a : List α) {b : List α} (h : b.length ≤ n) :
    b <:+ (a ++ b).rtake n := by
  rw [List.rtake, List.length_append, List.drop_append_of_le_length (by omega)]
  exact List.suffix_append _ _

/-- Evicting before an append keeps everything the final eviction keeps. -/
theorem rtake_rtake_append (n : Nat) (a b : List α) :
    (a.rtake n ++ b).rtake n = (a ++ b).rtake n := by
  have hsplit : a = a.take (a.length - n) ++ a.rtake n := by simp [List.rtake]
  rcases Nat.lt_or_ge a.length n with h | h
  · rw [rtake_of_length_le h.le]
  · conv_rhs => rw [hsplit, List.append_assoc]
    rw [rtake_append_of_length_le (b := a.rtake n ++ b)]
    simp [h]

/-! ## Lines and the unfinished tail -/

variable [DecidableEq α]

/-- The lines of `s`, each with its terminator. -/
def lines (nl : α) : List α → List (List α)
  | [] => []
  | c :: cs =>
      if c = nl then [c] :: lines nl cs
      else match lines nl cs with
        | [] => []
        | l :: ls => (c :: l) :: ls

/-- What follows the last terminator of `s`. -/
def rest (nl : α) (s : List α) : List α := s.rtakeWhile (· ≠ nl)

@[simp] theorem lines_nil (nl : α) : lines nl [] = [] := rfl

@[simp] theorem rest_nil (nl : α) : rest nl [] = [] := by simp [rest]

theorem lines_of_not_mem {nl : α} {s : List α} (h : nl ∉ s) : lines nl s = [] := by
  induction s with
  | nil => rfl
  | cons c cs ih =>
      simp only [List.mem_cons, not_or] at h
      simp [lines, Ne.symm h.1, ih h.2]

theorem rest_of_not_mem {nl : α} {s : List α} (h : nl ∉ s) : rest nl s = s := by
  rw [rest, List.rtakeWhile_eq_self_iff]
  intro x hx
  simpa using fun heq : x = nl => h (heq ▸ hx)

theorem not_mem_rest (nl : α) (s : List α) : nl ∉ rest nl s := by
  intro h
  simpa using List.mem_rtakeWhile_imp h

theorem lines_line_append {nl : α} {body : List α} (h : nl ∉ body) (s : List α) :
    lines nl (body ++ nl :: s) = (body ++ [nl]) :: lines nl s := by
  induction body with
  | nil => simp [lines]
  | cons c cs ih =>
      simp only [List.mem_cons, not_or] at h
      simp [lines, Ne.symm h.1, ih h.2]

theorem rest_append_cons (nl : α) (s t : List α) :
    rest nl (s ++ nl :: t) = rest nl t := by
  induction t using List.reverseRecOn with
  | nil => simp [rest]
  | append_singleton t c ih =>
      rw [rest, rest, ← List.cons_append, ← List.append_assoc]
      by_cases hc : c = nl
      · rw [List.rtakeWhile_concat_neg _ _ _ (by simp [hc]),
          List.rtakeWhile_concat_neg _ _ _ (by simp [hc])]
      · rw [List.rtakeWhile_concat_pos _ _ _ (by simp [hc]),
          List.rtakeWhile_concat_pos _ _ _ (by simp [hc])]
        simpa [rest] using ih

/-- The lines and the tail are the whole stream. -/
theorem flatten_lines_append_rest (nl : α) (s : List α) :
    (lines nl s).flatten ++ rest nl s = s := by
  induction s using lines_induction nl with
  | tail s h => simp [lines_of_not_mem h, rest_of_not_mem h]
  | line body s h ih =>
      rw [lines_line_append h, rest_append_cons]
      simp [ih]

theorem isLine_of_mem_lines {nl : α} {s l : List α} (h : l ∈ lines nl s) : IsLine nl l := by
  induction s using lines_induction nl with
  | tail s hs => simp [lines_of_not_mem hs] at h
  | line body s hbody ih =>
      rw [lines_line_append hbody, List.mem_cons] at h
      rcases h with rfl | h
      · exact ⟨body, hbody, rfl⟩
      · exact ih h

/-- A stream has as many lines as terminators. -/
theorem length_lines (nl : α) (s : List α) : (lines nl s).length = s.count nl := by
  induction s using lines_induction nl with
  | tail s h => rw [lines_of_not_mem h, List.count_eq_zero.2 h, List.length_nil]
  | line body s h ih =>
      rw [lines_line_append h, List.length_cons, ih, List.count_append, List.count_eq_zero.2 h,
        List.count_cons_self, Nat.zero_add]

/-- Nothing follows the terminator of a last line. -/
theorem rest_concat (nl : α) (s : List α) : rest nl (s ++ [nl]) = [] := by
  rw [rest_append_cons, rest_nil]

/-! ## Streams that arrive in pieces -/

theorem lines_append (nl : α) (s t : List α) :
    lines nl (s ++ t) = lines nl s ++ lines nl (rest nl s ++ t) := by
  induction s using lines_induction nl with
  | tail s h => simp [lines_of_not_mem h, rest_of_not_mem h]
  | line body s h ih =>
      rw [List.append_assoc, List.cons_append, lines_line_append h, lines_line_append h,
        rest_append_cons, ih, List.cons_append]

theorem rest_append (nl : α) (s t : List α) :
    rest nl (s ++ t) = rest nl (rest nl s ++ t) := by
  induction s using lines_induction nl with
  | tail s h => rw [rest_of_not_mem h]
  | line body s h ih =>
      rw [List.append_assoc, List.cons_append, rest_append_cons, rest_append_cons, ih]

end Aesd.Verified.Lines
