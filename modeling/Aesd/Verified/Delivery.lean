import Mathlib.Data.List.Basic

/-!
# A content delivered in fragments

A sender hands a content over in fragments, each cut out of the content at some
position.  The delivery is gapless when every fragment that brings something starts
where the ones before it have stopped; then what has arrived is at all times a prefix of
the content.  `Chained` is the same condition fragment by fragment, which is what an
induction over the fragments wants.
-/

namespace Aesd.Verified.Delivery

/-- A fragment of a content: where it starts, and what of it has been taken. -/
structure Fragment (α : Type*) where
  start : Nat
  taken : List α
  deriving DecidableEq

variable {α : Type*} {content : List α} {fragments : List (Fragment α)}

/-- What has arrived. -/
def delivered (fragments : List (Fragment α)) : List α := fragments.flatMap Fragment.taken

@[simp] theorem delivered_nil : delivered ([] : List (Fragment α)) = [] := rfl

@[simp] theorem delivered_cons (f : Fragment α) (fragments : List (Fragment α)) :
    delivered (f :: fragments) = f.taken ++ delivered fragments := rfl

@[simp] theorem delivered_append (fragments more : List (Fragment α)) :
    delivered (fragments ++ more) = delivered fragments ++ delivered more :=
  List.flatMap_append

/-- At all times, what has arrived is a prefix of the content, and the next fragment that
brings something starts behind it. -/
def Gapless (content : List α) (fragments : List (Fragment α)) : Prop :=
  ∀ n, delivered (fragments.take n) <+: content ∧
    ∀ f, fragments[n]? = some f → f.taken ≠ [] → f.start = (delivered (fragments.take n)).length

/-- From position `p` on, every fragment that brings something starts where the ones
before it have stopped. -/
def Chained : Nat → List (Fragment α) → Prop
  | _, [] => True
  | p, f :: fragments =>
      (f.taken ≠ [] → f.start = p) ∧ Chained (p + f.taken.length) fragments

theorem chained_append {p : Nat} {more : List (Fragment α)} :
    Chained p (fragments ++ more) ↔
      Chained p fragments ∧ Chained (p + (delivered fragments).length) more := by
  induction fragments generalizing p with
  | nil => simp [Chained]
  | cons f fragments ih =>
      rw [List.cons_append, Chained, Chained, ih, delivered_cons, List.length_append,
        Nat.add_assoc, and_assoc]

/-- Gapless delivery of what follows position `p`, fragment by fragment. -/
theorem chained_iff {p : Nat}
    (hcut : ∀ f ∈ fragments, f.taken <+: content.drop f.start) :
    Chained p fragments ↔
      ∀ n, delivered (fragments.take n) <+: content.drop p ∧
        ∀ f, fragments[n]? = some f → f.taken ≠ [] →
          f.start = p + (delivered (fragments.take n)).length := by
  induction fragments generalizing p with
  | nil => simp [Chained]
  | cons f fragments ih =>
      have hcut' : ∀ g ∈ fragments, g.taken <+: content.drop g.start := fun g hg =>
        hcut g (by simp [hg])
      rw [Chained, ih hcut']
      constructor
      · rintro ⟨hfirst, hrest⟩ n
        have hbegins : f.taken <+: content.drop p := by
          by_cases hnone : f.taken = []
          · rw [hnone]
            exact List.nil_prefix
          · rw [← hfirst hnone]
            exact hcut f (by simp)
        cases n with
        | zero => exact ⟨List.nil_prefix, fun g hg hne => by
            obtain rfl : f = g := by simpa using hg
            exact hfirst hne⟩
        | succ n =>
            constructor
            · rw [List.take_succ_cons, delivered_cons]
              rcases hbegins with ⟨tail, htail⟩
              have hdrop : content.drop (p + f.taken.length) = tail := by
                rw [← List.drop_drop, ← htail, List.drop_left]
              rw [← htail, List.prefix_append_right_inj, ← hdrop]
              exact (hrest n).1
            · intro g hg hne
              rw [List.take_succ_cons, delivered_cons, List.length_append, ← Nat.add_assoc]
              exact (hrest n).2 g (by simpa using hg) hne
      · intro hall
        constructor
        · exact fun hne => by simpa using (hall 0).2 f (by simp) hne
        · intro n
          have hnext := hall (n + 1)
          rw [List.take_succ_cons, delivered_cons] at hnext
          constructor
          · rcases hnext.1 with ⟨tail, htail⟩
            refine ⟨tail, ?_⟩
            rw [← List.drop_drop, ← htail, List.append_assoc, List.drop_left]
          · intro g hg hne
            rw [hnext.2 g (by simpa using hg) hne, List.length_append, Nat.add_assoc]

/-- **Gapless delivery**, for fragments cut out of the content. -/
theorem gapless_iff_chained (hcut : ∀ f ∈ fragments, f.taken <+: content.drop f.start) :
    Gapless content fragments ↔ Chained 0 fragments := by
  rw [chained_iff hcut]
  simp only [Gapless, List.drop_zero, Nat.zero_add]

/-! ## Fragments in order -/

/-- From position `p` on, every fragment starts where the one before it has stopped, or
further on. -/
def Ascending : Nat → List (Fragment α) → Prop
  | _, [] => True
  | p, f :: fragments => p ≤ f.start ∧ Ascending (f.start + f.taken.length) fragments

theorem Ascending.mono {p q : Nat} (h : Ascending q fragments) (hle : p ≤ q) :
    Ascending p fragments := by
  cases fragments with
  | nil => trivial
  | cons f fragments => exact ⟨Nat.le_trans hle h.1, h.2⟩

/-- **Delivery in order.**  Nothing arrives twice or out of order, whatever is left out. -/
theorem Ascending.sublist {p : Nat} (h : Ascending p fragments)
    (hcut : ∀ f ∈ fragments, f.taken <+: content.drop f.start) :
    (delivered fragments).Sublist (content.drop p) := by
  induction fragments generalizing p with
  | nil => exact List.nil_sublist _
  | cons f fragments ih =>
      rcases hcut f (by simp) with ⟨tail, htail⟩
      have hrest := ih h.2 fun g hg => hcut g (by simp [hg])
      have hdrop : content.drop (f.start + f.taken.length) = tail := by
        rw [← List.drop_drop, ← htail, List.drop_left]
      have hskip : (content.drop f.start).Sublist (content.drop p) := by
        obtain ⟨n, hn⟩ := Nat.exists_eq_add_of_le h.1
        rw [hn, ← List.drop_drop]
        exact List.drop_sublist _ _
      rw [hdrop] at hrest
      rw [delivered_cons]
      calc (f.taken ++ delivered fragments).Sublist (f.taken ++ tail) := hrest.append_left _
        _ = content.drop f.start := htail
        (content.drop f.start).Sublist (content.drop p) := hskip

end Aesd.Verified.Delivery
