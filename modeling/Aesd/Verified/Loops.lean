import Mathlib.Data.Nat.Notation
import Mathlib.Logic.Relation

/-!
# Loops that are left from the middle

One round of a loop either leaves it with a result or goes round again in a new
state.  `Ends` says that finitely many rounds leave the loop; it is what a function
on fuel has to be compared with, since a function that has run out of fuel returns
something as well.  `ends_of_fuel` is the comparison: enough fuel is as much as the
measure of the loop.
-/

namespace Aesd.Verified.Loops

variable {σ ρ : Type*} {round : σ → ρ ⊕ σ}

/-- From `s`, finitely many rounds leave the loop with `r`. -/
inductive Ends (round : σ → ρ ⊕ σ) : σ → ρ → Prop
  | leave {s : σ} {r : ρ} (h : round s = .inl r) : Ends round s r
  | again {s s' : σ} {r : ρ} (h : round s = .inr s') (hrest : Ends round s' r) : Ends round s r

/-- A loop is left in one way only. -/
theorem Ends.unique {s : σ} {r r' : ρ} (h : Ends round s r) (h' : Ends round s r') : r = r' := by
  induction h with
  | leave hround =>
      cases h' with
      | leave hround' => exact Sum.inl.inj (hround.symm.trans hround')
      | again hround' _ => exact absurd (hround.symm.trans hround') Sum.inl_ne_inr
  | again hround _ ih =>
      cases h' with
      | leave hround' => exact absurd (hround.symm.trans hround') Sum.inr_ne_inl
      | again hround' hrest' =>
          obtain rfl := Sum.inr.inj (hround.symm.trans hround')
          exact ih hrest'

/-- The loop goes round again. -/
def Again (round : σ → ρ ⊕ σ) (s s' : σ) : Prop := round s = .inr s'

/-- **The invariant of a loop.**  What a further round preserves holds in every round. -/
theorem invariant_rounds {Inv : σ → Prop} (hstep : ∀ s s', Inv s → round s = .inr s' → Inv s')
    {s s' : σ} (hs : Inv s) (h : Relation.ReflTransGen (Again round) s s') : Inv s' := by
  induction h with
  | refl => exact hs
  | tail _ hround ih => exact hstep _ _ ih hround

/-- Rounds made first leave the loop as the rest of it does. -/
theorem Ends.after {s s' : σ} {r : ρ} (h : Relation.ReflTransGen (Again round) s s')
    (hrest : Ends round s' r) : Ends round s r := by
  induction h with
  | refl => exact hrest
  | tail _ hround ih => exact ih (.again hround hrest)

/-- The loop is left from a round of the invariant. -/
theorem Ends.leaves {Inv : σ → Prop} (hstep : ∀ s s', Inv s → round s = .inr s' → Inv s')
    {s : σ} {r : ρ} (h : Ends round s r) (hs : Inv s) : ∃ last, Inv last ∧ round last = .inl r := by
  induction h with
  | leave hround => exact ⟨_, hs, hround⟩
  | again hround _ ih => exact ih (hstep _ _ hs hround)

/-- **Enough fuel.**  When each further round lowers a measure, the function on fuel
that makes the rounds computes what the loop is left with. -/
theorem ends_of_fuel (Inv : σ → Prop) (μ : σ → Nat) {f : Nat → σ → ρ}
    (hzero : ∀ s, Inv s → μ s = 0 → round s = .inl (f 0 s))
    (hsucc : ∀ fuel s, f (fuel + 1) s = (round s).elim id (f fuel))
    (hstep : ∀ s s', Inv s → round s = .inr s' → Inv s' ∧ μ s' < μ s)
    {fuel : Nat} {s : σ} (hs : Inv s) (hfuel : μ s ≤ fuel) : Ends round s (f fuel s) := by
  induction fuel generalizing s with
  | zero => exact .leave (hzero s hs (Nat.le_zero.1 hfuel))
  | succ fuel ih =>
      rw [hsucc]
      cases hround : round s with
      | inl r => exact .leave hround
      | inr s' =>
          have hnext := hstep s s' hs hround
          exact .again hround (ih hnext.1 (by omega))

/-- **No fuel is enough** for a loop that can always make another round. -/
theorem never_ends {f : Nat → σ → Option ρ} (Inv : σ → Prop) (hzero : ∀ s, f 0 s = none)
    (hstep : ∀ s, Inv s → ∃ s', Inv s' ∧ ∀ fuel, f (fuel + 1) s = f fuel s') (fuel : Nat) {s : σ}
    (hs : Inv s) : f fuel s = none := by
  induction fuel generalizing s with
  | zero => exact hzero s
  | succ fuel ih =>
      rcases hstep s hs with ⟨s', hs', hnext⟩
      rw [hnext, ih hs']

end Aesd.Verified.Loops
