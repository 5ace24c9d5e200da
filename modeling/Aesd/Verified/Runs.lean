import Mathlib.Logic.Basic

/-!
# Runs of a transition function

A system is a function `step` from a state and an input to the next state; an
input that is not enabled leaves the state as it is.  A run is a list of inputs.
`Along` says that every step of a run meets a condition on the state it starts
from and the input it takes; the rules below carry an invariant along such a run.
-/

namespace Aesd.Verified.Runs

variable {σ ι : Type*} {step : σ → ι → σ} {P Q R : σ → ι → Prop} {Inv : σ → Prop}

/-- Every step of the run of `inputs` from `s` meets `P`. -/
def Along (step : σ → ι → σ) (P : σ → ι → Prop) : σ → List ι → Prop
  | _, [] => True
  | s, i :: inputs => P s i ∧ Along step P (step s i) inputs

@[simp] theorem along_nil (s : σ) : Along step P s [] := trivial

@[simp] theorem along_cons (s : σ) (i : ι) (inputs : List ι) :
    Along step P s (i :: inputs) ↔ P s i ∧ Along step P (step s i) inputs := Iff.rfl

theorem along_append {s : σ} {inputs more : List ι} :
    Along step P s (inputs ++ more) ↔
      Along step P s inputs ∧ Along step P (inputs.foldl step s) more := by
  induction inputs generalizing s with
  | nil => simp
  | cons i inputs ih =>
      rw [List.cons_append, along_cons, along_cons, ih, and_assoc, List.foldl_cons]

instance decidableAlong [∀ s i, Decidable (P s i)] :
    (s : σ) → (inputs : List ι) → Decidable (Along step P s inputs)
  | _, [] => isTrue trivial
  | s, i :: inputs =>
      have := decidableAlong (step s i) inputs
      inferInstanceAs (Decidable (P s i ∧ Along step P (step s i) inputs))

/-- A condition on the inputs alone. -/
theorem along_forall {ok : ι → Prop} {s : σ} {inputs : List ι} :
    Along step (fun _ i => ok i) s inputs ↔ ∀ i ∈ inputs, ok i := by
  induction inputs generalizing s with
  | nil => simp
  | cons i inputs ih => rw [along_cons, ih, List.forall_mem_cons]

theorem along_of_forall {ok : ι → Prop} {s : σ} {inputs : List ι} (h : ∀ i ∈ inputs, ok i) :
    Along step (fun _ i => ok i) s inputs :=
  along_forall.2 h

/-- **The invariant rule.**  What one step preserves, a run preserves. -/
theorem invariant {s : σ} {inputs : List ι} (hstep : ∀ s i, Inv s → P s i → Inv (step s i))
    (hs : Inv s) (h : Along step P s inputs) : Inv (inputs.foldl step s) := by
  induction inputs generalizing s with
  | nil => exact hs
  | cons i inputs ih => exact ih (hstep s i hs h.1) h.2

/-- Conditions that agree on a step from a state of the invariant agree on a run. -/
theorem along_congr {s : σ} {inputs : List ι} (hstep : ∀ s i, Inv s → P s i → Inv (step s i))
    (hiff : ∀ s i, Inv s → P s i → (Q s i ↔ R s i)) (hs : Inv s)
    (h : Along step P s inputs) : Along step Q s inputs ↔ Along step R s inputs := by
  induction inputs generalizing s with
  | nil => exact Iff.rfl
  | cons i inputs ih => exact and_congr (hiff s i hs h.1) (ih (hstep s i hs h.1) h.2)

/-- **The rule of a lasting fault.**  When a state that is no longer good never becomes
good again, and a step from a good state of the invariant leaves a good one exactly when
it meets `Q`, the last state of a run tells whether all its steps met `Q`. -/
theorem along_iff_of_lasting {good : σ → Prop} {s : σ} {inputs : List ι}
    (hstep : ∀ s i, Inv s → Q s i → Inv (step s i))
    (hgood : ∀ s i, Inv s → good s → (good (step s i) ↔ Q s i))
    (hlast : ∀ s i, good (step s i) → good s) (hs : Inv s) (hstart : good s) :
    good (inputs.foldl step s) ↔ Along step Q s inputs := by
  have hback : ∀ (s : σ) (inputs : List ι), good (inputs.foldl step s) → good s := by
    intro s inputs
    induction inputs generalizing s with
    | nil => exact id
    | cons i inputs ih => exact fun h => hlast s i (ih _ h)
  induction inputs generalizing s with
  | nil => exact iff_of_true hstart trivial
  | cons i inputs ih =>
      constructor
      · intro h
        have hnext : good (step s i) := hback _ inputs h
        have hi := (hgood s i hs hstart).1 hnext
        exact ⟨hi, (ih (hstep s i hs hi) hnext).1 h⟩
      · intro h
        exact (ih (hstep s i hs h.1) ((hgood s i hs hstart).2 h.1)).2 h.2

theorem Along.take {s : σ} {inputs : List ι} (h : Along step P s inputs) (n : Nat) :
    Along step P s (inputs.take n) := by
  induction inputs generalizing s n with
  | nil => simp
  | cons i inputs ih =>
      cases n with
      | zero => trivial
      | succ n => exact ⟨h.1, ih h.2 n⟩

theorem along_and {s : σ} {inputs : List ι} (hP : Along step P s inputs)
    (hQ : Along step Q s inputs) : Along step (fun s i => P s i ∧ Q s i) s inputs := by
  induction inputs generalizing s with
  | nil => trivial
  | cons i inputs ih => exact ⟨⟨hP.1, hQ.1⟩, ih hP.2 hQ.2⟩

/-- **The countdown rule.**  When a state is held until so many steps of its owner have
been made, whatever the others do in between, a run gives it up exactly if it has that
many steps of the owner. -/
theorem given_up_iff (Inv held : σ → Prop) (rank : σ → Nat) (own : ι → Bool)
    (hstep : ∀ s i, Inv s → P s i → Inv (step s i))
    (hpos : ∀ s, Inv s → held s → 0 < rank s)
    (hown : ∀ s i, Inv s → P s i → held s → own i = true →
      (held (step s i) ∧ rank (step s i) + 1 = rank s) ∨ (¬held (step s i) ∧ rank s = 1))
    (hother : ∀ s i, Inv s → P s i → held s → own i = false →
      held (step s i) ∧ rank (step s i) = rank s)
    {s : σ} {inputs : List ι} (hs : Inv s) (hheld : held s) (h : Along step P s inputs) :
    (∃ n, ¬held ((inputs.take n).foldl step s)) ↔ rank s ≤ inputs.countP own := by
  induction inputs generalizing s with
  | nil =>
      have hrank := hpos s hs hheld
      simp only [List.take_nil, List.foldl_nil, List.countP_nil]
      exact iff_of_false (fun ⟨_, hn⟩ => hn hheld) (by omega)
  | cons i inputs ih =>
      have hi := hstep s i hs h.1
      -- The state is given up in the first step, or later on.
      have hcons : (∃ n, ¬held (((i :: inputs).take n).foldl step s)) ↔
          ∃ n, ¬held ((inputs.take n).foldl step (step s i)) := by
        constructor
        · rintro ⟨n, hn⟩
          cases n with
          | zero => exact absurd hheld hn
          | succ n => exact ⟨n, hn⟩
        · rintro ⟨n, hn⟩
          exact ⟨n + 1, hn⟩
      rw [hcons]
      cases hwho : own i with
      | false =>
          obtain ⟨hheld', hrank⟩ := hother s i hs h.1 hheld hwho
          rw [ih hi hheld' h.2, hrank, List.countP_cons_of_neg (by simp [hwho])]
      | true =>
          rw [List.countP_cons_of_pos hwho]
          rcases hown s i hs h.1 hheld hwho with ⟨hheld', hrank⟩ | ⟨hfreed, hrank⟩
          · rw [ih hi hheld' h.2]
            omega
          · exact iff_of_true ⟨0, hfreed⟩ (by omega)

end Aesd.Verified.Runs
