import Mathlib.Logic.Function.Basic

/-!
# Users of one shared object

Every user has a state of its own, and all work on one shared object in turn.  What a
user does sees and changes the object and the user's own state, and is answered.  An
action is quiet when it leaves the object as it is; what any action does to the object
does not depend on whose it is.

`thin_answers` is the two-run theorem: dropping quiet actions of the others changes
neither the answers of a user nor the object.  `transcript_simulates` carries it from a
model of the object to its implementation.
-/

namespace Aesd.Verified.Bystanders

/-! ## Runs that are answered -/

section Transcript

variable {S T ε ω : Type*} {step : S → ε → ω × S} {step' : T → ε → ω × T}

/-- What the steps of a run answer, in turn, and the state the run leaves. -/
def transcript (step : S → ε → ω × S) : S → List ε → List ω × S
  | s, [] => ([], s)
  | s, e :: run =>
      let rest := transcript step (step s e).2 run
      ((step s e).1 :: rest.1, rest.2)

/-- One more step. -/
theorem transcript_append (s : S) (run : List ε) (e : ε) :
    transcript step s (run ++ [e]) =
      ((transcript step s run).1 ++ [(step (transcript step s run).2 e).1],
        (step (transcript step s run).2 e).2) := by
  induction run generalizing s with
  | nil => rfl
  | cons first run ih => simp only [List.cons_append, transcript, ih]

/-- **The simulation rule.**  Systems whose related states answer alike and stay related
have the same transcripts. -/
theorem transcript_simulates {R : S → T → Prop} {ok : ε → Prop}
    (hstep : ∀ s t e, R s t → ok e → (step s e).1 = (step' t e).1 ∧ R (step s e).2 (step' t e).2)
    {run : List ε} (hrun : ∀ e ∈ run, ok e) {s : S} {t : T} (h : R s t) :
    (transcript step s run).1 = (transcript step' t run).1 ∧
      R (transcript step s run).2 (transcript step' t run).2 := by
  induction run generalizing s t with
  | nil => exact ⟨rfl, h⟩
  | cons e run ih =>
      have hnext := hstep s t e h (hrun e (by simp))
      have hrest := ih (fun e' he' => hrun e' (by simp [he'])) hnext.2
      constructor
      · show _ :: _ = _ :: _
        rw [hnext.1, hrest.1]
      · exact hrest.2

end Transcript

/-! ## Dropping what others do quietly -/

section Thin

variable {ι σ π ε ω : Type*} [DecidableEq ι]

/-- One action of a user, who is named in the answer. -/
def turn (act : σ → π → ε → ω × σ × π) (s : σ × (ι → π)) (e : ι × ε) :
    (ι × ω) × σ × (ι → π) :=
  let r := act s.1 (s.2 e.1) e.2
  ((e.1, r.1), r.2.1, Function.update s.2 e.1 r.2.2)

/-- The second run is the first without some quiet actions of users other than `u`. -/
inductive Thin (quiet : ε → Prop) (u : ι) : List (ι × ε) → List (ι × ε) → Prop
  | nil : Thin quiet u [] []
  | keep (e : ι × ε) {run run' : List (ι × ε)} (h : Thin quiet u run run') :
      Thin quiet u (e :: run) (e :: run')
  | drop {i : ι} {e : ε} (hother : i ≠ u) (hquiet : quiet e) {run run' : List (ι × ε)}
      (h : Thin quiet u run run') : Thin quiet u ((i, e) :: run) run'

omit [DecidableEq ι] in
/-- Everything in a thinned run is in the run. -/
theorem Thin.subset {quiet : ε → Prop} {u : ι} {run run' : List (ι × ε)}
    (h : Thin quiet u run run') : run' ⊆ run := by
  induction h with
  | nil => exact List.Subset.refl _
  | keep e _ ih => exact List.cons_subset_cons e ih
  | drop _ _ _ ih => exact fun _ he => List.mem_cons_of_mem _ (ih he)

/-- The answers to user `u`. -/
def answersTo (u : ι) (answers : List (ι × ω)) : List ω :=
  (answers.filter (·.1 = u)).map Prod.snd

theorem answersTo_cons_self (s : σ × (ι → π)) (act : σ → π → ε → ω × σ × π) (u : ι) (e : ε)
    (answers : List (ι × ω)) :
    answersTo u ((turn act s (u, e)).1 :: answers) =
      (turn act s (u, e)).1.2 :: answersTo u answers := by
  simp [answersTo, turn]

theorem answersTo_cons_of_ne {s : σ × (ι → π)} {act : σ → π → ε → ω × σ × π} {u i : ι} {e : ε}
    {answers : List (ι × ω)} (h : i ≠ u) :
    answersTo u ((turn act s (i, e)).1 :: answers) = answersTo u answers := by
  simp [answersTo, turn, h]

variable {act : σ → π → ε → ω × σ × π} {quiet : ε → Prop} {u : ι}

/-- **The two-run theorem.**  Dropping quiet actions of the others changes neither what a
user is answered nor the object they share. -/
theorem thin_answers (hquiet : ∀ s p e, quiet e → (act s p e).2.1 = s)
    (hblind : ∀ s p q e, (act s p e).2.1 = (act s q e).2.1) {run run' : List (ι × ε)}
    (h : Thin quiet u run run') {s t : σ × (ι → π)} (hshared : s.1 = t.1)
    (hown : s.2 u = t.2 u) :
    answersTo u (transcript (turn act) s run).1 = answersTo u (transcript (turn act) t run').1 ∧
      (transcript (turn act) s run).2.1 = (transcript (turn act) t run').2.1 := by
  induction h generalizing s t with
  | nil => exact ⟨rfl, hshared⟩
  | keep e _ ih =>
      rcases e with ⟨i, e⟩
      simp only [transcript]
      by_cases hi : i = u
      · -- The user's own action sees the same in both runs.
        subst hi
        have hsame : act s.1 (s.2 i) e = act t.1 (t.2 i) e := by rw [hshared, hown]
        have hrest := ih (s := (turn act s (i, e)).2) (t := (turn act t (i, e)).2)
          (congrArg (fun r => r.2.1) hsame) (by simp [turn, hsame])
        constructor
        · rw [answersTo_cons_self, answersTo_cons_self, hrest.1]
          simp only [turn, hsame]
        · exact hrest.2
      · -- Another user's action may see another state of its own.
        have hobject : (act s.1 (s.2 i) e).2.1 = (act t.1 (t.2 i) e).2.1 := by
          rw [hshared]
          exact hblind _ _ _ _
        have hrest := ih (s := (turn act s (i, e)).2) (t := (turn act t (i, e)).2) hobject
          (by simp [turn, Function.update_of_ne (Ne.symm hi), hown])
        constructor
        · rw [answersTo_cons_of_ne hi, answersTo_cons_of_ne hi, hrest.1]
        · exact hrest.2
  | @drop i e hother hq _ _ _ ih =>
      simp only [transcript]
      have hrest := ih (s := (turn act s (i, e)).2) (t := t)
        ((hquiet _ _ _ hq).trans hshared)
        (by simp [turn, Function.update_of_ne (Ne.symm hother), hown])
      constructor
      · rw [answersTo_cons_of_ne hother, hrest.1]
      · exact hrest.2

end Thin

end Aesd.Verified.Bystanders
