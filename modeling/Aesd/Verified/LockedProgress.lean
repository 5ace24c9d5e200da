import Aesd.Verified.Fairness
import Aesd.Verified.LockedCalls

/-!
# Calls under one lock return

The lock does not say which of the waiting threads comes next, and the rounds of a call
depend on what the others have left.  As long as every thread goes on again and again, a
call that has the lock gets its answer and returns all the same.  A call that waits may be
overtaken by ever new calls; when no more calls are made, it returns as well.
-/

namespace Aesd.Verified.LockedCalls

open Aesd.Verified.Fairness
open Aesd.Verified.Loops

variable {σ α κ ρ τ : Type*} {svc : Service σ α κ ρ} {init : σ}

/-- Every call that nobody interrupts is answered. -/
def Service.Total (svc : Service σ α κ ρ) (init : σ) (τ : Type*) : Prop :=
  ∀ (order : List (τ × α × ρ)) (data : σ) (a : α), Serial svc init order data →
    ∃ r data', svc.Answers data a r data'

/-- What is left of a loop ends as the loop does. -/
theorem ends_of_rounds {x x' : σ × κ} {out : σ × Reply ρ} (h : Ends svc.round x out)
    (hrounds : Relation.ReflTransGen (Again svc.round) x x') : Ends svc.round x' out := by
  induction hrounds with
  | refl => exact h
  | tail _ hround ih =>
      cases ih with
      | leave hleave => exact absurd (hleave.symm.trans hround) Sum.inl_ne_inr
      | again hround' hrest =>
          obtain rfl := Sum.inr.inj (hround'.symm.trans hround)
          exact hrest

/-- A thread inside still comes to its answer. -/
theorem HolderSees.ends {data : σ} {order : List (τ × α × ρ)} {a : α} {l : κ}
    (h : HolderSees svc init data order (.inside a l)) (htotal : svc.Total init τ) :
    ∃ out, Ends svc.round (data, l) out := by
  obtain ⟨before, first, hserial, henter, hrounds⟩ := h
  obtain ⟨r, data', hanswers⟩ := htotal order before a hserial
  rw [Service.Answers, henter] at hanswers
  exact ⟨_, ends_of_rounds hanswers hrounds⟩

/-! ## The object under the thread inside -/

instance : (p : Phase α κ ρ) → Decidable (p = .idle)
  | .idle => isTrue rfl
  | .waiting _ _ | .inside _ _ | .leaving _ _ | .returning _ _ => isFalse (by simp)

section Steps

variable [DecidableEq τ] {s : State σ α κ ρ τ} {t : τ}

/-- Nobody changes the object under the thread that is inside. -/
theorem Inv.data_stays (h : Inv svc init s) {action : Action α τ} (hmine : action ≠ .go t)
    (hholds : (s.phase t).Holds) : (LockedCalls.step svc s action).data = s.data := by
  have hbusy : s.phase t ≠ .idle := by
    intro hidle
    rw [hidle] at hholds
    exact hholds
  by_cases hthread : action.thread = t
  · cases action with
    | go u => exact absurd (congrArg Action.go hthread) hmine
    | call u a =>
        obtain rfl : u = t := hthread
        rw [step_call_of_busy hbusy]
  · exact data_step_of_not_holds ((h.guarded.holder hholds).2.1 _ hthread)

end Steps

/-! ## Runs without end -/

section Endless

variable [DecidableEq τ]

/-- The system after so many actions. -/
def after (svc : Service σ α κ ρ) (init : σ) (actions : ℕ → Action α τ) (n : ℕ) :
    State σ α κ ρ τ :=
  stateAt (step svc) (State.start init) actions n

variable {actions : ℕ → Action α τ} {t : τ}

theorem inv_after (hquiet : ∀ n, FreedQuiet (after svc init actions n) (actions n)) (n : ℕ) :
    Inv svc init (after svc init actions n) :=
  invariant_at (fun _ i h hi => h.step i hi) (inv_start svc init) hquiet n

theorem held_after (n : ℕ) (h : (after svc init actions n).held = true) :
    ∃ u, ((after svc init actions n).phase u).Holds := by
  induction n with
  | zero => cases h
  | succ n ih => exact held_step ih (actions n) h

theorem after_succ (n : ℕ) :
    after svc init actions (n + 1) = step svc (after svc init actions n) (actions n) := rfl

section Returns

variable (hfair : Fair (fun t i => i = .go t) actions)

include hfair

/-- A thread in a call goes on from where it is. -/
theorem exists_go {n : ℕ} {p : Phase α κ ρ} (h : (after svc init actions n).phase t = p)
    (hbusy : p ≠ .idle) :
    ∃ k ≥ n, after svc init actions (k + 1) = step svc (after svc init actions k) (.go t) ∧
      (after svc init actions k).phase t = p := by
  have hothers : ∀ k ≥ n, (after svc init actions k).phase t = p → actions k ≠ .go t →
      (after svc init actions (k + 1)).phase t = p := by
    intro k _ hphase hmine
    rw [after_succ, phase_stays hmine (hphase ▸ hbusy), hphase]
  obtain ⟨k, hk, hgo, hphase⟩ := until_own hfair
    (p := fun s : State σ α κ ρ τ => s.phase t = p) hothers h
  exact ⟨k, hk, by rw [after_succ, hgo], hphase⟩

/-- A call that has its answer and does not hold the lock returns. -/
theorem returning_returns {a : α} {x : ρ} (frees : Nat) {n : ℕ}
    (h : (after svc init actions n).phase t = .returning a ⟨x, frees⟩) :
    ∃ k ≥ n, (after svc init actions k).phase t = .idle := by
  induction frees generalizing n with
  | zero =>
      obtain ⟨k, hk, hgo, hphase⟩ := exists_go hfair h (by simp)
      refine ⟨k + 1, by omega, ?_⟩
      simp [hgo, step, hphase, State.put]
  | succ frees ih =>
      obtain ⟨k, hk, hgo, hphase⟩ := exists_go hfair h (by simp)
      have hnext : (after svc init actions (k + 1)).phase t = .returning a ⟨x, frees⟩ := by
        simp [hgo, step, hphase, State.put]
      obtain ⟨m, hm, hidle⟩ := ih hnext
      exact ⟨m, by omega, hidle⟩

theorem leaving_returns {a : α} {r : Reply ρ} {n : ℕ}
    (h : (after svc init actions n).phase t = .leaving a r) :
    ∃ k ≥ n, (after svc init actions k).phase t = .idle := by
  obtain ⟨k, hk, hgo, hphase⟩ := exists_go hfair h (by simp)
  have hnext : (after svc init actions (k + 1)).phase t = .returning a ⟨r.answer, r.frees⟩ := by
    simp [hgo, step, hphase, State.put]
  obtain ⟨m, hm, hidle⟩ := returning_returns hfair r.frees hnext
  exact ⟨m, by omega, hidle⟩

variable (hquiet : ∀ n, FreedQuiet (after svc init actions n) (actions n))

include hquiet

/-- A thread inside makes its next round on the object as it has left it. -/
theorem exists_round {a : α} {l : κ} {n : ℕ}
    (h : (after svc init actions n).phase t = .inside a l) :
    ∃ k ≥ n, after svc init actions (k + 1) = step svc (after svc init actions k) (.go t) ∧
      (after svc init actions k).phase t = .inside a l ∧
      (after svc init actions k).data = (after svc init actions n).data := by
  have hothers : ∀ k ≥ n,
      (after svc init actions k).phase t = .inside a l ∧
        (after svc init actions k).data = (after svc init actions n).data →
      actions k ≠ .go t →
      (after svc init actions (k + 1)).phase t = .inside a l ∧
        (after svc init actions (k + 1)).data = (after svc init actions n).data := by
    rintro k _ ⟨hphase, hdata⟩ hmine
    have hbusy : (after svc init actions k).phase t ≠ .idle := by
      simp [hphase]
    have hholds : ((after svc init actions k).phase t).Holds := by
      rw [hphase]
      trivial
    rw [after_succ]
    exact ⟨(phase_stays hmine hbusy).trans hphase,
      ((inv_after hquiet k).data_stays hmine hholds).trans hdata⟩
  obtain ⟨k, hk, hgo, hphase, hdata⟩ := until_own hfair
    (p := fun s : State σ α κ ρ τ =>
      s.phase t = .inside a l ∧ s.data = (after svc init actions n).data)
    hothers ⟨h, rfl⟩
  exact ⟨k, hk, by rw [after_succ, hgo], hphase, hdata⟩

/-- A call that has the lock returns, since its rounds end. -/
theorem inside_returns {a : α} {l : κ} {x : σ × κ} {out : σ × Reply ρ}
    (hends : Ends svc.round x out) {n : ℕ}
    (h : (after svc init actions n).phase t = .inside a l)
    (hx : ((after svc init actions n).data, l) = x) :
    ∃ k ≥ n, (after svc init actions k).phase t = .idle := by
  induction hends generalizing n l with
  | @leave x out hround =>
      obtain ⟨k, hk, hgo, hphase, hdata⟩ := exists_round hfair hquiet h
      rw [← hx, ← hdata] at hround
      have hnext : (after svc init actions (k + 1)).phase t = .leaving a out.2 := by
        simp [hgo, step, hphase, hround, State.put]
      obtain ⟨m, hm, hidle⟩ := leaving_returns hfair hnext
      exact ⟨m, by omega, hidle⟩
  | @again x x' out hround hrest ih =>
      obtain ⟨k, hk, hgo, hphase, hdata⟩ := exists_round hfair hquiet h
      rw [← hx, ← hdata] at hround
      have hnext : (after svc init actions (k + 1)).phase t = .inside a x'.2 ∧
          (after svc init actions (k + 1)).data = x'.1 := by
        simp [hgo, step, hphase, hround, State.put]
      obtain ⟨m, hm, hidle⟩ := ih hnext.1 (by rw [hnext.2])
      exact ⟨m, by omega, hidle⟩

/-- **A call that does not wait** comes to its end, whatever the others do. -/
theorem busy_returns (htotal : svc.Total init τ) {n : ℕ}
    (hout : ∀ a l, (after svc init actions n).phase t ≠ .waiting a l) :
    ∃ k ≥ n, (after svc init actions k).phase t = .idle := by
  cases hp : (after svc init actions n).phase t with
  | idle => exact ⟨n, Nat.le_refl n, hp⟩
  | waiting a l => exact absurd hp (hout a l)
  | inside a l =>
      have hsees := ((inv_after hquiet n).guarded.holder (t := t) (by rw [hp]; trivial)).2.2
      rw [hp] at hsees
      obtain ⟨out, hends⟩ := hsees.ends htotal
      exact inside_returns hfair hquiet hends hp rfl
  | leaving a r => exact leaving_returns hfair hp
  | returning a r => exact returning_returns hfair r.frees hp

omit hquiet in
/-- As long as a thread waits, some thread comes to the lock. -/
theorem waiting_holds {a : α} {l : κ} {n : ℕ}
    (h : (after svc init actions n).phase t = .waiting a l) :
    ∃ k ≥ n, ∃ u, ((after svc init actions k).phase u).Holds := by
  obtain ⟨k, hk, hgo, hphase⟩ := exists_go hfair h (by simp)
  by_cases hheld : (after svc init actions k).held = true
  · exact ⟨k, hk, held_after k hheld⟩
  · refine ⟨k + 1, by omega, t, ?_⟩
    simp [hgo, step, hphase, hheld, State.put, Phase.Holds]

/-! ## After the last call -/

variable {last : ℕ} (hlast : ∀ k ≥ last, ∀ u a, actions k ≠ .call u a)

include hlast

omit hfair hquiet in
theorem idle_stays {n k : ℕ} (hn : last ≤ n) (hk : n ≤ k)
    (h : (after svc init actions n).phase t = .idle) :
    (after svc init actions k).phase t = .idle := by
  induction k, hk using Nat.le_induction with
  | base => exact h
  | succ k hk ih =>
      rw [after_succ]
      cases hact : actions k with
      | call u a => exact absurd hact (hlast k (by omega) u a)
      | go u =>
          by_cases hu : u = t
          · simp [step, hu, ih]
          · have hthread : (Action.go u : Action α τ).thread ≠ t := hu
            exact (phase_step_of_ne hthread).trans ih

/-- After the last call a thread is idle for good or waits for ever. -/
theorem settles (htotal : svc.Total init τ) (t : τ) :
    ∃ n, ∀ k ≥ n, (after svc init actions k).phase t = .idle ∨
      ∃ a l, (after svc init actions k).phase t = .waiting a l := by
  by_cases hwaits : ∀ n ≥ last, ∃ a l, (after svc init actions n).phase t = .waiting a l
  · exact ⟨last, fun k hk => .inr (hwaits k hk)⟩
  · simp only [not_forall, not_exists] at hwaits
    obtain ⟨n, hn, hout⟩ := hwaits
    obtain ⟨m, hm, hidle⟩ := busy_returns hfair hquiet htotal hout
    exact ⟨m, fun k hk => .inl (idle_stays hlast (by omega) hk hidle)⟩

/-- **All calls return**: since nobody holds the lock any more, nobody waits for it. -/
theorem all_return [Finite τ] (htotal : svc.Total init τ) :
    ∃ n, ∀ k ≥ n, (after svc init actions k).held = false ∧
      ∀ t, (after svc init actions k).phase t = .idle := by
  choose settled hsettled using settles hfair hquiet hlast htotal
  obtain ⟨n, hn⟩ : ∃ n, ∀ t, settled t ≤ n := by
    cases isEmpty_or_nonempty τ with
    | inl _ => exact ⟨0, fun t => isEmptyElim t⟩
    | inr _ => exact Finite.exists_le settled
  have hnobody : ∀ k ≥ n, Quiet (after svc init actions k) := by
    intro k hk t hholds
    rcases hsettled t k (le_trans (hn t) hk) with hidle | ⟨a, l, hwait⟩
    · rw [hidle] at hholds
      exact hholds
    · rw [hwait] at hholds
      exact hholds
  refine ⟨n, fun k hk => ⟨?_, fun t => ?_⟩⟩
  · rw [← Bool.not_eq_true]
    intro hheld
    obtain ⟨u, hu⟩ := held_after k hheld
    exact hnobody k hk u hu
  · rcases hsettled t k (le_trans (hn t) hk) with hidle | ⟨a, l, hwait⟩
    · exact hidle
    · obtain ⟨m, hm, u, hu⟩ := waiting_holds hfair hwait
      exact absurd hu (hnobody m (by omega) u)

end Returns

end Endless

end Aesd.Verified.LockedCalls
