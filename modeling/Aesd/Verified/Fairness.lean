import Mathlib.Data.Fintype.Order
import Mathlib.Order.OrderIsoNat

/-!
# Fair runs that go on for ever

A system takes one input after another, without end, and each party finds an input of
its own among them again and again.  No step raises a rank, and a step of a party that is
not idle lowers one.  There are finitely many ranks, so the run comes to rest: from some
point on they all stand, and every party is found idle again and again.
-/

namespace Aesd.Verified.Fairness

variable {σ ι τ κ : Type*} {step : σ → ι → σ} {s : σ} {inputs : ℕ → ι}

/-- The state after so many inputs. -/
def stateAt (step : σ → ι → σ) (s : σ) (inputs : ℕ → ι) : ℕ → σ
  | 0 => s
  | n + 1 => step (stateAt step s inputs n) (inputs n)

/-- A run that is looked at later on. -/
theorem stateAt_add (n k : ℕ) :
    stateAt step (stateAt step s inputs n) (fun k => inputs (n + k)) k =
      stateAt step s inputs (n + k) := by
  induction k with
  | zero => rfl
  | succ k ih => exact congrArg (step · (inputs (n + k))) ih

/-- Every party finds an input of its own again and again. -/
def Fair (of : τ → ι → Prop) (inputs : ℕ → ι) : Prop := ∀ t n, ∃ k ≥ n, of t (inputs k)

/-- **The invariant rule** for a run without end. -/
theorem invariant_at {Inv : σ → Prop} {P : σ → ι → Prop}
    (hstep : ∀ s i, Inv s → P s i → Inv (step s i)) (hs : Inv s)
    (hrun : ∀ n, P (stateAt step s inputs n) (inputs n)) (n : ℕ) :
    Inv (stateAt step s inputs n) := by
  induction n with
  | zero => exact hs
  | succ n ih => exact hstep _ _ ih (hrun n)

/-- What every step keeps stays from there on. -/
theorem stays {p : ℕ → Prop} (hnext : ∀ n, p n → p (n + 1)) {n k : ℕ} (hk : n ≤ k) (hn : p n) :
    p k := by
  induction k, hk using Nat.le_induction with
  | base => exact hn
  | succ k _ ih => exact hnext k ih

/-- What comes to hold of each element and stays comes to hold of all. -/
theorem exists_forall_mem {α : Type*} {p : α → ℕ → Prop} (hnext : ∀ a n, p a n → p a (n + 1))
    (l : List α) (h : ∀ a ∈ l, ∃ n, p a n) : ∃ n, ∀ a ∈ l, p a n := by
  induction l with
  | nil => exact ⟨0, by simp⟩
  | cons a l ih =>
      obtain ⟨n, hn⟩ := h a List.mem_cons_self
      obtain ⟨n', hn'⟩ := ih fun b hb => h b (List.mem_cons_of_mem a hb)
      refine ⟨max n n', List.forall_mem_cons.2 ⟨?_, fun b hb => ?_⟩⟩
      · exact stays (hnext a) (le_max_left n n') hn
      · exact stays (hnext b) (le_max_right n n') (hn' b hb)

/-- A rank that is never raised stands from some point on. -/
theorem eventually_stands {rank : ℕ → ℕ} (hle : ∀ n, rank (n + 1) ≤ rank n) :
    ∃ n, ∀ k ≥ n, rank k = rank n := by
  obtain ⟨n, hn⟩ := WellFoundedGT.monotone_chain_condition (α := ℕᵒᵈ)
    ⟨rank, antitone_nat_of_succ_le hle⟩
  exact ⟨n, fun k hk => (hn k hk).symm⟩

/-- **The first input of its own** finds a party where the others have left it. -/
theorem until_own {of : τ → ι → Prop} (hfair : Fair of inputs) {t : τ} {p : σ → Prop} {n : ℕ}
    (hothers : ∀ k ≥ n, p (stateAt step s inputs k) → ¬of t (inputs k) →
      p (stateAt step s inputs (k + 1)))
    (hn : p (stateAt step s inputs n)) :
    ∃ k ≥ n, of t (inputs k) ∧ p (stateAt step s inputs k) := by
  obtain ⟨k, hk, hmine⟩ := hfair t n
  induction k using Nat.strong_induction_on with
  | _ k ih =>
      by_cases hearlier : ∃ j < k, j ≥ n ∧ of t (inputs j)
      · obtain ⟨j, hj, hnj, hof⟩ := hearlier
        exact ih j hj hnj hof
      · refine ⟨k, hk, hmine, ?_⟩
        have hkept : ∀ j, n ≤ j → j ≤ k → p (stateAt step s inputs j) := by
          intro j hnj
          induction j, hnj using Nat.le_induction with
          | base => exact fun _ => hn
          | succ j hnj ihj =>
              intro hjk
              exact hothers j hnj (ihj (by omega)) fun hof => hearlier ⟨j, hjk, hnj, hof⟩
        exact hkept k hk (Nat.le_refl k)

/-- **The rule of rest.** -/
theorem comes_to_rest [Finite κ] {Inv : σ → Prop} {P : σ → ι → Prop} {of : τ → ι → Prop}
    (rank : κ → σ → ℕ) (idle : τ → σ → Prop)
    (hstep : ∀ s i, Inv s → P s i → Inv (step s i))
    (hle : ∀ j s i, Inv s → P s i → rank j (step s i) ≤ rank j s)
    (hown : ∀ t s i, Inv s → P s i → of t i → idle t s ∨ ∃ j, rank j (step s i) < rank j s)
    (hs : Inv s) (hrun : ∀ n, P (stateAt step s inputs n) (inputs n)) (hfair : Fair of inputs) :
    ∃ n, (∀ j, ∀ k ≥ n, rank j (stateAt step s inputs k) = rank j (stateAt step s inputs n)) ∧
      ∀ t, ∀ k ≥ n, ∃ k' ≥ k, idle t (stateAt step s inputs k') := by
  have hinv := invariant_at hstep hs hrun
  have hstands : ∀ j, ∃ n, ∀ k ≥ n,
      rank j (stateAt step s inputs k) = rank j (stateAt step s inputs n) := fun j =>
    eventually_stands fun n => hle j _ _ (hinv n) (hrun n)
  choose stands hstands using hstands
  -- All ranks stand from the last of these points on.
  obtain ⟨n, hn⟩ : ∃ n, ∀ j, stands j ≤ n := by
    cases isEmpty_or_nonempty κ with
    | inl _ => exact ⟨0, fun j => isEmptyElim j⟩
    | inr _ => exact Finite.exists_le stands
  have hrest : ∀ j, ∀ k ≥ n,
      rank j (stateAt step s inputs k) = rank j (stateAt step s inputs n) := by
    intro j k hk
    rw [hstands j k (le_trans (hn j) hk), hstands j n (hn j)]
  refine ⟨n, hrest, ?_⟩
  intro t k hk
  obtain ⟨k', hk', hmine⟩ := hfair t k
  refine ⟨k', hk', ?_⟩
  rcases hown t _ _ (hinv k') (hrun k') hmine with hidle | ⟨j, hlower⟩
  · exact hidle
  · have hnow := hrest j k' (le_trans hk hk')
    have hnext := hrest j (k' + 1) (by omega)
    have hlower' : rank j (stateAt step s inputs (k' + 1)) < rank j (stateAt step s inputs k') :=
      hlower
    rw [hnext, hnow] at hlower'
    exact absurd hlower' (lt_irrefl _)

/-- The rule of rest for what comes behind some point of a run. -/
theorem comes_to_rest_from [Finite κ] {Inv : σ → Prop} {P : σ → ι → Prop} {of : τ → ι → Prop}
    (rank : κ → σ → ℕ) (idle : τ → σ → Prop)
    (hstep : ∀ s i, Inv s → P s i → Inv (step s i))
    (hle : ∀ j s i, Inv s → P s i → rank j (step s i) ≤ rank j s)
    (hown : ∀ t s i, Inv s → P s i → of t i → idle t s ∨ ∃ j, rank j (step s i) < rank j s)
    (hrun : ∀ n, P (stateAt step s inputs n) (inputs n)) (hfair : Fair of inputs) {n : ℕ}
    (hn : Inv (stateAt step s inputs n)) :
    ∃ m ≥ n, (∀ j, ∀ k ≥ m, rank j (stateAt step s inputs k) = rank j (stateAt step s inputs m)) ∧
      ∀ t, ∀ k ≥ m, ∃ k' ≥ k, idle t (stateAt step s inputs k') := by
  have hrun' : ∀ k, P (stateAt step (stateAt step s inputs n) (fun k => inputs (n + k)) k)
      (inputs (n + k)) := by
    intro k
    rw [stateAt_add]
    exact hrun (n + k)
  have hfair' : Fair of fun k => inputs (n + k) := by
    intro t k
    obtain ⟨k', hk', hof⟩ := hfair t (n + k)
    refine ⟨k' - n, by omega, ?_⟩
    show of t (inputs (n + (k' - n)))
    rwa [Nat.add_sub_cancel' (by omega)]
  obtain ⟨m, hstands, hidle⟩ := comes_to_rest rank idle hstep hle hown hn hrun' hfair'
  simp only [stateAt_add] at hstands hidle
  refine ⟨n + m, Nat.le_add_right n m, ?_, ?_⟩
  · intro j k hk
    have hstand := hstands j (k - n) (by omega)
    rwa [Nat.add_sub_cancel' (by omega)] at hstand
  · intro t k hk
    obtain ⟨k', hk', hrest⟩ := hidle t (k - n) (by omega)
    exact ⟨n + k', by omega, hrest⟩

/-- **One party** is found idle in the end when no step raises its rank and its own lower it. -/
theorem comes_to_idle {Inv : σ → Prop} {P : σ → ι → Prop} (own : ι → Prop) (rank : σ → ℕ)
    (idle : σ → Prop) (hstep : ∀ s i, Inv s → P s i → Inv (step s i))
    (hle : ∀ s i, Inv s → P s i → rank (step s i) ≤ rank s)
    (hown : ∀ s i, Inv s → P s i → own i → idle s ∨ rank (step s i) < rank s)
    (hrun : ∀ n, P (stateAt step s inputs n) (inputs n)) (hfair : ∀ n, ∃ k ≥ n, own (inputs k))
    {n : ℕ} (hn : Inv (stateAt step s inputs n)) : ∃ k ≥ n, idle (stateAt step s inputs k) := by
  have hlowers : ∀ (_ : Unit) s i, Inv s → P s i → own i →
      idle s ∨ ∃ _ : Unit, rank (step s i) < rank s :=
    fun _ s i hs hi hmine => (hown s i hs hi hmine).imp_right fun hlower => ⟨(), hlower⟩
  obtain ⟨m, hm, -, hidle⟩ := comes_to_rest_from (fun _ => rank) (fun _ => idle) hstep
    (fun _ => hle) hlowers hrun (fun _ => hfair) hn
  obtain ⟨k, hk, hrest⟩ := hidle () m (Nat.le_refl m)
  exact ⟨k, Nat.le_trans hm hk, hrest⟩

end Aesd.Verified.Fairness
