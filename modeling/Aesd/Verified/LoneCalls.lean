import Aesd.Verified.LockedCalls

/-!
# Calls that never meet

The users of an object may have a lock of their own around the calls that take the
object's lock.  Then no two of these calls are on their way at once, and a call that frees
the object's lock from outside does no harm, since nobody is kept out by it.  `Lone` is
the invariant, with the object as it was before the call on its way.  When a call returns,
it has answered and done what it does when nobody interrupts.
-/

namespace Aesd.Verified.LockedCalls

open Aesd.Verified.Loops

variable {σ α κ ρ τ : Type*} {svc : Service σ α κ ρ}

/-- The call that a thread is in. -/
def Phase.call : Phase α κ ρ → Option α
  | .idle => none
  | .waiting a _ | .inside a _ | .leaving a _ | .returning a _ => some a

section Call

variable [DecidableEq τ] {s : State σ α κ ρ τ} {t : τ}

theorem call_step_call (hidle : s.phase t = .idle) (a : α) :
    ((step svc s (.call t a)).phase t).call = some a := by
  cases henter : svc.enter a <;>
    simp [step, hidle, henter, State.put, State.record, Phase.call]

theorem call_step_go (hstays : ∀ a x, s.phase t ≠ .returning a ⟨x, 0⟩) :
    ((step svc s (.go t)).phase t).call = (s.phase t).call := by
  cases hp : s.phase t with
  | idle => simp [step, hp]
  | waiting a l => cases hheld : s.held <;> simp [step, hp, hheld, State.put, Phase.call]
  | inside a l =>
      cases hround : svc.round (s.data, l) <;>
        simp [step, hp, hround, State.put, State.record, Phase.call]
  | leaving a r => simp [step, hp, State.put, Phase.call]
  | returning a r =>
      rcases r with ⟨x, _ | n⟩
      · exact absurd hp (hstays a x)
      · simp [step, hp, State.put, Phase.call]

theorem phase_step_returns {a : α} {x : ρ} (hp : s.phase t = .returning a ⟨x, 0⟩) :
    (step svc s (.go t)).phase t = .idle := by
  simp [step, hp, State.put]

/-- The calls on their way are those that have been on their way, and the one that begins. -/
theorem call_of_step_call (hidle : s.phase t = .idle) {a b : α} {u : τ}
    (h : ((step svc s (.call t a)).phase u).call = some b) :
    (u = t ∧ b = a) ∨ (s.phase u).call = some b := by
  by_cases hu : u = t
  · subst hu
    rw [call_step_call hidle a] at h
    exact .inl ⟨rfl, (Option.some.inj h).symm⟩
  · have hother : (Action.call t a).thread ≠ u := Ne.symm hu
    rw [phase_step_of_ne hother] at h
    exact .inr h

theorem call_of_step_go {a : α} {u : τ} (h : ((step svc s (.go t)).phase u).call = some a) :
    (s.phase u).call = some a := by
  by_cases hu : u = t
  · subst hu
    by_cases hstays : ∀ b x, s.phase u ≠ .returning b ⟨x, 0⟩
    · rwa [call_step_go hstays] at h
    · simp only [not_forall, not_not] at hstays
      obtain ⟨b, x, hp⟩ := hstays
      rw [phase_step_returns hp] at h
      cases h
  · have hother : (Action.go t : Action α τ).thread ≠ u := Ne.symm hu
    rwa [phase_step_of_ne hother] at h

end Call

/-- The thread is in a call that asks for the lock. -/
def Service.Takes (svc : Service σ α κ ρ) (p : Phase α κ ρ) : Prop :=
  ∃ a first, p.call = some a ∧ svc.enter a = .inr first

theorem Service.not_takes_idle : ¬svc.Takes (.idle : Phase α κ ρ) := by
  rintro ⟨a, first, hcall, -⟩
  cases hcall

/-- A call that is answered at once does not ask for the lock. -/
theorem Service.not_takes_of_inl {p : Phase α κ ρ} {a : α} {r : Reply ρ} (hcall : p.call = some a)
    (henter : svc.enter a = .inl r) : ¬svc.Takes p := by
  rintro ⟨b, first, hb, hfirst⟩
  obtain rfl : a = b := Option.some.inj (hcall.symm.trans hb)
  rw [henter] at hfirst
  cases hfirst

/-- How far a call has come with the object, which was `before` and is `data`. -/
def Service.Reached (svc : Service σ α κ ρ) (before data : σ) : Phase α κ ρ → Prop
  | .idle => True
  | .waiting a l => svc.enter a = .inr l ∧ data = before
  | .inside a l =>
      ∃ first, svc.enter a = .inr first ∧
        Relation.ReflTransGen (Again svc.round) (before, first) (data, l)
  | .leaving a r =>
      ∃ first, svc.enter a = .inr first ∧ Ends svc.round (before, first) (data, r)
  | .returning a r =>
      ∃ r', r'.answer = r.answer ∧ (svc.enter a = .inl r' ∨
        ∃ first, svc.enter a = .inr first ∧ Ends svc.round (before, first) (data, r'))

/-- A call that does not ask for the lock has nothing to do with the object. -/
theorem Service.Reached.of_not_takes {before data : σ} {p : Phase α κ ρ}
    (h : svc.Reached before data p) (hfree : ¬svc.Takes p) (before' data' : σ) :
    svc.Reached before' data' p := by
  cases p with
  | idle => trivial
  | waiting a l => exact absurd ⟨a, l, rfl, h.1⟩ hfree
  | inside a l =>
      obtain ⟨first, henter, -⟩ := h
      exact absurd ⟨a, first, rfl, henter⟩ hfree
  | leaving a r =>
      obtain ⟨first, henter, -⟩ := h
      exact absurd ⟨a, first, rfl, henter⟩ hfree
  | returning a r =>
      obtain ⟨r', hanswer, henter | ⟨first, henter, -⟩⟩ := h
      · exact ⟨r', hanswer, .inl henter⟩
      · exact absurd ⟨a, first, rfl, henter⟩ hfree

/-- Whoever is inside has asked for the lock. -/
theorem Service.Reached.takes_of_holds {before data : σ} {p : Phase α κ ρ}
    (h : svc.Reached before data p) (hholds : p.Holds) : svc.Takes p := by
  cases p with
  | inside a l =>
      obtain ⟨first, henter, -⟩ := h
      exact ⟨a, first, rfl, henter⟩
  | leaving a r =>
      obtain ⟨first, henter, -⟩ := h
      exact ⟨a, first, rfl, henter⟩
  | idle | waiting a l | returning a r => exact hholds.elim

/-- At most one call is on its way to the lock, inside, or back from it, and it has found
the object as `before`. -/
structure Lone (svc : Service σ α κ ρ) (s : State σ α κ ρ τ) (before : σ) : Prop where
  reached : ∀ t, svc.Reached before s.data (s.phase t)
  alone : ∀ t u, svc.Takes (s.phase t) → svc.Takes (s.phase u) → t = u
  rest : (∀ t, ¬svc.Takes (s.phase t)) → s.data = before
  held : s.held = true → ∃ t, (s.phase t).Holds

theorem lone_start (svc : Service σ α κ ρ) (data : σ) :
    Lone svc (State.start data : State σ α κ ρ τ) data :=
  { reached := fun _ => trivial
    alone := by simp [Service.Takes, State.start, Phase.call]
    rest := fun _ => rfl
    held := by simp [State.start] }

variable {s : State σ α κ ρ τ} {before : σ} {t : τ}

theorem Lone.exclusive (h : Lone svc s before) : Exclusive s := fun t u ht hu =>
  h.alone t u ((h.reached t).takes_of_holds ht) ((h.reached u).takes_of_holds hu)

/-- Nobody waits for a lock that is held. -/
theorem Lone.not_held (h : Lone svc s before) {a : α} {l : κ} (hwait : s.phase t = .waiting a l) :
    s.held = false := by
  rw [← Bool.not_eq_true]
  intro hheld
  obtain ⟨u, hu⟩ := h.held hheld
  have hreached := h.reached t
  rw [hwait] at hreached
  have htakes : svc.Takes (s.phase t) := ⟨a, l, by rw [hwait]; rfl, hreached.1⟩
  have htu : t = u := h.alone t u htakes ((h.reached u).takes_of_holds hu)
  rw [← htu, hwait] at hu
  exact hu

/-- While `t` is in a call that takes the lock, no other thread is. -/
theorem Lone.others (h : Lone svc s before) (ht : svc.Takes (s.phase t)) (u : τ) (hu : u ≠ t) :
    ¬svc.Takes (s.phase u) := fun htakes => hu (h.alone u t htakes ht)

theorem Lone.rest_of_others (h : Lone svc s before) (ht : ¬svc.Takes (s.phase t))
    (hothers : ∀ u, u ≠ t → ¬svc.Takes (s.phase u)) : s.data = before := by
  refine h.rest fun u => ?_
  by_cases hu : u = t
  · rw [hu]
    exact ht
  · exact hothers u hu

/-! ## The steps -/

section Steps

variable [DecidableEq τ]

theorem Lone.held_step (h : Lone svc s before) (action : Action α τ)
    (hnext : (step svc s action).held = true) : ∃ u, ((step svc s action).phase u).Holds :=
  LockedCalls.held_step h.held action hnext

/-- One thread moves, and the others stay where they are. -/
private theorem Lone.move (h : Lone svc s before) {s' : State σ α κ ρ τ} {before' : σ}
    {p : Phase α κ ρ} (hphase : s'.phase = Function.update s.phase t p)
    (hreached : svc.Reached before' s'.data p)
    (hothers : ∀ u, u ≠ t → svc.Reached before' s'.data (s.phase u))
    (halone : svc.Takes p → ∀ u, u ≠ t → ¬svc.Takes (s.phase u))
    (hrest : ¬svc.Takes p → (∀ u, u ≠ t → ¬svc.Takes (s.phase u)) → s'.data = before')
    (hheld : s'.held = true → ∃ u, (s'.phase u).Holds) : Lone svc s' before' := by
  have hself : s'.phase t = p := by
    rw [hphase]
    exact Function.update_self ..
  have hkeep : ∀ u, u ≠ t → s'.phase u = s.phase u := by
    intro u hu
    rw [hphase]
    exact Function.update_of_ne hu ..
  constructor
  · intro u
    by_cases hu : u = t
    · rw [hu, hself]
      exact hreached
    · rw [hkeep u hu]
      exact hothers u hu
  · intro u v htu htv
    by_cases hu : u = t <;> by_cases hv : v = t
    · rw [hu, hv]
    · rw [hu, hself] at htu
      rw [hkeep v hv] at htv
      exact absurd htv (halone htu v hv)
    · rw [hkeep u hu] at htu
      rw [hv, hself] at htv
      exact absurd htu (halone htv u hu)
    · rw [hkeep u hu] at htu
      rw [hkeep v hv] at htv
      exact h.alone u v htu htv
  · intro hnobody
    refine hrest ?_ fun u hu => ?_
    · rw [← hself]
      exact hnobody t
    · rw [← hkeep u hu]
      exact hnobody u
  · exact hheld

/-- **A call begins**, and it is alone if it asks for the lock. -/
theorem Lone.call (h : Lone svc s before) (hidle : s.phase t = .idle) {a : α}
    (halone : ∀ first, svc.enter a = .inr first → ∀ u, ¬svc.Takes (s.phase u)) :
    Lone svc (step svc s (.call t a)) before := by
  have hheld := h.held_step (.call t a)
  cases henter : svc.enter a with
  | inl r =>
      have hfree : ¬svc.Takes (.returning a r : Phase α κ ρ) := svc.not_takes_of_inl rfl henter
      have hout : ¬svc.Takes (s.phase t) := hidle ▸ svc.not_takes_idle
      simp only [step, hidle, henter] at hheld ⊢
      exact h.move rfl ⟨r, rfl, .inl henter⟩ (fun u _ => h.reached u)
        (fun htakes => absurd htakes hfree) (fun _ => h.rest_of_others hout) hheld
  | inr l =>
      have hnobody := halone l henter
      simp only [step, hidle, henter] at hheld ⊢
      exact h.move rfl ⟨henter, h.rest hnobody⟩ (fun u _ => h.reached u)
        (fun _ u _ => hnobody u) (fun hfree => absurd ⟨a, l, rfl, henter⟩ hfree) hheld

/-- **A call goes on** without returning. -/
theorem Lone.go (h : Lone svc s before) (t : τ)
    (hstays : ∀ a x, s.phase t ≠ .returning a ⟨x, 0⟩) :
    Lone svc (step svc s (.go t)) before := by
  have hheld := h.held_step (.go t)
  have hreached := h.reached t
  cases hp : s.phase t with
  | idle => simpa [step, hp] using h
  | waiting a l =>
      rw [hp] at hreached
      have htakes : svc.Takes (s.phase t) := ⟨a, l, by rw [hp]; rfl, hreached.1⟩
      simp only [step, hp, h.not_held hp] at hheld ⊢
      exact h.move rfl ⟨l, hreached.1, hreached.2 ▸ .refl⟩ (fun u _ => h.reached u)
        (fun _ => h.others htakes) (fun hfree => absurd ⟨a, l, rfl, hreached.1⟩ hfree) hheld
  | inside a l =>
      rw [hp] at hreached
      obtain ⟨first, henter, hrounds⟩ := hreached
      have htakes : svc.Takes (s.phase t) := ⟨a, first, by rw [hp]; rfl, henter⟩
      have hothers : ∀ data u, u ≠ t → svc.Reached before data (s.phase u) := fun data u hu =>
        (h.reached u).of_not_takes (h.others htakes u hu) before data
      simp only [step, hp] at hheld ⊢
      cases hround : svc.round (s.data, l) with
      | inl out =>
          rw [hround] at hheld
          exact h.move rfl ⟨first, henter, Ends.after hrounds (.leave hround)⟩ (hothers out.1)
            (fun _ => h.others htakes) (fun hfree => absurd ⟨a, first, rfl, henter⟩ hfree) hheld
      | inr next =>
          rw [hround] at hheld
          exact h.move rfl ⟨first, henter, hrounds.tail hround⟩ (hothers next.1)
            (fun _ => h.others htakes) (fun hfree => absurd ⟨a, first, rfl, henter⟩ hfree) hheld
  | leaving a r =>
      rw [hp] at hreached
      obtain ⟨first, henter, hends⟩ := hreached
      have htakes : svc.Takes (s.phase t) := ⟨a, first, by rw [hp]; rfl, henter⟩
      simp only [step, hp] at hheld ⊢
      exact h.move rfl ⟨r, rfl, .inr ⟨first, henter, hends⟩⟩ (fun u _ => h.reached u)
        (fun _ => h.others htakes) (fun hfree => absurd ⟨a, first, rfl, henter⟩ hfree) hheld
  | returning a r =>
      rcases r with ⟨x, _ | n⟩
      · exact absurd hp (hstays a x)
      · -- The lock is freed once more, whoever may be inside.
        rw [hp] at hreached
        have hsame : svc.Takes (.returning a ⟨x, n⟩ : Phase α κ ρ) ↔ svc.Takes (s.phase t) := by
          rw [hp]
          exact Iff.rfl
        simp only [step, hp] at hheld ⊢
        exact h.move rfl hreached (fun u _ => h.reached u)
          (fun htakes => h.others (hsame.1 htakes))
          (fun hfree => h.rest_of_others (fun htakes => hfree (hsame.2 htakes))) hheld

/-- **A call returns.**  It has answered, and left the object, as it does uninterrupted. -/
theorem Lone.returns (h : Lone svc s before) {a : α} {x : ρ}
    (hp : s.phase t = .returning a ⟨x, 0⟩) :
    ∃ n data, svc.Answers before a ⟨x, n⟩ data ∧ Lone svc (step svc s (.go t)) data := by
  have hheld := h.held_step (.go t)
  have hreached := h.reached t
  rw [hp] at hreached
  simp only [step, hp] at hheld ⊢
  obtain ⟨⟨y, n⟩, hanswer, hreached⟩ := hreached
  obtain rfl : y = x := hanswer
  obtain henter | ⟨first, henter, hends⟩ := hreached
  · have hout : ¬svc.Takes (s.phase t) := svc.not_takes_of_inl (by rw [hp]; rfl) henter
    refine ⟨n, before, ?_, h.move rfl trivial (fun u _ => h.reached u)
      (fun htakes => absurd htakes svc.not_takes_idle) (fun _ => h.rest_of_others hout) hheld⟩
    rw [Service.Answers, henter]
    exact ⟨rfl, rfl⟩
  · have htakes : svc.Takes (s.phase t) := ⟨a, first, by rw [hp]; rfl, henter⟩
    have hothers : ∀ u, u ≠ t → svc.Reached s.data s.data (s.phase u) := fun u hu =>
      (h.reached u).of_not_takes (h.others htakes u hu) s.data s.data
    refine ⟨n, s.data, ?_, h.move rfl trivial hothers
      (fun htakes => absurd htakes svc.not_takes_idle) (fun _ _ => rfl) hheld⟩
    rw [Service.Answers, henter]
    exact hends

end Steps

end Aesd.Verified.LockedCalls
