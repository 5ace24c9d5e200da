import Aesd.Verified.Runs
import Mathlib.Logic.Function.Basic

/-!
# Updates under one lock

Any number of threads update one shared object.  An update takes the lock, loads
from the object, stores, and frees the lock; the steps of different threads
interleave in any order.  A lock that anybody may free keeps the threads apart
only as long as nobody frees it from outside while an update is under way, and
that is the condition `FreedQuiet` on the step `free`.

Under it, `Inv` holds along every run: at most one thread is inside its critical
section, and the object is what the updates make of it one after another, in the
order in which they took the lock.
-/

namespace Aesd.Verified.LockedUpdate

open Aesd.Verified.Runs

variable {σ ρ α τ : Type*}

/-- A shared object: what an update loads from it and what it stores. -/
structure Object (σ ρ α : Type*) where
  load : σ → ρ
  store : ρ → α → σ → σ

/-- An update that nobody interrupts. -/
def Object.apply (o : Object σ ρ α) (data : σ) (a : α) : σ := o.store (o.load data) a data

/-- Where a thread is in its update. -/
inductive Phase (ρ α : Type*)
  | idle
  | waiting (a : α)
  | locked (a : α)
  | loaded (a : α) (r : ρ)
  | stored
  deriving DecidableEq

/-- Between taking and freeing the lock. -/
def Phase.Inside : Phase ρ α → Prop
  | .idle | .waiting _ => False
  | .locked _ | .loaded _ _ | .stored => True

instance : (p : Phase ρ α) → Decidable p.Inside
  | .idle | .waiting _ => isFalse id
  | .locked _ | .loaded _ _ | .stored => isTrue trivial

/-- The object, the lock, the threads, and the updates in the order in which they
took the lock. -/
structure State (σ ρ α τ : Type*) where
  data : σ
  held : Bool
  phase : τ → Phase ρ α
  taken : List α

/-- Nobody has started. -/
def State.start (data : σ) : State σ ρ α τ :=
  { data := data, held := false, phase := fun _ => .idle, taken := [] }

/-- The steps of the threads, and the lock being freed from outside. -/
inductive Action (α τ : Type*)
  | start (t : τ) (a : α)
  | lock (t : τ)
  | load (t : τ)
  | store (t : τ)
  | unlock (t : τ)
  | free

/-- One step.  Taking a lock that is held waits; freeing it never does. -/
def step [DecidableEq τ] (o : Object σ ρ α) (s : State σ ρ α τ) :
    Action α τ → State σ ρ α τ
  | .start t a =>
      match s.phase t with
      | .idle => { s with phase := Function.update s.phase t (.waiting a) }
      | _ => s
  | .lock t =>
      match s.phase t with
      | .waiting a =>
          if s.held then s
          else { s with
            held := true
            phase := Function.update s.phase t (.locked a)
            taken := s.taken ++ [a] }
      | _ => s
  | .load t =>
      match s.phase t with
      | .locked a => { s with phase := Function.update s.phase t (.loaded a (o.load s.data)) }
      | _ => s
  | .store t =>
      match s.phase t with
      | .loaded a r =>
          { s with data := o.store r a s.data, phase := Function.update s.phase t .stored }
      | _ => s
  | .unlock t =>
      match s.phase t with
      | .stored => { s with held := false, phase := Function.update s.phase t .idle }
      | _ => s
  | .free => { s with held := false }

/-- At most one thread is inside. -/
def Exclusive (s : State σ ρ α τ) : Prop :=
  ∀ t u, (s.phase t).Inside → (s.phase u).Inside → t = u

/-- Every update begun has returned. -/
def Quiescent (s : State σ ρ α τ) : Prop := ∀ t, s.phase t = .idle

/-- The lock is freed from outside only while nobody is inside. -/
def FreedQuiet (s : State σ ρ α τ) : Action α τ → Prop
  | .free => ∀ t, ¬(s.phase t).Inside
  | _ => True

/-! ## The invariant -/

/-- What the object is while a thread in the given phase holds the lock. -/
def HolderSees (o : Object σ ρ α) (init : σ) (s : State σ ρ α τ) : Phase ρ α → Prop
  | .idle | .waiting _ => False
  | .locked a => ∃ before, s.taken = before ++ [a] ∧ s.data = before.foldl o.apply init
  | .loaded a r =>
      r = o.load s.data ∧ ∃ before, s.taken = before ++ [a] ∧ s.data = before.foldl o.apply init
  | .stored => s.data = s.taken.foldl o.apply init

/-- Nobody is inside and the object has taken every update in; or one thread is,
and it holds the lock. -/
inductive Inv (o : Object σ ρ α) (init : σ) (s : State σ ρ α τ) : Prop
  | quiet (outside : ∀ t, ¬(s.phase t).Inside) (data : s.data = s.taken.foldl o.apply init)
  | busy (t : τ) (held : s.held = true) (others : ∀ u, u ≠ t → ¬(s.phase u).Inside)
      (holder : HolderSees o init s (s.phase t))

variable {o : Object σ ρ α} {init : σ} {s : State σ ρ α τ}

theorem inv_start (o : Object σ ρ α) (data : σ) :
    Inv o data (State.start data : State σ ρ α τ) := by
  refine .quiet ?_ rfl
  intro t h
  exact h

theorem Inv.data_of_quiescent (h : Inv o init s) (hq : Quiescent s) :
    s.data = s.taken.foldl o.apply init := by
  cases h with
  | quiet outside data => exact data
  | busy t held others holder =>
      rw [hq t] at holder
      exact holder.elim

/-- A thread inside is the one that holds the lock. -/
theorem Inv.holder (h : Inv o init s) {t : τ} (ht : (s.phase t).Inside) :
    s.held = true ∧ (∀ u, u ≠ t → ¬(s.phase u).Inside) ∧ HolderSees o init s (s.phase t) := by
  cases h with
  | quiet outside data => exact absurd ht (outside t)
  | busy v held others holder =>
      have htv : t = v := by
        by_contra hne
        exact others t hne ht
      subst htv
      exact ⟨held, others, holder⟩

theorem Inv.exclusive (h : Inv o init s) : Exclusive s := by
  intro t u ht hu
  by_contra hne
  exact (h.holder ht).2.1 u (Ne.symm hne) hu

section Step

variable [DecidableEq τ]

/-- Moving a thread that stays outside moves nobody inside. -/
private theorem inside_update_outside {t u : τ} {p : Phase ρ α} (hold : ¬(s.phase t).Inside)
    (hnew : ¬p.Inside) : (Function.update s.phase t p u).Inside ↔ (s.phase u).Inside := by
  by_cases hu : u = t
  · subst hu
    rw [Function.update_self]
    exact iff_of_false hnew hold
  · rw [Function.update_of_ne hu]

/-- A thread that moves on while it holds the lock. -/
private theorem Inv.busy_move {s' : State σ ρ α τ} {t : τ} {p : Phase ρ α}
    (hphase : s'.phase = Function.update s.phase t p) (held : s'.held = true)
    (others : ∀ u, u ≠ t → ¬(s.phase u).Inside) (holder : HolderSees o init s' p) :
    Inv o init s' := by
  refine .busy t held ?_ ?_
  · intro u hu
    rw [hphase, Function.update_of_ne hu]
    exact others u hu
  · rw [hphase, Function.update_self]
    exact holder

theorem Inv.step_start (h : Inv o init s) (t : τ) (a : α) :
    Inv o init (step o s (.start t a)) := by
  cases hp : s.phase t with
  | idle =>
      have hout : ¬(s.phase t).Inside := by
        rw [hp]
        exact id
      simp only [step, hp]
      cases h with
      | quiet outside data =>
          refine .quiet ?_ data
          intro u
          rw [inside_update_outside hout id]
          exact outside u
      | busy v held others holder =>
          have hne : v ≠ t := by
            rintro rfl
            rw [hp] at holder
            exact holder
          refine .busy v held ?_ ?_
          · intro u hu
            rw [inside_update_outside hout id]
            exact others u hu
          · show HolderSees o init _ (Function.update s.phase t (.waiting a) v)
            rw [Function.update_of_ne hne]
            cases hv : s.phase v <;> rw [hv] at holder <;> exact holder
  | waiting b => simpa [step, hp] using h
  | locked b => simpa [step, hp] using h
  | loaded b r => simpa [step, hp] using h
  | stored => simpa [step, hp] using h

theorem Inv.step_lock (h : Inv o init s) (t : τ) : Inv o init (step o s (.lock t)) := by
  cases hp : s.phase t with
  | waiting a =>
      simp only [step, hp]
      split
      · exact h
      · rename_i hfree
        cases h with
        | quiet outside data =>
            exact .busy_move rfl rfl (fun u _ => outside u) ⟨s.taken, rfl, data⟩
        | busy v held others holder => exact absurd held hfree
  | idle => simpa [step, hp] using h
  | locked b => simpa [step, hp] using h
  | loaded b r => simpa [step, hp] using h
  | stored => simpa [step, hp] using h

theorem Inv.step_load (h : Inv o init s) (t : τ) : Inv o init (step o s (.load t)) := by
  cases hp : s.phase t with
  | locked a =>
      obtain ⟨held, others, holder⟩ := h.holder (t := t) (by rw [hp]; trivial)
      rw [hp] at holder
      simp only [step, hp]
      exact .busy_move rfl held others ⟨rfl, holder⟩
  | idle => simpa [step, hp] using h
  | waiting b => simpa [step, hp] using h
  | loaded b r => simpa [step, hp] using h
  | stored => simpa [step, hp] using h

theorem Inv.step_store (h : Inv o init s) (t : τ) : Inv o init (step o s (.store t)) := by
  cases hp : s.phase t with
  | loaded a r =>
      obtain ⟨held, others, holder⟩ := h.holder (t := t) (by rw [hp]; trivial)
      rw [hp] at holder
      obtain ⟨rfl, before, htaken, hdata⟩ := holder
      simp only [step, hp]
      refine .busy_move rfl held others ?_
      show o.apply s.data a = s.taken.foldl o.apply init
      rw [htaken, List.foldl_append, ← hdata]
      rfl
  | idle => simpa [step, hp] using h
  | waiting b => simpa [step, hp] using h
  | locked b => simpa [step, hp] using h
  | stored => simpa [step, hp] using h

theorem Inv.step_unlock (h : Inv o init s) (t : τ) : Inv o init (step o s (.unlock t)) := by
  cases hp : s.phase t with
  | stored =>
      obtain ⟨held, others, holder⟩ := h.holder (t := t) (by rw [hp]; trivial)
      rw [hp] at holder
      simp only [step, hp]
      refine .quiet ?_ holder
      intro u
      show ¬(Function.update s.phase t .idle u).Inside
      by_cases hu : u = t
      · rw [hu, Function.update_self]
        exact id
      · rw [Function.update_of_ne hu]
        exact others u hu
  | idle => simpa [step, hp] using h
  | waiting b => simpa [step, hp] using h
  | locked b => simpa [step, hp] using h
  | loaded b r => simpa [step, hp] using h

/-- **One step keeps the invariant**, unless it frees the lock under a thread that
is inside. -/
theorem Inv.step (h : Inv o init s) (action : Action α τ) (hfree : FreedQuiet s action) :
    Inv o init (step o s action) := by
  cases action with
  | start t a => exact h.step_start t a
  | lock t => exact h.step_lock t
  | load t => exact h.step_load t
  | store t => exact h.step_store t
  | unlock t => exact h.step_unlock t
  | free =>
      cases h with
      | quiet outside data => exact .quiet outside data
      | busy t held others holder =>
          refine .quiet hfree ?_
          have hout := hfree t
          cases hp : s.phase t <;> rw [hp] at holder hout
          case idle => exact holder.elim
          case waiting => exact holder.elim
          all_goals exact absurd trivial hout

end Step

end Aesd.Verified.LockedUpdate
