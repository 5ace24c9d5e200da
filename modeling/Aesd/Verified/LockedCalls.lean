import Aesd.Verified.Loops
import Aesd.Verified.Runs
import Mathlib.Data.Fintype.Basic
import Mathlib.Data.List.Infix
import Mathlib.Logic.Function.Basic

/-!
# Calls under one lock

Any number of threads make calls on one shared object.  A call is answered at once, or it
takes the lock and works on the object round by round until it has its answer.  The steps
of different threads interleave in any order.  A call may free the lock again after its
answer, when it does not hold it any more; `FreedQuiet` is the condition that nobody
else is inside then.

`State.order` records the calls with their answers, each at the moment its answer is
fixed.  `Inv` holds along every run under the condition: at most one thread is inside, and
the recorded calls, made one after another without interruption, get the recorded answers
and leave the object as it is.
-/

namespace Aesd.Verified.LockedCalls

open Aesd.Verified.Loops
open Aesd.Verified.Runs

/-- What a call answers, and how often it frees the lock after that. -/
structure Reply (ρ : Type*) where
  answer : ρ
  frees : Nat
  deriving DecidableEq

/-- The calls that an object takes: a call is answered before it asks for the lock, or it
comes to the lock with a state of its own; and one round of what it does under the lock. -/
structure Service (σ α κ ρ : Type*) where
  enter : α → Reply ρ ⊕ κ
  round : σ × κ → (σ × Reply ρ) ⊕ (σ × κ)

variable {σ α κ ρ τ : Type*}

/-- Nobody interrupts: the call finds `data`, is answered `r` and leaves `data'`. -/
def Service.Answers (svc : Service σ α κ ρ) (data : σ) (a : α) (r : Reply ρ) (data' : σ) : Prop :=
  match svc.enter a with
  | .inl r' => r' = r ∧ data' = data
  | .inr l => Ends svc.round (data, l) (data', r)

/-- A call that nobody interrupts is answered in one way only. -/
theorem Service.Answers.unique {svc : Service σ α κ ρ} {data data₁ data₂ : σ} {a : α}
    {r₁ r₂ : Reply ρ} (h₁ : svc.Answers data a r₁ data₁) (h₂ : svc.Answers data a r₂ data₂) :
    r₁ = r₂ ∧ data₁ = data₂ := by
  unfold Service.Answers at h₁ h₂
  cases henter : svc.enter a with
  | inl r =>
      rw [henter] at h₁ h₂
      exact ⟨h₁.1.symm.trans h₂.1, h₁.2.trans h₂.2.symm⟩
  | inr l =>
      rw [henter] at h₁ h₂
      have heq := h₁.unique h₂
      exact ⟨congrArg Prod.snd heq, congrArg Prod.fst heq⟩

/-- The calls, made one after another in this order, are answered like this. -/
inductive Serial (svc : Service σ α κ ρ) (init : σ) : List (τ × α × ρ) → σ → Prop
  | start : Serial svc init [] init
  | call {calls : List (τ × α × ρ)} {data data' : σ} (t : τ) {a : α} {r : Reply ρ}
      (h : Serial svc init calls data) (hcall : svc.Answers data a r data') :
      Serial svc init (calls ++ [(t, a, r.answer)]) data'

/-! ## The threads -/

/-- Where a thread is in its call. -/
inductive Phase (α κ ρ : Type*)
  | idle
  | waiting (a : α) (l : κ)
  | inside (a : α) (l : κ)
  | leaving (a : α) (r : Reply ρ)
  | returning (a : α) (r : Reply ρ)
  deriving DecidableEq

/-- Between taking and freeing the lock. -/
def Phase.Holds : Phase α κ ρ → Prop
  | .inside _ _ | .leaving _ _ => True
  | .idle | .waiting _ _ | .returning _ _ => False

instance : (p : Phase α κ ρ) → Decidable p.Holds
  | .inside _ _ | .leaving _ _ => isTrue trivial
  | .idle | .waiting _ _ | .returning _ _ => isFalse id

/-- About to free a lock that it does not hold. -/
def Phase.Frees : Phase α κ ρ → Prop
  | .returning _ r => 0 < r.frees
  | .idle | .waiting _ _ | .inside _ _ | .leaving _ _ => False

instance : (p : Phase α κ ρ) → Decidable p.Frees
  | .returning _ r => inferInstanceAs (Decidable (0 < r.frees))
  | .idle | .waiting _ _ | .inside _ _ | .leaving _ _ => isFalse id

/-- The call whose answer is fixed and not yet returned. -/
def Phase.due : Phase α κ ρ → List (α × ρ)
  | .leaving a r | .returning a r => [(a, r.answer)]
  | .idle | .waiting _ _ | .inside _ _ => []

/-- The object, the lock, the threads, the calls in the order in which their answers were
fixed, and what each thread has been returned. -/
structure State (σ α κ ρ τ : Type*) where
  data : σ
  held : Bool
  phase : τ → Phase α κ ρ
  order : List (τ × α × ρ)
  returned : τ → List (α × ρ)

/-- Nobody has called. -/
def State.start (data : σ) : State σ α κ ρ τ :=
  { data := data, held := false, phase := fun _ => .idle, order := [], returned := fun _ => [] }

/-- A thread makes a call, or goes on with the one it has made. -/
inductive Action (α τ : Type*)
  | call (t : τ) (a : α)
  | go (t : τ)

section Step

variable [DecidableEq τ]

def State.put (s : State σ α κ ρ τ) (t : τ) (p : Phase α κ ρ) : State σ α κ ρ τ :=
  { s with phase := Function.update s.phase t p }

/-- The answer of `t` to its call `a` is fixed. -/
def State.record (s : State σ α κ ρ τ) (t : τ) (a : α) (r : Reply ρ) : State σ α κ ρ τ :=
  { s with order := s.order ++ [(t, a, r.answer)] }

/-- One step.  Taking a lock that is held waits; freeing it never does. -/
def step (svc : Service σ α κ ρ) (s : State σ α κ ρ τ) : Action α τ → State σ α κ ρ τ
  | .call t a =>
      match s.phase t with
      | .idle =>
          match svc.enter a with
          | .inl r => (s.record t a r).put t (.returning a r)
          | .inr l => s.put t (.waiting a l)
      | _ => s
  | .go t =>
      match s.phase t with
      | .idle => s
      | .waiting a l => if s.held then s else { s.put t (.inside a l) with held := true }
      | .inside a l =>
          match svc.round (s.data, l) with
          | .inl (data, r) => { (s.record t a r).put t (.leaving a r) with data := data }
          | .inr (data, l) => { s.put t (.inside a l) with data := data }
      | .leaving a r => { s.put t (.returning a r) with held := false }
      | .returning a ⟨x, n + 1⟩ => { s.put t (.returning a ⟨x, n⟩) with held := false }
      | .returning a ⟨x, 0⟩ =>
          { s.put t .idle with
            returned := Function.update s.returned t (s.returned t ++ [(a, x)]) }

end Step

/-- At most one thread is inside. -/
def Exclusive (s : State σ α κ ρ τ) : Prop :=
  ∀ t u, (s.phase t).Holds → (s.phase u).Holds → t = u

/-- Nobody is inside. -/
def Quiet (s : State σ α κ ρ τ) : Prop := ∀ t, ¬(s.phase t).Holds

/-- A call that has its answer frees the lock again only while nobody is inside. -/
def FreedQuiet (s : State σ α κ ρ τ) : Action α τ → Prop
  | .call _ _ => True
  | .go t => (s.phase t).Frees → Quiet s

instance [Fintype τ] (s : State σ α κ ρ τ) : Decidable (Quiet s) :=
  inferInstanceAs (Decidable (∀ t, ¬(s.phase t).Holds))

instance [Fintype τ] (s : State σ α κ ρ τ) : (action : Action α τ) → Decidable (FreedQuiet s action)
  | .call _ _ => isTrue trivial
  | .go t => inferInstanceAs (Decidable ((s.phase t).Frees → Quiet s))

/-- The calls of thread `t` among `calls`. -/
def callsOf [DecidableEq τ] (t : τ) (calls : List (τ × α × ρ)) : List (α × ρ) :=
  (calls.filter (·.1 = t)).map Prod.snd

theorem callsOf_append [DecidableEq τ] (t : τ) (calls calls' : List (τ × α × ρ)) :
    callsOf t (calls ++ calls') = callsOf t calls ++ callsOf t calls' := by
  simp [callsOf]

theorem callsOf_self [DecidableEq τ] (t : τ) (x : α × ρ) : callsOf t [(t, x)] = [x] := by
  simp [callsOf]

theorem callsOf_of_ne [DecidableEq τ] {t u : τ} (h : u ≠ t) (x : α × ρ) :
    callsOf t [(u, x)] = [] := by
  simp [callsOf, h]

/-! ## What a step leaves alone -/

def Action.thread : Action α τ → τ
  | .call t _ | .go t => t

section Steps

variable [DecidableEq τ] {svc : Service σ α κ ρ} {s : State σ α κ ρ τ} {t : τ}

theorem phase_step_of_ne {action : Action α τ} (h : action.thread ≠ t) :
    (step svc s action).phase t = s.phase t := by
  have hput : ∀ p, Function.update s.phase action.thread p t = s.phase t := fun p =>
    Function.update_of_ne h.symm p s.phase
  cases action with
  | call u a =>
      simp only [step]
      split
      · split <;> exact hput _
      · rfl
  | go u =>
      simp only [step]
      split
      · rfl
      · split
        · rfl
        · exact hput _
      · split <;> exact hput _
      · exact hput _
      · exact hput _
      · exact hput _

/-- Only a thread inside changes the object. -/
theorem data_step_of_not_holds {action : Action α τ} (h : ¬(s.phase action.thread).Holds) :
    (step svc s action).data = s.data := by
  cases action with
  | call u a =>
      simp only [step]
      split
      · split <;> rfl
      · rfl
  | go u =>
      cases hp : s.phase u with
      | inside a l =>
          rw [Action.thread, hp] at h
          exact absurd trivial h
      | idle => simp [step, hp]
      | waiting a l =>
          simp only [step, hp]
          split <;> rfl
      | leaving a r => simp [step, hp, State.put]
      | returning a r =>
          rcases r with ⟨x, _ | n⟩ <;> simp [step, hp, State.put]

/-- A thread that is in a call stays where it is until it goes on itself. -/
theorem step_call_of_busy {a : α} (hbusy : s.phase t ≠ .idle) : step svc s (.call t a) = s := by
  cases hp : s.phase t with
  | idle => exact absurd hp hbusy
  | waiting b l | inside b l | leaving b r | returning b r => simp [step, hp]

theorem phase_stays {action : Action α τ} (hmine : action ≠ .go t) (hbusy : s.phase t ≠ .idle) :
    (step svc s action).phase t = s.phase t := by
  by_cases hthread : action.thread = t
  · cases action with
    | go u => exact absurd (congrArg Action.go hthread) hmine
    | call u a =>
        obtain rfl : u = t := hthread
        rw [step_call_of_busy hbusy]
  · exact phase_step_of_ne hthread

/-- A lock that is held has a holder. -/
theorem held_step (hheld : s.held = true → ∃ u, (s.phase u).Holds) (action : Action α τ)
    (hnext : (step svc s action).held = true) : ∃ u, ((step svc s action).phase u).Holds := by
  -- Whoever is inside stays inside when a thread moves that is not.
  have hother : ∀ t, ¬(s.phase t).Holds → s.held = true → ∀ p : Phase α κ ρ,
      ∃ u, (Function.update s.phase t p u).Holds := by
    intro t hout htaken p
    obtain ⟨u, hu⟩ := hheld htaken
    have hne : u ≠ t := fun heq => hout (heq ▸ hu)
    exact ⟨u, by rwa [Function.update_of_ne hne]⟩
  have hself : ∀ t (p : Phase α κ ρ), p.Holds → ∃ u, (Function.update s.phase t p u).Holds :=
    fun t p hp => ⟨t, by rwa [Function.update_self]⟩
  cases action with
  | call t a =>
      cases hp : s.phase t with
      | idle =>
          have hout := hother t (by rw [hp]; exact id)
          simp only [step, hp] at hnext ⊢
          cases henter : svc.enter a <;> rw [henter] at hnext <;> exact hout hnext _
      | waiting b l | inside b l | leaving b r | returning b r =>
          rw [step_call_of_busy (by rw [hp]; simp)] at hnext ⊢
          exact hheld hnext
  | go t =>
      cases hp : s.phase t with
      | idle =>
          simp only [step, hp] at hnext ⊢
          exact hheld hnext
      | waiting a l =>
          simp only [step, hp] at hnext ⊢
          by_cases htaken : s.held = true
          · rw [if_pos htaken] at hnext ⊢
            exact hheld hnext
          · rw [if_neg htaken]
            exact hself t _ trivial
      | inside a l =>
          simp only [step, hp] at hnext ⊢
          rcases svc.round (s.data, l) with ⟨data, r⟩ | ⟨data, l'⟩
          · exact hself t _ trivial
          · exact hself t _ trivial
      | leaving a r =>
          simp only [step, hp] at hnext
          cases hnext
      | returning a r =>
          have hout := hother t (by rw [hp]; exact id)
          rcases r with ⟨x, _ | n⟩
          · simp only [step, hp] at hnext ⊢
            exact hout hnext _
          · simp only [step, hp] at hnext
            cases hnext

end Steps

/-! ## The invariant -/

variable {svc : Service σ α κ ρ} {init : σ} {s : State σ α κ ρ τ}

/-- What a thread in the given phase sees of the object while it holds the lock: its own
rounds since the recorded calls, or the recorded calls with its own. -/
def HolderSees (svc : Service σ α κ ρ) (init data : σ) (order : List (τ × α × ρ)) :
    Phase α κ ρ → Prop
  | .inside a l =>
      ∃ before first, Serial svc init order before ∧ svc.enter a = .inr first ∧
        Relation.ReflTransGen (Again svc.round) (before, first) (data, l)
  | .leaving _ _ => Serial svc init order data
  | .idle | .waiting _ _ | .returning _ _ => False

/-- Nobody is inside and the object is what the recorded calls leave; or one thread is
inside, and it holds the lock. -/
inductive Guarded (svc : Service σ α κ ρ) (init : σ) (s : State σ α κ ρ τ) : Prop
  | quiet (outside : Quiet s) (data : Serial svc init s.order s.data)
  | busy (t : τ) (held : s.held = true) (others : ∀ u, u ≠ t → ¬(s.phase u).Holds)
      (holder : HolderSees svc init s.data s.order (s.phase t))

/-- The invariant of a run. -/
structure Inv [DecidableEq τ] (svc : Service σ α κ ρ) (init : σ) (s : State σ α κ ρ τ) :
    Prop where
  began : ∀ t a l, s.phase t = .waiting a l → svc.enter a = .inr l
  told : ∀ t, callsOf t s.order = s.returned t ++ (s.phase t).due
  guarded : Guarded svc init s

theorem Guarded.exclusive (h : Guarded svc init s) : Exclusive s := by
  intro t u ht hu
  cases h with
  | quiet outside data => exact absurd ht (outside t)
  | busy v held others holder =>
      have htv : t = v := by
        by_contra hne
        exact others t hne ht
      have huv : u = v := by
        by_contra hne
        exact others u hne hu
      rw [htv, huv]

/-- A thread inside is the one that holds the lock. -/
theorem Guarded.holder (h : Guarded svc init s) {t : τ} (ht : (s.phase t).Holds) :
    s.held = true ∧ (∀ u, u ≠ t → ¬(s.phase u).Holds) ∧
      HolderSees svc init s.data s.order (s.phase t) := by
  cases h with
  | quiet outside data => exact absurd ht (outside t)
  | busy v held others holder =>
      have htv : t = v := by
        by_contra hne
        exact others t hne ht
      subst htv
      exact ⟨held, others, holder⟩

theorem Guarded.data_of_quiet (h : Guarded svc init s) (hq : Quiet s) :
    Serial svc init s.order s.data := by
  cases h with
  | quiet outside data => exact data
  | busy t held others holder =>
      have hout := hq t
      cases hp : s.phase t with
      | inside a l =>
          rw [hp] at hout
          exact absurd trivial hout
      | leaving a r =>
          rw [hp] at hout
          exact absurd trivial hout
      | idle =>
          rw [hp] at holder
          exact holder.elim
      | waiting a l =>
          rw [hp] at holder
          exact holder.elim
      | returning a r =>
          rw [hp] at holder
          exact holder.elim

/-- The recorded calls are serial at any time, with a thread inside as well. -/
theorem Guarded.serial (h : Guarded svc init s) : ∃ data, Serial svc init s.order data := by
  cases h with
  | quiet outside data => exact ⟨_, data⟩
  | busy t held others holder =>
      cases hp : s.phase t with
      | inside a l =>
          rw [hp] at holder
          rcases holder with ⟨before, first, hserial, -, -⟩
          exact ⟨before, hserial⟩
      | leaving a r =>
          rw [hp] at holder
          exact ⟨_, holder⟩
      | idle =>
          rw [hp] at holder
          exact holder.elim
      | waiting a l =>
          rw [hp] at holder
          exact holder.elim
      | returning a r =>
          rw [hp] at holder
          exact holder.elim

/-- A call that is answered at once does not touch the object. -/
theorem Serial.callAtOnce {calls : List (τ × α × ρ)} {data : σ} (h : Serial svc init calls data)
    (t : τ) {a : α} {r : Reply ρ} (henter : svc.enter a = .inl r) :
    Serial svc init (calls ++ [(t, a, r.answer)]) data := by
  refine h.call t ?_
  rw [Service.Answers, henter]
  exact ⟨rfl, rfl⟩

theorem HolderSees.callAtOnce {data : σ} {order : List (τ × α × ρ)} {p : Phase α κ ρ}
    (h : HolderSees svc init data order p) (t : τ) {a : α} {r : Reply ρ}
    (henter : svc.enter a = .inl r) :
    HolderSees svc init data (order ++ [(t, a, r.answer)]) p := by
  cases p with
  | inside b l =>
      rcases h with ⟨before, first, hserial, hb, hrounds⟩
      exact ⟨before, first, hserial.callAtOnce t henter, hb, hrounds⟩
  | leaving b q => exact Serial.callAtOnce h t henter
  | idle => exact h
  | waiting b l => exact h
  | returning b q => exact h

/-- The rounds made so far and the one that leaves are an uninterrupted call. -/
theorem answers_of_rounds {before data data' : σ} {a : α} {first l : κ} {r : Reply ρ}
    (henter : svc.enter a = .inr first)
    (hrounds : Relation.ReflTransGen (Again svc.round) (before, first) (data, l))
    (hlast : svc.round (data, l) = .inl (data', r)) : svc.Answers before a r data' := by
  rw [Service.Answers, henter]
  exact Ends.after hrounds (.leave hlast)

section Invariant

variable [DecidableEq τ]

theorem inv_start (svc : Service σ α κ ρ) (data : σ) :
    Inv svc data (State.start data : State σ α κ ρ τ) :=
  { began := nofun
    told := fun _ => rfl
    guarded := .quiet (fun _ h => h) .start }

/-! ### What moving one thread does to the others -/

/-- A thread that stays outside: whoever is inside stays inside, and nobody else is. -/
private theorem Guarded.move_outside (h : Guarded svc init s) {s' : State σ α κ ρ τ} {t : τ}
    {p : Phase α κ ρ} (hphase : s'.phase = Function.update s.phase t p)
    (hold : ¬(s.phase t).Holds) (hnew : ¬p.Holds) (hdata : s'.data = s.data)
    (hheld : s.held = true → s'.held = true)
    (hserial : Serial svc init s.order s.data → Serial svc init s'.order s.data)
    (hsees : ∀ q, HolderSees svc init s.data s.order q → HolderSees svc init s.data s'.order q) :
    Guarded svc init s' := by
  have hkeep : ∀ u, (s'.phase u).Holds ↔ (s.phase u).Holds := by
    intro u
    rw [hphase]
    by_cases hu : u = t
    · subst hu
      rw [Function.update_self]
      exact iff_of_false hnew hold
    · rw [Function.update_of_ne hu]
  cases h with
  | quiet outside data =>
      refine .quiet ?_ (hdata ▸ hserial data)
      intro u
      rw [hkeep u]
      exact outside u
  | busy v held others holder =>
      have hne : v ≠ t := by
        rintro rfl
        cases hp : s.phase v <;> rw [hp] at holder hold
        case inside => exact hold trivial
        case leaving => exact hold trivial
        all_goals exact holder
      refine .busy v (hheld held) ?_ ?_
      · intro u hu
        rw [hkeep u]
        exact others u hu
      · rw [hdata, hphase, Function.update_of_ne hne]
        exact hsees _ holder

/-- The thread that holds the lock moves on and keeps it. -/
private theorem Guarded.move_holder {s' : State σ α κ ρ τ} {t : τ} {p : Phase α κ ρ}
    (hphase : s'.phase = Function.update s.phase t p) (held : s'.held = true)
    (others : ∀ u, u ≠ t → ¬(s.phase u).Holds) (holder : HolderSees svc init s'.data s'.order p) :
    Guarded svc init s' := by
  refine .busy t held ?_ ?_
  · intro u hu
    rw [hphase, Function.update_of_ne hu]
    exact others u hu
  · rw [hphase, Function.update_self]
    exact holder

/-- What the threads have been told, when `t` moves. -/
private theorem told_of_move {s' : State σ α κ ρ τ} {t : τ} {p : Phase α κ ρ}
    (h : ∀ u, callsOf u s.order = s.returned u ++ (s.phase u).due)
    (hphase : s'.phase = Function.update s.phase t p)
    (hothers : ∀ u, u ≠ t → callsOf u s'.order = callsOf u s.order ∧ s'.returned u = s.returned u)
    (hown : callsOf t s'.order = s'.returned t ++ p.due) (u : τ) :
    callsOf u s'.order = s'.returned u ++ (s'.phase u).due := by
  rw [hphase]
  by_cases hu : u = t
  · subst hu
    rw [Function.update_self]
    exact hown
  · rw [Function.update_of_ne hu, (hothers u hu).1, (hothers u hu).2]
    exact h u

/-- Recording a call of `t` is no news to the others. -/
private theorem callsOf_record_of_ne {t u : τ} (hu : u ≠ t) (a : α) (r : Reply ρ) :
    callsOf u (s.record t a r).order = callsOf u s.order := by
  rw [State.record, callsOf_append, callsOf_of_ne (Ne.symm hu), List.append_nil]

private theorem callsOf_record_self (t : τ) (a : α) (r : Reply ρ) :
    callsOf t (s.record t a r).order = callsOf t s.order ++ [(a, r.answer)] := by
  rw [State.record, callsOf_append, callsOf_self]

/-- A thread that goes on to a phase in which it does not wait. -/
private theorem began_of_move {s' : State σ α κ ρ τ} {t : τ} {p : Phase α κ ρ}
    (h : ∀ u a l, s.phase u = .waiting a l → svc.enter a = .inr l)
    (hphase : s'.phase = Function.update s.phase t p)
    (hown : ∀ a l, p = .waiting a l → svc.enter a = .inr l) (u : τ) (a : α) (l : κ)
    (hwait : s'.phase u = .waiting a l) : svc.enter a = .inr l := by
  rw [hphase] at hwait
  by_cases hu : u = t
  · subst hu
    rw [Function.update_self] at hwait
    exact hown a l hwait
  · rw [Function.update_of_ne hu] at hwait
    exact h u a l hwait

/-! ### The steps -/

theorem Inv.step_call (h : Inv svc init s) (t : τ) (a : α) :
    Inv svc init (step svc s (.call t a)) := by
  cases hp : s.phase t with
  | idle =>
      have hout : ¬(s.phase t).Holds := by
        rw [hp]
        exact id
      have hdue := h.told t
      rw [hp, Phase.due, List.append_nil] at hdue
      simp only [step, hp]
      cases henter : svc.enter a with
      | inl r =>
          constructor
          · exact began_of_move h.began rfl nofun
          · refine told_of_move h.told rfl ?_ ?_
            · intro u hu
              exact ⟨callsOf_record_of_ne hu a r, rfl⟩
            · exact (callsOf_record_self t a r).trans (congrArg (· ++ _) hdue)
          · refine h.guarded.move_outside rfl hout id rfl id ?_ ?_
            · intro hserial
              exact hserial.callAtOnce t henter
            · intro q hsees
              exact hsees.callAtOnce t henter
      | inr l =>
          constructor
          · refine began_of_move h.began rfl ?_
            intro b l' heq
            obtain ⟨rfl, rfl⟩ := Phase.waiting.inj heq
            exact henter
          · refine told_of_move h.told rfl (fun u _ => ⟨rfl, rfl⟩) ?_
            exact hdue.trans (List.append_nil _).symm
          · exact h.guarded.move_outside rfl hout id rfl id id (fun _ => id)
  | waiting b l => simpa [step, hp] using h
  | inside b l => simpa [step, hp] using h
  | leaving b r => simpa [step, hp] using h
  | returning b r => simpa [step, hp] using h

theorem Inv.go_waiting (h : Inv svc init s) {t : τ} {a : α} {l : κ}
    (hp : s.phase t = .waiting a l) : Inv svc init (step svc s (.go t)) := by
  simp only [step, hp]
  split
  · exact h
  · rename_i hfree
    have hdue := h.told t
    rw [hp] at hdue
    constructor
    · exact began_of_move h.began rfl nofun
    · exact told_of_move h.told rfl (fun u _ => ⟨rfl, rfl⟩) hdue
    · cases h.guarded with
      | quiet outside data =>
          exact .move_holder rfl rfl (fun u _ => outside u)
            ⟨s.data, l, data, h.began t a l hp, .refl⟩
      | busy v held others holder => exact absurd held hfree

theorem Inv.go_inside (h : Inv svc init s) {t : τ} {a : α} {l : κ}
    (hp : s.phase t = .inside a l) : Inv svc init (step svc s (.go t)) := by
  obtain ⟨held, others, holder⟩ := h.guarded.holder (t := t) (by rw [hp]; trivial)
  rw [hp] at holder
  obtain ⟨before, first, hserial, henter, hrounds⟩ := holder
  have hdue := h.told t
  rw [hp, Phase.due, List.append_nil] at hdue
  simp only [step, hp]
  cases hround : svc.round (s.data, l) with
  | inl out =>
      obtain ⟨data', r⟩ := out
      constructor
      · exact began_of_move h.began rfl nofun
      · refine told_of_move h.told rfl ?_ ?_
        · intro u hu
          exact ⟨callsOf_record_of_ne hu a r, rfl⟩
        · exact (callsOf_record_self t a r).trans (congrArg (· ++ _) hdue)
      · exact .move_holder rfl held others
          (hserial.call t (answers_of_rounds henter hrounds hround))
  | inr next =>
      obtain ⟨data', l'⟩ := next
      constructor
      · exact began_of_move h.began rfl nofun
      · refine told_of_move h.told rfl (fun u _ => ⟨rfl, rfl⟩) ?_
        exact hdue.trans (List.append_nil _).symm
      · exact .move_holder rfl held others ⟨before, first, hserial, henter, hrounds.tail hround⟩

theorem Inv.go_leaving (h : Inv svc init s) {t : τ} {a : α} {r : Reply ρ}
    (hp : s.phase t = .leaving a r) : Inv svc init (step svc s (.go t)) := by
  obtain ⟨held, others, holder⟩ := h.guarded.holder (t := t) (by rw [hp]; trivial)
  rw [hp] at holder
  have hdue := h.told t
  rw [hp] at hdue
  simp only [step, hp]
  constructor
  · exact began_of_move h.began rfl nofun
  · exact told_of_move h.told rfl (fun u _ => ⟨rfl, rfl⟩) hdue
  · refine .quiet ?_ holder
    intro u
    show ¬(Function.update s.phase t (.returning a r) u).Holds
    by_cases hu : u = t
    · rw [hu, Function.update_self]
      exact id
    · rw [Function.update_of_ne hu]
      exact others u hu

theorem Inv.go_returning (h : Inv svc init s) {t : τ} {a : α} {r : Reply ρ}
    (hp : s.phase t = .returning a r) (hquiet : FreedQuiet s (.go t)) :
    Inv svc init (step svc s (.go t)) := by
  have hout : ¬(s.phase t).Holds := by
    rw [hp]
    exact id
  have hdue := h.told t
  rw [hp] at hdue
  rcases r with ⟨x, _ | n⟩
  · -- The call returns.
    simp only [step, hp]
    constructor
    · exact began_of_move h.began rfl nofun
    · refine told_of_move h.told rfl ?_ ?_
      · intro u hu
        exact ⟨rfl, Function.update_of_ne hu _ _⟩
      · show callsOf t s.order = Function.update s.returned t (s.returned t ++ [(a, x)]) t ++ []
        rw [Function.update_self, List.append_nil]
        exact hdue
    · exact h.guarded.move_outside rfl hout id rfl id id (fun _ => id)
  · -- The lock is freed once more, with nobody inside.
    have hnobody : Quiet s := hquiet (by rw [hp]; exact Nat.succ_pos n)
    simp only [step, hp]
    constructor
    · exact began_of_move h.began rfl nofun
    · exact told_of_move h.told rfl (fun u _ => ⟨rfl, rfl⟩) hdue
    · refine .quiet ?_ (h.guarded.data_of_quiet hnobody)
      intro u
      show ¬(Function.update s.phase t (.returning a ⟨x, n⟩) u).Holds
      by_cases hu : u = t
      · rw [hu, Function.update_self]
        exact id
      · rw [Function.update_of_ne hu]
        exact hnobody u

/-- **One step keeps the invariant**, unless it frees the lock under a thread that is
inside. -/
theorem Inv.step (h : Inv svc init s) (action : Action α τ) (hquiet : FreedQuiet s action) :
    Inv svc init (step svc s action) := by
  cases action with
  | call t a => exact h.step_call t a
  | go t =>
      cases hp : s.phase t with
      | idle => simpa [LockedCalls.step, hp] using h
      | waiting a l => exact h.go_waiting hp
      | inside a l => exact h.go_inside hp
      | leaving a r => exact h.go_leaving hp
      | returning a r => exact h.go_returning hp hquiet

theorem inv_run {data : σ} {actions : List (Action α τ)}
    (hquiet : Along (step svc) FreedQuiet (State.start data) actions) :
    Inv svc data (actions.foldl (LockedCalls.step svc) (State.start data)) :=
  invariant (fun _ _ h hq => h.step _ hq) (inv_start svc data) hquiet

/-! ## The recorded order -/

/-- A step records nothing or one call. -/
theorem order_prefix_step (svc : Service σ α κ ρ) (s : State σ α κ ρ τ) (action : Action α τ) :
    s.order <+: (LockedCalls.step svc s action).order := by
  cases action with
  | call t a =>
      simp only [LockedCalls.step]
      split
      · split
        · exact List.prefix_append _ _
        · exact List.prefix_refl _
      · exact List.prefix_refl _
  | go t =>
      simp only [LockedCalls.step]
      split
      · exact List.prefix_refl _
      · split
        · exact List.prefix_refl _
        · exact List.prefix_refl _
      · split
        · exact List.prefix_append _ _
        · exact List.prefix_refl _
      · exact List.prefix_refl _
      · exact List.prefix_refl _
      · exact List.prefix_refl _

/-- **The order is final.**  What is recorded keeps its place, so that a call that has
returned stands before every call made after that. -/
theorem order_prefix (svc : Service σ α κ ρ) (s : State σ α κ ρ τ)
    (actions : List (Action α τ)) :
    s.order <+: (actions.foldl (LockedCalls.step svc) s).order := by
  induction actions generalizing s with
  | nil => exact List.prefix_refl _
  | cons action actions ih => exact (order_prefix_step svc s action).trans (ih _)

end Invariant

end Aesd.Verified.LockedCalls
