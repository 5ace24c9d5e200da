import Aesd.Verified.Runs
import Mathlib.Data.Option.Basic

/-!
# Machines that take the events of other machines

The steps of a run emit events, and another machine takes these in turn or refuses them.
It is meant to be the simpler one, which does in one event what takes the first machine
many steps; most steps then emit nothing.  `simulates` is the forward simulation: if
every step of related states emits what the other machine takes and leaves related
states, so does every run.
-/

namespace Aesd.Verified.Simulation

open Aesd.Verified.Runs

variable {σ ι κ α : Type*}

/-- The events of a run, in order. -/
def emitted (step : σ → ι → σ) (events : σ → ι → List κ) : σ → List ι → List κ
  | _, [] => []
  | s, i :: inputs => events s i ++ emitted step events (step s i) inputs

/-- The other machine after the events; nothing if it refuses one of them. -/
def accept (next : α → κ → Option α) (a : α) (events : List κ) : Option α :=
  events.foldlM next a

variable {step : σ → ι → σ} {events : σ → ι → List κ} {next : α → κ → Option α}

@[simp] theorem accept_nil (a : α) : accept next a [] = some a := rfl

@[simp] theorem accept_singleton (a : α) (k : κ) : accept next a [k] = next a k := by
  simp [accept]

theorem accept_append (a : α) (ks more : List κ) :
    accept next a (ks ++ more) = (accept next a ks).bind fun a => accept next a more :=
  List.foldlM_append

/-- What every step emits, a run emits. -/
theorem forall_emitted {Q : κ → Prop} {ok : ι → Prop}
    (hstep : ∀ s i, ok i → ∀ k ∈ events s i, Q k) {s : σ} {inputs : List ι}
    (h : ∀ i ∈ inputs, ok i) : ∀ k ∈ emitted step events s inputs, Q k := by
  induction inputs generalizing s with
  | nil => exact fun _ hk => absurd hk List.not_mem_nil
  | cons i inputs ih =>
      rw [List.forall_mem_cons] at h
      intro k hk
      rcases List.mem_append.1 hk with hk | hk
      · exact hstep s i h.1 k hk
      · exact ih h.2 k hk

/-- **The simulation rule.** -/
theorem simulates {R : σ → α → Prop} {P : σ → ι → Prop}
    (hstep : ∀ s i a, R s a → P s i →
      ∃ a', accept next a (events s i) = some a' ∧ R (step s i) a')
    {inputs : List ι} {s : σ} {a : α} (h : R s a) (hrun : Along step P s inputs) :
    ∃ a', accept next a (emitted step events s inputs) = some a' ∧
      R (inputs.foldl step s) a' := by
  induction inputs generalizing s a with
  | nil => exact ⟨a, rfl, h⟩
  | cons i inputs ih =>
      obtain ⟨a', htaken, h'⟩ := hstep s i a h hrun.1
      obtain ⟨last, hrest, hlast⟩ := ih h' hrun.2
      refine ⟨last, ?_, hlast⟩
      rw [emitted, accept_append, htaken]
      exact hrest

/-- **The simulation rule** for a machine that refuses nothing, but takes an event only
under a condition. -/
theorem simulates_along {R : σ → α → Prop} {P : σ → ι → Prop} {step' : α → κ → α}
    {P' : α → κ → Prop}
    (hstep : ∀ s i a, R s a → P s i →
      Along step' P' a (events s i) ∧ R (step s i) ((events s i).foldl step' a))
    {inputs : List ι} {s : σ} {a : α} (h : R s a) (hrun : Along step P s inputs) :
    Along step' P' a (emitted step events s inputs) ∧
      R (inputs.foldl step s) ((emitted step events s inputs).foldl step' a) := by
  induction inputs generalizing s a with
  | nil => exact ⟨trivial, h⟩
  | cons i inputs ih =>
      obtain ⟨htaken, h'⟩ := hstep s i a h hrun.1
      obtain ⟨hrest, hlast⟩ := ih h' hrun.2
      rw [emitted, List.foldl_append]
      exact ⟨along_append.2 ⟨htaken, hrest⟩, hlast⟩

end Aesd.Verified.Simulation
