import Mathlib.Init
import Mathlib.Logic.Basic

/-!
# Runs of a partial step function

A step function takes a state and an input to the next state, or is undefined. A run
(`run`) takes the inputs of a list one after the other; it is undefined from the first
undefined step on. `Along` says that a condition holds at every step of a run, of the
state the step is taken in and of its input, as far as the run is defined.

What a step keeps a run keeps (`run_invariant`), and two conditions that say the same
of every state with an invariant say the same along runs from such a state
(`Along.congr`).
-/

namespace Lib.Runs

variable {σ α : Type*} {step : σ → α → Option σ} {p q : σ → α → Prop} {inv : σ → Prop} {s s' : σ} {l : List α}

/-- The inputs of a list, one after the other. -/
def run (step : σ → α → Option σ) : σ → List α → Option σ
  | s, [] => some s
  | s, a :: l => (step s a).bind fun s' => run step s' l

/-- A condition on every step of a run. -/
def Along (step : σ → α → Option σ) (p : σ → α → Prop) : σ → List α → Prop
  | _, [] => True
  | s, a :: l => p s a ∧ ∀ s', step s a = some s' → Along step p s' l

/-- What every step keeps. -/
theorem run_invariant (inv : σ → Prop) (hstep : ∀ s a s', inv s → step s a = some s' → inv s') (h : inv s)
    (hrun : run step s l = some s') : inv s' := by
  induction l generalizing s with
  | nil =>
    cases hrun
    exact h
  | cons a l ih =>
    obtain ⟨s₁, ha, hrun⟩ := Option.bind_eq_some_iff.mp hrun
    exact ih (hstep s a s₁ h ha) hrun

/-- A run is defined when each of its steps is. -/
theorem run_isSome : (∃ s', run step s l = some s') ↔ Along step (fun s a => ∃ s', step s a = some s') s l := by
  induction l generalizing s with
  | nil => exact ⟨fun _ => trivial, fun _ => ⟨s, rfl⟩⟩
  | cons a l ih =>
    constructor
    · rintro ⟨s', hrun⟩
      obtain ⟨s₁, ha, hrun⟩ := Option.bind_eq_some_iff.mp hrun
      refine ⟨⟨s₁, ha⟩, fun s₂ h₂ => ?_⟩
      rw [ha] at h₂
      cases h₂
      exact ih.mp ⟨s', hrun⟩
    · rintro ⟨⟨s₁, ha⟩, hrest⟩
      obtain ⟨s', hrun⟩ := ih.mpr (hrest s₁ ha)
      exact ⟨s', Option.bind_eq_some_iff.mpr ⟨s₁, ha, hrun⟩⟩

/-- A run after another. -/
theorem run_append {s₁ : σ} {l' : List α} (h : run step s l = some s₁) : run step s (l ++ l') = run step s₁ l' := by
  induction l generalizing s with
  | nil =>
    cases h
    rfl
  | cons a l ih =>
    obtain ⟨s₂, ha, h⟩ := Option.bind_eq_some_iff.mp h
    rw [List.cons_append, run, ha]
    exact ih h

/-- What holds along a run holds along its rest. -/
theorem Along.append {s₁ : σ} {l' : List α} (h : Along step p s (l ++ l')) (hrun : run step s l = some s₁) :
    Along step p s₁ l' := by
  induction l generalizing s with
  | nil =>
    cases hrun
    exact h
  | cons a l ih =>
    obtain ⟨s₂, ha, hrun⟩ := Option.bind_eq_some_iff.mp hrun
    exact ih (h.2 s₂ ha) hrun

/-- Conditions that agree under an invariant, which is kept where they hold. -/
theorem Along.congr (hpq : ∀ s a, inv s → (p s a ↔ q s a))
    (hstep : ∀ s a s', inv s → q s a → step s a = some s' → inv s') (h : inv s) :
    Along step p s l ↔ Along step q s l := by
  induction l generalizing s with
  | nil => exact Iff.rfl
  | cons a l ih =>
    constructor
    · rintro ⟨hp, hrest⟩
      have hq := (hpq s a h).mp hp
      exact ⟨hq, fun s' hs => (ih (hstep s a s' h hq hs)).mp (hrest s' hs)⟩
    · rintro ⟨hq, hrest⟩
      exact ⟨(hpq s a h).mpr hq, fun s' hs => (ih (hstep s a s' h hq hs)).mpr (hrest s' hs)⟩

end Lib.Runs
