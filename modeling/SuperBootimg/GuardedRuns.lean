/-
Runs of a system whose actions may be blocked, and guards on the actions of a run in
the states they are taken in. What guarded actions preserve holds at the end of every
guarded run.
-/

import Mathlib.Data.Option.Basic

namespace SuperBootimg.GuardedRuns

variable {σ α : Type} (step : σ → α → Option σ)

/-- The state after some actions, when none of them is blocked. -/
def run : σ → List α → Option σ
  | state, [] => some state
  | state, action :: rest => (step state action).bind fun next => run next rest

/-- Every action meets the guard in the state it is taken in. -/
def meets (guard : σ → α → Bool) : σ → List α → Bool
  | _, [] => true
  | state, action :: rest =>
      guard state action && (step state action).all fun next => meets guard next rest

variable {step}

theorem run_cons {state final : σ} {action : α} {rest : List α}
    (reached : run step state (action :: rest) = some final) :
    ∃ next, step state action = some next ∧ run step next rest = some final :=
  Option.bind_eq_some_iff.mp reached

theorem meets_cons {guard : σ → α → Bool} {state next : σ} {action : α} {rest : List α}
    (meeting : meets step guard state (action :: rest) = true)
    (taken : step state action = some next) :
    guard state action = true ∧ meets step guard next rest = true := by
  unfold meets at meeting
  rw [taken, Option.all_some, Bool.and_eq_true] at meeting
  exact meeting

/-- An invariant of the guarded actions holds wherever a guarded run leads. -/
theorem invariant_of_meets {guard : σ → α → Bool} {invariant : σ → Prop}
    (preserved : ∀ state action next, invariant state → guard state action = true →
      step state action = some next → invariant next)
    {start final : σ} {actions : List α} (initially : invariant start)
    (meeting : meets step guard start actions = true)
    (reached : run step start actions = some final) : invariant final := by
  induction actions generalizing start with
  | nil =>
      cases reached
      exact initially
  | cons action rest ih =>
      obtain ⟨next, taken, onward⟩ := run_cons reached
      obtain ⟨met, meeting⟩ := meets_cons meeting taken
      exact ih (preserved start action next initially met taken) meeting onward

end SuperBootimg.GuardedRuns
