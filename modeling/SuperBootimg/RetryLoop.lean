/-
Trying again until an attempt succeeds. How an attempt ends may depend on its number
and on the state that the attempts before it have left.
-/

import Mathlib.Data.Option.Basic

namespace SuperBootimg.RetryLoop

variable {σ : Type} (attempt : Nat → σ → Bool × σ)

/-- The number of the first attempt that succeeds and the state after it, with fuel. -/
def retry : Nat → Nat → σ → Option (Nat × σ)
  | 0, _, _ => none
  | fuel + 1, index, state =>
      let (done, next) := attempt index state
      if done then some (index, next) else retry fuel (index + 1) next

variable {attempt}

theorem retry_done {fuel index : Nat} {state next : σ}
    (done : attempt index state = (true, next)) :
    retry attempt (fuel + 1) index state = some (index, next) := by
  unfold retry
  rw [done]
  rfl

theorem retry_again {fuel index : Nat} {state next : σ}
    (again : attempt index state = (false, next)) :
    retry attempt (fuel + 1) index state = retry attempt fuel (index + 1) next := by
  rw [retry, again]
  rfl

/-- What failed attempts preserve holds when the last attempt begins. -/
theorem retry_invariant {invariant : Nat → σ → Prop}
    (preserved : ∀ index state next, invariant index state → attempt index state = (false, next) →
      invariant (index + 1) next)
    {fuel index last : Nat} {state final : σ} (initially : invariant index state)
    (ended : retry attempt fuel index state = some (last, final)) :
    ∃ before, index ≤ last ∧ invariant last before ∧ attempt last before = (true, final) := by
  induction fuel generalizing index state with
  | zero => cases ended
  | succ fuel ih =>
      cases tried : attempt index state with
      | mk done next =>
          cases done with
          | true =>
              rw [retry_done tried] at ended
              cases ended
              exact ⟨state, Nat.le_refl _, initially, tried⟩
          | false =>
              rw [retry_again tried] at ended
              obtain ⟨before, later, holds, success⟩ :=
                ih (preserved index state next initially tried) ended
              exact ⟨before, Nat.le_of_succ_le later, holds, success⟩

/-- Where the state does not decide, the loop ends as soon as an attempt can succeed. -/
theorem retry_ends_iff {ready : Nat → Bool}
    (decided : ∀ index state, (attempt index state).1 = ready index) (index : Nat) (state : σ) :
    (∃ fuel, (retry attempt fuel index state).isSome = true) ↔
      ∃ later, index ≤ later ∧ ready later = true := by
  constructor
  · intro given
    obtain ⟨fuel, ended⟩ := given
    obtain ⟨⟨last, final⟩, ended⟩ := Option.isSome_iff_exists.mp ended
    obtain ⟨before, later, _, success⟩ := @retry_invariant σ attempt (fun _ _ => True)
      (fun _ _ _ _ _ => trivial) fuel index last state final trivial ended
    refine ⟨last, later, ?_⟩
    rw [← decided last before, success]
  · intro given
    obtain ⟨later, above, success⟩ := given
    induction distance : later - index generalizing index state with
    | zero =>
        have same : index = later := by omega
        subst same
        refine ⟨1, ?_⟩
        have first : attempt index state = (true, (attempt index state).2) :=
          Prod.ext ((decided index state).trans success) rfl
        rw [retry_done first]
        rfl
    | succ distance ih =>
        cases tried : attempt index state with
        | mk done next =>
            cases done with
            | true => exact ⟨1, by rw [retry_done tried]; rfl⟩
            | false =>
                obtain ⟨fuel, ended⟩ := ih (index + 1) next (by omega) (by omega)
                exact ⟨fuel + 1, by rw [retry_again tried]; exact ended⟩

end SuperBootimg.RetryLoop
