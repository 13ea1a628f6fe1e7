/-
The first probe that answers on an evenly spaced walk below a limit.
-/

import Mathlib.Data.List.Basic

namespace SuperBootimg.FirstMatch

/-- Walk from `offset` in steps of `stride` while below `limit`. The fuel bounds
the number of probes; `firstMatch_eq_some_iff` asks for enough of it. -/
def firstMatch (probe : Nat → Bool) (stride limit : Nat) : Nat → Nat → Option Nat
  | 0, _ => none
  | fuel + 1, offset =>
      if offset < limit then
        if probe offset then some offset else firstMatch probe stride limit fuel (offset + stride)
      else none

theorem firstMatch_eq_some_iff (probe : Nat → Bool) (stride limit fuel offset found : Nat)
    (enough : limit ≤ offset + stride * fuel) :
    firstMatch probe stride limit fuel offset = some found ↔
      ∃ steps, found = offset + stride * steps ∧ found < limit ∧ probe found = true ∧
        ∀ earlier, earlier < steps → probe (offset + stride * earlier) = false := by
  induction fuel generalizing offset with
  | zero =>
      rw [Nat.mul_zero, Nat.add_zero] at enough
      constructor
      · intro impossible
        cases impossible
      · intro given
        obtain ⟨steps, rfl, below, _⟩ := given
        omega
  | succ fuel ih =>
      rw [Nat.mul_succ] at enough
      have shift : ∀ steps, offset + stride + stride * steps = offset + stride * (steps + 1) := by
        intro steps
        rw [Nat.mul_succ]
        omega
      unfold firstMatch
      by_cases below : offset < limit
      · rw [if_pos below]
        cases here : probe offset with
        | true =>
            rw [if_pos rfl]
            constructor
            · intro same
              cases same
              exact ⟨0, rfl, below, here, fun _ impossible => absurd impossible (Nat.not_lt_zero _)⟩
            · intro given
              obtain ⟨steps, rfl, _, _, first⟩ := given
              cases steps with
              | zero => rfl
              | succ steps =>
                  have missed := first 0 (Nat.succ_pos steps)
                  rw [Nat.mul_zero, Nat.add_zero, here] at missed
                  cases missed
        | false =>
            rw [if_neg (by simp), ih (offset + stride) (by omega)]
            constructor
            · intro given
              obtain ⟨steps, rfl, inside, answered, first⟩ := given
              refine ⟨steps + 1, shift steps, inside, answered, ?_⟩
              intro earlier before
              cases earlier with
              | zero => rw [Nat.mul_zero, Nat.add_zero, here]
              | succ earlier => rw [← shift]; exact first earlier (by omega)
            · intro given
              obtain ⟨steps, rfl, inside, answered, first⟩ := given
              cases steps with
              | zero =>
                  rw [Nat.mul_zero, Nat.add_zero, here] at answered
                  cases answered
              | succ steps =>
                  refine ⟨steps, (shift steps).symm, inside, answered, ?_⟩
                  intro earlier before
                  rw [shift]
                  exact first (earlier + 1) (by omega)
      · rw [if_neg below]
        constructor
        · intro impossible
          cases impossible
        · intro given
          obtain ⟨steps, rfl, inside, _⟩ := given
          omega

end SuperBootimg.FirstMatch
