/-
Programs that update a state and either finish or stop early. Inversion rules
take a finished run apart, the lockstep rules relate two runs of one program
from related states. The state and the stop reasons are arbitrary.
-/

import Mathlib.Data.List.Basic

namespace SuperBootimg.StoppableRun

variable {ε σ α β : Type}

/-! ### Finished runs -/

/-- Started in `before`, the program returns `value` and leaves `after`. -/
def Finishes (program : EStateM ε σ α) (before : σ) (value : α) (after : σ) : Prop :=
  program before = .ok value after

theorem pure_finishes (value result : α) (before after : σ) :
    Finishes (pure value : EStateM ε σ α) before result after ↔
      result = value ∧ after = before := by
  constructor
  · intro finished
    cases finished
    exact ⟨rfl, rfl⟩
  · intro given
    obtain ⟨rfl, rfl⟩ := given
    rfl

theorem throw_not_finishes (stop : ε) (result : α) (before after : σ) :
    ¬ Finishes (throw stop : EStateM ε σ α) before result after := by
  intro finished
  cases finished

theorem get_finishes (result before after : σ) :
    Finishes (get : EStateM ε σ σ) before result after ↔ result = before ∧ after = before := by
  constructor
  · intro finished
    cases finished
    exact ⟨rfl, rfl⟩
  · intro given
    obtain ⟨rfl, rfl⟩ := given
    rfl

theorem modify_finishes (change : σ → σ) (result : PUnit) (before after : σ) :
    Finishes (modify change : EStateM ε σ PUnit) before result after ↔ after = change before := by
  constructor
  · intro finished
    cases finished
    rfl
  · intro same
    subst same
    rfl

theorem set_finishes (state : σ) (result : PUnit) (before after : σ) :
    Finishes (set state : EStateM ε σ PUnit) before result after ↔ after = state := by
  constructor
  · intro finished
    cases finished
    rfl
  · intro same
    subst same
    rfl

/-- A finished sequence is two finished runs, the second from where the first ended. -/
theorem bind_finishes (first : EStateM ε σ α) (next : α → EStateM ε σ β)
    (result : β) (before after : σ) :
    Finishes (first >>= next) before result after ↔
      ∃ value between, Finishes first before value between ∧
        Finishes (next value) between result after := by
  unfold Finishes
  constructor
  · intro finished
    change (match first before with
      | .ok value between => next value between
      | .error stop between => .error stop between) = .ok result after at finished
    cases outcome : first before with
    | ok value between =>
        rw [outcome] at finished
        exact ⟨value, between, rfl, finished⟩
    | error stop between =>
        rw [outcome] at finished
        cases finished
  · intro given
    obtain ⟨value, between, firstRun, nextRun⟩ := given
    change (match first before with
      | .ok value between => next value between
      | .error stop between => .error stop between) = .ok result after
    rw [firstRun]
    exact nextRun

/-- A step with one outcome passes that on. -/
theorem bind_finishes_of {first : EStateM ε σ α} {before between : σ} {value : α}
    {allowed : Prop}
    (outcome : ∀ found after, Finishes first before found after ↔
      allowed ∧ found = value ∧ after = between)
    (next : α → EStateM ε σ β) (result : β) (after : σ) :
    Finishes (first >>= next) before result after ↔
      allowed ∧ Finishes (next value) between result after := by
  rw [bind_finishes]
  constructor
  · intro given
    obtain ⟨found, reached, firstRun, nextRun⟩ := given
    obtain ⟨holds, rfl, rfl⟩ := (outcome found reached).mp firstRun
    exact ⟨holds, nextRun⟩
  · intro given
    exact ⟨value, between, (outcome value between).mpr ⟨given.1, rfl, rfl⟩, given.2⟩

theorem modify_bind_finishes (change : σ → σ) (next : PUnit → EStateM ε σ β) (result : β)
    (before after : σ) :
    Finishes (modify change >>= next) before result after ↔
      Finishes (next PUnit.unit) (change before) result after := by
  rw [@bind_finishes_of ε σ PUnit β _ before (change before) PUnit.unit True, true_and]
  intro found reached
  rw [modify_finishes, true_and]
  exact (and_iff_right rfl).symm

theorem ite_finishes (condition : Prop) [Decidable condition]
    (yes no : EStateM ε σ α) (result : α) (before after : σ) :
    Finishes (if condition then yes else no) before result after ↔
      (condition ∧ Finishes yes before result after) ∨
        (¬ condition ∧ Finishes no before result after) := by
  by_cases holds : condition
  · simp [holds]
  · simp [holds]

theorem Finishes.unique {program : EStateM ε σ α} {before after other : σ} {value second : α}
    (left : Finishes program before value after)
    (right : Finishes program before second other) : value = second ∧ after = other := by
  have same := left.symm.trans right
  cases same
  exact ⟨rfl, rfl⟩

/-! ### Where any run ends -/

def stopped : EStateM.Result ε σ α → Option ε
  | .ok _ _ => none
  | .error stop _ => some stop

def reached : EStateM.Result ε σ α → σ
  | .ok _ state => state
  | .error _ state => state

theorem bind_ok {first : EStateM ε σ α} {before between : σ} {value : α}
    (finished : Finishes first before value between) (next : α → EStateM ε σ β) :
    (first >>= next) before = next value between := by
  unfold Finishes at finished
  change (match first before with
    | .ok value between => next value between
    | .error stop between => .error stop between) = next value between
  rw [finished]

theorem bind_error {first : EStateM ε σ α} {before between : σ} {stop : ε}
    (stopped : first before = .error stop between) (next : α → EStateM ε σ β) :
    (first >>= next) before = .error stop between := by
  change (match first before with
    | .ok value between => next value between
    | .error stop between => .error stop between) = .error stop between
  rw [stopped]

/-! ### Two runs in lockstep -/

/-- States a program starts from alike are alike for what follows it. -/
theorem bind_from {first : EStateM ε σ α} {left right : σ} (same : first left = first right)
    (next : α → EStateM ε σ β) : (first >>= next) left = (first >>= next) right := by
  change (match first left with
      | .ok value between => next value between
      | .error stop between => .error stop between) =
    (match first right with
      | .ok value between => next value between
      | .error stop between => .error stop between)
  rw [same]

inductive Agree (related : σ → σ → Prop) :
    EStateM.Result ε σ α → EStateM.Result ε σ α → Prop
  | ok (value : α) {left right : σ} (states : related left right) :
      Agree related (.ok value left) (.ok value right)
  | error (stop : ε) {left right : σ} (states : related left right) :
      Agree related (.error stop left) (.error stop right)

/-- From related states the program takes the same way and ends in related states. -/
def Lockstep (related : σ → σ → Prop) (program : EStateM ε σ α) : Prop :=
  ∀ left right, related left right → Agree related (program left) (program right)

variable {related : σ → σ → Prop}

theorem Lockstep.pure (value : α) : Lockstep related (pure value : EStateM ε σ α) :=
  fun _ _ states => .ok value states

theorem Lockstep.throw (stop : ε) : Lockstep related (throw stop : EStateM ε σ α) :=
  fun _ _ states => .error stop states

theorem Lockstep.modify {change : σ → σ}
    (keeps : ∀ left right, related left right → related (change left) (change right)) :
    Lockstep related (modify change : EStateM ε σ PUnit) :=
  fun left right states => .ok PUnit.unit (keeps left right states)

theorem Lockstep.bind {first : EStateM ε σ α} {next : α → EStateM ε σ β}
    (firstLockstep : Lockstep related first)
    (nextLockstep : ∀ value, Lockstep related (next value)) :
    Lockstep related (first >>= next) := by
  intro left right states
  have agreed := firstLockstep left right states
  change Agree related
    (match first left with
      | .ok value between => next value between
      | .error stop between => .error stop between)
    (match first right with
      | .ok value between => next value between
      | .error stop between => .error stop between)
  cases leftRun : first left with
  | ok value between =>
      rw [leftRun] at agreed
      cases rightRun : first right with
      | ok second other =>
          rw [rightRun] at agreed
          cases agreed with
          | ok _ reached => exact nextLockstep value between other reached
      | error stop other =>
          rw [rightRun] at agreed
          cases agreed
  | error stop between =>
      rw [leftRun] at agreed
      cases rightRun : first right with
      | ok second other =>
          rw [rightRun] at agreed
          cases agreed
      | error second other =>
          rw [rightRun] at agreed
          cases agreed with
          | error _ reached => exact .error stop reached

theorem Lockstep.ite (condition : Prop) [Decidable condition] {yes no : EStateM ε σ α}
    (yesLockstep : Lockstep related yes) (noLockstep : Lockstep related no) :
    Lockstep related (if condition then yes else no) := by
  by_cases holds : condition
  · rw [if_pos holds]
    exact yesLockstep
  · rw [if_neg holds]
    exact noLockstep

end SuperBootimg.StoppableRun
