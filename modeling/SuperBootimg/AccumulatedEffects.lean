/-
Runs of actions that only ever add to an observed set. Some of the actions are
intended to add something; when the others add nothing is decided by what has been
there at the start and what the intended ones have added so far.
-/

import Mathlib.Data.List.Induction
import Mathlib.Data.Set.Basic

namespace SuperBootimg.AccumulatedEffects

variable {σ β α : Type} (view : σ → Set α) (step : σ → β → σ) (effect : β → Set α)

/-- Every action adds its effect to what is observed, and nothing else. -/
def Adds : Prop :=
  ∀ state action, view (step state action) = view state ∪ effect action

def gathered (actions : List β) : Set α :=
  {item | ∃ action, action ∈ actions ∧ item ∈ effect action}

theorem gathered_nil : gathered effect [] = ∅ := by
  ext item
  constructor
  · intro member
    obtain ⟨action, impossible, _⟩ := member
    cases impossible
  · intro impossible
    cases impossible

theorem gathered_append (first second : List β) :
    gathered effect (first ++ second) = gathered effect first ∪ gathered effect second := by
  ext item
  constructor
  · intro member
    obtain ⟨action, inside, effected⟩ := member
    rcases List.mem_append.mp inside with early | late
    · exact .inl ⟨action, early, effected⟩
    · exact .inr ⟨action, late, effected⟩
  · intro member
    rcases member with ⟨action, early, effected⟩ | ⟨action, late, effected⟩
    · exact ⟨action, List.mem_append_left _ early, effected⟩
    · exact ⟨action, List.mem_append_right _ late, effected⟩

theorem gathered_singleton (action : β) : gathered effect [action] = effect action := by
  ext item
  constructor
  · intro member
    obtain ⟨other, inside, effected⟩ := member
    rw [List.mem_singleton.mp inside] at effected
    exact effected
  · intro effected
    exact ⟨action, List.mem_singleton_self _, effected⟩

variable (intended : β → Bool)

/-- Only intended actions add anything, in the whole run and step by step. -/
structure OnlyIntended (state : σ) (actions : List β) : Prop where
  total : view (actions.foldl step state) =
    view state ∪ gathered effect (actions.filter intended)
  silent : ∀ before action after, actions = before ++ action :: after → intended action = false →
    view ((before ++ [action]).foldl step state) = view (before.foldl step state)

/-- What an unintended action names was there, or an intended one has added it before. -/
def Covered (state : σ) (actions : List β) : Prop :=
  ∀ before action after, actions = before ++ action :: after → intended action = false →
    effect action ⊆ view state ∪ gathered effect (before.filter intended)

variable {view step effect intended}

theorem view_foldl {actions : List β}
    (adds : ∀ action, action ∈ actions → ∀ state, view (step state action) =
      view state ∪ effect action) (state : σ) :
    view (actions.foldl step state) = view state ∪ gathered effect actions := by
  induction actions generalizing state with
  | nil =>
      rw [gathered_nil, Set.union_empty]
      rfl
  | cons action rest ih =>
      have first := gathered_append effect [action] rest
      rw [gathered_singleton] at first
      rw [List.foldl_cons, ih (fun other member => adds other (List.mem_cons_of_mem _ member)),
        adds action List.mem_cons_self, Set.union_assoc, ← first]
      rfl

theorem view_snoc (adds : Adds view step effect) (state : σ) (actions : List β) (action : β) :
    view ((actions ++ [action]).foldl step state) =
      view (actions.foldl step state) ∪ effect action := by
  rw [List.foldl_append]
  exact adds _ action

theorem Covered.view_foldl (adds : Adds view step effect) {state : σ} {actions : List β}
    (covered : Covered view effect intended state actions) :
    view (actions.foldl step state) =
      view state ∪ gathered effect (actions.filter intended) := by
  induction actions using List.reverseRecOn with
  | nil =>
      rw [List.filter_nil, gathered_nil, Set.union_empty]
      rfl
  | append_singleton actions action ih =>
      have earlier : Covered view effect intended state actions := by
        intro before other after split
        exact covered before other (after ++ [action]) (by rw [split, List.append_assoc]; rfl)
      rw [view_snoc adds, ih earlier, List.filter_append]
      cases meant : intended action with
      | true =>
          rw [List.filter_cons_of_pos meant, List.filter_nil, gathered_append,
            gathered_singleton, Set.union_assoc]
      | false =>
          have named := covered actions action [] rfl meant
          rw [List.filter_cons_of_neg (by rw [meant]; exact Bool.false_ne_true),
            List.filter_nil, List.append_nil]
          exact Set.union_eq_left.mpr named

/-- Only intended actions add anything exactly when the others name what is covered. -/
theorem onlyIntended_iff (adds : Adds view step effect) (state : σ) (actions : List β) :
    OnlyIntended view step effect intended state actions ↔
      Covered view effect intended state actions := by
  have prefixes : ∀ before action after, actions = before ++ action :: after →
      Covered view effect intended state actions → Covered view effect intended state before := by
    intro before action after split covered earlier other later beforeSplit
    exact covered earlier other (later ++ action :: after)
      (by rw [split, beforeSplit, List.append_assoc]; rfl)
  constructor
  · intro only
    have known : ∀ before rest, actions = before ++ rest →
        Covered view effect intended state before := by
      intro before
      induction before using List.reverseRecOn with
      | nil =>
          intro _ _ earlier action later split
          exact absurd split.symm (by simp)
      | append_singleton before last ih =>
          intro rest split
          rw [List.append_assoc, List.singleton_append] at split
          have sofar := ih (last :: rest) split
          intro earlier action later parts unintended
          rcases List.eq_nil_or_concat later with empty | ⟨others, final, inner⟩
          · rw [empty] at parts
            obtain ⟨same, sameAction⟩ := List.append_singleton_inj.mp parts
            rw [← sameAction] at unintended
            have kept := only.silent before last rest split unintended
            rw [view_snoc adds, sofar.view_foldl adds] at kept
            rw [← same, ← sameAction]
            exact Set.union_eq_left.mp kept
          · have shorter : before ++ [last] = (earlier ++ action :: others) ++ [final] := by
              rw [parts, inner, List.concat_eq_append, List.append_assoc]
              rfl
            obtain ⟨same, _⟩ := List.append_singleton_inj.mp shorter
            exact sofar earlier action others same unintended
    exact known actions [] (List.append_nil _).symm
  · intro covered
    constructor
    case total => exact covered.view_foldl adds
    case silent =>
      intro before action after split unintended
      have named := covered before action after split unintended
      rw [view_snoc adds, (prefixes before action after split covered).view_foldl adds]
      exact Set.union_eq_left.mpr named

end SuperBootimg.AccumulatedEffects
