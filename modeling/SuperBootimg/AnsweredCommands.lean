/-
Simple commands that ask for others. A script answers if, where it goes on, whatever a
command that has succeeded asks for has succeeded too, before or behind it.
-/

import SuperBootimg.ExitOnError

namespace SuperBootimg.ExitOnError

variable {σ α : Type} {act : α → σ → Bool × σ} {asks : α → Option α}

def Answers (act : α → σ → Bool × σ) (asks : α → Option α) (command : Command α) : Prop :=
  ∀ state, (run act command true state).ending ≠ .stopped →
    ∀ action, action ∈ performed (run act command true state).log →
      ∀ answer, asks action = some answer → answer ∈ performed (run act command true state).log

def others [DecidableEq α] (asks : α → Option α) (only : α) (action : α) : Option α :=
  if asks action = some only then none else asks action

theorem others_none [DecidableEq α] {only action : α}
    (asked : asks action = none ∨ asks action = some only) : others asks only action = none := by
  unfold others
  rcases asked with nothing | same
  · rw [nothing]
    exact ite_self _
  · rw [if_pos same]

theorem others_some [DecidableEq α] {only action : α} {answer : Option α}
    (asked : asks action = answer) :
    others asks only action = none ∨ others asks only action = answer := by
  unfold others
  rw [← asked]
  split
  · exact .inl rfl
  · exact .inr rfl

theorem mem_possible_of_performed {command : Command α} {checked : Bool} {state : σ} {action : α}
    (done : action ∈ performed (run act command checked state).log) :
    action ∈ command.possible := by
  obtain ⟨entry, logged, rfl⟩ := List.mem_map.mp done
  exact mem_possible (List.mem_filter.mp logged).1

theorem ensures_listed [DecidableEq α] {commands : List (Command α)} {only : α}
    (member : .simple only ∈ commands) :
    (Command.steps commands).ensures (fun action => decide (action = only)) = true := by
  apply Command.ensures_steps member
  unfold Command.ensures
  exact decide_eq_true rfl

namespace Answers

theorem of_silent {command : Command α}
    (silent : ∀ action, action ∈ command.possible → asks action = none) :
    Answers act asks command := by
  intro state _ action done answer asked
  rw [silent action (mem_possible_of_performed done)] at asked
  cases asked

/-- All that is asked for is one command, which the script is sure to carry out. -/
theorem of_ensured [DecidableEq α] {command : Command α} {only : α}
    (single : ∀ action, action ∈ command.possible → asks action = none ∨ asks action = some only)
    (ensured : command.ensures (fun action => decide (action = only)) = true) :
    Answers act asks command := by
  intro state goesOn action done answer asked
  obtain ⟨other, carried, equal⟩ := ensures_performed ensured goesOn
  rcases single action (mem_possible_of_performed done) with nothing | same
  · rw [nothing] at asked
    cases asked
  · rw [same] at asked
    cases asked
    rw [← of_decide_eq_true equal]
    exact carried

/-- One answer that is sure to come need not be looked for. -/
theorem but_for [DecidableEq α] {command : Command α} {only : α}
    (ensured : command.ensures (fun action => decide (action = only)) = true)
    (others : Answers act (others asks only) command) : Answers act asks command := by
  intro state goesOn action done answer asked
  by_cases same : answer = only
  · obtain ⟨other, carried, equal⟩ := ensures_performed ensured goesOn
    rw [same, ← of_decide_eq_true equal]
    exact carried
  · apply others state goesOn action done answer
    unfold ExitOnError.others
    rw [asked, if_neg (fun equal => same (Option.some.inj equal))]

theorem seq {first second : Command α} (early : Answers act asks first)
    (late : Answers act asks second) : Answers act asks (.seq first second) := by
  intro state goesOn action done answer asked
  obtain ⟨success, ended, later, _, _⟩ := Run.next_goesOn goesOn
  apply (Run.mem_performed_next ended answer).mpr
  rcases (Run.mem_performed_next ended action).mp done with before | behind
  · exact .inl (early state (by rw [ended]; exact nofun) action before answer asked)
  · exact .inr (late _ later action behind answer asked)

theorem steps {commands : List (Command α)}
    (each : ∀ command, command ∈ commands → Answers act asks command) :
    Answers act asks (.steps commands) :=
  Command.steps_induction (of_silent fun _ impossible => nomatch impossible)
    (fun _ _ => seq) each

/-- A part of a list that answers on its own. -/
theorem append {first second : List (Command α)} (some : first ≠ []) (others : second ≠ [])
    (early : Answers act asks (.steps first)) (late : Answers act asks (.steps second)) :
    Answers act asks (.steps (first ++ second)) := by
  intro state
  rw [run_steps_append some others]
  exact early.seq late state

/-- A test asks for nothing. -/
theorem conditional {guard body other : Command α}
    (silent : ∀ action, action ∈ guard.possible → asks action = none)
    (bodyAnswers : Answers act asks body) (otherAnswers : Answers act asks other) :
    Answers act asks (.conditional guard body other) := by
  intro state goesOn action done answer asked
  obtain ⟨success, ended, later, _, _⟩ := Run.next_goesOn goesOn
  apply (Run.mem_performed_next ended answer).mpr
  rcases (Run.mem_performed_next ended action).mp done with before | behind
  · rw [silent action (mem_possible_of_performed before)] at asked
    cases asked
  · right
    cases success with
    | true => exact bodyAnswers _ later action behind answer asked
    | false => exact otherAnswers _ later action behind answer asked

/-- A part that depends on a flag. -/
theorem flagged {flag : Bool} {body : Command α} (answers : Answers act asks body) :
    Answers act asks (.onlyIf (.status flag) body) :=
  conditional (fun _ impossible => nomatch impossible) answers
    (of_silent fun _ impossible => nomatch impossible)

end Answers

end SuperBootimg.ExitOnError
