/-
What a script computes along its run from the commands that have succeeded, besides the
state: a list of names, a counter. Where the run goes on, the whole run is one change of it.
-/

import SuperBootimg.AnsweredCommands
import SuperBootimg.ScriptTriples

namespace SuperBootimg.ExitOnError

variable {σ α γ : Type} {act : α → σ → Bool × σ} {note : γ → α → γ}

theorem performed_append (first second : List (Entry α)) :
    performed (first ++ second) = performed first ++ performed second := by
  unfold performed
  rw [List.filter_append, List.map_append]

def Records (act : α → σ → Bool × σ) (note : γ → α → γ) (before : σ → Prop)
    (command : Command α) (change : γ → γ) : Prop :=
  ∀ state, before state → (run act command true state).ending ≠ .stopped →
    ∀ value, (performed (run act command true state).log).foldl note value = change value

namespace Records

variable {before middle : σ → Prop} {change later : γ → γ}

theorem foldl_silent {actions : List α}
    (silent : ∀ action, action ∈ actions → ∀ value, note value action = value) (value : γ) :
    actions.foldl note value = value := by
  induction actions with
  | nil => rfl
  | cons action rest ih =>
      rw [List.foldl_cons, silent action List.mem_cons_self]
      exact ih fun other member => silent other (List.mem_cons_of_mem _ member)

theorem of_stronger {stronger : σ → Prop} {command : Command α}
    (implied : ∀ state, stronger state → before state)
    (records : Records act note before command change) :
    Records act note stronger command change :=
  fun state initially => records state (implied state initially)

theorem of_silent {command : Command α}
    (silent : ∀ action, action ∈ command.possible → ∀ value, note value action = value) :
    Records act note before command id :=
  fun _ _ _ => foldl_silent fun action done => silent action (mem_possible_of_performed done)

/-- One note is made, as often as it may be, and the script is sure to make it. -/
theorem of_ensured [DecidableEq α] {command : Command α} {only : α}
    (single : ∀ action, action ∈ command.possible →
      action = only ∨ ∀ value, note value action = value)
    (idempotent : ∀ value, note (note value only) only = note value only)
    (ensured : command.ensures (fun action => decide (action = only)) = true) :
    Records act note before command (note · only) := by
  have again : ∀ actions : List α,
      (∀ action, action ∈ actions → action = only ∨ ∀ value, note value action = value) →
      ∀ value, actions.foldl note (note value only) = note value only := by
    intro actions each
    induction actions with
    | nil => exact fun _ => rfl
    | cons action rest ih =>
        intro value
        have kept := ih (fun other member => each other (List.mem_cons_of_mem _ member)) value
        rcases each action List.mem_cons_self with rfl | silent
        · rw [List.foldl_cons, idempotent, kept]
        · rw [List.foldl_cons, silent, kept]
  have once : ∀ actions : List α,
      (∀ action, action ∈ actions → action = only ∨ ∀ value, note value action = value) →
      only ∈ actions → ∀ value, actions.foldl note value = note value only := by
    intro actions each made
    induction actions with
    | nil => cases made
    | cons action rest ih =>
        intro value
        have others := fun other member => each other (List.mem_cons_of_mem action member)
        rw [List.foldl_cons]
        rcases List.mem_cons.mp made with rfl | behind
        · exact again rest others value
        · rcases each action List.mem_cons_self with rfl | silent
          · exact again rest others value
          · rw [silent, ih others behind]
  intro state _ goesOn
  obtain ⟨action, done, same⟩ := ensures_performed ensured goesOn
  rw [of_decide_eq_true same] at done
  exact once _ (fun other carried => single other (mem_possible_of_performed carried)) done

theorem seq {first second : Command α} (early : Records act note before first change)
    (leaves : Leaves act before first middle) (late : Records act note middle second later) :
    Records act note before (.seq first second) (later ∘ change) := by
  intro state initially goesOn value
  obtain ⟨success, ended, behind, _, log⟩ := Run.next_goesOn goesOn
  have reached : (run act first true state).ending ≠ .stopped := by
    rw [ended]
    exact nofun
  have whole : (run act (.seq first second) true state).log =
      (run act first true state).log ++
        (run act second true (run act first true state).state).log := log
  rw [whole, performed_append, List.foldl_append, early state initially reached,
    late _ (leaves state initially reached) behind]
  rfl

theorem append {first second : List (Command α)} (some : first ≠ []) (others : second ≠ [])
    (early : Records act note before (.steps first) change)
    (leaves : Leaves act before (.steps first) middle)
    (late : Records act note middle (.steps second) later) :
    Records act note before (.steps (first ++ second)) (later ∘ change) := by
  intro state initially
  rw [run_steps_append some others]
  exact early.seq leaves late state initially

/-- A loop over words, each with a change of its own. -/
theorem forEach {ι : Type} {words : List ι} {body : ι → Command α} {changes : ι → γ → γ}
    (each : ∀ word, word ∈ words → Records act note before (body word) (changes word))
    (kept : ∀ word, word ∈ words → Leaves act before (body word) before) :
    Records act note before (.forEach words body)
      (fun value => words.foldl (fun value word => changes word value) value) := by
  induction words with
  | nil => exact of_silent fun _ impossible => nomatch impossible
  | cons word rest ih =>
      have first := each word List.mem_cons_self
      have others := ih (fun other member => each other (List.mem_cons_of_mem _ member))
        fun other member => kept other (List.mem_cons_of_mem _ member)
      cases rest with
      | nil => exact first
      | cons second rest => exact first.seq (kept word List.mem_cons_self) others

/-- A test without notes, whose outcome is certain. -/
theorem decided {found : Bool} {guard body other : Command α}
    (silent : ∀ action, action ∈ guard.possible → ∀ value, note value action = value)
    (decides : ∀ state, before state → ∀ success,
      (run act guard false state).ending = .status success → success = found)
    (keeps : ∀ action, action ∈ guard.possible → ∀ state, before state →
      before (act action state).2)
    (bodyRecords : found = true → Records act note before body change)
    (otherRecords : found = false → Records act note before other change) :
    Records act note before (.conditional guard body other) change := by
  intro state initially goesOn value
  obtain ⟨success, ended, behind, _, log⟩ := Run.next_goesOn goesOn
  have reached := invariant_run keeps false initially
  have quiet : (performed (run act guard false state).log).foldl note value = value :=
    foldl_silent (fun action done => silent action (mem_possible_of_performed done)) value
  change (performed ((run act guard false state).next fun success state =>
    if success then run act body true state else run act other true state).log).foldl note value
      = change value
  rw [log, performed_append, List.foldl_append, quiet]
  cases success with
  | true => exact bodyRecords (decides state initially true ended).symm _ reached behind value
  | false => exact otherRecords (decides state initially false ended).symm _ reached behind value

theorem flag {success : Bool} {body other : Command α}
    (bodyRecords : success = true → Records act note before body change)
    (otherRecords : success = false → Records act note before other change) :
    Records act note before (.conditional (.status success) body other) change :=
  decided (fun _ impossible => nomatch impossible)
    (fun _ _ _ ended => (Ending.status.inj ended).symm) (fun _ impossible => nomatch impossible)
    bodyRecords otherRecords

end Records

end SuperBootimg.ExitOnError
