/-
Rules of pre- and postconditions for scripts under `set -e`. A postcondition is about the
runs that go on; a command that ends the script meets every postcondition.
-/

import SuperBootimg.ExitOnError

namespace SuperBootimg.ExitOnError

variable {σ α : Type} {act : α → σ → Bool × σ}

/-- Where a checked run goes on behind the command, it leads from one condition to another. -/
def Leaves (act : α → σ → Bool × σ) (before : σ → Prop) (command : Command α)
    (after : σ → Prop) : Prop :=
  ∀ state, before state → (run act command true state).ending ≠ .stopped →
    after (run act command true state).state

namespace Leaves

variable {before middle after : σ → Prop}

/-- A simple command is gone on behind only if it has succeeded. -/
theorem simple {action : α}
    (effect : ∀ state, before state → (act action state).1 = true →
      after (act action state).2) : Leaves act before (.simple action) after := by
  intro state initially goesOn
  apply effect state initially
  cases success : (act action state).1 with
  | true => rfl
  | false =>
      unfold run finish at goesOn
      rw [success] at goesOn
      exact absurd rfl goesOn

theorem status {success : Bool} (same : ∀ state, before state → success = true → after state) :
    Leaves act before (.status success) after := by
  intro state initially goesOn
  apply same state initially
  cases success with
  | true => rfl
  | false => exact absurd rfl goesOn

theorem idle {success : Bool} : Leaves act before (.status success) before :=
  .status fun _ holds _ => holds

/-- A command that is not reached. -/
theorem unreached {command : Command α} : Leaves act (fun _ => False) command after :=
  fun _ impossible => impossible.elim

/-- Nothing is asked for. -/
theorem anywhere {command : Command α} : Leaves act before command fun _ => True :=
  fun _ _ _ => trivial

theorem exit : Leaves act before .exit after :=
  fun _ _ goesOn => absurd rfl goesOn

theorem seq {first second : Command α} (early : Leaves act before first middle)
    (late : Leaves act middle second after) : Leaves act before (.seq first second) after := by
  intro state initially goesOn
  obtain ⟨success, ended, later, _, _⟩ := Run.next_goesOn goesOn
  have reached := early state initially (by rw [ended]; exact nofun)
  have final := late _ reached later
  change after ((run act first true state).next fun _ state => run act second true state).state
  rw [Run.next_status ended]
  exact final

theorem append {first second : List (Command α)} (some : first ≠ []) (others : second ≠ [])
    (early : Leaves act before (.steps first) middle)
    (late : Leaves act middle (.steps second) after) :
    Leaves act before (.steps (first ++ second)) after := by
  intro state initially
  rw [run_steps_append some others]
  exact early.seq late state initially

theorem call {body : Command α} (leaves : Leaves act before body after) :
    Leaves act before (.call body) after := by
  intro state initially goesOn
  obtain ⟨success, ended, _, _, _⟩ := Run.next_goesOn goesOn
  have final := leaves state initially (by rw [ended]; exact nofun)
  change after ((run act body true state).next fun success state =>
    ⟨state, [], finish true success⟩).state
  rw [Run.next_status ended]
  exact final

/-- A child process that has succeeded has gone on to its end. -/
theorem child {script : Command α} (leaves : Leaves act before script after) :
    Leaves act before (.child script) after := by
  intro state initially goesOn
  apply leaves state initially
  intro stopped
  unfold run Run.asChild at goesOn
  rw [stopped] at goesOn
  exact goesOn rfl

/-- A test by one simple command. -/
theorem conditional {action : α} {body other : Command α} {inBody inOther : σ → Prop}
    (found : ∀ state, before state → (act action state).1 = true → inBody (act action state).2)
    (missing : ∀ state, before state → (act action state).1 = false →
      inOther (act action state).2)
    (bodyLeaves : Leaves act inBody body after) (otherLeaves : Leaves act inOther other after) :
    Leaves act before (.conditional (.simple action) body other) after := by
  intro state initially goesOn
  obtain ⟨success, ended, later, _, _⟩ := Run.next_goesOn goesOn
  change after ((run act (.simple action) false state).next fun success state =>
    if success then run act body true state else run act other true state).state
  rw [Run.next_status ended]
  cases success with
  | true => exact bodyLeaves _ (found state initially (Ending.status.inj ended)) later
  | false => exact otherLeaves _ (missing state initially (Ending.status.inj ended)) later

/-- A test that keeps what holds before it. -/
theorem conditional_kept {guard body other : Command α}
    (keeps : ∀ action, action ∈ guard.possible → ∀ state, before state →
      before (act action state).2)
    (bodyLeaves : Leaves act before body after) (otherLeaves : Leaves act before other after) :
    Leaves act before (.conditional guard body other) after := by
  intro state initially goesOn
  obtain ⟨success, ended, later, _, _⟩ := Run.next_goesOn goesOn
  have reached := invariant_run keeps false initially
  change after ((run act guard false state).next fun success state =>
    if success then run act body true state else run act other true state).state
  rw [Run.next_status ended]
  cases success with
  | true => exact bodyLeaves _ reached later
  | false => exact otherLeaves _ reached later

/-- A test of a flag leads to one branch only. -/
theorem flag {success : Bool} {body other : Command α}
    (bodyLeaves : success = true → Leaves act before body after)
    (otherLeaves : success = false → Leaves act before other after) :
    Leaves act before (.conditional (.status success) body other) after := by
  intro state initially goesOn
  obtain ⟨found, ended, later, _, _⟩ := Run.next_goesOn goesOn
  cases Ending.status.inj ended
  change after ((run act (.status success) false state).next fun success state =>
    if success then run act body true state else run act other true state).state
  rw [Run.next_status ended]
  cases success with
  | true => exact bodyLeaves rfl state initially later
  | false => exact otherLeaves rfl state initially later

/-- A loop with one word that matters. -/
theorem forEach_once {ι : Type} {words : List ι} {body : ι → Command α} {special : ι}
    (nodup : words.Nodup) (member : special ∈ words)
    (ahead : ∀ word, word ∈ words → word ≠ special → Leaves act before (body word) before)
    (there : Leaves act before (body special) after)
    (behind : ∀ word, word ∈ words → word ≠ special → Leaves act after (body word) after) :
    Leaves act before (.forEach words body) after := by
  have others : ∀ rest : List ι, (∀ word, word ∈ rest → word ∈ words ∧ word ≠ special) →
      Leaves act after (.forEach rest body) after := by
    intro rest inside
    induction rest with
    | nil => exact .idle
    | cons word rest ih =>
        obtain ⟨listed, different⟩ := inside word List.mem_cons_self
        have later := ih fun other member => inside other (List.mem_cons_of_mem _ member)
        cases rest with
        | nil => exact behind word listed different
        | cons next rest => exact .seq (behind word listed different) later
  have loop : ∀ rest : List ι, rest.Nodup → special ∈ rest → rest ⊆ words →
      Leaves act before (.forEach rest body) after := by
    intro rest distinct inside listed
    induction rest with
    | nil => cases inside
    | cons word rest ih =>
        obtain ⟨new, laterDistinct⟩ := List.nodup_cons.mp distinct
        rcases List.mem_cons.mp inside with rfl | later
        · have final := others rest fun other member =>
            ⟨listed (List.mem_cons_of_mem _ member), fun same => new (same ▸ member)⟩
          cases rest with
          | nil => exact there
          | cons next rest => exact .seq there final
        · have different : word ≠ special := fun same => new (same ▸ later)
          have final := ih laterDistinct later fun _ member =>
            listed (List.mem_cons_of_mem _ member)
          cases rest with
          | nil => cases later
          | cons next rest => exact .seq (ahead word (listed List.mem_cons_self) different) final
  exact loop words nodup member fun _ inside => inside

/-- What every simple command keeps, where a command is sure to reach it. -/
theorem of_ensured {command : Command α} {accepts : α → Bool} {goal : σ → Prop}
    (ensured : command.ensures accepts = true)
    (reached : ∀ action, accepts action = true → ∀ state, (act action state).1 = true →
      goal (act action state).2)
    (keeps : ∀ action, action ∈ command.possible → ∀ state, goal state →
      goal (act action state).2) : Leaves act before command goal := by
  intro state _ goesOn
  obtain ⟨action, done, accepted⟩ := ensures_performed ensured goesOn
  obtain ⟨entry, logged, rfl⟩ := List.mem_map.mp done
  obtain ⟨inside, success⟩ := List.mem_filter.mp logged
  exact (leads_run command true state).reaches
    (fun other member => keeps other.action (mem_possible member)) inside
    fun between same => reached entry.action accepted between (same.symm.trans success)

/-- What every simple command keeps. -/
theorem kept {command : Command α} {invariant : σ → Prop}
    (keeps : ∀ action, action ∈ command.possible → ∀ state, invariant state →
      invariant (act action state).2) : Leaves act invariant command invariant :=
  fun _ initially _ => invariant_run keeps true initially

end Leaves

end SuperBootimg.ExitOnError
