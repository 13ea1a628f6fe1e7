/-
Shell scripts under `set -e`. A simple command that fails ends the script, unless its
status is asked for: by `if`, by `!`, or in front of `&&` and `||`. Within a function
that is called where its status is asked for, nothing ends the script. What the simple
commands do is arbitrary.
-/

import SuperBootimg.AccumulatedEffects

namespace SuperBootimg.ExitOnError

open AccumulatedEffects

/-- A command over simple commands from `α`. The parameters of a script are expanded, so
a test of one has a status. -/
inductive Command (α : Type)
  | status (success : Bool)
  | simple (action : α)
  | seq (first second : Command α)
  | andAlso (left right : Command α)
  | orElse (left right : Command α)
  | conditional (guard body other : Command α)
  | negate (inner : Command α)
  | call (body : Command α)
  | child (script : Command α)
  | exit

namespace Command

variable {α : Type}

def steps : List (Command α) → Command α
  | [] => .status true
  | [last] => last
  | first :: second :: rest => .seq first (steps (second :: rest))

def forEach {ι : Type} (words : List ι) (body : ι → Command α) : Command α :=
  steps (words.map body)

def onlyIf (guard body : Command α) : Command α :=
  .conditional guard body (.status true)

end Command

/-- How a command leaves the script: going on with a status, or ended. -/
inductive Ending
  | status (success : Bool)
  | stopped
  deriving DecidableEq

/-- A simple command that has been carried out. It is checked if its failure ends the
script. -/
structure Entry (α : Type) where
  action : α
  checked : Bool
  success : Bool

structure Run (σ α : Type) where
  state : σ
  log : List (Entry α)
  ending : Ending

variable {σ α : Type}

/-- Goes on with a status, unless the script has ended. -/
def Run.next (run : Run σ α) (following : Bool → σ → Run σ α) : Run σ α :=
  match run.ending with
  | .stopped => run
  | .status success =>
      { following success run.state with
        log := run.log ++ (following success run.state).log }

def finish (checked success : Bool) : Ending :=
  if checked && !success then .stopped else .status success

/-- What the caller of a child process sees: its status only. -/
def Run.asChild (checked : Bool) (run : Run σ α) : Run σ α :=
  { state := run.state
    log := run.log.map fun entry => { entry with checked := checked && entry.checked }
    ending := finish checked (decide (run.ending = .status true)) }

def run (act : α → σ → Bool × σ) : Command α → Bool → σ → Run σ α
  | .status success, checked, state => ⟨state, [], finish checked success⟩
  | .simple action, checked, state =>
      ⟨(act action state).2, [⟨action, checked, (act action state).1⟩],
        finish checked (act action state).1⟩
  | .seq first second, checked, state =>
      (run act first checked state).next fun _ state => run act second checked state
  | .andAlso left right, checked, state =>
      (run act left false state).next fun success state =>
        if success then run act right checked state else ⟨state, [], .status false⟩
  | .orElse left right, checked, state =>
      (run act left false state).next fun success state =>
        if success then ⟨state, [], .status true⟩ else run act right checked state
  | .conditional guard body other, checked, state =>
      (run act guard false state).next fun success state =>
        if success then run act body checked state else run act other checked state
  | .negate inner, _, state =>
      (run act inner false state).next fun success state => ⟨state, [], .status (!success)⟩
  | .call body, checked, state =>
      (run act body checked state).next fun success state => ⟨state, [], finish checked success⟩
  | .child script, checked, state => (run act script true state).asChild checked
  | .exit, _, state => ⟨state, [], .stopped⟩

/-! ### What can be said without running -/

namespace Command

def known : Command α → Option Bool
  | .status success => some success
  | _ => none

/-- The simple commands that a run may come to. -/
def possible : Command α → List α
  | .status _ => []
  | .simple action => [action]
  | .seq first second => possible first ++ possible second
  | .andAlso left right =>
      possible left ++ if left.known = some false then [] else possible right
  | .orElse left right =>
      possible left ++ if left.known = some true then [] else possible right
  | .conditional guard body other =>
      possible guard ++ (if guard.known = some false then [] else possible body) ++
        if guard.known = some true then [] else possible other
  | .negate inner => possible inner
  | .call body => possible body
  | .child script => possible script
  | .exit => []

def forAll (accepts : α → Bool) : Command α → Bool
  | .status _ => true
  | .simple action => accepts action
  | .seq first second => forAll accepts first && forAll accepts second
  | .andAlso left right => forAll accepts left && forAll accepts right
  | .orElse left right => forAll accepts left && forAll accepts right
  | .conditional guard body other =>
      forAll accepts guard && forAll accepts body && forAll accepts other
  | .negate inner => forAll accepts inner
  | .call body => forAll accepts body
  | .child script => forAll accepts script
  | .exit => true

/-- Where a checked run goes on, an accepted simple command has succeeded. -/
def ensures (accepts : α → Bool) : Command α → Bool
  | .status _ => false
  | .simple action => accepts action
  | .seq first second => ensures accepts first || ensures accepts second
  | .andAlso left right => ensures accepts right && left.known == some true
  | .orElse left right => ensures accepts right && left.known == some false
  | .conditional guard body other =>
      (ensures accepts body && (ensures accepts other || guard.known == some true)) ||
        (ensures accepts other && guard.known == some false)
  | .negate _ => false
  | .call body => ensures accepts body
  | .child script => ensures accepts script
  | .exit => true

/-- No `exit` ends the script from within. -/
def goesOn : Command α → Bool
  | .status _ => true
  | .simple _ => true
  | .seq first second => goesOn first && goesOn second
  | .andAlso left right => goesOn left && goesOn right
  | .orElse left right => goesOn left && goesOn right
  | .conditional guard body other => goesOn guard && goesOn body && goesOn other
  | .negate inner => goesOn inner
  | .call body => goesOn body
  | .child _ => true
  | .exit => false

/-- A checked run may go on with a status other than zero. -/
def mayFail : Command α → Bool
  | .status _ => false
  | .simple _ => false
  | .seq _ second => mayFail second
  | .andAlso left right => left.known != some true || mayFail right
  | .orElse left right => mayFail right && left.known != some true
  | .conditional guard body other =>
      (mayFail body && guard.known != some false) || (mayFail other && guard.known != some true)
  | .negate _ => true
  | .call _ => false
  | .child _ => false
  | .exit => false

/-- Nothing but a failure of a checked simple command ends a checked run. -/
def robust : Command α → Bool
  | .status success => success
  | .simple _ => true
  | .seq first second => robust first && robust second
  | .andAlso left right => goesOn left && (robust right || left.known == some false)
  | .orElse left right => goesOn left && (robust right || left.known == some true)
  | .conditional guard body other =>
      goesOn guard && (robust body || guard.known == some false) &&
        (robust other || guard.known == some true)
  | .negate inner => goesOn inner
  | .call body => robust body && !mayFail body
  | .child script => robust script && !mayFail script
  | .exit => false

end Command

def Entry.fatal (entry : Entry α) : Bool :=
  entry.checked && !entry.success

def performed (log : List (Entry α)) : List α :=
  (log.filter Entry.success).map Entry.action

/-! ### One command after another -/

theorem Run.next_stopped {run : Run σ α} (stopped : run.ending = .stopped)
    (following : Bool → σ → Run σ α) : run.next following = run := by
  unfold Run.next
  rw [stopped]

theorem Run.next_status {run : Run σ α} {success : Bool} (ended : run.ending = .status success)
    (following : Bool → σ → Run σ α) :
    run.next following =
      { following success run.state with
        log := run.log ++ (following success run.state).log } := by
  unfold Run.next
  rw [ended]

theorem Run.mem_next {run : Run σ α} {following : Bool → σ → Run σ α} {entry : Entry α}
    (member : entry ∈ (run.next following).log) :
    entry ∈ run.log ∨
      ∃ success, run.ending = .status success ∧ entry ∈ (following success run.state).log := by
  cases ended : run.ending with
  | stopped =>
      rw [run.next_stopped ended] at member
      exact .inl member
  | status success =>
      rw [run.next_status ended] at member
      rcases List.mem_append.mp member with early | late
      · exact .inl early
      · exact .inr ⟨success, rfl, late⟩

theorem Run.next_ne_stopped {run : Run σ α} {following : Bool → σ → Run σ α}
    (goesOn : run.ending ≠ .stopped)
    (later : ∀ success, run.ending = .status success →
      (following success run.state).ending ≠ .stopped) :
    (run.next following).ending ≠ .stopped := by
  cases ended : run.ending with
  | stopped => exact absurd ended goesOn
  | status success =>
      rw [run.next_status ended]
      exact later success ended

theorem Run.stopped_of_next {run : Run σ α} {following : Bool → σ → Run σ α}
    (ended : (run.next following).ending = .stopped) :
    run.ending = .stopped ∨
      ∃ success, run.ending = .status success ∧
        (following success run.state).ending = .stopped := by
  cases first : run.ending with
  | stopped => exact .inl rfl
  | status success =>
      rw [run.next_status first] at ended
      exact .inr ⟨success, rfl, ended⟩

theorem Run.mem_next_of_mem {run : Run σ α} {entry : Entry α} (member : entry ∈ run.log)
    (following : Bool → σ → Run σ α) : entry ∈ (run.next following).log := by
  cases ended : run.ending with
  | stopped =>
      rw [run.next_stopped ended]
      exact member
  | status success =>
      rw [run.next_status ended]
      exact List.mem_append_left _ member

theorem Run.mem_next_of_following {run : Run σ α} {following : Bool → σ → Run σ α}
    {success : Bool} (ended : run.ending = .status success) {entry : Entry α}
    (member : entry ∈ (following success run.state).log) :
    entry ∈ (run.next following).log := by
  rw [run.next_status ended]
  exact List.mem_append_right _ member

/-- A command that goes on behind another one has both of them behind it. -/
theorem Run.next_goesOn {run : Run σ α} {following : Bool → σ → Run σ α}
    (ended : (run.next following).ending ≠ .stopped) :
    ∃ success, run.ending = .status success ∧
      (following success run.state).ending ≠ .stopped ∧
      (run.next following).ending = (following success run.state).ending ∧
      (run.next following).log = run.log ++ (following success run.state).log := by
  cases first : run.ending with
  | stopped =>
      rw [run.next_stopped first] at ended
      exact absurd first ended
  | status success =>
      rw [run.next_status first] at ended ⊢
      exact ⟨success, rfl, ended, rfl, rfl⟩

/-- An entry that is not from the first of two commands is from the second one. -/
theorem Run.next_split {run : Run σ α} {following : Bool → σ → Run σ α} {entry : Entry α}
    {before after : List (Entry α)} (split : (run.next following).log = before ++ entry :: after)
    (absent : entry ∉ run.log) :
    ∃ success middle, run.ending = .status success ∧ before = run.log ++ middle ∧
      (following success run.state).log = middle ++ entry :: after := by
  cases ended : run.ending with
  | stopped =>
      rw [Run.next_stopped ended] at split
      rw [split] at absent
      exact absurd (List.mem_append_right _ List.mem_cons_self) absent
  | status success =>
      rw [Run.next_status ended] at split
      refine ⟨success, ?_⟩
      rcases List.append_eq_append_iff.mp split with
        ⟨middle, inside, rest⟩ | ⟨middle, inside, rest⟩
      · exact ⟨middle, rfl, inside, rest⟩
      · cases middle with
        | nil =>
            rw [List.append_nil] at inside
            exact ⟨[], rfl, by rw [inside, List.append_nil], rest.symm⟩
        | cons found others =>
            obtain ⟨rfl, _⟩ := List.cons.inj rest
            rw [inside] at absent
            exact absurd (List.mem_append_right _ List.mem_cons_self) absent

theorem Command.known_eq_some {command : Command α} {success : Bool}
    (known : command.known = some success) : command = .status success := by
  cases command with
  | status other =>
      cases known
      rfl
  | _ => cases known

variable {act : α → σ → Bool × σ}

theorem run_of_known {command : Command α} {success : Bool}
    (known : command.known = some success) (state : σ) :
    run act command false state = ⟨state, [], .status success⟩ := by
  rw [command.known_eq_some known]
  rfl

/-- A status that is known is the one that is found. -/
theorem known_of_run {command : Command α} {state : σ} {success other : Bool}
    (ended : (run act command false state).ending = .status success)
    (known : command.known = some other) : other = success := by
  rw [run_of_known known] at ended
  cases ended
  rfl

/-! ### What a run comes to -/

/-- Nothing is carried out but what the script names where it can be reached. -/
theorem mem_possible {command : Command α} {checked : Bool} {state : σ} {entry : Entry α}
    (member : entry ∈ (run act command checked state).log) :
    entry.action ∈ command.possible := by
  induction command generalizing checked state entry with
  | status success => cases member
  | simple action =>
      cases List.mem_singleton.mp member
      exact List.mem_singleton_self _
  | seq first second firstIh secondIh =>
      rcases Run.mem_next member with early | ⟨success, ended, late⟩
      · exact List.mem_append_left _ (firstIh early)
      · exact List.mem_append_right _ (secondIh late)
  | andAlso left right leftIh rightIh =>
      rcases Run.mem_next member with early | ⟨success, ended, late⟩
      · exact List.mem_append_left _ (leftIh early)
      · cases success with
        | false => cases late
        | true =>
            apply List.mem_append_right
            rw [if_neg fun known => Bool.false_ne_true (known_of_run ended known)]
            exact rightIh late
  | orElse left right leftIh rightIh =>
      rcases Run.mem_next member with early | ⟨success, ended, late⟩
      · exact List.mem_append_left _ (leftIh early)
      · cases success with
        | true => cases late
        | false =>
            apply List.mem_append_right
            rw [if_neg fun known => Bool.false_ne_true (known_of_run ended known).symm]
            exact rightIh late
  | conditional guard body other guardIh bodyIh otherIh =>
      rcases Run.mem_next member with early | ⟨success, ended, late⟩
      · exact List.mem_append_left _ (List.mem_append_left _ (guardIh early))
      · cases success with
        | true =>
            apply List.mem_append_left
            apply List.mem_append_right
            rw [if_neg fun known => Bool.false_ne_true (known_of_run ended known)]
            exact bodyIh late
        | false =>
            apply List.mem_append_right
            rw [if_neg fun known => Bool.false_ne_true (known_of_run ended known).symm]
            exact otherIh late
  | negate inner ih =>
      rcases Run.mem_next member with early | ⟨success, ended, late⟩
      · exact ih early
      · cases late
  | call body ih =>
      rcases Run.mem_next member with early | ⟨success, ended, late⟩
      · exact ih early
      · cases late
  | child script ih =>
      obtain ⟨inside, early, rfl⟩ := List.mem_map.mp member
      have named := ih early
      exact named
  | exit => cases member

theorem accepts_of_possible {accepts : α → Bool} {command : Command α}
    (all : command.forAll accepts = true) {action : α} (possible : action ∈ command.possible) :
    accepts action = true := by
  have chosen : ∀ {condition : Prop} [Decidable condition] {actions : List α},
      (action ∈ if condition then [] else actions) → action ∈ actions := by
    intro condition _ actions member
    split at member
    · cases member
    · exact member
  induction command with
  | status success => cases possible
  | simple other =>
      cases List.mem_singleton.mp possible
      exact all
  | seq first second firstIh secondIh =>
      obtain ⟨before, behind⟩ := Bool.and_eq_true_iff.mp all
      rcases List.mem_append.mp possible with early | late
      · exact firstIh before early
      · exact secondIh behind late
  | andAlso left right leftIh rightIh =>
      obtain ⟨before, behind⟩ := Bool.and_eq_true_iff.mp all
      rcases List.mem_append.mp possible with early | late
      · exact leftIh before early
      · exact rightIh behind (chosen late)
  | orElse left right leftIh rightIh =>
      obtain ⟨before, behind⟩ := Bool.and_eq_true_iff.mp all
      rcases List.mem_append.mp possible with early | late
      · exact leftIh before early
      · exact rightIh behind (chosen late)
  | conditional guard body other guardIh bodyIh otherIh =>
      obtain ⟨both, behind⟩ := Bool.and_eq_true_iff.mp all
      obtain ⟨before, within⟩ := Bool.and_eq_true_iff.mp both
      rcases List.mem_append.mp possible with either | late
      · rcases List.mem_append.mp either with early | inside
        · exact guardIh before early
        · exact bodyIh within (chosen inside)
      · exact otherIh behind (chosen late)
  | negate inner ih => exact ih all possible
  | call body ih => exact ih all possible
  | child script ih => exact ih all possible
  | exit => cases possible

/-- Where failures are not checked, only `exit` ends the script. -/
theorem goesOn_unchecked {command : Command α} (goesOn : command.goesOn = true) (state : σ) :
    (run act command false state).ending ≠ .stopped := by
  induction command generalizing state with
  | status success => exact fun ended => nomatch ended
  | simple action => exact fun ended => nomatch ended
  | seq first second firstIh secondIh =>
      obtain ⟨before, behind⟩ := Bool.and_eq_true_iff.mp goesOn
      exact Run.next_ne_stopped (firstIh before state) fun _ _ => secondIh behind _
  | andAlso left right leftIh rightIh =>
      obtain ⟨before, behind⟩ := Bool.and_eq_true_iff.mp goesOn
      apply Run.next_ne_stopped (leftIh before state)
      intro success _
      cases success with
      | true => exact rightIh behind _
      | false => exact fun impossible => nomatch impossible
  | orElse left right leftIh rightIh =>
      obtain ⟨before, behind⟩ := Bool.and_eq_true_iff.mp goesOn
      apply Run.next_ne_stopped (leftIh before state)
      intro success _
      cases success with
      | true => exact fun impossible => nomatch impossible
      | false => exact rightIh behind _
  | conditional guard body other guardIh bodyIh otherIh =>
      obtain ⟨both, behind⟩ := Bool.and_eq_true_iff.mp goesOn
      obtain ⟨before, inside⟩ := Bool.and_eq_true_iff.mp both
      apply Run.next_ne_stopped (guardIh before state)
      intro success _
      cases success with
      | true => exact bodyIh inside _
      | false => exact otherIh behind _
  | negate inner ih =>
      exact Run.next_ne_stopped (ih goesOn state) fun _ _ impossible => nomatch impossible
  | call body ih =>
      exact Run.next_ne_stopped (ih goesOn state) fun _ _ impossible => nomatch impossible
  | child script _ => exact fun ended => nomatch ended
  | exit => cases goesOn

/-! ### Failures that end the script -/

/-- Where failures are not checked, none of them is fatal. -/
theorem unchecked_not_fatal {command : Command α} {state : σ} {entry : Entry α}
    (member : entry ∈ (run act command false state).log) : entry.fatal = false := by
  induction command generalizing state with
  | status success => cases member
  | simple action =>
      cases List.mem_singleton.mp member
      rfl
  | seq first second firstIh secondIh =>
      rcases Run.mem_next member with early | ⟨_, _, late⟩
      · exact firstIh early
      · exact secondIh late
  | andAlso left right leftIh rightIh =>
      rcases Run.mem_next member with early | ⟨success, _, late⟩
      · exact leftIh early
      · cases success with
        | true => exact rightIh late
        | false => cases late
  | orElse left right leftIh rightIh =>
      rcases Run.mem_next member with early | ⟨success, _, late⟩
      · exact leftIh early
      · cases success with
        | true => cases late
        | false => exact rightIh late
  | conditional guard body other guardIh bodyIh otherIh =>
      rcases Run.mem_next member with early | ⟨success, _, late⟩
      · exact guardIh early
      · cases success with
        | true => exact bodyIh late
        | false => exact otherIh late
  | negate inner ih =>
      rcases Run.mem_next member with early | ⟨_, _, late⟩
      · exact ih early
      · cases late
  | call body ih =>
      rcases Run.mem_next member with early | ⟨_, _, late⟩
      · exact ih early
      · cases late
  | child script _ =>
      obtain ⟨inside, _, rfl⟩ := List.mem_map.mp member
      rfl
  | exit => cases member

/-- Nothing is carried out behind a failure that ends the script. -/
def Run.EndsAtFailure (run : Run σ α) : Prop :=
  ∀ before entry after, run.log = before ++ entry :: after → entry.fatal = true →
    after = [] ∧ run.ending = .stopped

theorem Run.endsAtFailure_of_harmless {run : Run σ α}
    (harmless : ∀ entry, entry ∈ run.log → entry.fatal = false) : run.EndsAtFailure := by
  intro before entry after split fatal
  have member : entry ∈ run.log := by
    rw [split]
    exact List.mem_append_right _ List.mem_cons_self
  rw [harmless entry member] at fatal
  cases fatal

theorem Run.EndsAtFailure.next {run : Run σ α} {following : Bool → σ → Run σ α}
    (first : run.EndsAtFailure)
    (later : ∀ success, run.ending = .status success →
      (following success run.state).EndsAtFailure) :
    (run.next following).EndsAtFailure := by
  cases ended : run.ending with
  | stopped =>
      rw [run.next_stopped ended]
      exact first
  | status success =>
      rw [run.next_status ended]
      intro before entry after split fatal
      rcases List.append_eq_append_iff.mp split with
        ⟨middle, _, inside⟩ | ⟨middle, inside, _⟩
      · exact later success ended middle entry after inside fatal
      · cases middle with
        | nil =>
            rename_i rest
            rw [List.nil_append] at rest
            exact later success ended [] entry after rest.symm fatal
        | cons found others =>
            rename_i rest
            obtain ⟨rfl, _⟩ := List.cons.inj rest
            have stopped := (first before entry others inside fatal).2
            rw [ended] at stopped
            cases stopped

theorem endsAtFailure (command : Command α) (checked : Bool) (state : σ) :
    (run act command checked state).EndsAtFailure := by
  have unchecked : ∀ (command : Command α) state,
      (run act command false state).EndsAtFailure :=
    fun _ _ => Run.endsAtFailure_of_harmless fun _ => unchecked_not_fatal
  have nothing : ∀ state ending, (⟨state, [], ending⟩ : Run σ α).EndsAtFailure :=
    fun _ _ => Run.endsAtFailure_of_harmless fun _ impossible => nomatch impossible
  induction command generalizing checked state with
  | status success => exact nothing _ _
  | simple action =>
      intro before entry after split fatal
      cases before with
      | cons first others => exact absurd (List.cons.inj split).2.symm (by simp)
      | nil =>
          obtain ⟨rfl, none⟩ := List.cons.inj split
          exact ⟨none.symm, if_pos fatal⟩
  | seq first second firstIh secondIh =>
      exact Run.EndsAtFailure.next (firstIh checked state) fun _ _ => secondIh checked _
  | andAlso left right leftIh rightIh =>
      apply Run.EndsAtFailure.next (unchecked left state)
      intro success _
      cases success with
      | true => exact rightIh checked _
      | false => exact nothing _ _
  | orElse left right leftIh rightIh =>
      apply Run.EndsAtFailure.next (unchecked left state)
      intro success _
      cases success with
      | true => exact nothing _ _
      | false => exact rightIh checked _
  | conditional guard body other guardIh bodyIh otherIh =>
      apply Run.EndsAtFailure.next (unchecked guard state)
      intro success _
      cases success with
      | true => exact bodyIh checked _
      | false => exact otherIh checked _
  | negate inner ih =>
      exact Run.EndsAtFailure.next (unchecked inner state) fun _ _ => nothing _ _
  | call body ih =>
      exact Run.EndsAtFailure.next (ih checked state) fun _ _ => nothing _ _
  | child script ih =>
      intro before entry after split fatal
      obtain ⟨early, rest, inside, rfl, others⟩ := List.map_eq_append_iff.mp split
      obtain ⟨original, late, rfl, rfl, rfl⟩ := List.map_eq_cons_iff.mp others
      have both : checked = true ∧ original.fatal = true := by
        unfold Entry.fatal at fatal ⊢
        rw [Bool.and_assoc] at fatal
        exact Bool.and_eq_true_iff.mp fatal
      obtain ⟨rfl, stopped⟩ := ih true state early original late inside both.2
      refine ⟨rfl, ?_⟩
      unfold run Run.asChild finish
      rw [stopped, both.1]
      rfl
  | exit => exact nothing _ _

/-- What is carried out behind checked commands shows that they have succeeded. -/
theorem success_before {command : Command α} {checked : Bool} {state : σ}
    {before after : List (Entry α)} {entry earlier : Entry α}
    (split : (run act command checked state).log = before ++ entry :: after)
    (member : earlier ∈ before) (isChecked : earlier.checked = true) :
    earlier.success = true := by
  obtain ⟨first, second, rfl⟩ := List.append_of_mem member
  cases success : earlier.success with
  | true => rfl
  | false =>
      rw [List.append_assoc, List.cons_append] at split
      have fatal : earlier.fatal = true := by
        unfold Entry.fatal
        rw [isChecked, success]
        rfl
      have nothing := (endsAtFailure command checked state first earlier _ split fatal).1
      exact absurd nothing (List.append_ne_nil_of_right_ne_nil _ (List.cons_ne_nil _ _))

theorem finish_checked_ne_false (success : Bool) : finish true success ≠ .status false := by
  cases success with
  | false => exact fun ended => nomatch ended
  | true => exact fun ended => nomatch ended

theorem Run.status_of_next {run : Run σ α} {following : Bool → σ → Run σ α} {status : Bool}
    (ended : (run.next following).ending = .status status) :
    ∃ success, run.ending = .status success ∧
      (following success run.state).ending = .status status := by
  cases first : run.ending with
  | stopped =>
      rw [run.next_stopped first, first] at ended
      cases ended
  | status success =>
      rw [run.next_status first] at ended
      exact ⟨success, rfl, ended⟩

theorem ne_status_false {command : Command α} (sound : command.mayFail = false) (state : σ) :
    (run act command true state).ending ≠ .status false := by
  induction command generalizing state with
  | status success => exact finish_checked_ne_false success
  | simple action => exact finish_checked_ne_false _
  | seq first second _ secondIh =>
      intro ended
      obtain ⟨success, _, later⟩ := Run.status_of_next ended
      exact secondIh sound _ later
  | andAlso left right _ rightIh =>
      intro ended
      obtain ⟨known, later⟩ := Bool.or_eq_false_iff.mp sound
      obtain ⟨success, before, behind⟩ := Run.status_of_next ended
      have same := known_of_run before (bne_eq_false_iff_eq.mp known)
      cases same
      exact rightIh later _ behind
  | orElse left right _ rightIh =>
      intro ended
      obtain ⟨success, before, behind⟩ := Run.status_of_next ended
      cases success with
      | true => cases behind
      | false =>
          rcases Bool.and_eq_false_iff.mp sound with later | known
          · exact rightIh later _ behind
          · exact Bool.false_ne_true
              (known_of_run before (bne_eq_false_iff_eq.mp known)).symm
  | conditional guard body other _ bodyIh otherIh =>
      intro ended
      obtain ⟨bodySound, otherSound⟩ := Bool.or_eq_false_iff.mp sound
      obtain ⟨success, before, behind⟩ := Run.status_of_next ended
      cases success with
      | true =>
          rcases Bool.and_eq_false_iff.mp bodySound with later | known
          · exact bodyIh later _ behind
          · exact Bool.false_ne_true (known_of_run before (bne_eq_false_iff_eq.mp known))
      | false =>
          rcases Bool.and_eq_false_iff.mp otherSound with later | known
          · exact otherIh later _ behind
          · exact Bool.false_ne_true
              (known_of_run before (bne_eq_false_iff_eq.mp known)).symm
  | negate inner _ => cases sound
  | call body _ =>
      intro ended
      obtain ⟨success, _, behind⟩ := Run.status_of_next ended
      exact finish_checked_ne_false success behind
  | child script _ => exact finish_checked_ne_false _
  | exit => exact fun ended => nomatch ended

theorem stopped_behind {command : Command α} (goesOn : command.goesOn = true) {state : σ}
    {following : Bool → σ → Run σ α}
    (stopped : ((run act command false state).next following).ending = .stopped) :
    ∃ success, (run act command false state).ending = .status success ∧
      (following success (run act command false state).state).ending = .stopped := by
  rcases Run.stopped_of_next stopped with early | later
  · exact absurd early (goesOn_unchecked goesOn state)
  · exact later

theorem fatal_of_robust {command : Command α} (robust : command.robust = true) {state : σ}
    (stopped : (run act command true state).ending = .stopped) :
    ∃ entry, entry ∈ (run act command true state).log ∧ entry.fatal = true := by
  induction command generalizing state with
  | status success =>
      cases robust
      cases stopped
  | simple action =>
      refine ⟨_, List.mem_singleton_self _, ?_⟩
      unfold run finish at stopped
      unfold Entry.fatal
      split at stopped
      · assumption
      · cases stopped
  | seq first second firstIh secondIh =>
      obtain ⟨before, behind⟩ := Bool.and_eq_true_iff.mp robust
      rcases Run.stopped_of_next stopped with early | ⟨success, ended, late⟩
      · obtain ⟨entry, member, fatal⟩ := firstIh before early
        exact ⟨entry, Run.mem_next_of_mem member _, fatal⟩
      · obtain ⟨entry, member, fatal⟩ := secondIh behind late
        exact ⟨entry, Run.mem_next_of_following ended member, fatal⟩
  | andAlso left right _ rightIh =>
      obtain ⟨before, behind⟩ := Bool.and_eq_true_iff.mp robust
      obtain ⟨success, ended, late⟩ := stopped_behind before stopped
      cases success with
      | false => cases late
      | true =>
          rcases Bool.or_eq_true_iff.mp behind with robust | known
          · obtain ⟨entry, member, fatal⟩ := rightIh robust late
            exact ⟨entry, Run.mem_next_of_following ended member, fatal⟩
          · cases known_of_run ended (beq_iff_eq.mp known)
  | orElse left right _ rightIh =>
      obtain ⟨before, behind⟩ := Bool.and_eq_true_iff.mp robust
      obtain ⟨success, ended, late⟩ := stopped_behind before stopped
      cases success with
      | true => cases late
      | false =>
          rcases Bool.or_eq_true_iff.mp behind with robust | known
          · obtain ⟨entry, member, fatal⟩ := rightIh robust late
            exact ⟨entry, Run.mem_next_of_following ended member, fatal⟩
          · cases known_of_run ended (beq_iff_eq.mp known)
  | conditional guard body other _ bodyIh otherIh =>
      obtain ⟨both, behind⟩ := Bool.and_eq_true_iff.mp robust
      obtain ⟨before, inside⟩ := Bool.and_eq_true_iff.mp both
      obtain ⟨success, ended, late⟩ := stopped_behind before stopped
      cases success with
      | true =>
          rcases Bool.or_eq_true_iff.mp inside with robust | known
          · obtain ⟨entry, member, fatal⟩ := bodyIh robust late
            exact ⟨entry, Run.mem_next_of_following ended member, fatal⟩
          · cases known_of_run ended (beq_iff_eq.mp known)
      | false =>
          rcases Bool.or_eq_true_iff.mp behind with robust | known
          · obtain ⟨entry, member, fatal⟩ := otherIh robust late
            exact ⟨entry, Run.mem_next_of_following ended member, fatal⟩
          · cases known_of_run ended (beq_iff_eq.mp known)
  | negate inner _ =>
      obtain ⟨_, _, late⟩ := stopped_behind robust stopped
      cases late
  | call body ih =>
      obtain ⟨inside, sound⟩ := Bool.and_eq_true_iff.mp robust
      rcases Run.stopped_of_next stopped with early | ⟨success, ended, late⟩
      · obtain ⟨entry, member, fatal⟩ := ih inside early
        exact ⟨entry, Run.mem_next_of_mem member _, fatal⟩
      · cases success with
        | true => cases late
        | false =>
            exact absurd ended (ne_status_false ((Bool.not_eq_true' _).mp sound) state)
  | child script ih =>
      obtain ⟨inside, sound⟩ := Bool.and_eq_true_iff.mp robust
      cases ended : (run act script true state).ending with
      | stopped =>
          obtain ⟨entry, member, fatal⟩ := ih inside ended
          exact ⟨_, List.mem_map_of_mem member, fatal⟩
      | status success =>
          cases success with
          | false =>
              exact absurd ended (ne_status_false ((Bool.not_eq_true' _).mp sound) state)
          | true =>
              unfold run Run.asChild at stopped
              rw [ended] at stopped
              cases stopped
  | exit => cases robust

/-- A robust script is ended by the failure of a checked simple command, and by that only. -/
theorem stopped_iff {command : Command α} (robust : command.robust = true) (state : σ) :
    (run act command true state).ending = .stopped ↔
      ∃ entry, entry ∈ (run act command true state).log ∧ entry.fatal = true := by
  constructor
  · exact fatal_of_robust robust
  · rintro ⟨entry, member, fatal⟩
    obtain ⟨before, after, split⟩ := List.append_of_mem member
    exact (endsAtFailure command true state before entry after split fatal).2

/-! ### What has succeeded -/

theorem Run.mem_performed_next {run : Run σ α} {following : Bool → σ → Run σ α} {success : Bool}
    (ended : run.ending = .status success) (action : α) :
    action ∈ performed (run.next following).log ↔
      action ∈ performed run.log ∨ action ∈ performed (following success run.state).log := by
  rw [run.next_status ended]
  unfold performed
  rw [List.filter_append, List.map_append, List.mem_append]

theorem performed_asChild (checked : Bool) (run : Run σ α) :
    performed (run.asChild checked).log = performed run.log := by
  unfold performed Run.asChild
  rw [List.filter_map, List.map_map]
  rfl

theorem ensures_performed {accepts : α → Bool} {command : Command α} {state : σ}
    (ensured : command.ensures accepts = true)
    (goesOn : (run act command true state).ending ≠ .stopped) :
    ∃ action, action ∈ performed (run act command true state).log ∧ accepts action = true := by
  induction command generalizing state with
  | status success => cases ensured
  | simple action =>
      cases succeeded : (act action state).1 with
      | false =>
          unfold run finish at goesOn
          rw [succeeded] at goesOn
          exact absurd rfl goesOn
      | true =>
          refine ⟨action, ?_, ensured⟩
          unfold run performed
          rw [succeeded]
          exact List.mem_singleton_self _
  | seq first second firstIh secondIh =>
      obtain ⟨success, ended, later, _, _⟩ := Run.next_goesOn goesOn
      rcases Bool.or_eq_true_iff.mp ensured with early | late
      · obtain ⟨action, done, accepted⟩ := firstIh early (by rw [ended]; exact nofun)
        exact ⟨action, (Run.mem_performed_next ended action).mpr (.inl done), accepted⟩
      · obtain ⟨action, done, accepted⟩ := secondIh late later
        exact ⟨action, (Run.mem_performed_next ended action).mpr (.inr done), accepted⟩
  | andAlso left right _ rightIh | orElse left right _ rightIh =>
      obtain ⟨inside, known⟩ := Bool.and_eq_true_iff.mp ensured
      obtain ⟨success, ended, later, _, _⟩ := Run.next_goesOn goesOn
      cases known_of_run ended (beq_iff_eq.mp known)
      obtain ⟨action, done, accepted⟩ := rightIh inside later
      exact ⟨action, (Run.mem_performed_next ended action).mpr (.inr done), accepted⟩
  | conditional guard body other _ bodyIh otherIh =>
      obtain ⟨success, ended, later, _, _⟩ := Run.next_goesOn goesOn
      -- In both branches, or in the one that the test is known to lead to.
      have branch : (success = true → body.ensures accepts = true) ∧
          (success = false → other.ensures accepts = true) := by
        rcases Bool.or_eq_true_iff.mp ensured with first | second
        · obtain ⟨inside, either⟩ := Bool.and_eq_true_iff.mp first
          rcases Bool.or_eq_true_iff.mp either with outside | known
          · exact ⟨fun _ => inside, fun _ => outside⟩
          · cases known_of_run ended (beq_iff_eq.mp known)
            exact ⟨fun _ => inside, nofun⟩
        · obtain ⟨outside, known⟩ := Bool.and_eq_true_iff.mp second
          cases known_of_run ended (beq_iff_eq.mp known)
          exact ⟨nofun, fun _ => outside⟩
      have found : ∃ action, action ∈ performed
          (if success then run act body true (run act guard false state).state
            else run act other true (run act guard false state).state).log ∧
          accepts action = true := by
        cases success with
        | true => exact bodyIh (branch.1 rfl) later
        | false => exact otherIh (branch.2 rfl) later
      obtain ⟨action, done, accepted⟩ := found
      exact ⟨action, (Run.mem_performed_next ended action).mpr (.inr done), accepted⟩
  | negate inner _ => cases ensured
  | call body ih =>
      obtain ⟨success, ended, _, _, _⟩ := Run.next_goesOn goesOn
      obtain ⟨action, done, accepted⟩ := ih ensured (by rw [ended]; exact nofun)
      exact ⟨action, (Run.mem_performed_next ended action).mpr (.inl done), accepted⟩
  | child script ih =>
      unfold run at goesOn ⊢
      rw [performed_asChild]
      apply ih ensured
      intro stopped
      unfold Run.asChild at goesOn
      rw [stopped] at goesOn
      exact goesOn rfl
  | exit => exact absurd rfl goesOn

/-! ### Lists of commands -/

namespace Command

/-- A property of commands that sequences have if both parts have it. -/
theorem steps_induction {property : Command α → Prop} (nothing : property (.status true))
    (both : ∀ first second, property first → property second → property (.seq first second))
    {commands : List (Command α)} (each : ∀ command, command ∈ commands → property command) :
    property (steps commands) := by
  induction commands with
  | nil => exact nothing
  | cons first rest ih =>
      have later := ih fun command member => each command (List.mem_cons_of_mem _ member)
      cases rest with
      | nil => exact each first List.mem_cons_self
      | cons second others => exact both _ _ (each first List.mem_cons_self) later

theorem robust_steps {commands : List (Command α)}
    (each : ∀ command, command ∈ commands → command.robust = true) :
    (steps commands).robust = true := by
  apply @steps_induction α (fun command => command.robust = true) rfl _ commands each
  intro first second before behind
  exact Bool.and_eq_true_iff.mpr ⟨before, behind⟩

theorem forAll_mono {accepts weaker : α → Bool}
    (weakens : ∀ action, accepts action = true → weaker action = true) {command : Command α}
    (all : command.forAll accepts = true) : command.forAll weaker = true := by
  induction command with
  | status success => rfl
  | simple action => exact weakens action all
  | seq first second firstIh secondIh | andAlso first second firstIh secondIh
  | orElse first second firstIh secondIh =>
      obtain ⟨early, late⟩ := Bool.and_eq_true_iff.mp all
      exact Bool.and_eq_true_iff.mpr ⟨firstIh early, secondIh late⟩
  | conditional guard body other guardIh bodyIh otherIh =>
      obtain ⟨both, late⟩ := Bool.and_eq_true_iff.mp all
      obtain ⟨early, middle⟩ := Bool.and_eq_true_iff.mp both
      exact Bool.and_eq_true_iff.mpr
        ⟨Bool.and_eq_true_iff.mpr ⟨guardIh early, bodyIh middle⟩, otherIh late⟩
  | negate inner ih => exact ih all
  | call body ih => exact ih all
  | child script ih => exact ih all
  | exit => rfl

theorem forAll_steps {accepts : α → Bool} {commands : List (Command α)}
    (each : ∀ command, command ∈ commands → command.forAll accepts = true) :
    (steps commands).forAll accepts = true := by
  apply @steps_induction α (fun command => command.forAll accepts = true) rfl _ commands each
  intro first second before behind
  exact Bool.and_eq_true_iff.mpr ⟨before, behind⟩

theorem mem_possible_steps {commands : List (Command α)} {action : α} :
    action ∈ (steps commands).possible ↔
      ∃ command, command ∈ commands ∧ action ∈ command.possible := by
  induction commands with
  | nil =>
      constructor
      · intro impossible
        cases impossible
      · rintro ⟨_, impossible, _⟩
        cases impossible
  | cons first rest ih =>
      cases rest with
      | nil => simp only [steps, List.mem_singleton, exists_eq_left]
      | cons second others =>
          have split : (steps (first :: second :: others)).possible =
              first.possible ++ (steps (second :: others)).possible := rfl
          rw [split, List.mem_append, ih]
          simp only [List.mem_cons, exists_eq_or_imp]

theorem mem_possible_conditional {guard body other : Command α} {action : α}
    (possible : action ∈ (conditional guard body other).possible) :
    action ∈ guard.possible ∨ action ∈ body.possible ∨ action ∈ other.possible := by
  unfold Command.possible at possible
  rcases List.mem_append.mp possible with either | late
  · rcases List.mem_append.mp either with early | inside
    · exact .inl early
    · split at inside
      · cases inside
      · exact .inr (.inl inside)
  · split at late
    · cases late
    · exact .inr (.inr late)

theorem mem_possible_onlyIf {success : Bool} {body : Command α} {action : α}
    (possible : action ∈ (onlyIf (.status success) body).possible) :
    success = true ∧ action ∈ body.possible := by
  unfold onlyIf Command.possible at possible
  cases success with
  | false =>
      rcases List.mem_append.mp possible with impossible | impossible
      · cases impossible
      · cases impossible
  | true =>
      rcases List.mem_append.mp possible with inside | impossible
      · exact ⟨rfl, inside⟩
      · cases impossible

theorem ensures_steps {accepts : α → Bool} {commands : List (Command α)} {command : Command α}
    (member : command ∈ commands) (ensured : command.ensures accepts = true) :
    (steps commands).ensures accepts = true := by
  induction commands with
  | nil => cases member
  | cons first rest ih =>
      cases rest with
      | nil =>
          cases List.mem_singleton.mp member
          exact ensured
      | cons second others =>
          rcases List.mem_cons.mp member with rfl | later
          · exact Bool.or_eq_true_iff.mpr (.inl ensured)
          · exact Bool.or_eq_true_iff.mpr (.inr (ih later))

end Command

theorem Run.next_assoc (run : Run σ α) (first second : Bool → σ → Run σ α) :
    (run.next first).next second =
      run.next fun success state => (first success state).next second := by
  cases ended : run.ending with
  | stopped => rw [run.next_stopped ended, run.next_stopped ended, run.next_stopped ended]
  | status success =>
      cases later : (first success run.state).ending with
      | stopped =>
          rw [Run.next_status ended fun success state => (first success state).next second,
            Run.next_stopped later, Run.next_stopped, Run.next_status ended]
          rw [Run.next_status ended]
          exact later
      | status next =>
          have behind : (run.next first).ending = .status next := by
            rw [run.next_status ended]
            exact later
          rw [Run.next_status behind, Run.next_status ended, Run.next_status ended,
            Run.next_status later, List.append_assoc]

/-- The first commands of a list are one command in front of the others. -/
theorem run_steps_append {first second : List (Command α)} (some : first ≠ [])
    (others : second ≠ []) (checked : Bool) (state : σ) :
    run act (Command.steps (first ++ second)) checked state =
      run act (.seq (Command.steps first) (Command.steps second)) checked state := by
  induction first generalizing state with
  | nil => exact absurd rfl some
  | cons command rest ih =>
      cases rest with
      | nil =>
          cases second with
          | nil => exact absurd rfl others
          | cons next behind => rfl
      | cons following later =>
          have inner := fun state => ih (List.cons_ne_nil _ _) state
          change (run act command checked state).next (fun _ state =>
              run act (Command.steps (following :: later ++ second)) checked state) =
            ((run act command checked state).next
              (fun _ state => run act (Command.steps (following :: later)) checked state)).next
                (fun _ state => run act (Command.steps second) checked state)
          rw [Run.next_assoc]
          simp only [inner]
          rfl

/-! ### States along the log -/

/-- The log leads from one state to another, by what the simple commands do. -/
def Leads (act : α → σ → Bool × σ) : σ → List (Entry α) → σ → Prop
  | state, [], final => state = final
  | state, entry :: rest, final =>
      entry.success = (act entry.action state).1 ∧ Leads act (act entry.action state).2 rest final

theorem Leads.append {start middle final : σ} {first second : List (Entry α)}
    (before : Leads act start first middle) (behind : Leads act middle second final) :
    Leads act start (first ++ second) final := by
  induction first generalizing start with
  | nil =>
      cases before
      exact behind
  | cons entry rest ih => exact ⟨before.1, ih before.2⟩

theorem Leads.relabel {start final : σ} {log : List (Entry α)} (leads : Leads act start log final)
    (checked : Entry α → Bool) :
    Leads act start (log.map fun entry => { entry with checked := checked entry }) final := by
  induction log generalizing start with
  | nil => exact leads
  | cons entry rest ih => exact ⟨leads.1, ih leads.2⟩

theorem Leads.next {start : σ} {run : Run σ α} {following : Bool → σ → Run σ α}
    (leads : Leads act start run.log run.state)
    (later : ∀ success, run.ending = .status success →
      Leads act run.state (following success run.state).log (following success run.state).state) :
    Leads act start (run.next following).log (run.next following).state := by
  cases ended : run.ending with
  | stopped =>
      rw [run.next_stopped ended]
      exact leads
  | status success =>
      rw [run.next_status ended]
      exact leads.append (later success ended)

theorem leads_run (command : Command α) (checked : Bool) (state : σ) :
    Leads act state (run act command checked state).log
      (run act command checked state).state := by
  induction command generalizing checked state with
  | status success => rfl
  | simple action => exact ⟨rfl, rfl⟩
  | seq first second firstIh secondIh =>
      exact Leads.next (firstIh checked state) fun _ _ => secondIh checked _
  | andAlso left right leftIh rightIh =>
      apply Leads.next (leftIh false state)
      intro success _
      cases success with
      | true => exact rightIh checked _
      | false => rfl
  | orElse left right leftIh rightIh =>
      apply Leads.next (leftIh false state)
      intro success _
      cases success with
      | true => rfl
      | false => exact rightIh checked _
  | conditional guard body other guardIh bodyIh otherIh =>
      apply Leads.next (guardIh false state)
      intro success _
      cases success with
      | true => exact bodyIh checked _
      | false => exact otherIh checked _
  | negate inner ih => exact Leads.next (ih false state) fun _ _ => rfl
  | call body ih => exact Leads.next (ih checked state) fun _ _ => rfl
  | child script ih => exact (ih true state).relabel fun entry => checked && entry.checked
  | exit => rfl

theorem Leads.invariant {invariant : σ → Prop} {start final : σ} {log : List (Entry α)}
    (leads : Leads act start log final)
    (kept : ∀ entry, entry ∈ log → ∀ state, entry.success = (act entry.action state).1 →
      invariant state → invariant (act entry.action state).2)
    (initially : invariant start) : invariant final := by
  induction log generalizing start with
  | nil =>
      cases leads
      exact initially
  | cons entry rest ih =>
      exact ih leads.2 (fun other member => kept other (List.mem_cons_of_mem _ member))
        (kept entry List.mem_cons_self start leads.1 initially)

/-- One command reaches what all of them keep. -/
theorem Leads.reaches {goal : σ → Prop} {start final : σ} {log : List (Entry α)}
    (leads : Leads act start log final)
    (kept : ∀ entry, entry ∈ log → ∀ state, goal state → goal (act entry.action state).2)
    {reaching : Entry α} (member : reaching ∈ log)
    (reached : ∀ state, reaching.success = (act reaching.action state).1 →
      goal (act reaching.action state).2) : goal final := by
  induction log generalizing start with
  | nil => cases member
  | cons entry rest ih =>
      have behind := fun other inside => kept other (List.mem_cons_of_mem entry inside)
      rcases List.mem_cons.mp member with rfl | later
      · exact leads.2.invariant (fun other inside state _ => behind other inside state)
          (reached start leads.1)
      · exact ih leads.2 behind later

/-- What each simple command of a script keeps, the script keeps. -/
theorem invariant_run {invariant : σ → Prop} {command : Command α}
    (kept : ∀ action, action ∈ command.possible → ∀ state, invariant state →
      invariant (act action state).2) (checked : Bool) {state : σ} (initially : invariant state) :
    invariant (run act command checked state).state :=
  (leads_run command checked state).invariant
    (fun entry member state _ => kept entry.action (mem_possible member) state) initially

section Effects

variable {β : Type} (view : σ → Set β) (most least : α → Set β)

/-- A simple command adds at most its effect where it succeeds, and nothing where it fails. -/
def AddsAtMost (act : α → σ → Bool × σ) (actions : List α) : Prop :=
  ∀ action, action ∈ actions → ∀ state, view (act action state).2 ⊆
    view state ∪ if (act action state).1 then most action else ∅

/-- A simple command takes nothing away, and adds at least its effect where it succeeds. -/
def AddsAtLeast (act : α → σ → Bool × σ) (actions : List α) : Prop :=
  ∀ action, action ∈ actions → ∀ state,
    (view state ∪ if (act action state).1 then least action else ∅) ⊆ view (act action state).2

variable {view most least}

theorem mem_gathered_performed {effect : α → Set β} {log : List (Entry α)} {item : β} :
    item ∈ gathered effect (performed log) ↔
      ∃ entry, entry ∈ log ∧ entry.success = true ∧ item ∈ effect entry.action := by
  constructor
  · rintro ⟨action, member, effected⟩
    obtain ⟨entry, inside, rfl⟩ := List.mem_map.mp member
    obtain ⟨logged, success⟩ := List.mem_filter.mp inside
    exact ⟨entry, logged, success, effected⟩
  · rintro ⟨entry, logged, success, effected⟩
    exact ⟨entry.action, List.mem_map_of_mem (List.mem_filter.mpr ⟨logged, success⟩), effected⟩

theorem Leads.subset {start final : σ} {log : List (Entry α)} (leads : Leads act start log final)
    (adds : AddsAtMost view most act (log.map Entry.action)) :
    view final ⊆ view start ∪ gathered most (performed log) := by
  intro item member
  induction log generalizing start with
  | nil =>
      cases leads
      exact .inl member
  | cons entry rest ih =>
      rcases ih leads.2 (fun action inside => adds action (List.mem_cons_of_mem _ inside)) with
        before | ⟨action, inside, effected⟩
      · rcases adds entry.action List.mem_cons_self start before with old | new
        · exact .inl old
        · right
          rw [← leads.1] at new
          cases success : entry.success with
          | true =>
              rw [success, if_pos rfl] at new
              exact mem_gathered_performed.mpr ⟨entry, List.mem_cons_self, success, new⟩
          | false =>
              rw [success, if_neg Bool.false_ne_true] at new
              cases new
      · obtain ⟨other, logged, success, effected⟩ :=
          mem_gathered_performed.mp ⟨action, inside, effected⟩
        exact .inr (mem_gathered_performed.mpr
          ⟨other, List.mem_cons_of_mem _ logged, success, effected⟩)

theorem Leads.superset {start final : σ} {log : List (Entry α)}
    (leads : Leads act start log final)
    (adds : AddsAtLeast view least act (log.map Entry.action)) :
    view start ∪ gathered least (performed log) ⊆ view final := by
  induction log generalizing start with
  | nil =>
      cases leads
      exact Set.union_subset (fun _ member => member) fun _ ⟨_, impossible, _⟩ => nomatch impossible
  | cons entry rest ih =>
      have later := ih leads.2 fun action inside => adds action (List.mem_cons_of_mem _ inside)
      have first := adds entry.action List.mem_cons_self start
      apply Set.union_subset
      · exact fun _ member => later (.inl (first (.inl member)))
      · intro item member
        obtain ⟨other, logged, success, effected⟩ := mem_gathered_performed.mp member
        rcases List.mem_cons.mp logged with rfl | behind
        · apply later
          left
          apply first
          right
          rw [← leads.1, success, if_pos rfl]
          exact effected
        · exact later (.inr (mem_gathered_performed.mpr ⟨other, behind, success, effected⟩))

theorem possible_of_logged {command : Command α} {checked : Bool} {state : σ} {action : α}
    (logged : action ∈ (run act command checked state).log.map Entry.action) :
    action ∈ command.possible := by
  obtain ⟨entry, inside, rfl⟩ := List.mem_map.mp logged
  exact mem_possible inside

/-- All that is added comes from the simple commands that have succeeded. -/
theorem view_run_subset {command : Command α}
    (adds : AddsAtMost view most act command.possible) (checked : Bool) (state : σ) :
    view (run act command checked state).state ⊆
      view state ∪ gathered most (performed (run act command checked state).log) :=
  (leads_run command checked state).subset fun action logged =>
    adds action (possible_of_logged logged)

/-- Nothing is lost, and all is there that has been added. -/
theorem subset_view_run {command : Command α}
    (adds : AddsAtLeast view least act command.possible) (checked : Bool) (state : σ) :
    view state ∪ gathered least (performed (run act command checked state).log) ⊆
      view (run act command checked state).state :=
  (leads_run command checked state).superset fun action logged =>
    adds action (possible_of_logged logged)

/-- What a script is sure to have added, where it goes on. -/
theorem mem_view_of_ensures {command : Command α}
    (adds : AddsAtLeast view least act command.possible) {accepts : α → Bool} {item : β}
    (adding : ∀ action, accepts action = true → item ∈ least action)
    (ensured : command.ensures accepts = true) {state : σ}
    (goesOn : (run act command true state).ending ≠ .stopped) :
    item ∈ view (run act command true state).state := by
  obtain ⟨action, done, accepted⟩ := ensures_performed ensured goesOn
  exact subset_view_run adds true state (.inr ⟨action, done, adding action accepted⟩)

/-- Where the second command adds nothing, the first one decides. -/
theorem view_seq_of_silent {first second : Command α} {checked : Bool}
    (silent : ∀ state, view (run act second checked state).state = view state) (state : σ) :
    view (run act (.seq first second) checked state).state =
      view (run act first checked state).state := by
  change view ((run act first checked state).next fun _ state => run act second checked state).state
    = view (run act first checked state).state
  cases ended : (run act first checked state).ending with
  | stopped => rw [Run.next_stopped ended]
  | status success =>
      rw [Run.next_status ended]
      exact silent _

/-- What the first command has added stays. -/
theorem view_subset_seq {first second : Command α} {checked : Bool}
    (grows : ∀ state, view state ⊆ view (run act second checked state).state) (state : σ) :
    view (run act first checked state).state ⊆
      view (run act (.seq first second) checked state).state := by
  change view (run act first checked state).state ⊆
    view ((run act first checked state).next fun _ state => run act second checked state).state
  cases ended : (run act first checked state).ending with
  | stopped => rw [Run.next_stopped ended]
  | status success =>
      rw [Run.next_status ended]
      exact grows _

end Effects

end SuperBootimg.ExitOnError
