/-
A run seen through a part of its state: where the commands treat that part as they would on
its own, the run is one on the part alone.
-/

import SuperBootimg.RecordedRuns

namespace SuperBootimg.ExitOnError

variable {σ τ α : Type}

/-- The same commands with the same outcome. -/
structure SameRun (view : σ → τ) (whole : Run σ α) (part : Run τ α) : Prop where
  state : view whole.state = part.state
  log : whole.log = part.log
  ending : whole.ending = part.ending

variable {view : σ → τ}

theorem SameRun.next {whole : Run σ α} {part : Run τ α} (same : SameRun view whole part)
    {following : Bool → σ → Run σ α} {others : Bool → τ → Run τ α}
    (later : ∀ success, SameRun view (following success whole.state) (others success part.state)) :
    SameRun view (whole.next following) (part.next others) := by
  cases ended : part.ending with
  | stopped =>
      rw [Run.next_stopped ended, Run.next_stopped (same.ending.trans ended)]
      exact same
  | status success =>
      rw [Run.next_status ended, Run.next_status (same.ending.trans ended)]
      exact
        { state := (later success).state
          log := congrArg₂ (· ++ ·) same.log (later success).log
          ending := (later success).ending }

theorem SameRun.asChild {whole : Run σ α} {part : Run τ α} (same : SameRun view whole part)
    (checked : Bool) : SameRun view (whole.asChild checked) (part.asChild checked) where
  state := same.state
  log := congrArg (List.map _) same.log
  ending := by
    unfold Run.asChild
    rw [same.ending]

variable {act : α → σ → Bool × σ} {other : α → τ → Bool × τ} {accepts : α → Bool}

/-- The step from one command to a script. -/
theorem run_viewed
    (same : ∀ action, accepts action = true → ∀ state,
      (act action state).1 = (other action (view state)).1 ∧
        view (act action state).2 = (other action (view state)).2)
    {command : Command α} (all : command.forAll accepts = true) (checked : Bool) (state : σ) :
    SameRun view (run act command checked state) (run other command checked (view state)) := by
  have ends : ∀ (state : σ) (ending : Ending),
      SameRun view (⟨state, [], ending⟩ : Run σ α) ⟨view state, [], ending⟩ :=
    fun _ _ => ⟨rfl, rfl, rfl⟩
  induction command generalizing checked state with
  | status success => exact ends _ _
  | simple action =>
      obtain ⟨success, after⟩ := same action all state
      unfold run
      rw [success]
      exact ⟨after, rfl, rfl⟩
  | seq first second firstIh secondIh =>
      obtain ⟨early, late⟩ := Bool.and_eq_true_iff.mp all
      have before := firstIh early checked state
      refine before.next fun _ => ?_
      rw [← before.state]
      exact secondIh late checked _
  | andAlso left right leftIh rightIh =>
      obtain ⟨early, late⟩ := Bool.and_eq_true_iff.mp all
      have before := leftIh early false state
      refine before.next fun success => ?_
      rw [← before.state]
      cases success with
      | true => exact rightIh late checked _
      | false => exact ends _ _
  | orElse left right leftIh rightIh =>
      obtain ⟨early, late⟩ := Bool.and_eq_true_iff.mp all
      have before := leftIh early false state
      refine before.next fun success => ?_
      rw [← before.state]
      cases success with
      | true => exact ends _ _
      | false => exact rightIh late checked _
  | conditional guard body others guardIh bodyIh othersIh =>
      obtain ⟨early, late⟩ := Bool.and_eq_true_iff.mp all
      obtain ⟨asked, inside⟩ := Bool.and_eq_true_iff.mp early
      have before := guardIh asked false state
      refine before.next fun success => ?_
      rw [← before.state]
      cases success with
      | true => exact bodyIh inside checked _
      | false => exact othersIh late checked _
  | negate inner ih =>
      have before := ih all false state
      refine before.next fun _ => ?_
      rw [← before.state]
      exact ends _ _
  | call body ih =>
      have before := ih all checked state
      refine before.next fun _ => ?_
      rw [← before.state]
      exact ends _ _
  | child script ih => exact (ih all true state).asChild checked
  | exit => exact ends _ _

/-- A value in the state that the commands which succeed change one after the other. -/
theorem Leads.foldl {γ : Type} {value : σ → γ} {note : γ → α → γ} {start final : σ}
    {log : List (Entry α)} (leads : Leads act start log final)
    (each : ∀ entry, entry ∈ log → ∀ state, value (act entry.action state).2 =
      if (act entry.action state).1 then note (value state) entry.action else value state) :
    value final = (performed log).foldl note (value start) := by
  induction log generalizing start with
  | nil =>
      cases leads
      rfl
  | cons entry rest ih =>
      have later := ih leads.2 fun other member => each other (List.mem_cons_of_mem _ member)
      have first := each entry List.mem_cons_self start
      rw [← leads.1] at first
      rw [later, first]
      cases success : entry.success with
      | true =>
          have front : performed (entry :: rest) = entry.action :: performed rest := by
            unfold performed
            rw [List.filter_cons_of_pos success]
            rfl
          rw [front, if_pos rfl]
          rfl
      | false =>
          have front : performed (entry :: rest) = performed rest := by
            unfold performed
            rw [List.filter_cons_of_neg (ne_true_of_eq_false success)]
          rw [front, if_neg Bool.false_ne_true]

end SuperBootimg.ExitOnError
