/-
Conditions on the commands of a run, asked only where a command is carried out. Behaviours
that agree wherever the condition holds have the same run.
-/

import SuperBootimg.ExitOnError

namespace SuperBootimg.ExitOnError

variable {σ α : Type} {act other : α → σ → Bool × σ} {fine : α → σ → Prop}

/-- The condition holds wherever a command of the log is carried out. -/
def Throughout (act : α → σ → Bool × σ) (fine : α → σ → Prop) : σ → List (Entry α) → Prop
  | _, [] => True
  | state, entry :: rest =>
      fine entry.action state ∧ Throughout act fine (act entry.action state).2 rest

namespace Throughout

theorem append_iff {start middle : σ} {first second : List (Entry α)}
    (leads : Leads act start first middle) :
    Throughout act fine start (first ++ second) ↔
      Throughout act fine start first ∧ Throughout act fine middle second := by
  induction first generalizing start with
  | nil =>
      cases leads
      exact (and_iff_right trivial).symm
  | cons entry rest ih =>
      change (_ ∧ Throughout act fine _ (rest ++ second)) ↔ (_ ∧ _) ∧ _
      rw [ih leads.2, and_assoc]

theorem relabel_iff {start : σ} {log : List (Entry α)} (checked : Entry α → Bool) :
    Throughout act fine start (log.map fun entry => { entry with checked := checked entry }) ↔
      Throughout act fine start log := by
  induction log generalizing start with
  | nil => exact Iff.rfl
  | cons entry rest ih => exact and_congr_right fun _ => ih

/-- Of two commands in a row, the second one is asked only where it is reached. -/
theorem next_iff {start : σ} {run : Run σ α} {following : Bool → σ → Run σ α}
    (leads : Leads act start run.log run.state) :
    Throughout act fine start (run.next following).log ↔
      Throughout act fine start run.log ∧ ∀ success, run.ending = .status success →
        Throughout act fine run.state (following success run.state).log := by
  cases ended : run.ending with
  | stopped =>
      rw [run.next_stopped ended]
      exact (and_iff_left fun _ impossible => nomatch impossible).symm
  | status success =>
      rw [run.next_status ended, append_iff leads]
      apply and_congr_right
      intro _
      constructor
      · intro late other same
        cases same
        exact late
      · exact fun late => late success rfl

/-- Where an entry was made, the condition held. -/
theorem of_mem {start final : σ} {log : List (Entry α)} (leads : Leads act start log final)
    (throughout : Throughout act fine start log) {entry : Entry α} (member : entry ∈ log) :
    ∃ state, fine entry.action state ∧ entry.success = (act entry.action state).1 := by
  induction log generalizing start with
  | nil => cases member
  | cons first rest ih =>
      rcases List.mem_cons.mp member with rfl | later
      · exact ⟨start, throughout.1, leads.1⟩
      · exact ih leads.2 throughout.2 later

theorem of_always {start : σ} {log : List (Entry α)}
    (always : ∀ entry, entry ∈ log → ∀ state, fine entry.action state) :
    Throughout act fine start log := by
  induction log generalizing start with
  | nil => trivial
  | cons entry rest ih =>
      exact ⟨always entry List.mem_cons_self start,
        ih fun other member => always other (List.mem_cons_of_mem _ member)⟩

end Throughout

theorem Run.next_congr {run : Run σ α} {following others : Bool → σ → Run σ α}
    (same : ∀ success, run.ending = .status success →
      following success run.state = others success run.state) :
    run.next following = run.next others := by
  cases ended : run.ending with
  | stopped => rw [run.next_stopped ended, run.next_stopped ended]
  | status success => rw [run.next_status ended, run.next_status ended, same success ended]

/-- The step from single commands to a script, where the condition holds throughout its run. -/
theorem run_congr (same : ∀ action state, fine action state →
      other action state = act action state) (command : Command α) (checked : Bool) (state : σ)
    (throughout : Throughout act fine state (run act command checked state).log) :
    run other command checked state = run act command checked state := by
  induction command generalizing checked state with
  | status success => rfl
  | simple action =>
      have agreed := same action state throughout.1
      unfold run
      rw [agreed]
  | seq first second firstIh secondIh =>
      obtain ⟨early, late⟩ := (Throughout.next_iff (leads_run first checked state)).mp throughout
      unfold run
      rw [firstIh checked state early]
      exact Run.next_congr fun success ended => secondIh checked _ (late success ended)
  | andAlso left right leftIh rightIh =>
      obtain ⟨early, late⟩ := (Throughout.next_iff (leads_run left false state)).mp throughout
      unfold run
      rw [leftIh false state early]
      apply Run.next_congr
      intro success ended
      have behind := late success ended
      cases success with
      | true => exact rightIh checked _ behind
      | false => rfl
  | orElse left right leftIh rightIh =>
      obtain ⟨early, late⟩ := (Throughout.next_iff (leads_run left false state)).mp throughout
      unfold run
      rw [leftIh false state early]
      apply Run.next_congr
      intro success ended
      have behind := late success ended
      cases success with
      | true => rfl
      | false => exact rightIh checked _ behind
  | conditional guard body others guardIh bodyIh othersIh =>
      obtain ⟨early, late⟩ := (Throughout.next_iff (leads_run guard false state)).mp throughout
      unfold run
      rw [guardIh false state early]
      apply Run.next_congr
      intro success ended
      have behind := late success ended
      cases success with
      | true => exact bodyIh checked _ behind
      | false => exact othersIh checked _ behind
  | negate inner ih =>
      obtain ⟨early, _⟩ := (Throughout.next_iff (leads_run inner false state)).mp throughout
      unfold run
      rw [ih false state early]
  | call body ih =>
      obtain ⟨early, _⟩ := (Throughout.next_iff (leads_run body checked state)).mp throughout
      unfold run
      rw [ih checked state early]
  | child script ih =>
      unfold run
      rw [ih true state ((Throughout.relabel_iff _).mp throughout)]
  | exit => rfl

end SuperBootimg.ExitOnError
