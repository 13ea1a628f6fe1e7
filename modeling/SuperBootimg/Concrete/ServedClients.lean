/-
What a run of changes.sh leaves in the policy where it goes on: each client reaches the
daemon, and the daemon reaches a shell. The modes differ in the rights of su.
-/

import SuperBootimg.Concrete.PolicyRuns

namespace SuperBootimg.Concrete.Scripts

open ExitOnError AccumulatedEffects
open ExitOnError.Command (steps mem_possible_steps mem_possible_onlyIf ensures_steps)
open Sepolicy (AllowRule)

variable {σ : Type} {act : Action → σ → Bool × σ} {rules : σ → Set AllowRule}

/-! ### What is meant to work -/

structure RuleWords where
  source : PolicyType
  target : PolicyType
  objectClass : ObjectClass
  permission : Permission
  deriving DecidableEq

def RuleWords.rule (words : RuleWords) : AllowRule :=
  written words.source words.target words.objectClass words.permission

/-- A client finds the daemon's socket and connects to it; the daemon and su get the files
that the client hands over. -/
def clientRules (client : PolicyType) : List RuleWords :=
  [⟨client, .suDevice, .dir, .search⟩,
    ⟨client, .suDevice, .sockFile, .write⟩,
    ⟨client, .suDaemon, .unixStreamSocket, .connectto⟩,
    ⟨.suDaemon, client, .fd, .use⟩,
    ⟨.suDaemon, client, .fifoFile, .write⟩,
    ⟨.su, client, .fd, .use⟩,
    ⟨.su, client, .fifoFile, .write⟩]

/-- init starts the daemon, which listens on its socket and executes a shell as su. -/
def shellRules : List RuleWords :=
  [⟨.init, .suDaemon, .process, .transition⟩,
    ⟨.suDaemon, .rootfs, .file, .entrypoint⟩,
    ⟨.suDaemon, .suDevice, .sockFile, .create⟩,
    ⟨.suDaemon, .suDaemon, .unixStreamSocket, .listen⟩,
    ⟨.suDaemon, .suDaemon, .unixStreamSocket, .accept⟩,
    ⟨.suDaemon, .suDaemon, .process, .setexec⟩,
    ⟨.suDaemon, .shellExec, .file, .execute⟩,
    ⟨.suDaemon, .su, .process, .transition⟩,
    ⟨.su, .shellExec, .file, .entrypoint⟩,
    ⟨.su, .suDaemon, .process, .sigchld⟩]

def commonClients : List PolicyType :=
  [.shell, .untrustedApp, .platformApp, .systemApp, .su]

/-! ### Grants that are certain -/

def RuleWords.grantedBy (words : RuleWords) : Action → Bool
  | .inject _ (.grant source target objectClass permissions) =>
      words.target.isSingle && decide (words.source = source) && decide (words.target = target) &&
        decide (words.objectClass = objectClass) && permissions.contains words.permission
  | _ => false

theorem RuleWords.mem_least {words : RuleWords} {action : Action}
    (granted : words.grantedBy action = true) : words.rule ∈ action.least := by
  cases action with
  | inject suffix injection =>
      cases injection with
      | grant source target objectClass permissions =>
          unfold grantedBy at granted
          simp only [Bool.and_eq_true, decide_eq_true_eq] at granted
          obtain ⟨⟨⟨⟨single, rfl⟩, rfl⟩, rfl⟩, listed⟩ := granted
          change words.rule ∈ if words.target.isSingle then
            named words.source words.target words.objectClass permissions else ∅
          rw [single, if_pos rfl]
          exact ⟨rfl, rfl, rfl, words.permission, List.contains_iff_mem.mp listed, rfl⟩
      | _ => cases granted
  | _ => cases granted

theorem policyChanges_ensures (version : Version) (modes : Modes) :
    (shellRules ++ commonClients.flatMap clientRules).all
      (fun words => (policyChanges version modes).ensures words.grantedBy) = true := rfl

theorem allowSuClient_ensures (version : Version) :
    (clientRules .privApp).all
      (fun words => (allowSuClient version .privApp).ensures words.grantedBy) = true := rfl

/-- What newer versions need for privileged apps. -/
theorem privApp_ensures {version : Version} (newer : 24 ≤ version.android) (modes : Modes)
    {words : RuleWords} (listed : words ∈ clientRules .privApp) :
    (policyChanges version modes).ensures words.grantedBy = true := by
  have member : .andAlso (atLeast version 24) (allowSuClient version .privApp) ∈
      userPolicy version := by
    unfold userPolicy
    simp only [List.mem_cons, true_or, or_true]
  have known : (atLeast version 24).known = some true := congrArg some (decide_eq_true newer)
  apply ensures_steps (List.mem_append_left _ member)
  unfold Command.ensures
  rw [known, List.all_eq_true.mp (allowSuClient_ensures version) words listed]
  rfl

/-- Behind a run that goes on, every client reaches the daemon and the daemon reaches a shell,
with the rules of the policy and in every mode. -/
theorem completed_run_serves (grants : Grants act rules) (version : Version) (modes : Modes)
    (state : σ) (goesOn : (run act (policyChanges version modes) true state).ending ≠ .stopped) :
    (∀ words, words ∈ shellRules →
      words.rule ∈ rules (run act (policyChanges version modes) true state).state) ∧
    ∀ client, client ∈ commonClients ∨ (client = .privApp ∧ 24 ≤ version.android) →
      ∀ words, words ∈ clientRules client →
        words.rule ∈ rules (run act (policyChanges version modes) true state).state := by
  have added : ∀ words : RuleWords,
      (policyChanges version modes).ensures words.grantedBy = true →
      words.rule ∈ rules (run act (policyChanges version modes) true state).state :=
    fun words ensured => mem_view_of_ensures
      (grants.addsAtLeast (policyChanges_additions version modes))
      (fun _ granted => RuleWords.mem_least granted) ensured goesOn
  have common := List.all_eq_true.mp (policyChanges_ensures version modes)
  constructor
  · exact fun words listed => added words (common words (List.mem_append_left _ listed))
  · intro client served words listed
    apply added
    rcases served with always | ⟨rfl, newer⟩
    · exact common words
        (List.mem_append_right _ (List.mem_flatMap.mpr ⟨client, always, listed⟩))
    · exact privApp_ensures newer modes listed

theorem completed_run_serves_recorded :
    RuleWords.rule ⟨.shell, .suDaemon, .unixStreamSocket, .connectto⟩ ∈ {rule : AllowRule |
      rule ∈ (run recordGrants (policyChanges plainVersion defaultModes) true []).state} := by
  have served := completed_run_serves recordGrants_grants plainVersion defaultModes []
    (by decide +kernel)
  exact served.2 .shell (.inl (by decide)) _ (by decide)

/-! ### The modes -/

/-- What a run of the policy's part comes to before the domains that are made permissive. -/
def rightsOf (version : Version) (modes : Modes) : Command Action :=
  steps (userPolicy version ++ [powerPolicy version modes])

theorem policyChanges_eq (version : Version) (modes : Modes) (checked : Bool) (state : σ) :
    run act (policyChanges version modes) checked state =
      run act (.seq (rightsOf version modes)
        (steps [engPolicy version modes, sysinitPolicy version modes])) checked state := by
  unfold policyChanges rightsOf
  rw [← run_steps_append (List.append_ne_nil_of_right_ne_nil _ (List.cons_ne_nil _ _))
    (List.cons_ne_nil _ _), List.append_assoc]
  rfl

/-- Commands that name no rule leave the rules as they are. -/
theorem Grants.silent (grants : Grants act rules) {command : Command Action}
    (additions : command.forAll Action.isAddition = true)
    (nothing : ∀ action, action ∈ command.possible → action.most = ∅) (checked : Bool) (state : σ) :
    rules (run act command checked state).state = rules state := by
  apply Set.Subset.antisymm
  · intro rule final
    rcases grants.named_of_added additions final with old | ⟨action, possible, added⟩
    · exact old
    · rw [nothing action possible] at added
      cases added
  · intro rule initial
    exact subset_view_run (grants.addsAtLeast additions) checked state (.inl initial)

/-- Making a domain permissive grants no rule. -/
theorem rules_policyChanges (grants : Grants act rules) (version : Version) (modes : Modes)
    (checked : Bool) (state : σ) :
    rules (run act (policyChanges version modes) checked state).state =
      rules (run act (rightsOf version modes) checked state).state := by
  rw [policyChanges_eq]
  apply view_seq_of_silent
  apply grants.silent rfl
  intro action possible
  obtain ⟨command, member, named⟩ := mem_possible_steps.mp possible
  simp only [List.mem_cons, List.not_mem_nil, or_false] at member
  rcases member with rfl | rfl
  · rw [List.mem_singleton.mp (mem_possible_onlyIf named).2]
    rfl
  · rw [List.mem_singleton.mp (mem_possible_onlyIf named).2]
    rfl

/-- The rights of the modes power and eng are the same, and those of user are among them. Only
the type su is made permissive in eng. -/
theorem modes_ordered (grants : Grants act rules) (version : Version) (modes : Modes)
    (checked : Bool) (state : σ) :
    rules (run act (policyChanges version { modes with selinuxmode := .user }) checked
        state).state ⊆
      rules (run act (policyChanges version { modes with selinuxmode := .power }) checked
        state).state ∧
    rules (run act (policyChanges version { modes with selinuxmode := .power }) checked
        state).state =
      rules (run act (policyChanges version { modes with selinuxmode := .eng }) checked
        state).state := by
  have several : userPolicy version ≠ [] := List.cons_ne_nil _ _
  have same : rightsOf version { modes with selinuxmode := .power } =
      rightsOf version { modes with selinuxmode := .eng } := rfl
  constructor
  · rw [rules_policyChanges grants, rules_policyChanges grants]
    unfold rightsOf
    rw [run_steps_append several (List.cons_ne_nil _ _),
      run_steps_append several (List.cons_ne_nil _ _)]
    have user : rules (run act (.seq (steps (userPolicy version))
        (steps [powerPolicy version { modes with selinuxmode := .user }])) checked state).state =
        rules (run act (steps (userPolicy version)) checked state).state :=
      view_seq_of_silent (fun _ => rfl) state
    rw [user]
    apply view_subset_seq
    intro state rule initial
    have additions : (powerPolicy version { modes with selinuxmode := .power }).forAll
        Action.isAddition = true := rfl
    exact subset_view_run (grants.addsAtLeast additions) checked state (.inl initial)
  · rw [rules_policyChanges grants, rules_policyChanges grants, same]

theorem modes_ordered_recorded :
    {rule : AllowRule | rule ∈ (run recordGrants (policyChanges plainVersion
        { defaultModes with selinuxmode := .user }) true []).state} ⊆
      {rule : AllowRule | rule ∈ (run recordGrants (policyChanges plainVersion
        { defaultModes with selinuxmode := .power }) true []).state} :=
  (modes_ordered recordGrants_grants plainVersion defaultModes true []).1

end SuperBootimg.Concrete.Scripts
