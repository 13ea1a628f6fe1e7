/-
Runs of changes.sh, for arbitrary behaviour of its simple commands. What is relied on is
only that sepolicy-inject grants what it is asked for, or fails and grants nothing.
-/

import SuperBootimg.Concrete.ChangesScript

namespace SuperBootimg.Concrete.Scripts

open ExitOnError AccumulatedEffects
open ExitOnError.Command (steps forEach onlyIf mem_possible_steps mem_possible_conditional
  mem_possible_onlyIf)
open Sepolicy (Text AllowRule)

variable {σ : Type}

/-! ### What ends changes.sh -/

theorem robust_fstabChanges (modes : Modes) (fstabs : List Text) :
    (fstabChanges modes fstabs).robust = true := by
  have loop : (forEach fstabs (fstabChange modes)).robust = true := by
    apply Command.robust_steps
    intro command member
    obtain ⟨name, _, rfl⟩ := List.mem_map.mp member
    rfl
  unfold fstabChanges onlyIf Command.robust
  rw [loop]
  rfl

theorem robust_changes (setting : Setting) (arguments : List Text) :
    (changes setting arguments).robust = true := by
  have split : (changes setting arguments).robust =
      ((fstabChanges (readOptions arguments) setting.fstabs).robust &&
        (steps (laterChanges setting (readOptions arguments))).robust) := rfl
  rw [split, robust_fstabChanges]
  rfl

/-- changes.sh is ended by a command whose failure nothing asks for, and by nothing else: not
by a test of ANDROID or of an option, not by an empty argument, and not by a rule that may be
missing. Behind that command nothing is carried out. -/
theorem changes_stops_iff (act : Action → σ → Bool × σ) (setting : Setting)
    (arguments : List Text) (state : σ) :
    ((run act (changes setting arguments) true state).ending = .stopped ↔
      ∃ entry, entry ∈ (run act (changes setting arguments) true state).log ∧
        entry.checked = true ∧ entry.success = false) ∧
    ∀ before entry after,
      (run act (changes setting arguments) true state).log = before ++ entry :: after →
      entry.checked = true → entry.success = false → after = [] := by
  have fatal : ∀ entry : Entry Action,
      entry.fatal = true ↔ entry.checked = true ∧ entry.success = false := by
    intro entry
    unfold Entry.fatal
    rw [Bool.and_eq_true, Bool.not_eq_true']
  constructor
  · rw [stopped_iff (robust_changes setting arguments)]
    simp only [fatal]
  · intro before entry after split checked failed
    exact (endsAtFailure (changes setting arguments) true state before entry after split
      ((fatal entry).mpr ⟨checked, failed⟩)).1

/-! ### What the policy grants -/

def named (source target : PolicyType) (objectClass : ObjectClass)
    (permissions : List Permission) : Set AllowRule :=
  {rule | rule.source = source.name.text ∧ rule.target = target.name.text ∧
    rule.objectClass = objectClass.name.text ∧
    ∃ permission, permission ∈ permissions ∧ rule.permission = permission.name.text}

/-- The rules that a grant for all types of an attribute may add. -/
def namedForTypes (source : PolicyType) (objectClass : ObjectClass)
    (permissions : List Permission) : Set AllowRule :=
  {rule | rule.source = source.name.text ∧ rule.objectClass = objectClass.name.text ∧
    ∃ permission, permission ∈ permissions ∧ rule.permission = permission.name.text}

def PolicyType.isSingle : PolicyType → Bool
  | .serviceManagerTypes => false
  | .otherServiceManagerTypes => false
  | _ => true

def mayGrant (source target : PolicyType) (objectClass : ObjectClass)
    (permissions : List Permission) : Set AllowRule :=
  if target.isSingle then named source target objectClass permissions
  else namedForTypes source objectClass permissions

def Action.most : Action → Set AllowRule
  | .inject _ (.grant source target objectClass permissions) =>
      mayGrant source target objectClass permissions
  | .inject _ (.automatic _) => Set.univ
  | _ => ∅

def Action.least : Action → Set AllowRule
  | .inject _ (.grant source target objectClass permissions) =>
      if target.isSingle then named source target objectClass permissions else ∅
  | _ => ∅

/-- The commands that edit the policy of the ramdisk by adding to it, or leave it alone. -/
def Action.isAddition : Action → Bool
  | .inject _ (.forbid _ _ _ _) => false
  | .inject _ (.automatic _) => false
  | .inject _ _ => true
  | .addFile _ => true
  | _ => false

/-- sepolicy-inject grants what it is asked for or fails, and the other commands among the
additions grant nothing. -/
structure Grants (act : Action → σ → Bool × σ) (rules : σ → Set AllowRule) : Prop where
  most : ∀ action state, action.isAddition = true → rules (act action state).2 ⊆
    rules state ∪ if (act action state).1 then action.most else ∅
  least : ∀ action state, action.isAddition = true →
    (rules state ∪ if (act action state).1 then action.least else ∅) ⊆ rules (act action state).2

variable {act : Action → σ → Bool × σ} {rules : σ → Set AllowRule}

theorem Grants.addsAtMost (grants : Grants act rules) {command : Command Action}
    (additions : command.forAll Action.isAddition = true) :
    AddsAtMost rules Action.most act command.possible :=
  fun action possible state => grants.most action state
    (accepts_of_possible additions possible)

theorem Grants.addsAtLeast (grants : Grants act rules) {command : Command Action}
    (additions : command.forAll Action.isAddition = true) :
    AddsAtLeast rules Action.least act command.possible :=
  fun action possible state => grants.least action state
    (accepts_of_possible additions possible)

theorem policyChanges_additions (version : Version) (modes : Modes) :
    (policyChanges version modes).forAll Action.isAddition = true :=
  rfl

/-- A rule that a run of a script has added was named by a command of the script. -/
theorem Grants.named_of_added (grants : Grants act rules) {command : Command Action}
    (additions : command.forAll Action.isAddition = true) {checked : Bool} {state : σ}
    {rule : AllowRule} (final : rule ∈ rules (run act command checked state).state) :
    rule ∈ rules state ∨ ∃ action, action ∈ command.possible ∧ rule ∈ action.most := by
  rcases view_run_subset (grants.addsAtMost additions) checked state final with
    old | ⟨action, logged, added⟩
  · exact .inl old
  · obtain ⟨entry, member, rfl⟩ := List.mem_map.mp logged
    exact .inr ⟨entry.action, mem_possible (List.mem_filter.mp member).1, added⟩

/-- What a run of the policy's part comes to, by the modes that ask for it. -/
theorem possible_policyChanges {version : Version} {modes : Modes} {action : Action}
    (possible : action ∈ (policyChanges version modes).possible) :
    (∃ command, command ∈ userPolicy version ∧ action ∈ command.possible) ∨
      (modes.selinuxmode ≠ .user ∧ action ∈ (powerRights version).possible) ∨
      (modes.selinuxmode = .eng ∧ action = .inject version.sepolicy (.permissive .su)) ∨
      (modes.permissivesysinit = true ∧
        action = .inject version.sepolicy (.permissive .sysinit)) := by
  obtain ⟨command, member, named⟩ := mem_possible_steps.mp possible
  rcases List.mem_append.mp member with user | others
  · exact .inl ⟨command, user, named⟩
  · right
    simp only [List.mem_cons, List.not_mem_nil, or_false] at others
    rcases others with rfl | rfl | rfl
    · obtain ⟨raised, inside⟩ := mem_possible_onlyIf named
      refine .inl ⟨?_, inside⟩
      intro user
      rw [user] at raised
      cases raised
    · obtain ⟨raised, inside⟩ := mem_possible_onlyIf named
      exact .inr (.inl ⟨of_decide_eq_true raised, List.mem_singleton.mp inside⟩)
    · obtain ⟨asked, inside⟩ := mem_possible_onlyIf named
      exact .inr (.inr ⟨asked, List.mem_singleton.mp inside⟩)

/-! ### Permissive domains -/

def Action.enforces : Action → Bool
  | .inject _ (.permissive _) => false
  | _ => true

theorem fstabChanges_enforces (modes : Modes) (fstabs : List Text) :
    (fstabChanges modes fstabs).forAll Action.enforces = true := by
  have loop : (forEach fstabs (fstabChange modes)).forAll Action.enforces = true := by
    apply Command.forAll_steps
    intro command member
    obtain ⟨name, _, rfl⟩ := List.mem_map.mp member
    rfl
  unfold fstabChanges onlyIf Command.forAll
  rw [loop]
  rfl

theorem userPolicy_enforces (version : Version) :
    (userPolicy version).all (fun command => command.forAll Action.enforces) = true := rfl

/-- A domain becomes permissive only where an option asks for it: su if eng is the last of the
words for the mode, and sysinit for its own word. -/
theorem permissive_only_asked (act : Action → σ → Bool × σ) (setting : Setting)
    (arguments : List Text) (checked : Bool) (state : σ) (entry : Entry Action)
    (logged : entry ∈ (run act (changes setting arguments) checked state).log)
    (suffix : Text) (type : PolicyType)
    (permissive : entry.action = .inject suffix (.permissive type)) :
    (type = .su ∧ lastSet setsSelinuxmode .user arguments = .eng) ∨
      (type = .sysinit ∧ "permissivesysinit".toList ∈ arguments) := by
  have possible := mem_possible logged
  rw [permissive] at possible
  have refused : ∀ {command : Command Action}, command.forAll Action.enforces = true →
      Action.inject suffix (.permissive type) ∉ command.possible := by
    intro command all inside
    cases accepts_of_possible all inside
  have modes : (readOptions arguments).selinuxmode = lastSet setsSelinuxmode .user arguments ∧
      ((readOptions arguments).permissivesysinit = true →
        "permissivesysinit".toList ∈ arguments) := by
    rw [readOptions_permissivesysinit]
    exact ⟨readOptions_selinuxmode arguments, of_decide_eq_true⟩
  obtain ⟨command, member, inside⟩ := mem_possible_steps.mp possible
  rcases List.mem_append.mp member with early | late
  · simp only [List.mem_cons, List.not_mem_nil, or_false] at early
    rcases early with rfl | rfl | rfl | rfl | rfl
    · exact absurd inside (refused rfl)
    · exact absurd inside (refused rfl)
    · exact absurd inside (refused rfl)
    · rcases mem_possible_conditional inside with guard | policy | other
      · exact absurd guard (refused rfl)
      · rcases possible_policyChanges policy with ⟨command, user, named⟩ | ⟨_, named⟩ |
          ⟨eng, same⟩ | ⟨asked, same⟩
        · exact absurd named
            (refused (List.all_eq_true.mp (userPolicy_enforces setting.version) command user))
        · exact absurd named (refused rfl)
        · cases same
          rw [← modes.1]
          exact .inl ⟨rfl, eng⟩
        · cases same
          exact .inr ⟨rfl, modes.2 asked⟩
      · cases other
    · exact absurd inside (refused (fstabChanges_enforces _ _))
  · have all : (laterChanges setting (readOptions arguments)).all
        (fun command => command.forAll Action.enforces) = true := rfl
    exact absurd inside (refused (List.all_eq_true.mp all command late))

def plainVersion : Version :=
  { sepolicy := [], android := 23 }

def plainSetting : Setting :=
  { version := plainVersion
    architecture := "arm"
    unsupportedSelinux := false
    fstabs := [] }

def succeeding (_ : Action) (state : Unit) : Bool × Unit :=
  (true, state)

theorem permissive_only_asked_eng :
    ∃ entry, entry ∈ (run succeeding (changes plainSetting ["eng".toList]) true ()).log ∧
      entry.action = .inject [] (.permissive .su) ∧
      ((PolicyType.su = .su ∧ lastSet setsSelinuxmode .user ["eng".toList] = .eng) ∨
        (PolicyType.su = .sysinit ∧ "permissivesysinit".toList ∈ ["eng".toList])) := by
  have asked : (run succeeding (changes plainSetting ["eng".toList]) true ()).log.any
      (fun entry => decide (entry.action = .inject [] (.permissive .su))) = true := by
    decide +kernel
  obtain ⟨entry, logged, same⟩ := List.any_eq_true.mp asked
  exact ⟨entry, logged, of_decide_eq_true same, permissive_only_asked succeeding plainSetting
    ["eng".toList] true () entry logged [] .su (of_decide_eq_true same)⟩

/-! ### The words of a rule -/

theorem PolicyType.eq_of_text {type other : PolicyType} (same : type.name.text = other.name.text) :
    type = other :=
  PolicyType.word_injective (String.toList_injective same)

theorem ObjectClass.eq_of_text {objectClass other : ObjectClass}
    (same : objectClass.name.text = other.name.text) : objectClass = other :=
  ObjectClass.word_injective (String.toList_injective same)

theorem Permission.eq_of_text {permission other : Permission}
    (same : permission.name.text = other.name.text) : permission = other :=
  Permission.word_injective (String.toList_injective same)

def written (source target : PolicyType) (objectClass : ObjectClass) (permission : Permission) :
    AllowRule :=
  ⟨source.name.text, target.name.text, objectClass.name.text, permission.name.text⟩

theorem mem_named {source target : PolicyType} {objectClass : ObjectClass}
    {permissions : List Permission} {rule : AllowRule}
    (member : rule ∈ named source target objectClass permissions) :
    ∃ permission, permission ∈ permissions ∧
      rule = written source target objectClass permission := by
  obtain ⟨sameSource, sameTarget, sameClass, permission, listed, samePermission⟩ := member
  refine ⟨permission, listed, ?_⟩
  unfold written
  rw [← sameSource, ← sameTarget, ← sameClass, ← samePermission]

def recordGrants (action : Action) (policy : List AllowRule) : Bool × List AllowRule :=
  match action with
  | .inject _ (.grant source target objectClass permissions) =>
      (true, policy ++ permissions.map (written source target objectClass))
  | _ => (true, policy)

theorem recordGrants_grants :
    Grants recordGrants (fun policy => {rule | rule ∈ policy}) where
  most := by
    intro action policy addition rule member
    cases action with
    | inject suffix injection =>
        cases injection with
        | grant source target objectClass permissions =>
            rcases List.mem_append.mp member with old | new
            · exact .inl old
            · obtain ⟨permission, listed, rfl⟩ := List.mem_map.mp new
              right
              change _ ∈ mayGrant source target objectClass permissions
              unfold mayGrant
              cases target.isSingle with
              | true => exact ⟨rfl, rfl, rfl, permission, listed, rfl⟩
              | false => exact ⟨rfl, rfl, permission, listed, rfl⟩
        | automatic type => cases addition
        | _ => exact .inl member
    | _ => exact .inl member
  least := by
    intro action policy addition rule member
    cases action with
    | inject suffix injection =>
        cases injection with
        | grant source target objectClass permissions =>
            apply List.mem_append.mpr
            rcases member with old | new
            · exact .inl old
            · right
              change _ ∈ if target.isSingle then _ else ∅ at new
              cases single : target.isSingle with
              | true =>
                  rw [single, if_pos rfl] at new
                  obtain ⟨permission, listed, rfl⟩ := mem_named new
                  exact List.mem_map_of_mem listed
              | false =>
                  rw [single, if_neg Bool.false_ne_true] at new
                  cases new
        | automatic type => cases addition
        | _ =>
            rcases member with old | new
            · exact old
            · cases new
    | _ =>
        rcases member with old | new
        · exact old
        · cases new

/-! ### Privileged rules -/

/-- What the rights of the levels 6 to 9 are for: writing to block devices, mounting a file
system anew, mounting over files of the system, everything for su, and code that
surfaceflinger takes from the data of apps. -/
def Privileged (rule : AllowRule) : Prop :=
  rule.objectClass = ObjectClass.blkFile.name.text ∨
    rule.permission = Permission.remount.name.text ∨
    rule.permission = Permission.unmount.name.text ∨
    rule.permission = Permission.setfscreate.name.text ∨
    (rule.target = PolicyType.systemFile.name.text ∧
      rule.permission = Permission.mounton.name.text) ∨
    (rule.source = PolicyType.surfaceflinger.name.text ∧
      rule.target = PolicyType.appDataFile.name.text) ∨
    (rule.source = PolicyType.su.name.text ∧
      rule.objectClass = ObjectClass.capability.name.text ∧
      rule.permission = Permission.sysAdmin.name.text)

def privileged (source target : PolicyType) (objectClass : ObjectClass)
    (permission : Permission) : Bool :=
  decide (objectClass = .blkFile) || decide (permission = .remount) ||
    decide (permission = .unmount) || decide (permission = .setfscreate) ||
    decide (target = .systemFile ∧ permission = .mounton) ||
    decide (source = .surfaceflinger ∧ target = .appDataFile) ||
    decide (source = .su ∧ objectClass = .capability ∧ permission = .sysAdmin)

theorem privileged_of_written {source target : PolicyType} {objectClass : ObjectClass}
    {permission : Permission} (given : Privileged (written source target objectClass permission)) :
    privileged source target objectClass permission = true := by
  unfold privileged
  simp only [Bool.or_eq_true, decide_eq_true_eq]
  rcases given with same | same | same | same | ⟨sameTarget, same⟩ | ⟨sameSource, sameTarget⟩ |
    ⟨sameSource, sameClass, same⟩
  · simp only [ObjectClass.eq_of_text same, true_or]
  · simp only [Permission.eq_of_text same, true_or, or_true]
  · simp only [Permission.eq_of_text same, true_or, or_true]
  · simp only [Permission.eq_of_text same, true_or, or_true]
  · simp only [PolicyType.eq_of_text sameTarget, Permission.eq_of_text same, true_and, true_or,
      or_true]
  · simp only [PolicyType.eq_of_text sameSource, PolicyType.eq_of_text sameTarget, true_and,
      true_or, or_true]
  · simp only [PolicyType.eq_of_text sameSource, ObjectClass.eq_of_text sameClass,
      Permission.eq_of_text same, true_and, or_true]

/-- A grant without privileged rules; one for all types of an attribute lets su find services. -/
def unprivilegedGrant (source target : PolicyType) (objectClass : ObjectClass)
    (permissions : List Permission) : Bool :=
  if target.isSingle then
    permissions.all fun permission => !privileged source target objectClass permission
  else decide (source = .su ∧ objectClass = .serviceManager ∧ permissions = [.find])

def Action.unprivileged : Action → Bool
  | .inject _ (.grant source target objectClass permissions) =>
      unprivilegedGrant source target objectClass permissions
  | .inject _ (.automatic _) => false
  | _ => true

theorem not_privileged_of_find {rule : AllowRule}
    (member : rule ∈ namedForTypes .su .serviceManager [.find]) : ¬ Privileged rule := by
  obtain ⟨sameSource, sameClass, permission, listed, samePermission⟩ := member
  rw [List.mem_singleton.mp listed] at samePermission
  intro given
  rcases given with same | same | same | same | ⟨_, same⟩ | ⟨same, _⟩ | ⟨_, same, _⟩
  · cases ObjectClass.eq_of_text (sameClass.symm.trans same)
  · cases Permission.eq_of_text (samePermission.symm.trans same)
  · cases Permission.eq_of_text (samePermission.symm.trans same)
  · cases Permission.eq_of_text (samePermission.symm.trans same)
  · cases Permission.eq_of_text (samePermission.symm.trans same)
  · cases PolicyType.eq_of_text (sameSource.symm.trans same)
  · cases ObjectClass.eq_of_text (sameClass.symm.trans same)

theorem not_privileged_of_grant {source target : PolicyType} {objectClass : ObjectClass}
    {permissions : List Permission}
    (unprivileged : unprivilegedGrant source target objectClass permissions = true)
    {rule : AllowRule} (added : rule ∈ mayGrant source target objectClass permissions) :
    ¬ Privileged rule := by
  unfold unprivilegedGrant at unprivileged
  unfold mayGrant at added
  cases single : target.isSingle with
  | true =>
      rw [single, if_pos rfl] at unprivileged added
      obtain ⟨permission, listed, rfl⟩ := mem_named added
      intro given
      have harmless := List.all_eq_true.mp unprivileged permission listed
      rw [privileged_of_written given] at harmless
      cases harmless
  | false =>
      rw [single, if_neg Bool.false_ne_true] at unprivileged added
      obtain ⟨rfl, rfl, rfl⟩ := of_decide_eq_true unprivileged
      exact not_privileged_of_find added

theorem not_privileged_of_most {action : Action} (unprivileged : action.unprivileged = true)
    {rule : AllowRule} (added : rule ∈ action.most) : ¬ Privileged rule := by
  cases action with
  | inject suffix injection =>
      cases injection with
      | grant source target objectClass permissions =>
          exact not_privileged_of_grant unprivileged added
      | automatic type => cases unprivileged
      | _ => cases added
  | _ => cases added

theorem userPolicy_unprivileged (version : Version) :
    (userPolicy version).all (fun command => command.forAll Action.unprivileged) = true := rfl

/-- Outside the modes power and eng, the policy part of changes.sh leaves the privileged rules as
they are, whatever succeeds and wherever it ends. -/
theorem user_mode_unprivileged (grants : Grants act rules) (version : Version) (modes : Modes)
    (user : modes.selinuxmode = .user) (checked : Bool) (state : σ) (rule : AllowRule)
    (given : Privileged rule) :
    rule ∈ rules (run act (policyChanges version modes) checked state).state ↔
      rule ∈ rules state := by
  have additions := policyChanges_additions version modes
  constructor
  · intro final
    rcases grants.named_of_added additions final with old | ⟨action, possible, added⟩
    · exact old
    · rcases possible_policyChanges possible with ⟨command, member, named⟩ | ⟨raised, _⟩ |
        ⟨raised, _⟩ | ⟨_, rfl⟩
      · have harmless := List.all_eq_true.mp (userPolicy_unprivileged version) command member
        exact absurd given (not_privileged_of_most (accepts_of_possible harmless named) added)
      · exact absurd user raised
      · rw [user] at raised
        cases raised
      · cases added
  · intro initial
    exact subset_view_run (grants.addsAtLeast additions) checked state (.inl initial)

theorem user_mode_unprivileged_recorded :
    written .su .su .capability .sysAdmin ∈
        {rule | rule ∈ (run recordGrants (policyChanges plainVersion defaultModes) true []).state} ↔
      written .su .su .capability .sysAdmin ∈ {rule : AllowRule | rule ∈ ([] : List AllowRule)} :=
  user_mode_unprivileged recordGrants_grants plainVersion defaultModes rfl true [] _
    (.inr (.inr (.inr (.inr (.inr (.inr ⟨rfl, rfl, rfl⟩))))))

/-! ### The ways to su -/

def suClients : List PolicyType :=
  [.shell, .untrustedApp, .platformApp, .systemApp, .su, .privApp, .ssdTool]

/-- Only clients connect to the daemon, only init starts it, and only the daemon starts su. -/
def entrancesListed (source target : PolicyType) (objectClass : ObjectClass)
    (permission : Permission) : Bool :=
  if permission = .connectto then
    target.isSingle && (decide (target ≠ .suDaemon) || suClients.contains source)
  else if permission = .transition then
    target.isSingle && decide (objectClass = .process) &&
      (decide (source = .init ∧ target = .suDaemon) || decide (source = .suDaemon ∧ target = .su))
  else true

def Action.entersListed : Action → Bool
  | .inject _ (.grant source target objectClass permissions) =>
      permissions.all (entrancesListed source target objectClass)
  | .inject _ (.automatic _) => false
  | _ => true

/-- A rule that leads to su is one of those that are meant to. -/
structure Enters (rule : AllowRule) : Prop where
  connection : rule.target = PolicyType.suDaemon.name.text →
    rule.permission = Permission.connectto.name.text →
    ∃ client, client ∈ suClients ∧ rule.source = client.name.text
  transition : rule.permission = Permission.transition.name.text →
    rule = written .init .suDaemon .process .transition ∨
      rule = written .suDaemon .su .process .transition

theorem mem_mayGrant {source target : PolicyType} {objectClass : ObjectClass}
    {permissions : List Permission} {rule : AllowRule}
    (member : rule ∈ mayGrant source target objectClass permissions) :
    ∃ permission, permission ∈ permissions ∧ rule.permission = permission.name.text ∧
      (target.isSingle = true → rule = written source target objectClass permission) := by
  unfold mayGrant at member
  cases single : target.isSingle with
  | true =>
      rw [single, if_pos rfl] at member
      obtain ⟨permission, listed, rfl⟩ := mem_named member
      exact ⟨permission, listed, rfl, fun _ => rfl⟩
  | false =>
      rw [single, if_neg Bool.false_ne_true] at member
      obtain ⟨_, _, permission, listed, same⟩ := member
      exact ⟨permission, listed, same, nofun⟩

theorem enters_of_grant {source target : PolicyType} {objectClass : ObjectClass}
    {permissions : List Permission}
    (listed : permissions.all (entrancesListed source target objectClass) = true)
    {rule : AllowRule} (added : rule ∈ mayGrant source target objectClass permissions) :
    Enters rule := by
  obtain ⟨permission, member, same, single⟩ := mem_mayGrant added
  have entrance := List.all_eq_true.mp listed permission member
  unfold entrancesListed at entrance
  constructor
  case connection =>
    intro toDaemon connects
    cases Permission.eq_of_text (same.symm.trans connects)
    obtain ⟨isSingle, source⟩ := Bool.and_eq_true_iff.mp entrance
    obtain rfl := single isSingle
    cases PolicyType.eq_of_text toDaemon
    exact ⟨_, List.contains_iff_mem.mp source, rfl⟩
  case transition =>
    intro transits
    cases Permission.eq_of_text (same.symm.trans transits)
    obtain ⟨both, ends⟩ := Bool.and_eq_true_iff.mp entrance
    obtain ⟨isSingle, sameClass⟩ := Bool.and_eq_true_iff.mp both
    obtain rfl := single isSingle
    cases of_decide_eq_true sameClass
    rcases Bool.or_eq_true_iff.mp ends with starts | becomes
    · obtain ⟨rfl, rfl⟩ := of_decide_eq_true starts
      exact .inl rfl
    · obtain ⟨rfl, rfl⟩ := of_decide_eq_true becomes
      exact .inr rfl

theorem enters_of_most {action : Action} (listed : action.entersListed = true)
    {rule : AllowRule} (added : rule ∈ action.most) : Enters rule := by
  cases action with
  | inject suffix injection =>
      cases injection with
      | grant source target objectClass permissions => exact enters_of_grant listed added
      | automatic type => cases listed
      | _ => cases added
  | _ => cases added

theorem policyChanges_entersListed (version : Version) (modes : Modes) :
    (policyChanges version modes).forAll Action.entersListed = true := rfl

/-- In every mode, the policy part of changes.sh opens no way to su but the intended ones. -/
theorem ways_to_su (grants : Grants act rules) (version : Version) (modes : Modes)
    (checked : Bool) (state : σ) (rule : AllowRule)
    (final : rule ∈ rules (run act (policyChanges version modes) checked state).state) :
    rule ∈ rules state ∨ Enters rule := by
  rcases grants.named_of_added (policyChanges_additions version modes) final with
    old | ⟨action, possible, added⟩
  · exact .inl old
  · have listed := accepts_of_possible (policyChanges_entersListed version modes) possible
    exact .inr (enters_of_most listed added)

theorem ways_to_su_recorded : Enters (written .init .suDaemon .process .transition) := by
  have granted : written .init .suDaemon .process .transition ∈
      (run recordGrants (policyChanges plainVersion defaultModes) true []).state := by
    decide +kernel
  have either : written .init .suDaemon .process .transition ∈
      {rule : AllowRule | rule ∈ ([] : List AllowRule)} ∨ Enters _ :=
    ways_to_su recordGrants_grants plainVersion defaultModes true [] _ granted
  exact either.resolve_left List.not_mem_nil

end SuperBootimg.Concrete.Scripts
