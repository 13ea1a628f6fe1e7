/-
The shell functions allow and noaudit of bootimg.sh and the rules that their calls of
sepolicy-inject add. Unquoted expansions are split into fields; under `set -e` the
script ends where allow finds one of its arguments empty.
-/

import SuperBootimg.AccumulatedEffects
import SuperBootimg.FieldSplitting
import Mathlib.Data.List.TakeWhile

namespace SuperBootimg.Concrete.Sepolicy

open FieldSplitting AccumulatedEffects

abbrev Text := List Char

def isBlank (symbol : Char) : Bool :=
  symbol == ' ' || symbol == '\t' || symbol == '\n'

def isNameSymbol (symbol : Char) : Bool :=
  symbol.isAlphanum || symbol == '_' || symbol == '=' || symbol == '-'

/-- Name of a type, class or permission, which no command takes for an option. -/
structure Name where
  text : Text
  nonempty : text ≠ []
  plain : ∀ symbol, symbol ∈ text → isNameSymbol symbol = true
  noOption : text.head? ≠ some '-'

structure AllowRule where
  source : Text
  target : Text
  objectClass : Text
  permission : Text
  deriving DecidableEq

/-! ### sepolicy-inject -/

/-- The program behind `bin/sepolicy-inject$SEPOLICY`, whose source is not at hand: what
an invocation makes of the file `sepolicy`. -/
structure Injector where
  Policy : Type
  rules : Policy → Set AllowRule
  inject : List Text → Policy → Policy

/-- All that is relied on: with just these options the rules for the listed permissions
are added. -/
def Injector.AddsRules (tool : Injector) : Prop :=
  ∀ source target objectClass permissions policy,
    tool.rules (tool.inject
      ["-s".toList, source, "-t".toList, target, "-c".toList, objectClass, "-p".toList,
        permissions, "-P".toList, "sepolicy".toList] policy) =
    tool.rules policy ∪ {rule | rule.source = source ∧ rule.target = target ∧
      rule.objectClass = objectClass ∧ rule.permission ∈ permissions.splitOn ','}

/-! ### allow and noaudit -/

/-- `-s $s -t $t -c $3 -p $p -P sepolicy`, each expansion split into fields. -/
def invocation (source target objectClass permissions : Text) : List Text :=
  ["-s".toList] ++ fields isBlank source ++ ["-t".toList] ++ fields isBlank target ++
    ["-c".toList] ++ fields isBlank objectClass ++ ["-p".toList] ++ fields isBlank permissions ++
    ["-P".toList, "sepolicy".toList]

def echo (argument : Text) : Text :=
  joined ' ' (fields isBlank argument)

/-- The loops of `allow`, whose permissions go into one invocation. -/
def allowInvocations (sources targets objectClass permissions : Text) : List (List Text) :=
  (fields isBlank sources).flatMap fun source =>
    (fields isBlank targets).map fun target =>
      invocation source target objectClass (translate ' ' ',' (echo permissions))

def noauditInvocations (sources targets objectClass permissions : Text) : List (List Text) :=
  (fields isBlank sources).flatMap fun source =>
    (fields isBlank targets).flatMap fun target =>
      (fields isBlank permissions).map fun permission =>
        invocation source target objectClass permission

inductive Function
  | allow
  | noaudit
  deriving DecidableEq

structure Call where
  function : Function
  sources : List Name
  targets : List Name
  objectClass : Name
  permissions : List Name

def argument (names : List Name) : Text :=
  joined ' ' (names.map Name.text)

namespace Call

def invocations (call : Call) : List (List Text) :=
  match call.function with
  | .allow => allowInvocations (argument call.sources) (argument call.targets)
      call.objectClass.text (argument call.permissions)
  | .noaudit => noauditInvocations (argument call.sources) (argument call.targets)
      call.objectClass.text (argument call.permissions)

/-- `[ -z "$1" -o -z "$2" -o -z "$3" -o -z "$4" ] && false` under `set -e`. -/
def stops (call : Call) : Bool :=
  match call.function with
  | .allow => (argument call.sources).isEmpty || (argument call.targets).isEmpty ||
      call.objectClass.text.isEmpty || (argument call.permissions).isEmpty
  | .noaudit => false

def products (call : Call) : Set AllowRule :=
  {rule | (∃ source, source ∈ call.sources ∧ rule.source = source.text) ∧
    (∃ target, target ∈ call.targets ∧ rule.target = target.text) ∧
    rule.objectClass = call.objectClass.text ∧
    ∃ permission, permission ∈ call.permissions ∧ rule.permission = permission.text}

end Call

variable (tool : Injector)

def Injector.injectAll (invocations : List (List Text)) (policy : tool.Policy) : tool.Policy :=
  invocations.foldl (fun policy arguments => tool.inject arguments policy) policy

def Injector.run : List Call → tool.Policy → tool.Policy
  | [], policy => policy
  | call :: rest, policy =>
      if call.stops then policy else run rest (tool.injectAll call.invocations policy)

def performed (calls : List Call) : List Call :=
  calls.takeWhile fun call => !call.stops

/-! ### Rules of one call -/

theorem Name.unblank (name : Name) (symbol : Char) (inside : symbol ∈ name.text) :
    isBlank symbol = false := by
  have plain := name.plain symbol inside
  cases blank : isBlank symbol with
  | false => rfl
  | true =>
      unfold isBlank at blank
      simp only [Bool.or_eq_true, beq_iff_eq] at blank
      rcases blank with (rfl | rfl) | rfl <;> (revert plain; decide)

theorem Name.uncomma (name : Name) : ',' ∉ name.text := by
  intro inside
  have plain := name.plain ',' inside
  revert plain
  decide

theorem fields_name (name : Name) : fields isBlank name.text = [name.text] :=
  fields_word name.nonempty name.unblank

theorem fields_argument (names : List Name) :
    fields isBlank (argument names) = names.map Name.text := by
  unfold argument
  apply fields_joined rfl
  · intro word member
    obtain ⟨name, _, rfl⟩ := List.mem_map.mp member
    exact name.nonempty
  · intro word member
    obtain ⟨name, _, rfl⟩ := List.mem_map.mp member
    exact name.unblank

theorem translate_echo_argument (names : List Name) :
    translate ' ' ',' (echo (argument names)) = joined ',' (names.map Name.text) := by
  unfold echo
  rw [fields_argument]
  apply translate_joined
  intro word member inside
  obtain ⟨name, _, rfl⟩ := List.mem_map.mp member
  have blank := name.unblank ' ' inside
  revert blank
  decide

/-- A nonempty list joined by commas stays one field, and is taken apart again. -/
theorem permission_list {names : List Name} (some : names ≠ []) :
    fields isBlank (joined ',' (names.map Name.text)) = [joined ',' (names.map Name.text)] ∧
      (joined ',' (names.map Name.text)).splitOn ',' = names.map Name.text := by
  have words : names.map Name.text ≠ [] := fun empty => some (List.map_eq_nil_iff.mp empty)
  constructor
  · apply fields_word
    · apply joined_ne_nil words
      intro word member
      obtain ⟨name, _, rfl⟩ := List.mem_map.mp member
      exact name.nonempty
    · intro symbol inside
      rcases mem_joined inside with rfl | ⟨word, member, found⟩
      · rfl
      · obtain ⟨name, _, rfl⟩ := List.mem_map.mp member
        exact name.unblank symbol found
  · apply List.splitOn_intercalate
    · intro word member
      obtain ⟨name, _, rfl⟩ := List.mem_map.mp member
      exact name.uncomma
    · exact words

theorem splitOn_name (name : Name) : name.text.splitOn ',' = [name.text] := by
  rw [List.splitOn_eq_splitOnP]
  apply List.splitOnP_eq_singleton
  intro symbol inside
  rw [beq_eq_false_iff_ne]
  intro same
  subst same
  exact name.uncomma inside

def granted : List Text → Set AllowRule
  | [_, source, _, target, _, objectClass, _, permissions, _, _] =>
      {rule | rule.source = source ∧ rule.target = target ∧ rule.objectClass = objectClass ∧
        rule.permission ∈ permissions.splitOn ','}
  | _ => ∅

variable {tool : Injector}

theorem invocation_rules (adds : tool.AddsRules) (source target objectClass : Name)
    {permissions : Text} (single : fields isBlank permissions = [permissions])
    (policy : tool.Policy) :
    tool.rules (tool.inject
        (invocation source.text target.text objectClass.text permissions) policy) =
      tool.rules policy ∪
        granted (invocation source.text target.text objectClass.text permissions) := by
  unfold invocation
  rw [fields_name, fields_name, fields_name, single]
  exact adds _ _ _ _ policy

theorem mem_granted (source target objectClass : Name) {permissions : Text}
    (single : fields isBlank permissions = [permissions]) (rule : AllowRule) :
    rule ∈ granted (invocation source.text target.text objectClass.text permissions) ↔
      rule.source = source.text ∧ rule.target = target.text ∧
        rule.objectClass = objectClass.text ∧ rule.permission ∈ permissions.splitOn ',' := by
  unfold invocation
  rw [fields_name, fields_name, fields_name, single]
  rfl

namespace Call

/-- What a call passes as `-p`: all permissions at once, or each for itself. -/
def permissionArguments (call : Call) : List Text :=
  match call.function with
  | .allow => [joined ',' (call.permissions.map Name.text)]
  | .noaudit => call.permissions.map Name.text

theorem invocations_eq (call : Call) :
    call.invocations = call.sources.flatMap fun source =>
      call.targets.flatMap fun target =>
        call.permissionArguments.map fun permissions =>
          invocation source.text target.text call.objectClass.text permissions := by
  unfold invocations permissionArguments
  cases call.function with
  | allow =>
      unfold allowInvocations
      simp only [fields_argument, translate_echo_argument, List.flatMap_map, List.map_map,
        List.map_cons, List.map_nil, ← List.map_eq_flatMap]
      rfl
  | noaudit =>
      unfold noauditInvocations
      simp only [fields_argument, List.flatMap_map]

theorem mem_invocations (call : Call) (arguments : List Text) :
    arguments ∈ call.invocations ↔
      ∃ source, source ∈ call.sources ∧ ∃ target, target ∈ call.targets ∧
        ∃ permissions, permissions ∈ call.permissionArguments ∧
          invocation source.text target.text call.objectClass.text permissions = arguments := by
  rw [invocations_eq]
  simp only [List.mem_flatMap, List.mem_map]

theorem permissionArguments_spec (call : Call) (carriedOut : call.stops = false) :
    (∀ permissions, permissions ∈ call.permissionArguments →
        fields isBlank permissions = [permissions]) ∧
      ∀ word, (∃ permissions, permissions ∈ call.permissionArguments ∧
          word ∈ permissions.splitOn ',') ↔
        ∃ permission, permission ∈ call.permissions ∧ word = permission.text := by
  unfold permissionArguments
  unfold stops at carriedOut
  cases function : call.function with
  | allow =>
      rw [function] at carriedOut
      have some : call.permissions ≠ [] := by
        intro empty
        rw [empty] at carriedOut
        simp [argument, joined] at carriedOut
      obtain ⟨single, list⟩ := permission_list some
      constructor
      · intro permissions member
        rw [List.mem_singleton.mp member]
        exact single
      · intro word
        simp only [List.mem_singleton, exists_eq_left, list, List.mem_map, eq_comm]
  | noaudit =>
      constructor
      · intro permissions member
        obtain ⟨name, _, rfl⟩ := List.mem_map.mp member
        exact fields_name name
      · intro word
        simp only [List.mem_map, exists_exists_and_eq_and, splitOn_name, List.mem_singleton]

theorem granted_eq_products (call : Call) (carriedOut : call.stops = false) :
    gathered granted call.invocations = call.products := by
  obtain ⟨single, list⟩ := call.permissionArguments_spec carriedOut
  ext rule
  constructor
  · intro member
    obtain ⟨arguments, invoked, grants⟩ := member
    obtain ⟨source, sourceMember, target, targetMember, permissions, passed, rfl⟩ :=
      (call.mem_invocations arguments).mp invoked
    obtain ⟨sameSource, sameTarget, sameClass, named⟩ :=
      (mem_granted source target call.objectClass (single _ passed) rule).mp grants
    exact ⟨⟨source, sourceMember, sameSource⟩, ⟨target, targetMember, sameTarget⟩, sameClass,
      (list rule.permission).mp ⟨permissions, passed, named⟩⟩
  · intro member
    obtain ⟨⟨source, sourceMember, sameSource⟩, ⟨target, targetMember, sameTarget⟩, sameClass,
      permission⟩ := member
    obtain ⟨permissions, passed, named⟩ := (list rule.permission).mpr permission
    exact ⟨_, (call.mem_invocations _).mpr
      ⟨source, sourceMember, target, targetMember, permissions, passed, rfl⟩,
      (mem_granted source target call.objectClass (single _ passed) rule).mpr
        ⟨sameSource, sameTarget, sameClass, named⟩⟩

theorem injectAll_rules (adds : tool.AddsRules) (call : Call) (carriedOut : call.stops = false)
    (policy : tool.Policy) :
    tool.rules (tool.injectAll call.invocations policy) = tool.rules policy ∪ call.products := by
  rw [← call.granted_eq_products carriedOut]
  apply view_foldl
  intro arguments member state
  obtain ⟨source, _, target, _, permissions, passed, rfl⟩ :=
    (call.mem_invocations arguments).mp member
  exact invocation_rules adds source target _
    ((call.permissionArguments_spec carriedOut).1 _ passed) state

end Call

/-! ### Sequences of calls -/

/-- One call of a sequence; the script does not go on behind a call that ends it. -/
def Injector.step (tool : Injector) (policy : tool.Policy) (call : Call) : tool.Policy :=
  if call.stops then policy else tool.injectAll call.invocations policy

theorem performed_carriedOut {calls : List Call} {call : Call} (member : call ∈ performed calls) :
    call.stops = false := by
  have kept := List.mem_takeWhile_imp member
  simpa using kept

theorem Injector.run_eq_foldl (calls : List Call) (policy : tool.Policy) :
    tool.run calls policy = (performed calls).foldl tool.step policy := by
  induction calls generalizing policy with
  | nil => rfl
  | cons call rest ih =>
      unfold Injector.run performed
      rw [List.takeWhile_cons]
      cases ends : call.stops with
      | true => rfl
      | false =>
          have next : tool.step policy call = tool.injectAll call.invocations policy := by
            unfold Injector.step
            rw [ends, if_neg Bool.false_ne_true]
          rw [if_neg Bool.false_ne_true, Bool.not_false, if_pos rfl, List.foldl_cons, next]
          exact ih _

def Call.effect (call : Call) : Set AllowRule :=
  if call.stops then ∅ else call.products

theorem Injector.step_adds (adds : tool.AddsRules) :
    Adds tool.rules tool.step Call.effect := by
  intro policy call
  unfold Injector.step Call.effect
  cases ends : call.stops with
  | true => exact (Set.union_empty _).symm
  | false => exact call.injectAll_rules adds ends policy

/-- The rules added are those of the allow calls, and no noaudit call adds one. -/
structure GrantsOnlyAllowed (tool : Injector) (policy : tool.Policy) (calls : List Call) :
    Prop where
  total : ∀ rule, rule ∈ tool.rules (tool.run calls policy) ↔ rule ∈ tool.rules policy ∨
    ∃ call, call ∈ performed calls ∧ call.function = .allow ∧ rule ∈ call.products
  silent : ∀ before call after, performed calls = before ++ call :: after →
    call.function = .noaudit →
    tool.rules (tool.run (before ++ [call]) policy) = tool.rules (tool.run before policy)

def Call.allows (call : Call) : Bool :=
  decide (call.function = .allow)

theorem Call.allows_eq_false (call : Call) :
    call.allows = false ↔ call.function = .noaudit := by
  unfold Call.allows
  cases call.function with
  | allow => decide
  | noaudit => decide

theorem Call.effect_performed {calls : List Call} {call : Call}
    (member : call ∈ performed calls) : call.effect = call.products := by
  unfold Call.effect
  rw [performed_carriedOut member, if_neg Bool.false_ne_true]

/-- No call ends the script before the calls that are carried out are through. -/
theorem performed_initial {calls initial rest : List Call}
    (split : performed calls = initial ++ rest) : performed initial = initial := by
  apply List.takeWhile_eq_self_iff.mpr
  intro call member
  have reached : call ∈ performed calls := by
    rw [split]
    exact List.mem_append_left _ member
  rw [performed_carriedOut reached]
  rfl

theorem mem_gathered_allowed {calls : List Call}
    (reached : ∀ call, call ∈ calls → call.effect = call.products) (rule : AllowRule) :
    rule ∈ gathered Call.effect (calls.filter Call.allows) ↔
      ∃ call, call ∈ calls ∧ call.function = .allow ∧ rule ∈ call.products := by
  constructor
  · intro member
    obtain ⟨call, inside, named⟩ := member
    obtain ⟨member, allowed⟩ := List.mem_filter.mp inside
    rw [reached call member] at named
    exact ⟨call, member, of_decide_eq_true allowed, named⟩
  · intro member
    obtain ⟨call, member, allowed, named⟩ := member
    rw [← reached call member] at named
    exact ⟨call, List.mem_filter.mpr ⟨member, decide_eq_true allowed⟩, named⟩

theorem grantsOnlyAllowed_iff_only (policy : tool.Policy) (calls : List Call) :
    GrantsOnlyAllowed tool policy calls ↔
      OnlyIntended tool.rules tool.step Call.effect Call.allows policy (performed calls) := by
  have allowed := mem_gathered_allowed fun call => @Call.effect_performed calls call
  have runs : ∀ initial rest, performed calls = initial ++ rest →
      tool.run initial policy = initial.foldl tool.step policy := by
    intro initial rest split
    rw [tool.run_eq_foldl, performed_initial split]
  have ends : ∀ before call after, performed calls = before ++ call :: after →
      performed calls = (before ++ [call]) ++ after := by
    intro before call after split
    rw [split, List.append_assoc]
    rfl
  constructor
  · intro only
    constructor
    case total =>
      ext rule
      rw [← tool.run_eq_foldl, only.total, Set.mem_union, allowed]
    case silent =>
      intro before call after split unintended
      rw [← runs _ _ split, ← runs _ _ (ends before call after split)]
      exact only.silent before call after split (call.allows_eq_false.mp unintended)
  · intro only
    constructor
    case total =>
      intro rule
      rw [tool.run_eq_foldl, only.total, Set.mem_union, allowed]
    case silent =>
      intro before call after split unintended
      rw [runs _ _ split, runs _ _ (ends before call after split)]
      exact only.silent before call after split (call.allows_eq_false.mpr unintended)

/-! ### Calls of the scripts -/

def Name.valid (word : Text) : Bool :=
  !word.isEmpty && word.all isNameSymbol && word.head? != some '-'

def Name.of (word : String) (valid : Name.valid word.toList = true) : Name :=
  have parts : (word.toList.isEmpty = false ∧ word.toList.all isNameSymbol = true) ∧
      (word.toList.head? != some '-') = true := by
    unfold Name.valid at valid
    simpa only [Bool.and_eq_true, Bool.not_eq_true'] using valid
  { text := word.toList
    nonempty := List.isEmpty_eq_false_iff.mp parts.1.1
    plain := List.all_eq_true.mp parts.1.2
    noOption := bne_iff_ne.mp parts.2 }

def initToSuDaemon : List Call :=
  [⟨.allow, [.of "init" rfl], [.of "su_daemon" rfl], .of "process" rfl,
      [.of "transition" rfl]⟩,
    ⟨.noaudit, [.of "init" rfl], [.of "su_daemon" rfl], .of "process" rfl,
      [.of "rlimitinh" rfl, .of "siginh" rfl, .of "noatsecure" rfl]⟩]

def plainInjector : Injector where
  Policy := List AllowRule
  rules policy := {rule | rule ∈ policy}
  inject arguments policy :=
    match arguments with
    | [s, source, t, target, c, objectClass, p, permissions, file, name] =>
        if [s, t, c, p, file, name] = ["-s", "-t", "-c", "-p", "-P", "sepolicy"].map String.toList
        then policy ++ (permissions.splitOn ',').map (AllowRule.mk source target objectClass)
        else policy
    | _ => policy

theorem plainInjector_addsRules : plainInjector.AddsRules := by
  intro source target objectClass permissions policy
  ext rule
  constructor
  · intro member
    rcases List.mem_append.mp member with old | new
    · exact .inl old
    · obtain ⟨permission, listed, rfl⟩ := List.mem_map.mp new
      exact .inr ⟨rfl, rfl, rfl, listed⟩
  · intro member
    rcases member with old | ⟨sameSource, sameTarget, sameClass, listed⟩
    · exact List.mem_append_left _ old
    · apply List.mem_append_right
      rw [← sameSource, ← sameTarget, ← sameClass]
      exact List.mem_map_of_mem listed

/-! ### When noaudit grants nothing -/

/-- The noaudit calls of a sequence add nothing exactly when each of them that is reached
names rules which the policy had at the start or an earlier allow call has named. -/
theorem noaudit_grants_nothing_iff (tool : Injector) (adds : tool.AddsRules)
    (policy : tool.Policy) (calls : List Call) :
    GrantsOnlyAllowed tool policy calls ↔
      ∀ before call after, performed calls = before ++ call :: after →
        call.function = .noaudit → ∀ rule, rule ∈ call.products →
        rule ∈ tool.rules policy ∨
          ∃ earlier, earlier ∈ before ∧ earlier.function = .allow ∧ rule ∈ earlier.products := by
  have effects : ∀ before call after, performed calls = before ++ call :: after →
      call.effect = call.products ∧ ∀ rule,
        rule ∈ gathered Call.effect (before.filter Call.allows) ↔
          ∃ earlier, earlier ∈ before ∧ earlier.function = .allow ∧ rule ∈ earlier.products := by
    intro before call after split
    constructor
    · apply Call.effect_performed
      rw [split]
      exact List.mem_append_right _ List.mem_cons_self
    · apply mem_gathered_allowed
      intro earlier member
      apply Call.effect_performed
      rw [split]
      exact List.mem_append_left _ member
  rw [grantsOnlyAllowed_iff_only, onlyIntended_iff (Injector.step_adds adds)]
  constructor
  · intro covered before call after split silences rule named
    obtain ⟨sameEffect, known⟩ := effects before call after split
    have inside := covered before call after split (call.allows_eq_false.mpr silences)
    rw [sameEffect] at inside
    rcases inside named with present | earlier
    · exact .inl present
    · exact .inr ((known rule).mp earlier)
  · intro covered before call after split unintended rule named
    obtain ⟨sameEffect, known⟩ := effects before call after split
    rw [sameEffect] at named
    rcases covered before call after split (call.allows_eq_false.mp unintended) rule named with
      present | earlier
    · exact .inl present
    · exact .inr ((known rule).mpr earlier)

def grantedThenSilenced : List Call :=
  [⟨.allow, [.of "shell" rfl], [.of "system_file" rfl], .of "file" rfl,
      [.of "open" rfl, .of "read" rfl]⟩,
    ⟨.noaudit, [.of "shell" rfl], [.of "system_file" rfl], .of "file" rfl,
      [.of "open" rfl, .of "read" rfl]⟩]

theorem grantedThenSilenced_grants_nothing_more :
    GrantsOnlyAllowed plainInjector [] grantedThenSilenced := by
  apply (noaudit_grants_nothing_iff plainInjector plainInjector_addsRules [] _).mpr
  intro before call after split silences rule named
  right
  rcases before with _ | ⟨first, rest⟩
  · obtain ⟨rfl, _⟩ := List.cons.inj split
    cases silences
  · obtain ⟨rfl, others⟩ := List.cons.inj split
    refine ⟨_, List.mem_cons_self, rfl, ?_⟩
    rcases rest with _ | ⟨second, rest⟩
    · obtain ⟨rfl, _⟩ := List.cons.inj others
      exact named
    · obtain ⟨_, none⟩ := List.cons.inj others
      simp at none

def plainRun (calls : List Call) : List AllowRule :=
  plainInjector.run calls []

/-- The rule `allow init su_daemon:process siginh` comes from the noaudit call. -/
theorem initToSuDaemon_noaudit_grants :
    plainInjector.AddsRules ∧ ¬ GrantsOnlyAllowed plainInjector [] initToSuDaemon := by
  let rule : AllowRule :=
    ⟨"init".toList, "su_daemon".toList, "process".toList, "siginh".toList⟩
  have granted : rule ∈ plainRun initToSuDaemon := by decide
  have absent : rule ∉ plainRun [initToSuDaemon[0]] := by decide
  constructor
  · exact plainInjector_addsRules
  · intro only
    have same := only.silent [initToSuDaemon[0]] initToSuDaemon[1] [] rfl rfl
    exact absent (same.le granted)

end SuperBootimg.Concrete.Sepolicy
