/-
INITRAMFS_FILES at the end of changes.sh and bootimg.sh, as it should be: which names get
there follows from the options and from two files of the old ramdisk.
-/

import SuperBootimg.RecordedRuns
import SuperBootimg.Concrete.BootimgScript
import SuperBootimg.Concrete.EditedRamdisk

namespace SuperBootimg.Concrete.Scripts

open ExitOnError
open ExitOnError.Command (steps forEach onlyIf)
open Sepolicy (Text)
open FieldSplitting (joined)
open Initramfs (FilePath Paths texts firstCalls grep Distinguished)

def ramdiskEdits (setting : Setting) (arguments : List Text) (revision : Text) : Command Action :=
  steps [changes setting arguments, writeRevision revision]

def Action.added : Action → Option Text
  | .addFile name => some name
  | _ => none

def addedNames (log : List (Entry Action)) : List Text :=
  (performed log).filterMap Action.added

def initramfsList (log : List (Entry Action)) : Text :=
  (addedNames log).foldl Initramfs.addFile []

def editsFstabs (modes : Modes) : Bool :=
  decide (modes.nocrypt ≠ .crypt) || modes.noverity

def registeredFiles (unsupportedSelinux : Bool) (fstabs : List Text) (modes : Modes)
    (files : Text → Option Text) : List Text :=
  ["sbin/su".toList] ++
    (if !unsupportedSelinux && (files "sepolicy").isSome then ["sepolicy".toList] else []) ++
    (if editsFstabs modes then fstabs else []) ++
    (if unsupportedSelinux then ["init".toList, "xxenforce".toList] else []) ++
    (if modes.hidesu then ["sbin/hidesu".toList, "sepolicy".toList] else []) ++
    ["init.rc".toList] ++
    (if (files "init.superuser.rc").isSome then ["init.superuser.rc".toList] else []) ++
    ["super-bootimg".toList]

/-! ### Names along a run -/

def listed (names : List Text) (name : Text) : List Text :=
  if names.contains name then names else names ++ [name]

/-- What a call of `addFile` makes of a value, for which `step` says what a name does. -/
def noted {γ : Type} (step : γ → Text → γ) (value : γ) : Action → γ
  | .addFile name => step value name
  | _ => value

/-- A call of `addFile` with a list that keeps names apart. -/
def register (names : List Text) (action : Action) : List Text :=
  noted listed names action

theorem firstCalls_eq (names : List Text) : firstCalls names = names.foldl listed [] :=
  rfl

theorem foldl_noted {γ : Type} (step : γ → Text → γ) (actions : List Action) (value : γ) :
    actions.foldl (noted step) value = (actions.filterMap Action.added).foldl step value := by
  induction actions generalizing value with
  | nil => rfl
  | cons action rest ih =>
      rw [List.foldl_cons, ih]
      cases action with
      | addFile name => rfl
      | _ => rfl

theorem listed_again (names : List Text) (name : Text) :
    listed (listed names name) name = listed names name := by
  unfold listed
  by_cases member : names.contains name = true
  · rw [if_pos member, if_pos member]
  · rw [if_neg member, if_pos]
    rw [List.contains_iff_mem]
    exact List.mem_append_right _ (List.mem_singleton_self name)

theorem register_silent {action : Action} (silent : action.added = none) (names : List Text) :
    register names action = names := by
  cases action with
  | addFile name => cases silent
  | _ => rfl

section

variable {σ : Type} {act : Action → σ → Bool × σ} {before middle : σ → Prop}

/-- Where the command goes on, it has called addFile for these names in this order. -/
def Registers (act : Action → σ → Bool × σ) (before : σ → Prop) (command : Command Action)
    (names : List Text) : Prop :=
  Records act register before command fun listing => names.foldl listed listing

namespace Registers

theorem none {command : Command Action}
    (silent : command.forAll (fun action => decide (action.added = .none)) = true) :
    Registers act before command [] :=
  .of_silent fun _ possible =>
    register_silent (of_decide_eq_true (accepts_of_possible silent possible))

theorem one {command : Command Action} {name : Text}
    (single : command.forAll
      (fun action => decide (action = .addFile name ∨ action.added = .none)) = true)
    (ensured : command.ensures (fun action => decide (action = .addFile name)) = true) :
    Registers act before command [name] := by
  change Records act register before command fun listing => register listing (.addFile name)
  refine .of_ensured ?_ (fun listing => listed_again listing name) ensured
  intro action possible
  rcases of_decide_eq_true (accepts_of_possible single possible) with same | silent
  · exact .inl same
  · exact .inr (register_silent silent)

theorem composed (first second : List Text) :
    (fun listing => second.foldl listed listing) ∘ (fun listing => first.foldl listed listing) =
      fun listing => (first ++ second).foldl listed listing :=
  funext fun _ => List.foldl_append.symm

theorem seq {first second : Command Action} {names others : List Text}
    (early : Registers act before first names) (leaves : Leaves act before first middle)
    (late : Registers act middle second others) :
    Registers act before (.seq first second) (names ++ others) := by
  unfold Registers
  rw [← composed]
  exact Records.seq early leaves late

theorem append {first second : List (Command Action)} {names others : List Text}
    (some : first ≠ []) (rest : second ≠ [])
    (early : Registers act before (steps first) names)
    (leaves : Leaves act before (steps first) middle)
    (late : Registers act middle (steps second) others) :
    Registers act before (steps (first ++ second)) (names ++ others) := by
  unfold Registers
  rw [← composed]
  exact Records.append some rest early leaves late

/-- A part that depends on a test whose outcome is certain. -/
theorem decided {found : Bool} {guard body : Command Action} {names : List Text}
    (silent : guard.forAll (fun action => decide (action.added = .none)) = true)
    (decides : ∀ state, before state → ∀ success,
      (run act guard false state).ending = .status success → success = found)
    (keeps : ∀ action, action ∈ guard.possible → ∀ state, before state →
      before (act action state).2)
    (records : Registers act before body names) :
    Registers act before (onlyIf guard body) (if found then names else []) := by
  refine Records.decided (fun action possible => ?_) decides keeps ?_ ?_
  · exact register_silent (of_decide_eq_true (accepts_of_possible silent possible))
  · intro on
    rw [if_pos on]
    exact records
  · intro off
    rw [if_neg (ne_true_of_eq_false off)]
    exact none rfl

/-- A part that depends on a flag. -/
theorem flagged {flag : Bool} {body : Command Action} {names : List Text}
    (records : Registers act before body names) :
    Registers act before (onlyIf (.status flag) body) (if flag then names else []) :=
  decided rfl (fun _ _ _ ended => (Ending.status.inj ended).symm)
    (fun _ impossible => nomatch impossible) records

end Registers

/-! ### The scripts -/

theorem fstabChange_registers (modes : Modes) (name : Text) :
    Registers act before (fstabChange modes name) [name] := by
  change Records act register before (fstabChange modes name)
    fun listing => register listing (.addFile name)
  refine .of_ensured ?_ (fun listing => listed_again listing name)
    (ensures_listed (List.mem_cons_of_mem _ (List.mem_cons_of_mem _
      (List.mem_cons_of_mem _ List.mem_cons_self))))
  intro action possible
  rcases fstabChange_possible modes possible with rfl | ⟨edit, rfl⟩ | rfl
  · exact .inr fun _ => rfl
  · exact .inr fun _ => rfl
  · exact .inl rfl

theorem fstabChanges_registers (modes : Modes) (fstabs : List Text) :
    Registers act before (fstabChanges modes fstabs)
      (if editsFstabs modes then fstabs else []) := by
  have loop : Registers act (fun _ => True) (forEach fstabs (fstabChange modes)) fstabs :=
    .forEach (fun name _ => fstabChange_registers modes name) fun _ _ => .anywhere
  exact Records.of_stronger (fun _ _ => trivial) (Registers.flagged loop)

theorem policyChanges_registers (version : Version) (modes : Modes) :
    Registers act before (policyChanges version modes) ["sepolicy".toList] :=
  .one rfl rfl

theorem kernelChanges_registers (unsupportedSelinux : Bool) :
    Registers act before (kernelChanges unsupportedSelinux)
      (if unsupportedSelinux then ["init".toList, "xxenforce".toList] else []) := by
  have init : Registers act (fun _ => True) (steps [
      .simple (.sed (.replace "%s/enforce" "/xxenforce") "init"),
      .simple (.sed (.replace "/sys/fs/selinux/checkreqprot" "/dev_fs_selinux_checkreqprot")
        "init"),
      .simple (.sed (.replace "Initializing SELinux " "Initializing FFFinux ") "init"),
      .simple (.addFile "init")]) ["init".toList] := .one rfl rfl
  have xxenforce : Registers act (fun _ => True) (steps [
      .simple (.overwrite "1" "xxenforce"),
      .simple (.addFile "xxenforce")]) ["xxenforce".toList] := .one rfl rfl
  have both := Registers.append (List.cons_ne_nil _ _) (List.cons_ne_nil _ _) init
    .anywhere xxenforce
  exact Records.of_stronger (fun _ _ => trivial) (Registers.flagged both)

theorem initRcChanges_registers (version : Version) (modes : Modes) (unsupportedSelinux : Bool) :
    Registers act before (steps (initRcChanges version modes unsupportedSelinux))
      ((if modes.hidesu then ["sbin/hidesu".toList, "sepolicy".toList] else []) ++
        ["init.rc".toList]) := by
  have hidesu : Registers act (fun _ => True) (steps [
      .simple (.install "hidesu" "sbin/hidesu"),
      .simple (.addFile "sbin/hidesu"),
      .simple (.chmod "0750" "sbin/hidesu")]) ["sbin/hidesu".toList] := .one rfl rfl
  have allowed : Registers act (fun _ => True) (steps [
      allow version [.init] [.su] .process [.transition],
      allow version [.rootfs] [.tmpfs] .filesystem [.associate],
      .simple (.append "service hidesu /sbin/hidesu\n\tclass main\n" "init.rc"),
      .simple (.append "\tseclabel u:r:su:s0\n" "init.rc"),
      .simple (.append "\n\n" "init.rc")]) ["sepolicy".toList] := .one rfl rfl
  have both := Registers.append (List.cons_ne_nil _ _) (List.cons_ne_nil _ _) hidesu
    .anywhere allowed
  have service : Registers act (fun _ => True) (steps [
      onlyIf (.status (!modes.keeprecovery)) (.simple (.sed .disableRecovery "init.rc")),
      .conditional (.status modes.hidesu)
        (.simple (.sed (.chmodSbin true) "init.rc"))
        (.simple (.sed (.chmodSbin false) "init.rc")),
      .simple (.append "service su /sbin/su --daemon\n\tclass main\n" "init.rc"),
      .conditional (.status (!unsupportedSelinux))
        (.simple (.append "\tseclabel u:r:su_daemon:s0\n" "init.rc"))
        (.simple (.append "\tseclabel u:r:kernel:s0\n" "init.rc")),
      .simple (.append "\n\n" "init.rc")]) [] := .none rfl
  have last : Registers act (fun _ => True) (.simple (.addFile "init.rc")) ["init.rc".toList] :=
    .one rfl rfl
  have rest := Registers.seq (@Registers.flagged _ act _ modes.hidesu _ _ both)
    .anywhere last
  have whole : Registers act (fun _ => True)
      (steps (initRcChanges version modes unsupportedSelinux)) ([] ++
        ((if modes.hidesu then ["sbin/hidesu".toList, "sepolicy".toList] else []) ++
          ["init.rc".toList])) :=
    .append (List.cons_ne_nil _ _) (List.cons_ne_nil _ _) service .anywhere rest
  exact Records.of_stronger (fun _ _ => trivial) whole

theorem writeRevision_registers (revision : Text) :
    Registers act before (writeRevision revision) ["super-bootimg".toList] :=
  .one rfl rfl

end

section

variable {σ : Type} {tools : Tools σ}

theorem earlyChanges_registers (setting : Setting) (modes : Modes) (policy : Option Text) :
    Registers (Ramdisk.act tools) (Has "sepolicy".toList policy)
      (steps (earlyChanges setting modes))
      (["sbin/su".toList] ++
        if !setting.unsupportedSelinux && policy.isSome then ["sepolicy".toList] else []) := by
  have su : Registers (Ramdisk.act tools) (Has "sepolicy".toList policy) (steps [
      .simple (.install ("su-" ++ setting.architecture) "sbin/su"),
      .simple (.addFile "sbin/su"),
      .simple (.chmod "0755" "sbin/su")]) ["sbin/su".toList] := .one rfl rfl
  have kept : Leaves (Ramdisk.act tools) (Has "sepolicy".toList policy) (steps [
      .simple (.install ("su-" ++ setting.architecture) "sbin/su"),
      .simple (.addFile "sbin/su"),
      .simple (.chmod "0755" "sbin/su")]) (Has "sepolicy".toList policy) := by
    have files : (steps [
        .simple (.install ("su-" ++ setting.architecture) "sbin/su"),
        .simple (.addFile "sbin/su"),
        .simple (.chmod "0755" "sbin/su")] : Command Action).forAll
        (fun action => action.touches.all ["sbin/su".toList].contains) = true := rfl
    exact kept_of_files files (by decide)
  have rules : Registers (Ramdisk.act tools) (Has "sepolicy".toList policy)
      (onlyIf (.andAlso (.status (!setting.unsupportedSelinux)) (.simple (.isFile "sepolicy")))
        (policyChanges setting.version modes))
      (if !setting.unsupportedSelinux && policy.isSome then ["sepolicy".toList] else []) := by
    refine .decided rfl ?_ ?_ (policyChanges_registers _ _)
    · intro ramdisk has success ended
      unfold Has at has
      rw [← has]
      generalize setting.unsupportedSelinux = unsupported at ended ⊢
      cases unsupported with
      | true => exact (Ending.status.inj ended).symm
      | false => exact (Ending.status.inj ended).symm
    · intro action possible ramdisk has
      have silent : (Command.andAlso (.status (!setting.unsupportedSelinux))
          (.simple (Action.isFile "sepolicy"))).forAll
          (fun action => action.touches.isNone) = true := rfl
      have untouched := accepts_of_possible silent possible
      refine (act_untouched ?_ ramdisk).trans has
      rw [Option.isNone_iff_eq_none.mp untouched]
      exact nofun
  exact .append (List.cons_ne_nil _ _) (List.cons_ne_nil _ _) su kept rules

theorem superuserChanges_registers (content : Option Text) :
    Registers (Ramdisk.act tools) (Has "init.superuser.rc".toList content) superuserChanges
      (if content.isSome then ["init.superuser.rc".toList] else []) := by
  refine .decided rfl ?_ ?_ (.one rfl rfl)
  · intro ramdisk has success ended
    unfold Has at has
    rw [← has]
    exact (Ending.status.inj ended).symm
  · intro action possible ramdisk has
    rw [List.mem_singleton.mp possible]
    exact has

theorem laterChanges_registers (setting : Setting) (modes : Modes) (content : Option Text) :
    Registers (Ramdisk.act tools) (Has "init.superuser.rc".toList content)
      (steps (laterChanges setting modes))
      ((if setting.unsupportedSelinux then ["init".toList, "xxenforce".toList] else []) ++
        (((if modes.hidesu then ["sbin/hidesu".toList, "sepolicy".toList] else []) ++
          ["init.rc".toList]) ++
          if content.isSome then ["init.superuser.rc".toList] else [])) := by
  have kept : ∀ {command : Command Action}, command.forAll (fun action => action.touches.all
      ["sepolicy".toList, "init".toList, "xxenforce".toList, "sbin/hidesu".toList,
        "init.rc".toList].contains) = true →
      Leaves (Ramdisk.act tools) (Has "init.superuser.rc".toList content) command
        (Has "init.superuser.rc".toList content) :=
    fun files => kept_of_files files (by decide)
  have samsung : Registers (Ramdisk.act tools) (Has "init.superuser.rc".toList content)
      samsungChanges [] := .none rfl
  have first := Registers.seq samsung (kept rfl)
    (kernelChanges_registers setting.unsupportedSelinux)
  have superuser : Registers (Ramdisk.act tools) (Has "init.superuser.rc".toList content)
      (steps [superuserChanges])
      (if content.isSome then ["init.superuser.rc".toList] else []) :=
    superuserChanges_registers content
  have last := Registers.append (List.cons_ne_nil _ _) (List.cons_ne_nil _ _)
    (initRcChanges_registers setting.version modes setting.unsupportedSelinux) (kept rfl)
    superuser
  rw [laterChanges_eq]
  exact .append (List.cons_ne_nil _ _) (List.cons_ne_nil _ _) first (kept rfl) last

theorem ramdiskEdits_registers (setting : Setting) (arguments : List Text) (revision : Text)
    (names : FstabNames setting.fstabs) (files : Text → Option Text) :
    Registers (Ramdisk.act tools) (fun ramdisk => ramdisk.files = files)
      (ramdiskEdits setting arguments revision)
      (registeredFiles setting.unsupportedSelinux setting.fstabs (readOptions arguments)
        files) := by
  have has : ∀ (name : Text) (ramdisk : Ramdisk σ), ramdisk.files = files →
      Has name (files name) ramdisk := fun name _ same => congrFun same name
  have unwritten : Leaves (Ramdisk.act tools)
      (Has "init.superuser.rc".toList (files "init.superuser.rc"))
      (steps (earlyChanges setting (readOptions arguments)))
      (Has "init.superuser.rc".toList (files "init.superuser.rc")) :=
    kept_of_files (earlyChanges_files setting _) (by decide)
  have early : Registers (Ramdisk.act tools) (fun ramdisk => ramdisk.files = files)
      (steps (earlyChanges setting (readOptions arguments))) _ :=
    .of_stronger (has "sepolicy".toList) (earlyChanges_registers setting _ (files "sepolicy"))
  have late : Registers (Ramdisk.act tools)
      (Has "init.superuser.rc".toList (files "init.superuser.rc"))
      (.seq (fstabChanges (readOptions arguments) setting.fstabs)
        (steps (laterChanges setting (readOptions arguments)))) _ :=
    .seq (fstabChanges_registers (readOptions arguments) setting.fstabs)
      (fstabChanges_kept names (by decide))
      (laterChanges_registers setting (readOptions arguments) (files "init.superuser.rc"))
  have edits : Registers (Ramdisk.act tools) (fun ramdisk => ramdisk.files = files)
      (changes setting arguments) _ :=
    @Registers.append _ _ _ _ _ (fstabChanges (readOptions arguments) setting.fstabs ::
        laterChanges setting (readOptions arguments)) _ _ (List.cons_ne_nil _ _)
      (List.cons_ne_nil _ _) early (fun ramdisk same => unwritten ramdisk (has _ ramdisk same))
      late
  have whole : Registers (Ramdisk.act tools) (fun ramdisk => ramdisk.files = files)
      (ramdiskEdits setting arguments revision) _ :=
    edits.seq .anywhere (writeRevision_registers revision)
  simp only [registeredFiles, List.append_assoc]
  simp only [List.append_assoc] at whole
  exact whole

/-- Which names are registered, in the order of their first calls. -/
theorem registeredFiles_called (setting : Setting) (arguments : List Text) (revision : Text)
    (ramdisk : Ramdisk σ) (names : FstabNames setting.fstabs)
    (goesOn : (run (Ramdisk.act tools) (ramdiskEdits setting arguments revision) true
      ramdisk).ending ≠ .stopped) :
    firstCalls (addedNames (run (Ramdisk.act tools) (ramdiskEdits setting arguments revision)
        true ramdisk).log) =
      firstCalls (registeredFiles setting.unsupportedSelinux setting.fstabs
        (readOptions arguments) ramdisk.files) := by
  rw [firstCalls_eq, firstCalls_eq, addedNames, ← foldl_noted listed]
  exact ramdiskEdits_registers setting arguments revision names ramdisk.files ramdisk rfl goesOn []

/-! ### Nothing is missing -/

theorem ensures_of_changes {setting : Setting} {arguments : List Text} {revision : Text}
    {accepts : Action → Bool} {command : Command Action}
    (member : command ∈ earlyChanges setting (readOptions arguments) ++
      (fstabChanges (readOptions arguments) setting.fstabs ::
        laterChanges setting (readOptions arguments)))
    (ensured : command.ensures accepts = true) :
    (ramdiskEdits setting arguments revision).ensures accepts = true := by
  refine Command.ensures_steps List.mem_cons_self ?_
  rw [changes_eq]
  exact Command.ensures_steps member ensured

theorem ensures_of_later {setting : Setting} {arguments : List Text} {revision : Text}
    {accepts : Action → Bool} {command : Command Action} {position : Nat}
    (found : (laterChanges setting (readOptions arguments))[position]? = some command)
    (ensured : command.ensures accepts = true) :
    (ramdiskEdits setting arguments revision).ensures accepts = true :=
  ensures_of_changes (List.mem_append_right _ (List.mem_cons_of_mem _
    (List.mem_of_getElem? found))) ensured

theorem fstabChanges_provides {modes : Modes} (edits : editsFstabs modes = true)
    {fstabs : List Text} {name : Text} (member : name ∈ fstabs) :
    (fstabChanges modes fstabs).ensures (Action.provides name) = true := by
  have loop : (forEach fstabs (fstabChange modes)).ensures (Action.provides name) = true :=
    Command.ensures_steps (List.mem_map_of_mem member)
      (Command.ensures_steps List.mem_cons_self (decide_eq_true rfl))
  unfold editsFstabs at edits
  unfold fstabChanges onlyIf Command.ensures
  rw [edits, loop]
  rfl

/-- A file that is registered was there, or the scripts are sure to provide it. -/
theorem registered_provided {setting : Setting} {arguments : List Text} {revision : Text}
    {ramdisk : Ramdisk σ} {name : Text}
    (registered : name ∈ registeredFiles setting.unsupportedSelinux setting.fstabs
      (readOptions arguments) ramdisk.files) :
    There name ramdisk ∨
      (ramdiskEdits setting arguments revision).ensures (Action.provides name) = true := by
  simp only [registeredFiles, List.mem_append, List.mem_ite_nil_right, List.mem_cons,
    List.not_mem_nil, or_false, Bool.and_eq_true] at registered
  rcases registered with (((((((rfl | ⟨⟨_, there⟩, rfl⟩) | ⟨edits, member⟩) |
    ⟨unsupported, kernel⟩) | ⟨hidden, hidesu⟩) | rfl) | ⟨there, rfl⟩) | rfl)
  · exact .inr (ensures_of_changes List.mem_cons_self rfl)
  · exact .inl there
  · exact .inr (ensures_of_changes (List.mem_append_right _ List.mem_cons_self)
      (fstabChanges_provides edits member))
  · right
    apply @ensures_of_later _ _ _ _ _ 1 rfl
    rw [unsupported]
    rcases kernel with rfl | rfl
    · rfl
    · rfl
  · right
    apply @ensures_of_later _ _ _ _ _ 7 rfl
    rw [hidden]
    rcases hidesu with rfl | rfl
    · rfl
    · rfl
  · exact .inr (@ensures_of_later _ _ _ _ _ 4 rfl rfl)
  · exact .inl there
  · exact .inr (Command.ensures_steps (List.mem_cons_of_mem _ List.mem_cons_self) rfl)

/-- Every registered file is there for cpio. -/
theorem registered_there (setting : Setting) (arguments : List Text) (revision : Text)
    (ramdisk : Ramdisk σ)
    (goesOn : (run (Ramdisk.act tools) (ramdiskEdits setting arguments revision) true
      ramdisk).ending ≠ .stopped)
    {name : Text}
    (registered : name ∈ registeredFiles setting.unsupportedSelinux setting.fstabs
      (readOptions arguments) ramdisk.files) :
    There name (run (Ramdisk.act tools) (ramdiskEdits setting arguments revision) true
      ramdisk).state := by
  rcases @registered_provided _ _ _ revision _ _ registered with there | ensured
  · exact invariant_run (fun action _ => there_kept action) true there
  · exact @there_ensured _ _ _ _ (fun _ => True) ensured ramdisk trivial goesOn

end

/-! ### Names that grep takes for patterns -/

theorem path_of {name : Text} (plain : name.all Initramfs.isFileSymbol = true)
    (first : name.head?.any Initramfs.isWordSymbol = true)
    (last : name.getLast?.any Initramfs.isWordSymbol = true) :
    ∃ path : FilePath, path.text = name :=
  ⟨⟨name, List.all_eq_true.mp plain, first, last⟩, rfl⟩

theorem paths_registered {unsupportedSelinux : Bool} {fstabs : List Text} {modes : Modes}
    {files : Text → Option Text} (paths : Paths fstabs) :
    Paths (registeredFiles unsupportedSelinux fstabs modes files) := by
  have own : Paths (ownFiles ++ ["super-bootimg".toList]) := by
    intro name member
    have all : (ownFiles ++ ["super-bootimg".toList]).all (fun name =>
        name.all Initramfs.isFileSymbol && name.head?.any Initramfs.isWordSymbol &&
          name.getLast?.any Initramfs.isWordSymbol) = true := by
      decide +kernel
    have checked := List.all_eq_true.mp all name member
    rw [Bool.and_eq_true, Bool.and_eq_true] at checked
    exact path_of checked.1.1 checked.1.2 checked.2
  intro name member
  simp only [registeredFiles, List.mem_append, List.mem_ite_nil_right, List.mem_cons,
    List.not_mem_nil, or_false] at member
  rcases member with (((((((rfl | ⟨_, rfl⟩) | ⟨_, fstab⟩) | ⟨_, rfl | rfl⟩) | ⟨_, rfl | rfl⟩) |
    rfl) | ⟨_, rfl⟩) | rfl)
  case inl.inl.inl.inl.inl.inr => exact paths name fstab
  all_goals exact own _ (by decide)

theorem exists_calls {names : List Text} (paths : Paths names) :
    ∃ calls : List FilePath, texts calls = names := by
  induction names with
  | nil => exact ⟨[], rfl⟩
  | cons name rest ih =>
      obtain ⟨path, same⟩ := paths name List.mem_cons_self
      obtain ⟨calls, others⟩ := ih fun other member => paths other (List.mem_cons_of_mem _ member)
      exact ⟨path :: calls, congrArg₂ _ same others⟩

/-! ### Names apart -/

/-- With grep, no name is taken for one of the names before it. -/
def toldApart (before : List Text) : List Text → Bool
  | [] => true
  | name :: rest => !grep name (joined ' ' before) && toldApart (before ++ [name]) rest

theorem toldApart_append (before names : List Text) (name : Text) :
    toldApart before (names ++ [name]) =
      (toldApart before names && !grep name (joined ' ' (before ++ names))) := by
  induction names generalizing before with
  | nil =>
      rw [List.append_nil]
      exact Bool.and_comm _ _
  | cons first rest ih =>
      rw [List.cons_append, toldApart, toldApart, ih, Bool.and_assoc, List.append_assoc]
      rfl

theorem distinguished_append_iff (calls : List FilePath) (call : FilePath) :
    Distinguished (calls ++ [call]) ↔ Distinguished calls ∧ (call.text ∉ texts calls →
      grep call.text (joined ' ' (firstCalls (texts calls))) = false) := by
  constructor
  · intro whole
    exact ⟨Initramfs.distinguished_front whole, whole calls call [] rfl⟩
  · rintro ⟨earlier, last⟩
    exact Initramfs.distinguished_append earlier last

/-- Whether names are told apart depends on the names and the order of their first calls. -/
theorem distinguished_iff (calls : List FilePath) :
    Distinguished calls ↔ toldApart [] (firstCalls (texts calls)) = true := by
  induction calls using List.reverseRecOn with
  | nil => exact iff_of_true (fun _ _ _ impossible => by simp at impossible) rfl
  | append_singleton calls call ih =>
      have inside := (Initramfs.firstCalls_spec (texts calls)).2 call.text
      have next : firstCalls (texts (calls ++ [call])) =
          if (firstCalls (texts calls)).contains call.text then firstCalls (texts calls)
          else firstCalls (texts calls) ++ [call.text] := by
        unfold texts
        rw [List.map_append]
        exact Initramfs.firstCalls_append _ _
      rw [distinguished_append_iff, ih, next]
      by_cases old : call.text ∈ texts calls
      · rw [if_pos (List.contains_iff_mem.mpr (inside.mpr old))]
        exact and_iff_left fun new => absurd old new
      · rw [if_neg fun member => old (inside.mp (List.contains_iff_mem.mp member)),
          toldApart_append, List.nil_append, Bool.and_eq_true, Bool.not_eq_true']
        exact and_congr_right fun _ => ⟨fun last => last old, fun last _ => last⟩

/-- The files of changes.sh itself are told apart. -/
theorem toldApart_registered (unsupportedSelinux : Bool) (fstabs : List Text) (modes : Modes)
    (files : Text → Option Text) (untouched : editsFstabs modes = false) :
    toldApart [] (firstCalls (registeredFiles unsupportedSelinux fstabs modes files)) = true := by
  unfold registeredFiles
  rw [untouched, if_neg Bool.false_ne_true]
  generalize modes.hidesu = hidesu
  generalize (files "sepolicy").isSome = policy
  generalize (files "init.superuser.rc").isSome = superuser
  revert unsupportedSelinux hidesu policy superuser
  decide +kernel

end SuperBootimg.Concrete.Scripts
