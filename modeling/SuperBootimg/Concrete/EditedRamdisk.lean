/-
What changes.sh makes of the files of a ramdisk: init.rc and the fstabs line by line, a
copy of each fstab, an init of the same length, and nothing else but files of its own.
-/

import SuperBootimg.Concrete.RamdiskFiles

namespace SuperBootimg.Concrete.Scripts

open ExitOnError LineRewriting RegularSearch
open ExitOnError.Command (steps forEach onlyIf)
open Sepolicy (Text)
open Initramfs (isWordSymbol)

variable {σ : Type} {tools : Tools σ}

/-! ### Several edits of a file -/

section Edits

variable {name : Text} {content : Option Text}

def applyAll (edits : List Edit) (text : Text) : Text :=
  edits.foldl (fun text edit => edit.apply text) text

theorem applyAll_append (first second : List Edit) (text : Text) :
    applyAll (first ++ second) text = applyAll second (applyAll first text) :=
  List.foldl_append

theorem has_seds (edits : List Edit) :
    Leaves (Ramdisk.act tools) (Has name content)
      (steps (edits.map fun edit => .simple (.sed edit name)))
      (Has name (content.map (applyAll edits))) := by
  induction edits generalizing content with
  | nil =>
      apply Leaves.status
      intro ramdisk has _
      have same : applyAll [] = id := rfl
      rw [same, Option.map_id_apply]
      exact has
  | cons edit rest ih =>
      have later := @ih (content.map edit.apply)
      rw [Option.map_map] at later
      cases rest with
      | nil => exact has_sed edit
      | cons second others => exact .seq (has_sed edit) later

end Edits

/-! ### The fstabs -/

def cryptEdits : Fstab.NocryptMode → List Edit
  | .crypt => []
  | .nocrypt => Fstab.cryptKeys.map .dropDataFlag
  | .nocryptAll => Fstab.cryptKeys.map .dropFlag

def verityEdits (noverity : Bool) : List Edit :=
  if noverity then [.dropVerify, .mountWritable] else []

def editedFstab (modes : Modes) (text : Text) : Text :=
  onLines '\n' (Fstab.edited modes.nocrypt modes.noverity) text

theorem applyAll_rules {edits : List Edit} {rules : List (Rule Char)}
    (same : edits.map Edit.apply = rules.map substituted)
    (plain : ∀ rule, rule ∈ rules → '\n' ∉ rule.text) (text : Text) :
    applyAll edits text = onLines '\n' (Fstab.applied rules) text := by
  have folded : applyAll edits text =
      rules.foldl (fun text rule => substituted rule text) text := by
    rw [← @List.foldl_map _ _ _ substituted (fun text change => change text), ← same,
      List.foldl_map]
    rfl
  rw [folded]
  exact foldl_onLines (fun rule member _ absent => not_mem_substitute (plain rule member) absent)
    text

theorem applyAll_fstab (modes : Modes) (text : Text) :
    applyAll (cryptEdits modes.nocrypt ++ verityEdits modes.noverity) text =
      editedFstab modes text := by
  apply applyAll_rules
  · cases modes.nocrypt <;> cases modes.noverity <;> rfl
  · intro rule member
    rcases List.mem_append.mp member with crypt | verity
    · cases mode : modes.nocrypt with
      | crypt =>
          rw [mode] at crypt
          cases crypt
      | nocrypt =>
          rw [mode] at crypt
          obtain ⟨key, _, rfl⟩ := List.mem_map.mp crypt
          exact List.not_mem_nil
      | nocryptAll =>
          rw [mode] at crypt
          obtain ⟨key, _, rfl⟩ := List.mem_map.mp crypt
          exact List.not_mem_nil
    · cases noverity : modes.noverity with
      | false =>
          rw [noverity] at verity
          cases verity
      | true =>
          rw [noverity] at verity
          rcases List.mem_cons.mp verity with rfl | ro
          · exact List.not_mem_nil
          · rw [List.mem_singleton.mp ro]
            decide

theorem cryptEdits_leaves (modes : Modes) {name : Text} {content : Option Text} :
    Leaves (Ramdisk.act tools) (Has name content)
      (.conditional (.status (decide (modes.nocrypt = .nocrypt)))
        (steps [
          .simple (.sed (.dropDataFlag "encryptable=") name),
          .simple (.sed (.dropDataFlag "forceencrypt=") name),
          .simple (.sed (.dropDataFlag "forcefdeorfbe=") name)])
        (onlyIf (.status (decide (modes.nocrypt = .nocryptAll))) (steps [
          .simple (.sed (.dropFlag "encryptable=") name),
          .simple (.sed (.dropFlag "forceencrypt=") name),
          .simple (.sed (.dropFlag "forcefdeorfbe=") name)])))
      (Has name (content.map (applyAll (cryptEdits modes.nocrypt)))) := by
  apply Leaves.flag
  · intro asked
    rw [of_decide_eq_true asked]
    exact has_seds (cryptEdits .nocrypt)
  · intro notData
    apply Leaves.flag
    · intro asked
      rw [of_decide_eq_true asked]
      exact has_seds (cryptEdits .nocryptAll)
    · intro notAll
      cases mode : modes.nocrypt with
      | crypt => exact has_seds []
      | nocrypt => exact absurd mode (of_decide_eq_false notData)
      | nocryptAll => exact absurd mode (of_decide_eq_false notAll)

theorem verityEdits_leaves (modes : Modes) {name : Text} {content : Option Text} :
    Leaves (Ramdisk.act tools) (Has name content)
      (onlyIf (.status modes.noverity) (steps [
        .simple (.sed .dropVerify name),
        .simple (.sed .mountWritable name)]))
      (Has name (content.map (applyAll (verityEdits modes.noverity)))) := by
  apply Leaves.flag
  · intro asked
    rw [asked]
    exact has_seds (verityEdits true)
  · intro notAsked
    rw [notAsked]
    exact has_seds []

theorem orig_ne (name : Text) : name ++ ".orig".toList ≠ name := by
  intro same
  have lengths := congrArg List.length same
  rw [List.length_append] at lengths
  have five : ".orig".toList.length = 5 := rfl
  omega

/-- The edits of one fstab. -/
theorem fstabChange_leaves (modes : Modes) {name : Text} {content : Option Text} :
    Leaves (Ramdisk.act tools) (Has name content) (fstabChange modes name)
      (Has name (content.map (editedFstab modes))) := by
  have copied : Leaves (Ramdisk.act tools) (Has name content)
      (.simple (.copy name (name ++ ".orig".toList))) (Has name content) := by
    apply has_kept
    intro action possible
    rw [List.mem_singleton.mp possible]
    exact fun same => orig_ne name (Option.some.inj same)
  have added : Leaves (Ramdisk.act tools) (Has name (content.map (editedFstab modes)))
      (.simple (.addFile name)) (Has name (content.map (editedFstab modes))) := by
    apply has_kept
    intro action possible
    rw [List.mem_singleton.mp possible]
    exact nofun
  have composed : content.map (editedFstab modes) = (content.map (applyAll
      (cryptEdits modes.nocrypt))).map (applyAll (verityEdits modes.noverity)) := by
    rw [Option.map_map]
    congr 1
    funext text
    rw [← applyAll_fstab, applyAll_append]
    rfl
  rw [composed] at added ⊢
  exact .seq copied (.seq (cryptEdits_leaves modes) (.seq (verityEdits_leaves modes) added))

theorem fstabChange_touches {modes : Modes} {name : Text} {action : Action}
    (possible : action ∈ (fstabChange modes name).possible) :
    action.touches = none ∨ action.touches = some name ∨
      action.touches = some (name ++ ".orig".toList) := by
  rcases fstabChange_possible modes possible with rfl | ⟨edit, rfl⟩ | rfl
  · exact .inr (.inr rfl)
  · exact .inr (.inl rfl)
  · exact .inl rfl

theorem fstabChange_kept {modes : Modes} {name other : Text} {content : Option Text}
    (different : other ≠ name) (apart : other ≠ name ++ ".orig".toList) :
    Leaves (Ramdisk.act tools) (Has other content) (fstabChange modes name)
      (Has other content) := by
  apply has_kept
  intro action possible same
  rcases fstabChange_touches possible with nothing | touched | copied
  · rw [nothing] at same
    cases same
  · exact different (Option.some.inj (same.symm.trans touched))
  · exact apart (Option.some.inj (same.symm.trans copied))

/-- The copy that is made before the edits. -/
theorem fstabChange_copies (modes : Modes) {name : Text} {content : Option Text} :
    Leaves (Ramdisk.act tools) (Has name content) (fstabChange modes name)
      (Has (name ++ ".orig".toList) content) := by
  refine .seq (has_copy _) (has_kept ?_)
  intro action possible same
  simp only [onlyIf, steps, Command.possible, List.mem_append, List.mem_cons,
    List.mem_ite_nil_left, List.not_mem_nil, and_false, or_false, false_or] at possible
  rcases possible with (⟨_, rfl | rfl | rfl⟩ | ⟨_, _, rfl | rfl | rfl⟩) | ⟨_, rfl | rfl⟩ | rfl
  case inr.inr => cases same
  all_goals exact orig_ne name (Option.some.inj same).symm

/-! ### Files that stay -/

theorem kept_of_files {command : Command Action} {files : List Text} {name : Text}
    {content : Option Text}
    (touched : command.forAll (fun action => action.touches.all files.contains) = true)
    (absent : name ∉ files) :
    Leaves (Ramdisk.act tools) (Has name content) command (Has name content) := by
  apply has_kept
  intro action possible same
  have inside := accepts_of_possible touched possible
  rw [same] at inside
  exact absent (List.contains_iff_mem.mp inside)

structure FstabNames (fstabs : List Text) : Prop where
  begins : ∀ name, name ∈ fstabs → "fstab".toList <+: name
  nodup : fstabs.Nodup

/-- The files that changes.sh may write besides the fstabs. -/
def ownFiles : List Text :=
  ["sbin/su", "sepolicy", "init", "xxenforce", "sbin/hidesu", "init.rc", "init.superuser.rc"]

theorem not_own_of_fstab {name : Text} (begins : "fstab".toList <+: name) : name ∉ ownFiles := by
  intro own
  have others : ∀ other, other ∈ ownFiles → ¬ "fstab".toList <+: other := by decide
  exact others name own begins

def earlyChanges (setting : Setting) (modes : Modes) : List (Command Action) := [
  .simple (.install ("su-" ++ setting.architecture) "sbin/su"),
  .simple (.addFile "sbin/su"),
  .simple (.chmod "0755" "sbin/su"),
  onlyIf (.andAlso (.status (!setting.unsupportedSelinux)) (.simple (.isFile "sepolicy")))
    (policyChanges setting.version modes)]

theorem changes_eq (setting : Setting) (arguments : List Text) :
    changes setting arguments = steps (earlyChanges setting (readOptions arguments) ++
      (fstabChanges (readOptions arguments) setting.fstabs ::
        laterChanges setting (readOptions arguments))) :=
  rfl

theorem earlyChanges_files (setting : Setting) (modes : Modes) :
    (steps (earlyChanges setting modes)).forAll
      (fun action => action.touches.all ["sbin/su".toList, "sepolicy".toList].contains) = true :=
  rfl

theorem laterChanges_files (setting : Setting) (modes : Modes) :
    (steps (laterChanges setting modes)).forAll
      (fun action => action.touches.all ownFiles.contains) = true :=
  rfl

theorem early_subset {name : Text} (early : name ∈ ["sbin/su".toList, "sepolicy".toList]) :
    name ∈ ownFiles := by
  have own : ∀ file, file ∈ ["sbin/su".toList, "sepolicy".toList] → file ∈ ownFiles := by decide
  exact own name early

theorem earlyChanges_kept (setting : Setting) (modes : Modes) {name : Text}
    {content : Option Text} (other : name ∉ ownFiles) :
    Leaves (Ramdisk.act tools) (Has name content) (steps (earlyChanges setting modes))
      (Has name content) :=
  kept_of_files (earlyChanges_files setting modes) fun early => other (early_subset early)

theorem laterChanges_kept (setting : Setting) (modes : Modes) {name : Text}
    {content : Option Text} (other : name ∉ ownFiles) :
    Leaves (Ramdisk.act tools) (Has name content) (steps (laterChanges setting modes))
      (Has name content) :=
  kept_of_files (laterChanges_files setting modes) other

theorem fstabChanges_possible {modes : Modes} {fstabs : List Text} {action : Action}
    (possible : action ∈ (fstabChanges modes fstabs).possible) :
    ∃ fstab, fstab ∈ fstabs ∧ action ∈ (fstabChange modes fstab).possible := by
  obtain ⟨_, loop⟩ := Command.mem_possible_onlyIf possible
  obtain ⟨body, listed, edits⟩ := Command.mem_possible_steps.mp loop
  obtain ⟨fstab, named, rfl⟩ := List.mem_map.mp listed
  exact ⟨fstab, named, edits⟩

theorem fstabChanges_kept {modes : Modes} {fstabs : List Text} {name : Text}
    {content : Option Text} (names : FstabNames fstabs) (other : ¬ "fstab".toList <+: name) :
    Leaves (Ramdisk.act tools) (Has name content) (fstabChanges modes fstabs)
      (Has name content) := by
  have different : ∀ file, "fstab".toList <+: file → some file ≠ some name := by
    intro file begins same
    exact other (Option.some.inj same ▸ begins)
  apply has_kept
  intro action possible same
  obtain ⟨fstab, listed, inside⟩ := fstabChanges_possible possible
  have begins := names.begins fstab listed
  rcases fstabChange_touches inside with nothing | touched | copied
  · rw [nothing] at same
    cases same
  · exact different fstab begins (touched.symm.trans same)
  · exact different _ (begins.trans (List.prefix_append _ _)) (copied.symm.trans same)

/-- Without an edit of the lines an fstab is as before. -/
theorem editedFstab_none {modes : Modes}
    (off : (decide (modes.nocrypt ≠ .crypt) || modes.noverity) = false) (content : Option Text) :
    content.map (editedFstab modes) = content := by
  obtain ⟨crypt, noverity⟩ := Bool.or_eq_false_iff.mp off
  have plain : Fstab.edited modes.nocrypt modes.noverity = id := by
    rw [not_not.mp (of_decide_eq_false crypt), noverity]
    rfl
  have same : editedFstab modes = id := by
    funext text
    unfold editedFstab
    rw [plain]
    exact onLines_id '\n' text
  rw [same, Option.map_id_apply]

/-- The loop over the fstabs, for one that is not the copy of another. -/
theorem fstabChanges_leaves (modes : Modes) {fstabs : List Text} {name : Text}
    {content : Option Text} (nodup : fstabs.Nodup) (member : name ∈ fstabs)
    (first : ∀ fstab, fstab ∈ fstabs → name ≠ fstab ++ ".orig".toList) :
    Leaves (Ramdisk.act tools) (Has name content) (fstabChanges modes fstabs)
      (Has name (content.map (editedFstab modes))) := by
  have others : ∀ (content : Option Text) (fstab : Text), fstab ∈ fstabs → fstab ≠ name →
      Leaves (Ramdisk.act tools) (Has name content) (fstabChange modes fstab)
        (Has name content) :=
    fun _ fstab listed different => fstabChange_kept different.symm (first fstab listed)
  apply Leaves.flag
  · intro _
    exact .forEach_once nodup member (others _) (fstabChange_leaves modes) (others _)
  · intro off
    rw [editedFstab_none off]
    exact .idle

/-- The copy is made before the edits, and stays. -/
theorem fstabChanges_copies {modes : Modes} {fstabs : List Text} {name : Text}
    {content : Option Text}
    (on : (decide (modes.nocrypt ≠ .crypt) || modes.noverity) = true)
    (nodup : fstabs.Nodup) (member : name ∈ fstabs)
    (first : ∀ fstab, fstab ∈ fstabs → name ≠ fstab ++ ".orig".toList)
    (last : name ++ ".orig".toList ∉ fstabs) :
    Leaves (Ramdisk.act tools) (Has name content) (fstabChanges modes fstabs)
      (Has (name ++ ".orig".toList) content) := by
  apply Leaves.flag
  · intro _
    apply Leaves.forEach_once nodup member _ (fstabChange_copies modes)
    · intro fstab listed different
      apply fstabChange_kept
      · intro same
        exact last (same ▸ listed)
      · intro same
        exact different (List.append_cancel_right same).symm
    · intro fstab listed different
      exact fstabChange_kept different.symm (first fstab listed)
  · intro off
    rw [on] at off
    cases off

/-- The three parts of the script. -/
theorem changes_possible {setting : Setting} {arguments : List Text} {action : Action}
    (possible : action ∈ (changes setting arguments).possible) :
    action ∈ (steps (earlyChanges setting (readOptions arguments))).possible ∨
      (∃ fstab, fstab ∈ setting.fstabs ∧
        action ∈ (fstabChange (readOptions arguments) fstab).possible) ∨
      action ∈ (steps (laterChanges setting (readOptions arguments))).possible := by
  rw [changes_eq] at possible
  obtain ⟨command, member, inside⟩ := Command.mem_possible_steps.mp possible
  rcases List.mem_append.mp member with early | others
  · exact .inl (Command.mem_possible_steps.mpr ⟨command, early, inside⟩)
  · rcases List.mem_cons.mp others with rfl | late
    · exact .inr (.inl (fstabChanges_possible inside))
    · exact .inr (.inr (Command.mem_possible_steps.mpr ⟨command, late, inside⟩))

/-- What changes.sh writes is its own file, an fstab, or the copy of an fstab. -/
theorem changes_touches {setting : Setting} {arguments : List Text} {action : Action}
    {name : Text} (possible : action ∈ (changes setting arguments).possible)
    (touched : action.touches = some name) :
    name ∈ ownFiles ∨ ∃ fstab, fstab ∈ setting.fstabs ∧
      (name = fstab ∨ name = fstab ++ ".orig".toList) := by
  rcases changes_possible possible with early | ⟨fstab, named, edits⟩ | late
  · left
    have files := accepts_of_possible (earlyChanges_files setting _) early
    rw [touched] at files
    exact early_subset (List.contains_iff_mem.mp files)
  · right
    refine ⟨fstab, named, ?_⟩
    rcases fstabChange_touches edits with nothing | same | copied
    · rw [nothing] at touched
      cases touched
    · exact .inl (Option.some.inj (touched.symm.trans same))
    · exact .inr (Option.some.inj (touched.symm.trans copied))
  · left
    have files := accepts_of_possible (laterChanges_files setting _) late
    rw [touched] at files
    exact List.contains_iff_mem.mp files

/-! ### init.rc -/

/-- The options that the edit of init.rc depends on. -/
def rcOptions (setting : Setting) (modes : Modes) : InitRc.Options :=
  { keeprecovery := modes.keeprecovery
    hidesu := modes.hidesu
    unsupportedSelinux := setting.unsupportedSelinux }

def withRecovery (modes : Modes) (text : Text) : Text :=
  if modes.keeprecovery then text
  else InitRc.appendBehind InitRc.recoveryAddress InitRc.disabledLine text

theorem recovery_leaves (modes : Modes) {name : Text} {content : Option Text} :
    Leaves (Ramdisk.act tools) (Has name content)
      (onlyIf (.status (!modes.keeprecovery)) (.simple (.sed .disableRecovery name)))
      (Has name (content.map (withRecovery modes))) := by
  unfold withRecovery
  cases modes.keeprecovery with
  | true =>
      apply Leaves.flag
      · exact nofun
      · intro _
        apply Leaves.status
        intro ramdisk has _
        exact has.trans (Option.map_id_apply).symm
  | false =>
      apply Leaves.flag
      · exact fun _ => has_sed .disableRecovery
      · exact nofun

theorem opened_leaves (modes : Modes) {name : Text} {content : Option Text} :
    Leaves (Ramdisk.act tools) (Has name content)
      (.conditional (.status modes.hidesu)
        (.simple (.sed (.chmodSbin true) name))
        (.simple (.sed (.chmodSbin false) name)))
      (Has name (content.map
        (InitRc.appendBehind InitRc.initAddress (InitRc.chmodLine modes.hidesu)))) := by
  apply Leaves.flag
  · intro hidden
    rw [hidden]
    exact has_sed (.chmodSbin true)
  · intro shown
    rw [shown]
    exact has_sed (.chmodSbin false)

theorem suService_leaves (unsupportedSelinux : Bool) {old : Text} :
    Leaves (Ramdisk.act tools) (Has "init.rc".toList (some old))
      (steps [
        .simple (.append "service su /sbin/su --daemon\n\tclass main\n" "init.rc"),
        .conditional (.status (!unsupportedSelinux))
          (.simple (.append "\tseclabel u:r:su_daemon:s0\n" "init.rc"))
          (.simple (.append "\tseclabel u:r:kernel:s0\n" "init.rc")),
        .simple (.append "\n\n" "init.rc")])
      (Has "init.rc".toList (some (old ++ InitRc.suService unsupportedSelinux))) := by
  unfold InitRc.suService
  rw [← List.append_assoc, ← List.append_assoc]
  refine .seq (has_append _) (.seq ?_ (has_append _))
  cases unsupportedSelinux with
  | true => exact .flag nofun fun _ => has_append _
  | false => exact .flag (fun _ => has_append _) nofun

theorem hidesuService_eq :
    InitRc.hidesuService = "service hidesu /sbin/hidesu\n\tclass main\n".toList ++
      "\tseclabel u:r:su:s0\n".toList ++ "\n\n".toList := by
  decide +kernel

def hidesuSetup (version : Version) : List (Command Action) := [
  .simple (.install "hidesu" "sbin/hidesu"),
  .simple (.addFile "sbin/hidesu"),
  .simple (.chmod "0750" "sbin/hidesu"),
  allow version [.init] [.su] .process [.transition],
  allow version [.rootfs] [.tmpfs] .filesystem [.associate]]

theorem hidesuSetup_files (version : Version) :
    (steps (hidesuSetup version)).forAll
      (fun action => action.touches.all ["sbin/hidesu".toList, "sepolicy".toList].contains) =
        true :=
  rfl

theorem hidesuService_leaves (version : Version) (modes : Modes) {old : Text} :
    Leaves (Ramdisk.act tools) (Has "init.rc".toList (some old))
      (onlyIf (.status modes.hidesu) (steps (hidesuSetup version ++ [
        .simple (.append "service hidesu /sbin/hidesu\n\tclass main\n" "init.rc"),
        .simple (.append "\tseclabel u:r:su:s0\n" "init.rc"),
        .simple (.append "\n\n" "init.rc")])))
      (Has "init.rc".toList
        (some (old ++ if modes.hidesu then InitRc.hidesuService else []))) := by
  cases modes.hidesu with
  | true =>
      apply Leaves.flag
      · intro _
        rw [if_pos rfl, hidesuService_eq, ← List.append_assoc, ← List.append_assoc]
        have setup : Leaves (Ramdisk.act tools) (Has "init.rc".toList (some old))
            (steps (hidesuSetup version)) (Has "init.rc".toList (some old)) :=
          kept_of_files (hidesuSetup_files version) (by decide)
        exact .append (List.cons_ne_nil _ _) (List.cons_ne_nil _ _) setup
          (.seq (has_append _) (.seq (has_append _) (has_append _)))
      · exact nofun
  | false =>
      apply Leaves.flag
      · exact nofun
      · intro _
        rw [if_neg Bool.false_ne_true, List.append_nil]
        exact .idle

/-- The commands for init.rc together. -/
theorem initRcChanges_leaves (setting : Setting) (modes : Modes) {text : Text} :
    Leaves (Ramdisk.act tools) (Has "init.rc".toList (some text))
      (steps (initRcChanges setting.version modes setting.unsupportedSelinux))
      (Has "init.rc".toList (some (InitRc.edited (rcOptions setting modes) text))) := by
  have added : ∀ content, Leaves (Ramdisk.act tools) (Has "init.rc".toList content)
      (.simple (.addFile "init.rc")) (Has "init.rc".toList content) := by
    intro content
    apply has_kept
    intro action possible
    rw [List.mem_singleton.mp possible]
    exact nofun
  refine .seq (recovery_leaves modes) (.seq (opened_leaves modes) ?_)
  exact .append (List.cons_ne_nil _ _) (List.cons_ne_nil _ _)
    (suService_leaves setting.unsupportedSelinux)
    (.seq (hidesuService_leaves setting.version modes) (added _))

theorem firstChanges_leaves (unsupportedSelinux : Bool) {content : Option Text} :
    Leaves (Ramdisk.act tools) (Has "init.rc".toList content)
      (steps [samsungChanges, kernelChanges unsupportedSelinux])
      (Has "init.rc".toList content) := by
  have files : (steps [samsungChanges, kernelChanges unsupportedSelinux]).forAll
      (fun action => action.touches.all
        ["sepolicy".toList, "init".toList, "xxenforce".toList].contains) = true := rfl
  exact kept_of_files files (by decide)

theorem superuserChanges_leaves {content : Option Text} :
    Leaves (Ramdisk.act tools) (Has "init.rc".toList content) superuserChanges
      (Has "init.rc".toList content) := by
  have files : superuserChanges.forAll
      (fun action => action.touches.all ["init.superuser.rc".toList].contains) = true := rfl
  exact kept_of_files files (by decide)

/-- Without an init.rc the script ends at its edit. -/
theorem initRcChanges_missing (setting : Setting) (modes : Modes) (after : Ramdisk σ → Prop) :
    Leaves (Ramdisk.act tools) (Has "init.rc".toList none)
      (steps (initRcChanges setting.version modes setting.unsupportedSelinux)) after := by
  have opened : Leaves (Ramdisk.act tools) (Has "init.rc".toList none)
      (.conditional (.status modes.hidesu)
        (.simple (.sed (.chmodSbin true) "init.rc"))
        (.simple (.sed (.chmodSbin false) "init.rc"))) (fun _ => False) :=
    .flag (fun _ => missing_sed _ _) fun _ => missing_sed _ _
  exact .seq (recovery_leaves modes) (.seq opened .unreached)

/-- The commands in front of those for init.rc, and behind. -/
theorem laterChanges_eq (setting : Setting) (modes : Modes) :
    laterChanges setting modes = [samsungChanges, kernelChanges setting.unsupportedSelinux] ++
      (initRcChanges setting.version modes setting.unsupportedSelinux ++ [superuserChanges]) :=
  rfl

/-! ### init -/

def kernelWords : List (Text × Text) := [
  ("%s/enforce".toList, "/xxenforce".toList),
  ("/sys/fs/selinux/checkreqprot".toList, "/dev_fs_selinux_checkreqprot".toList),
  ("Initializing SELinux ".toList, "Initializing FFFinux ".toList)]

def kernelEdits : List Edit :=
  kernelWords.map fun pair => .replace pair.1 pair.2

theorem applyAll_kernelEdits (text : Text) :
    applyAll kernelEdits text = onLines '\n' (replaceAll isWordSymbol kernelWords) text := by
  have rules : kernelEdits.map Edit.apply =
      (kernelWords.map fun pair => Rule.plain (.literal pair.1) pair.2).map substituted := rfl
  rw [applyAll_rules rules]
  · rfl
  · intro rule member
    obtain ⟨pair, inside, rfl⟩ := List.mem_map.mp member
    have plain : ∀ pair, pair ∈ kernelWords → '\n' ∉ pair.2 := by decide
    exact plain pair inside

theorem kernelWords_apart :
    ∀ old, old ∈ kernelWords → ∀ pair, pair ∈ kernelWords → KeptOut old.1 pair.2 := by
  decide +kernel

/-- The new init has the length of the old one and none of the words. -/
theorem kernelEdits_result (text : Text) :
    (applyAll kernelEdits text).length = text.length ∧
      ∀ pair, pair ∈ kernelWords → ¬ pair.1 <:+: applyAll kernelEdits text := by
  have nonempty : ∀ pair, pair ∈ kernelWords → pair.1 ≠ [] := by decide
  have same : ∀ pair, pair ∈ kernelWords → pair.2.length = pair.1.length := by decide
  have plain : ∀ pair, pair ∈ kernelWords → '\n' ∉ pair.1 := by decide
  rw [applyAll_kernelEdits]
  refine ⟨length_onLines (length_replaceAll nonempty same) text, fun pair member => ?_⟩
  apply not_infix_onLines (nonempty pair member) (plain pair member)
  intro line
  exact not_infix_replaceAll nonempty (kernelWords_apart pair member) line
    (.inl (List.mem_map_of_mem member))

theorem kernelChanges_leaves {content : Option Text} :
    Leaves (Ramdisk.act tools) (Has "init".toList content) (kernelChanges true)
      (Has "init".toList (content.map (applyAll kernelEdits))) := by
  apply Leaves.flag
  · intro _
    have rest : Leaves (Ramdisk.act tools)
        (Has "init".toList (content.map (applyAll kernelEdits)))
        (steps [.simple (.addFile "init"), .simple (.overwrite "1" "xxenforce"),
          .simple (.addFile "xxenforce")])
        (Has "init".toList (content.map (applyAll kernelEdits))) := by
      have files : (steps [.simple (.addFile "init"), .simple (.overwrite "1" "xxenforce"),
          .simple (.addFile "xxenforce")] : Command Action).forAll
          (fun action => action.touches.all ["xxenforce".toList].contains) = true := rfl
      exact kept_of_files files (by decide)
    exact .append (List.cons_ne_nil _ _) (List.cons_ne_nil _ _) (has_seds kernelEdits) rest
  · exact nofun

theorem kernelChanges_missing (after : Ramdisk σ → Prop) :
    Leaves (Ramdisk.act tools) (Has "init".toList none) (kernelChanges true) after := by
  apply Leaves.flag
  · exact fun _ => .seq (missing_sed _ _) .unreached
  · exact nofun

theorem samsungChanges_leaves {content : Option Text} :
    Leaves (Ramdisk.act tools) (Has "init".toList content) samsungChanges
      (Has "init".toList content) := by
  have files : samsungChanges.forAll
      (fun action => action.touches.all ["sepolicy".toList].contains) = true := rfl
  exact kept_of_files files (by decide)

/-- The commands behind those for init. -/
theorem lastChanges_leaves (setting : Setting) (modes : Modes) {content : Option Text} :
    Leaves (Ramdisk.act tools) (Has "init".toList content)
      (steps (initRcChanges setting.version modes setting.unsupportedSelinux ++
        [superuserChanges]))
      (Has "init".toList content) := by
  have files : (steps (initRcChanges setting.version modes setting.unsupportedSelinux ++
      [superuserChanges])).forAll (fun action => action.touches.all
        ["init.rc".toList, "sbin/hidesu".toList, "sepolicy".toList,
          "init.superuser.rc".toList].contains) = true := rfl
  exact kept_of_files files (by decide)

/-! ### The results -/

/-- Other files of the ramdisk stay as they are, wherever a run of changes.sh ends. -/
theorem changes_frame (setting : Setting) (arguments : List Text) (checked : Bool)
    (ramdisk : Ramdisk σ) (name : Text) (other : name ∉ ownFiles)
    (noFstab : ∀ fstab, fstab ∈ setting.fstabs → name ≠ fstab ∧ name ≠ fstab ++ ".orig".toList) :
    (run (Ramdisk.act tools) (changes setting arguments) checked ramdisk).state.files name =
      ramdisk.files name := by
  apply untouched_run
  intro action possible touched
  rcases changes_touches possible touched with own | ⟨fstab, member, same | copied⟩
  · exact other own
  · exact (noFstab fstab member).1 same
  · exact (noFstab fstab member).2 copied

/-- The two parts around the fstabs. -/
theorem changes_leaves {before middle after : Ramdisk σ → Prop} {setting : Setting}
    {arguments : List Text}
    (early : Leaves (Ramdisk.act tools) before
      (steps (earlyChanges setting (readOptions arguments))) before)
    (fstabs : Leaves (Ramdisk.act tools) before
      (fstabChanges (readOptions arguments) setting.fstabs) middle)
    (late : Leaves (Ramdisk.act tools) middle
      (steps (laterChanges setting (readOptions arguments))) after) :
    Leaves (Ramdisk.act tools) before (changes setting arguments) after := by
  rw [changes_eq]
  exact .append (List.cons_ne_nil _ _) (List.cons_ne_nil _ _) early (.seq fstabs late)

/-- Tools for a policy that has every rule already. -/
def completeTools : Tools Unit :=
  { program := id
    inject := fun _ _ policy state => (true, policy, state)
    act := fun _ state => (true, state) }

def oldSetting : Setting :=
  { version := { sepolicy := [], android := 16 }
    architecture := "arm"
    unsupportedSelinux := true
    fstabs := ["fstab.x".toList] }

def oldFiles : List (Text × Text) := [
  ("init".toList, "open %s/enforce\n".toList),
  ("init.rc".toList, "on init\n".toList),
  ("fstab.x".toList, "d /data ext4 rw wait,encryptable=footer\n".toList),
  ("default.prop".toList, "ro.secure=1\n".toList)]

def oldRamdisk : Ramdisk Unit :=
  { files := fun name => oldFiles.lookup name
    other := () }

theorem changes_frame_old :
    (run (Ramdisk.act completeTools) (changes oldSetting ["nocrypt".toList]) true
      oldRamdisk).state.files "default.prop".toList = some "ro.secure=1\n".toList :=
  (changes_frame oldSetting ["nocrypt".toList] true oldRamdisk "default.prop".toList (by decide)
    (by decide)).trans (by decide +kernel)

/-- An fstab that is not the copy of another one is edited line by line, and its old content
is in its copy, if that is not an fstab itself. -/
theorem changes_fstabs (setting : Setting) (arguments : List Text) (ramdisk : Ramdisk σ)
    (names : FstabNames setting.fstabs)
    (goesOn : (run (Ramdisk.act tools) (changes setting arguments) true ramdisk).ending ≠
      .stopped)
    (name : Text) (member : name ∈ setting.fstabs)
    (first : ∀ fstab, fstab ∈ setting.fstabs → name ≠ fstab ++ ".orig".toList) :
    (run (Ramdisk.act tools) (changes setting arguments) true ramdisk).state.files name =
        (ramdisk.files name).map (editedFstab (readOptions arguments)) ∧
      ((readOptions arguments).nocrypt ≠ .crypt ∨ (readOptions arguments).noverity = true →
        name ++ ".orig".toList ∉ setting.fstabs →
        (run (Ramdisk.act tools) (changes setting arguments) true ramdisk).state.files
          (name ++ ".orig".toList) = ramdisk.files name) := by
  have fresh : name ∉ ownFiles := not_own_of_fstab (names.begins name member)
  have copyFresh : name ++ ".orig".toList ∉ ownFiles :=
    not_own_of_fstab ((names.begins name member).trans (List.prefix_append _ _))
  constructor
  · exact changes_leaves (earlyChanges_kept setting _ fresh)
      (fstabChanges_leaves _ names.nodup member first) (laterChanges_kept setting _ fresh)
      ramdisk rfl goesOn
  · intro asked last
    have on : (decide ((readOptions arguments).nocrypt ≠ .crypt) ||
        (readOptions arguments).noverity) = true := by
      rw [Bool.or_eq_true, decide_eq_true_eq]
      exact asked
    exact changes_leaves (earlyChanges_kept setting _ fresh)
      (fstabChanges_copies on names.nodup member first last)
      (laterChanges_kept setting _ copyFresh) ramdisk rfl goesOn

theorem oldSetting_names : FstabNames oldSetting.fstabs :=
  { begins := by decide
    nodup := List.nodup_singleton _ }

theorem changes_fstabs_old :
    (run (Ramdisk.act completeTools) (changes oldSetting ["nocrypt".toList]) true
        oldRamdisk).state.files "fstab.x".toList = some "d /data ext4 rw wait\n".toList ∧
      (run (Ramdisk.act completeTools) (changes oldSetting ["nocrypt".toList]) true
        oldRamdisk).state.files "fstab.x.orig".toList =
          some "d /data ext4 rw wait,encryptable=footer\n".toList := by
  have edits := @changes_fstabs Unit completeTools oldSetting ["nocrypt".toList] oldRamdisk
    oldSetting_names (by decide +kernel) "fstab.x".toList List.mem_cons_self (by decide)
  exact ⟨edits.1.trans (by decide +kernel), edits.2 (by decide +kernel) (by decide)⟩

/-- Where changes.sh goes on to its end, init.rc was there and has been edited as a whole. -/
theorem changes_initRc (setting : Setting) (arguments : List Text) (ramdisk : Ramdisk σ)
    (names : FstabNames setting.fstabs)
    (goesOn : (run (Ramdisk.act tools) (changes setting arguments) true ramdisk).ending ≠
      .stopped) :
    ∃ text, ramdisk.files "init.rc".toList = some text ∧
      (run (Ramdisk.act tools) (changes setting arguments) true ramdisk).state.files
          "init.rc".toList =
        some (InitRc.edited (rcOptions setting (readOptions arguments)) text) := by
  have early : ∀ content : Option Text, Leaves (Ramdisk.act tools) (Has "init.rc".toList content)
      (steps (earlyChanges setting (readOptions arguments)))
      (Has "init.rc".toList content) :=
    fun _ => kept_of_files (earlyChanges_files setting _) (by decide)
  have fstabs : ∀ content : Option Text, Leaves (Ramdisk.act tools)
      (Has "init.rc".toList content) (fstabChanges (readOptions arguments) setting.fstabs)
      (Has "init.rc".toList content) :=
    fun _ => fstabChanges_kept names (by decide)
  have whole : ∀ (content : Option Text) (after : Ramdisk σ → Prop),
      Leaves (Ramdisk.act tools) (Has "init.rc".toList content)
        (steps (initRcChanges setting.version (readOptions arguments)
          setting.unsupportedSelinux)) after →
      Leaves (Ramdisk.act tools) after superuserChanges after →
      Leaves (Ramdisk.act tools) (Has "init.rc".toList content) (changes setting arguments)
        after := by
    intro content after edits kept
    refine changes_leaves (early content) (fstabs content) ?_
    rw [laterChanges_eq]
    exact .append (List.cons_ne_nil _ _) (List.cons_ne_nil _ _) (firstChanges_leaves _)
      (.append (List.cons_ne_nil _ _) (List.cons_ne_nil _ _) edits kept)
  cases content : ramdisk.files "init.rc".toList with
  | none =>
      have missing := whole none (fun _ => False) (initRcChanges_missing _ _ _) .unreached
      exact (missing ramdisk content goesOn).elim
  | some text =>
      have edits := whole (some text) _ (initRcChanges_leaves setting (readOptions arguments))
        superuserChanges_leaves
      exact ⟨text, rfl, edits ramdisk content goesOn⟩

theorem changes_initRc_old :
    (run (Ramdisk.act completeTools) (changes oldSetting []) true oldRamdisk).state.files
        "init.rc".toList =
      some ("on init\n    chmod 0755 /sbin\n".toList ++
        "service su /sbin/su --daemon\n\tclass main\n\tseclabel u:r:kernel:s0\n\n\n".toList) := by
  obtain ⟨text, same, final⟩ := @changes_initRc Unit completeTools oldSetting [] oldRamdisk
    oldSetting_names (by decide +kernel)
  have initially : oldRamdisk.files "init.rc".toList = some "on init\n".toList := by
    decide +kernel
  cases initially.symm.trans same
  exact final.trans (by decide +kernel)

/-- Where SELinux is not supported, init gets no shorter or longer and has none of the words by
which it finds SELinux; elsewhere it stays. -/
theorem changes_init (setting : Setting) (arguments : List Text) (ramdisk : Ramdisk σ)
    (names : FstabNames setting.fstabs)
    (goesOn : (run (Ramdisk.act tools) (changes setting arguments) true ramdisk).ending ≠
      .stopped) :
    if setting.unsupportedSelinux then
      ∃ old new, ramdisk.files "init".toList = some old ∧
        (run (Ramdisk.act tools) (changes setting arguments) true ramdisk).state.files
          "init".toList = some new ∧
        new.length = old.length ∧ ∀ pair, pair ∈ kernelWords → ¬ pair.1 <:+: new
    else
      (run (Ramdisk.act tools) (changes setting arguments) true ramdisk).state.files
        "init".toList = ramdisk.files "init".toList := by
  have whole : ∀ (content : Option Text) (after : Ramdisk σ → Prop),
      Leaves (Ramdisk.act tools) (Has "init".toList content)
        (kernelChanges setting.unsupportedSelinux) after →
      Leaves (Ramdisk.act tools) after
        (steps (initRcChanges setting.version (readOptions arguments)
          setting.unsupportedSelinux ++ [superuserChanges])) after →
      Leaves (Ramdisk.act tools) (Has "init".toList content) (changes setting arguments)
        after := by
    intro content after edits kept
    refine changes_leaves (kept_of_files (earlyChanges_files setting _) (by decide))
      (fstabChanges_kept names (by decide)) ?_
    rw [laterChanges_eq]
    exact .append (List.cons_ne_nil _ _) (List.cons_ne_nil _ _)
      (.seq samsungChanges_leaves edits) kept
  cases unsupported : setting.unsupportedSelinux with
  | true =>
      rw [if_pos rfl]
      cases content : ramdisk.files "init".toList with
      | none =>
          have stops : Leaves (Ramdisk.act tools) (Has "init".toList none)
              (kernelChanges setting.unsupportedSelinux) (fun _ => False) := by
            rw [unsupported]
            exact kernelChanges_missing _
          exact (whole none _ stops .unreached ramdisk content goesOn).elim
      | some old =>
          have edits : Leaves (Ramdisk.act tools) (Has "init".toList (some old))
              (kernelChanges setting.unsupportedSelinux)
              (Has "init".toList (some (applyAll kernelEdits old))) := by
            rw [unsupported]
            exact kernelChanges_leaves
          have result := kernelEdits_result old
          exact ⟨old, _, rfl, whole _ _ edits (lastChanges_leaves _ _) ramdisk content goesOn,
            result.1, result.2⟩
  | false =>
      have kept : Leaves (Ramdisk.act tools) (Has "init".toList (ramdisk.files "init".toList))
          (kernelChanges setting.unsupportedSelinux)
          (Has "init".toList (ramdisk.files "init".toList)) := by
        rw [unsupported]
        exact .flag nofun fun _ => .idle
      rw [if_neg Bool.false_ne_true]
      exact whole _ _ kept (lastChanges_leaves _ _) ramdisk rfl goesOn

theorem changes_init_old :
    ∃ new, (run (Ramdisk.act completeTools) (changes oldSetting []) true oldRamdisk).state.files
        "init".toList = some new ∧
      new.length = "open %s/enforce\n".toList.length ∧ ¬ "%s/enforce".toList <:+: new := by
  obtain ⟨old, new, same, final, length, gone⟩ := @changes_init Unit completeTools oldSetting []
    oldRamdisk oldSetting_names (by decide +kernel)
  have initially : oldRamdisk.files "init".toList = some "open %s/enforce\n".toList := by
    decide +kernel
  cases initially.symm.trans same
  exact ⟨new, final, length, gone _ List.mem_cons_self⟩

end SuperBootimg.Concrete.Scripts
