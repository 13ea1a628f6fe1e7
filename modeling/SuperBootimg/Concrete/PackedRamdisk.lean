/-
The new ramdisk: the files that addFile has been called for are put behind those of the old
one, and files get overwritten by the last version. What is unpacked from it are the files
as changes.sh has left them, but for the copies of the fstabs.
-/

import SuperBootimg.OverlaidArchive
import SuperBootimg.Concrete.RegisteredEdits
import SuperBootimg.Concrete.RegisteredFiles

namespace SuperBootimg.Concrete.Scripts

open ExitOnError OverlaidArchive
open ExitOnError.Command (steps onlyIf)
open Sepolicy (Text)
open Initramfs (FilePath Paths texts initramfsFiles cpioLines wordsOf firstCalls Distinguished)

/-- `cat cpio-* ramdisk2`, where strip-cpio makes the first files from the old ramdisk, and the
list is INITRAMFS_FILES. -/
def packed (strip : Archive Text Text → List Text → Archive Text Text) (old : Archive Text Text)
    (files : Text → Option Text) (list : Text) : Option (Archive Text Text) :=
  (archived files (cpioLines list)).map (strip old (wordsOf list) ++ ·)

/-! ### The list -/

theorem mem_addedNames {log : List (Entry Action)} {name : Text} :
    name ∈ addedNames log ↔ .addFile name ∈ performed log := by
  unfold addedNames
  rw [List.mem_filterMap]
  constructor
  · rintro ⟨action, done, added⟩
    cases action with
    | addFile other =>
        cases added
        exact done
    | _ => cases added
  · exact fun done => ⟨_, done, rfl⟩

/-- Where no name is taken for another one, strip-cpio and cpio get the names of all calls. -/
theorem list_words {calls : List FilePath} (some : calls ≠ []) (told : Distinguished calls) :
    wordsOf (initramfsFiles calls) = firstCalls (texts calls) ∧
      cpioLines (initramfsFiles calls) = firstCalls (texts calls) := by
  obtain ⟨words, same, paths, state⟩ := Initramfs.initramfsFiles_words calls
  rcases state with ⟨_, rfl⟩ | ⟨violated, _⟩
  · have nonempty : firstCalls (texts calls) ≠ [] := by
      obtain ⟨call, rest, rfl⟩ := List.exists_cons_of_ne_nil some
      have first := ((Initramfs.firstCalls_spec (texts (call :: rest))).2 call.text).mpr
        List.mem_cons_self
      exact List.ne_nil_of_mem first
    rw [same]
    exact ⟨Initramfs.wordsOf_written paths, Initramfs.cpioLines_written nonempty paths⟩
  · exact absurd told violated

/-- Otherwise one of the names is not in the list. -/
theorem distinguished_of_words {calls : List FilePath}
    (words : wordsOf (initramfsFiles calls) = firstCalls (texts calls)) : Distinguished calls := by
  obtain ⟨others, same, paths, state⟩ := Initramfs.initramfsFiles_words calls
  rcases state with ⟨told, _⟩ | ⟨_, call, member, missing, _⟩
  · exact told
  · rw [same, Initramfs.wordsOf_written paths] at words
    rw [words, (Initramfs.firstCalls_spec _).2] at missing
    exact absurd (List.mem_map_of_mem member) missing

/-! ### Files that no call has named -/

section Files

variable {σ : Type} {tools : Tools σ}

theorem writeRevision_answers {act : Action → σ → Bool × σ} (revision : Text) :
    Answers act Action.asks (writeRevision revision) := by
  apply Answers.of_ensured _ (ensures_listed (List.mem_cons_of_mem _ (List.mem_cons_of_mem _
    List.mem_cons_self)))
  intro action possible
  have single : (writeRevision revision).forAll (fun action => decide (action.asks = none ∨
      action.asks = some (.addFile "super-bootimg"))) = true := rfl
  exact of_decide_eq_true (accepts_of_possible single possible)

theorem ramdiskEdits_answers {act : Action → σ → Bool × σ} (setting : Setting)
    (arguments : List Text) (revision : Text) :
    Answers act Action.asks (ramdiskEdits setting arguments revision) :=
  .seq (changes_answers setting arguments) (writeRevision_answers revision)

def Action.isCopy : Action → Bool
  | .copy _ _ => true
  | _ => false

/-- Only fstabs are copied. -/
theorem copied_fstab {setting : Setting} {arguments : List Text} {revision source target : Text}
    (possible : .copy source target ∈ (ramdiskEdits setting arguments revision).possible) :
    ∃ fstab, fstab ∈ setting.fstabs ∧ target = fstab ++ ".orig".toList := by
  have refused : ∀ {command : Command Action},
      command.forAll (fun action => !action.isCopy) = true →
      .copy source target ∉ command.possible := by
    intro command none inside
    cases accepts_of_possible none inside
  obtain ⟨command, member, inside⟩ := Command.mem_possible_steps.mp possible
  rcases List.mem_pair.mp member with rfl | rfl
  · rcases changes_possible inside with early | ⟨fstab, named, edits⟩ | late
    · exact absurd early (refused rfl)
    · refine ⟨fstab, named, ?_⟩
      rcases fstabChange_possible _ edits with same | ⟨edit, same⟩ | same
      · exact (Action.copy.inj same).2
      · cases same
      · cases same
    · exact absurd late (refused rfl)
  · exact absurd inside (refused rfl)

theorem failed_unchanged {action : Action} {ramdisk : Ramdisk σ} {name : Text}
    (failed : (ramdisk.act tools action).1 = false) (notPolicy : name ≠ "sepolicy".toList) :
    (ramdisk.act tools action).2.files name = ramdisk.files name := by
  have rewritten : ∀ source target change, (ramdisk.rewrite source target change).1 = false →
      (ramdisk.rewrite source target change).2 = ramdisk := by
    intro source target change failed
    unfold Ramdisk.rewrite at failed ⊢
    split at failed
    · rfl
    · cases failed
  cases action with
  | inject suffix injection => exact inject_other _ _ notPolicy ramdisk
  | copy source target => exact congrArg (fun after => after.files name) (rewritten _ _ _ failed)
  | sed edit touched => exact congrArg (fun after => after.files name) (rewritten _ _ _ failed)
  | install _ _ | append _ _ | overwrite _ _ => cases failed
  | _ => rfl

/-- A write asks for a call of `addFile` with the same name. -/
theorem asks_of_touches {action : Action} {name : Text} (touched : action.touches = some name)
    (notPolicy : name ≠ "sepolicy".toList) (notCopy : ∀ source, action ≠ .copy source name) :
    action.asks = some (.addFile name) := by
  cases action with
  | inject suffix injection => exact absurd (Option.some.inj touched).symm notPolicy
  | copy source target => exact absurd (congrArg _ (Option.some.inj touched)) (notCopy source)
  | install _ _ | sed _ _ | append _ _ | overwrite _ _ =>
      cases touched
      rfl
  | _ => cases touched

/-- A file that no call has named is as it was. -/
theorem unnamed_kept {setting : Setting} {arguments : List Text} {revision : Text}
    {ramdisk : Ramdisk σ} {name : Text}
    (goesOn : (run (Ramdisk.act tools) (ramdiskEdits setting arguments revision) true
      ramdisk).ending ≠ .stopped)
    (unnamed : .addFile name ∉ performed (run (Ramdisk.act tools)
      (ramdiskEdits setting arguments revision) true ramdisk).log)
    (notPolicy : name ≠ "sepolicy".toList)
    (notCopy : ∀ fstab, fstab ∈ setting.fstabs → name ≠ fstab ++ ".orig".toList) :
    (run (Ramdisk.act tools) (ramdiskEdits setting arguments revision) true
      ramdisk).state.files name = ramdisk.files name := by
  have leads := @leads_run _ _ (Ramdisk.act tools) (ramdiskEdits setting arguments revision) true
    ramdisk
  refine @Leads.invariant _ _ _ (Has name (ramdisk.files name)) _ _ _ leads ?_ rfl
  intro entry logged before success has
  cases succeeded : entry.success with
  | false =>
      rw [succeeded] at success
      exact (failed_unchanged success.symm notPolicy).trans has
  | true =>
      have done : entry.action ∈ performed (run (Ramdisk.act tools)
          (ramdiskEdits setting arguments revision) true ramdisk).log :=
        List.mem_map_of_mem (List.mem_filter.mpr ⟨logged, succeeded⟩)
      refine (act_untouched (fun touched => ?_) before).trans has
      apply unnamed
      apply ramdiskEdits_answers setting arguments revision ramdisk goesOn _ done
      apply asks_of_touches touched notPolicy
      intro source same
      have possible := mem_possible_of_performed done
      rw [same] at possible
      obtain ⟨fstab, member, copied⟩ := copied_fstab possible
      exact notCopy fstab member copied

/-- The list behind a run that goes on is that of some calls, which name what is registered. -/
theorem registered_calls {setting : Setting} {arguments : List Text} {revision : Text}
    {ramdisk : Ramdisk σ} (fstabNames : FstabNames setting.fstabs) (paths : Paths setting.fstabs)
    (goesOn : (run (Ramdisk.act tools) (ramdiskEdits setting arguments revision) true
      ramdisk).ending ≠ .stopped) :
    ∃ calls : List FilePath, calls ≠ [] ∧
      initramfsFiles calls = initramfsList (run (Ramdisk.act tools)
        (ramdiskEdits setting arguments revision) true ramdisk).log ∧
      firstCalls (texts calls) = firstCalls (registeredFiles setting.unsupportedSelinux
        setting.fstabs (readOptions arguments) ramdisk.files) := by
  have same := registeredFiles_called setting arguments revision ramdisk fstabNames goesOn
  have named : Paths (addedNames (run (Ramdisk.act tools) (ramdiskEdits setting arguments
      revision) true ramdisk).log) := by
    intro name member
    rw [← (Initramfs.firstCalls_spec _).2, same, (Initramfs.firstCalls_spec _).2] at member
    exact paths_registered paths name member
  obtain ⟨calls, called⟩ := exists_calls named
  rw [← called] at same
  refine ⟨calls, ?_, ?_, same⟩
  · rintro rfl
    have su : "sbin/su".toList ∈ registeredFiles setting.unsupportedSelinux setting.fstabs
        (readOptions arguments) ramdisk.files := List.mem_cons_self
    rw [← (Initramfs.firstCalls_spec _).2, ← same] at su
    cases su
  · unfold initramfsList
    rw [← called]
    exact List.foldl_map.symm

/-- INITRAMFS_FILES has the registered names, each of them once and in their order, if and only if
grep does not find one of them in those before it. Where no fstab is edited, it never does. -/
theorem initramfs_list_iff (setting : Setting) (arguments : List Text) (revision : Text)
    (ramdisk : Ramdisk σ) (fstabNames : FstabNames setting.fstabs) (paths : Paths setting.fstabs)
    (edited : Run (Ramdisk σ) Action)
    (ran : run (Ramdisk.act tools) (ramdiskEdits setting arguments revision) true ramdisk = edited)
    (goesOn : edited.ending ≠ .stopped)
    (names : List Text)
    (registered : registeredFiles setting.unsupportedSelinux setting.fstabs
      (readOptions arguments) ramdisk.files = names) :
    (wordsOf (initramfsList edited.log) = firstCalls names ↔
      toldApart [] (firstCalls names) = true) ∧
    (editsFstabs (readOptions arguments) = false →
      wordsOf (initramfsList edited.log) = firstCalls names) := by
  subst ran registered
  obtain ⟨calls, some, list, same⟩ := @registered_calls σ tools _ _ revision _ fstabNames
    paths goesOn
  rw [← list, ← same]
  have listed_iff : wordsOf (initramfsFiles calls) = firstCalls (texts calls) ↔
      toldApart [] (firstCalls (texts calls)) = true := by
    rw [← distinguished_iff]
    exact ⟨distinguished_of_words, fun told => (list_words some told).1⟩
  refine ⟨listed_iff, fun untouched => listed_iff.mpr ?_⟩
  rw [same]
  exact toldApart_registered _ _ _ _ untouched

theorem oldSetting_paths : Paths oldSetting.fstabs := by
  intro name member
  rw [List.mem_singleton.mp member]
  exact path_of rfl rfl rfl

theorem initramfs_list_old :
    wordsOf (initramfsList (run (Ramdisk.act completeTools)
        (ramdiskEdits oldSetting ["nocrypt".toList] "1") true oldRamdisk).log) =
      ["sbin/su".toList, "fstab.x".toList, "init".toList, "xxenforce".toList, "init.rc".toList,
        "super-bootimg".toList] := by
  have list := @initramfs_list_iff Unit completeTools oldSetting ["nocrypt".toList] "1" oldRamdisk
    oldSetting_names oldSetting_paths _ rfl (by decide +kernel) _ rfl
  exact (list.1.mpr (by decide +kernel)).trans (by decide +kernel)

/-- The new ramdisk is made. A file that is registered comes from the scripts, and any other one
from the old ramdisk. -/
theorem packed_ramdisk {setting : Setting} {arguments : List Text} {revision : Text}
    {ramdisk : Ramdisk σ} {old : Archive Text Text}
    {strip : Archive Text Text → List Text → Archive Text Text}
    (keeps : ∀ names name, name ∉ names → unpacked (strip old names) name = unpacked old name)
    (fstabNames : FstabNames setting.fstabs) (paths : Paths setting.fstabs)
    (goesOn : (run (Ramdisk.act tools) (ramdiskEdits setting arguments revision) true
      ramdisk).ending ≠ .stopped)
    (told : editsFstabs (readOptions arguments) = true → toldApart [] (firstCalls
      (registeredFiles setting.unsupportedSelinux setting.fstabs (readOptions arguments)
        ramdisk.files)) = true) :
    ∃ new, packed strip old (run (Ramdisk.act tools) (ramdiskEdits setting arguments revision)
        true ramdisk).state.files (initramfsList (run (Ramdisk.act tools)
          (ramdiskEdits setting arguments revision) true ramdisk).log) = some new ∧
      ∀ name, unpacked new name =
        if name ∈ registeredFiles setting.unsupportedSelinux setting.fstabs
          (readOptions arguments) ramdisk.files then
          (run (Ramdisk.act tools) (ramdiskEdits setting arguments revision) true
            ramdisk).state.files name
        else unpacked old name := by
  obtain ⟨calls, some, list, same⟩ := @registered_calls σ tools _ _ revision _ fstabNames
    paths goesOn
  have distinguished : Distinguished calls := by
    rw [distinguished_iff, same]
    cases edits : editsFstabs (readOptions arguments) with
    | true => exact told edits
    | false => exact toldApart_registered _ _ _ _ edits
  obtain ⟨words, lines⟩ := list_words some distinguished
  rw [same, list] at words lines
  have inside := (Initramfs.firstCalls_spec (registeredFiles setting.unsupportedSelinux
    setting.fstabs (readOptions arguments) ramdisk.files)).2
  have there : (archived (run (Ramdisk.act tools) (ramdiskEdits setting arguments revision) true
      ramdisk).state.files (cpioLines (initramfsList (run (Ramdisk.act tools)
        (ramdiskEdits setting arguments revision) true ramdisk).log))).isSome = true := by
    apply archived_isSome
    intro name member
    rw [lines, inside] at member
    exact registered_there setting arguments revision ramdisk goesOn member
  obtain ⟨added, archive⟩ := Option.isSome_iff_exists.mp there
  refine ⟨_, Option.map_eq_some_iff.mpr ⟨added, archive, rfl⟩, fun name => ?_⟩
  rw [unpacked_update archive, words, lines]
  by_cases named : name ∈ registeredFiles setting.unsupportedSelinux setting.fstabs
      (readOptions arguments) ramdisk.files
  · rw [if_pos ((inside name).mpr named), if_pos named]
  · have unlisted := mt (inside name).mp named
    rw [if_neg unlisted, if_neg named, keeps _ _ unlisted]

/-- Where grep tells the registered names apart, nothing is lost on the way into the new ramdisk
but edits of a policy that is not registered, and the copies of the fstabs: any other file is
as the scripts have left it. -/
theorem new_ramdisk (setting : Setting) (arguments : List Text) (revision : Text)
    (ramdisk : Ramdisk σ) (old : Archive Text Text)
    (strip : Archive Text Text → List Text → Archive Text Text)
    (keeps : ∀ names name, name ∉ names → unpacked (strip old names) name = unpacked old name)
    (initially : ramdisk.files = unpacked old)
    (fstabNames : FstabNames setting.fstabs) (paths : Paths setting.fstabs)
    (edited : Run (Ramdisk σ) Action)
    (ran : run (Ramdisk.act tools) (ramdiskEdits setting arguments revision) true ramdisk = edited)
    (goesOn : edited.ending ≠ .stopped)
    (names : List Text)
    (registered : registeredFiles setting.unsupportedSelinux setting.fstabs
      (readOptions arguments) ramdisk.files = names)
    (told : editsFstabs (readOptions arguments) = true → toldApart [] (firstCalls names) = true) :
    ∃ new, packed strip old edited.state.files (initramfsList edited.log) = some new ∧
      ∀ name, (name = "sepolicy".toList → name ∈ names) →
        (∀ fstab, fstab ∈ setting.fstabs → name ≠ fstab ++ ".orig".toList) →
        unpacked new name = edited.state.files name := by
  subst ran registered
  obtain ⟨new, made, unpacks⟩ := packed_ramdisk keeps fstabNames paths goesOn told
  refine ⟨new, made, fun name policy notCopy => ?_⟩
  rw [unpacks]
  by_cases named : name ∈ registeredFiles setting.unsupportedSelinux setting.fstabs
      (readOptions arguments) ramdisk.files
  · rw [if_pos named]
  · rw [if_neg named, ← initially]
    have unnamed : .addFile name ∉ performed (run (Ramdisk.act tools)
        (ramdiskEdits setting arguments revision) true ramdisk).log := by
      rw [← mem_addedNames, ← (Initramfs.firstCalls_spec _).2,
        registeredFiles_called setting arguments revision ramdisk fstabNames goesOn,
        (Initramfs.firstCalls_spec _).2]
      exact named
    exact (unnamed_kept goesOn unnamed (mt policy named) notCopy).symm

def stripNamed (old : Archive Text Text) (names : List Text) : Archive Text Text :=
  old.filter fun entry => !names.contains entry.1

theorem stripNamed_keeps (old : Archive Text Text) (names : List Text) (name : Text)
    (other : name ∉ names) : unpacked (stripNamed old names) name = unpacked old name := by
  apply unpacked_filter
  intro content
  rw [Bool.not_eq_true']
  exact Bool.eq_false_iff.mpr fun inside => other (List.contains_iff_mem.mp inside)

theorem new_ramdisk_old :
    ∃ new, packed stripNamed oldFiles (run (Ramdisk.act completeTools)
        (ramdiskEdits oldSetting ["nocrypt".toList] "1") true
          ⟨unpacked oldFiles, ()⟩).state.files (initramfsList (run (Ramdisk.act completeTools)
        (ramdiskEdits oldSetting ["nocrypt".toList] "1") true
          ⟨unpacked oldFiles, ()⟩).log) = some new ∧
      unpacked new "fstab.x".toList = some "d /data ext4 rw wait\n".toList ∧
      unpacked new "default.prop".toList = some "ro.secure=1\n".toList := by
  obtain ⟨new, made, unpacks⟩ := @new_ramdisk Unit completeTools oldSetting ["nocrypt".toList] "1"
    ⟨unpacked oldFiles, ()⟩ oldFiles stripNamed (stripNamed_keeps oldFiles) rfl oldSetting_names
    oldSetting_paths _ rfl (by decide +kernel) _ rfl (fun _ => by decide +kernel)
  exact ⟨new, made, (unpacks "fstab.x".toList (by decide) (by decide)).trans (by decide +kernel),
    (unpacks "default.prop".toList (by decide) (by decide)).trans (by decide +kernel)⟩

end Files

end SuperBootimg.Concrete.Scripts
