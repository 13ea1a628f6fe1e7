/-
Where update-binary.sh writes to the partition: in one command, behind a run of bootimg.sh
that has gone on to its end. The simple commands may do anything.
-/

import SuperBootimg.Concrete.BootimgScript
import SuperBootimg.Concrete.PolicyRuns

namespace SuperBootimg.Concrete.Scripts

open ExitOnError
open ExitOnError.Command (steps forEach onlyIf ensures_steps)
open Sepolicy (Text)

/-! ### Commands that leave the images alone -/

/-- The partition, the extracted files and new-boot.img stay as they are. -/
def Action.leavesImages : Action → Bool
  | .enterExtracted | .leaveExtracted | .extract | .compress _ | .repack | .copyHome
  | .customPatch | .appendTrailer | .removeInstaller | .flash _ => false
  | _ => true

def Action.leavesPartition : Action → Bool
  | .flash _ => false
  | _ => true

/-- The commands of changes.sh and those for the revision. -/
def Action.editsRamdisk : Action → Bool
  | .inject _ _ | .addFile _ | .isFile _ | .install _ _ | .copy _ _ | .chmod _ _ | .sed _ _
  | .append _ _ | .overwrite _ _ | .hasRevision | .readRevision _ => true
  | _ => false

theorem fstabChanges_editsRamdisk (modes : Modes) (fstabs : List Text) :
    (fstabChanges modes fstabs).forAll Action.editsRamdisk = true := by
  have loop : (forEach fstabs (fstabChange modes)).forAll Action.editsRamdisk = true := by
    apply Command.forAll_steps
    intro command member
    obtain ⟨name, _, rfl⟩ := List.mem_map.mp member
    rfl
  unfold fstabChanges onlyIf Command.forAll
  rw [loop]
  rfl

theorem changes_editsRamdisk (setting : Setting) (arguments : List Text) :
    (changes setting arguments).forAll Action.editsRamdisk = true := by
  have split : (changes setting arguments).forAll Action.editsRamdisk =
      ((fstabChanges (readOptions arguments) setting.fstabs).forAll Action.editsRamdisk &&
        (steps (laterChanges setting (readOptions arguments))).forAll Action.editsRamdisk) := rfl
  rw [split, fstabChanges_editsRamdisk]
  rfl

theorem leavesImages_of_edits (action : Action) (edits : action.editsRamdisk = true) :
    action.leavesImages = true := by
  cases action with
  | enterExtracted | leaveExtracted | extract | compress _ | repack | copyHome | customPatch
  | appendTrailer | removeInstaller | flash _ => cases edits
  | _ => rfl

theorem changes_leavesImages (setting : Setting) (arguments : List Text) :
    (changes setting arguments).forAll Action.leavesImages = true :=
  Command.forAll_mono leavesImages_of_edits (changes_editsRamdisk setting arguments)

/-! ### Where the partition is written -/

theorem startBootImgEdit_leavesPartition {following : Bool → Text → Command Action}
    (leaves : ∀ chromeos architecture,
      (following chromeos architecture).forAll Action.leavesPartition = true) :
    (startBootImgEdit following).forAll Action.leavesPartition = true := by
  have split : (startBootImgEdit following).forAll Action.leavesPartition =
      (((following true "x86").forAll Action.leavesPartition &&
        (following true "arm").forAll Action.leavesPartition) &&
      ((following false "x86").forAll Action.leavesPartition &&
        (following false "arm").forAll Action.leavesPartition)) := rfl
  rw [split, leaves, leaves, leaves, leaves]
  rfl

theorem detectVersion_leavesPartition {following : Version → Command Action}
    (leaves : ∀ version, (following version).forAll Action.leavesPartition = true) :
    (detectVersion following).forAll Action.leavesPartition = true := by
  unfold detectVersion
  simp only [Command.forAll, leaves]
  rfl

theorem bootimg_leavesPartition (surroundings : Surroundings) (options : List Text) :
    (bootimg surroundings options).forAll Action.leavesPartition = true := by
  have weakens : ∀ action : Action, action.leavesImages = true → action.leavesPartition = true := by
    intro action leaves
    cases action with
    | flash devices => cases leaves
    | _ => rfl
  refine Bool.and_eq_true_iff.mpr ⟨rfl, startBootImgEdit_leavesPartition
    fun chromeos architecture => detectVersion_leavesPartition fun version => ?_⟩
  exact Bool.and_eq_true_iff.mpr
    ⟨Command.forAll_mono weakens (changes_leavesImages _ options), rfl⟩

def preparing : List (Command Action) := [
  .simple (.prepare "readlink /proc/self/fd"),
  .simple (.uiPrint "Installing seSuperuser..."),
  .simple .removeInstaller,
  .simple (.prepare "mkdir -p /tmp/superuser"),
  .simple (.prepare "unzip -o $3 -d /tmp/superuser/"),
  .simple (.prepare "cat /tmp/superuser/config.txt"),
  .simple (.prepare "cd /tmp/superuser/scripts/su/")]

def generating (surroundings : Surroundings) (modes : List Text) (devices : Text) :
    List (Command Action) := [
  .simple (.uiPrint "seSuperuser: Found bootimg"),
  .child (bootimg surroundings
    ((FieldSplitting.fields Sepolicy.isBlank devices).drop 1 ++ modes)),
  .simple (.uiPrint "seSuperuser: Generated new-boot.img")]

def flashing (devices : Text) : List (Command Action) := [
  .simple (.flash (FieldSplitting.fields Sepolicy.isBlank devices)),
  .simple (.uiPrint "seSuperuser: Successfully flashed root-ed boot.img")]

theorem updateBinary_found {surroundings : Surroundings} {modes : List Text}
    {fstab devices : Text} (found : Installer.bootimg fstab = some devices) :
    updateBinary surroundings modes fstab =
      steps ((preparing ++ generating surroundings modes devices) ++ flashing devices) := by
  unfold updateBinary
  rw [found]
  rfl

theorem updateBinary_missing {surroundings : Surroundings} {modes : List Text} {fstab : Text}
    (missing : Installer.bootimg fstab = none) :
    updateBinary surroundings modes fstab = steps (preparing ++ [.exit]) := by
  unfold updateBinary
  rw [missing]
  rfl

theorem preparing_leavesPartition :
    preparing.all (fun command => command.forAll Action.leavesPartition) = true := rfl

theorem missing_leavesPartition :
    (steps (preparing ++ [.exit])).forAll Action.leavesPartition = true := by
  apply Command.forAll_steps
  intro command member
  rcases List.mem_append.mp member with early | late
  · exact List.all_eq_true.mp preparing_leavesPartition command early
  · rw [List.mem_singleton.mp late]
    rfl

theorem generating_leavesPartition (surroundings : Surroundings) (modes : List Text)
    (devices : Text) :
    (steps (preparing ++ generating surroundings modes devices)).forAll Action.leavesPartition =
      true := by
  apply Command.forAll_steps
  intro command member
  rcases List.mem_append.mp member with early | late
  · exact List.all_eq_true.mp preparing_leavesPartition command early
  · simp only [generating, List.mem_cons, List.not_mem_nil, or_false] at late
    rcases late with rfl | rfl | rfl
    · rfl
    · exact bootimg_leavesPartition surroundings _
    · rfl

/-! ### What precedes the writing -/

section Precedes

variable {accepts : Action → Bool}

theorem startBootImgEdit_ensures {following : Bool → Text → Command Action}
    (each : ∀ chromeos architecture, (following chromeos architecture).ensures accepts = true) :
    (startBootImgEdit following).ensures accepts = true := by
  have unpacked : ∀ chromeos,
      (startBootImgEdit.ramdisk (following chromeos)).ensures accepts = true := by
    intro chromeos
    have tested : (Command.conditional (.simple .isIntel) (following chromeos "x86")
        (following chromeos "arm")).ensures accepts = true := by
      unfold Command.ensures
      rw [each, each]
      rfl
    exact ensures_steps (List.mem_cons_of_mem _ (List.mem_cons_of_mem _ List.mem_cons_self)) tested
  have tested : (Command.conditional (.simple (.isExtracted .chromeos))
      (startBootImgEdit.ramdisk (following true))
      (startBootImgEdit.ramdisk (following false))).ensures accepts = true := by
    unfold Command.ensures
    rw [unpacked, unpacked]
    rfl
  exact ensures_steps (List.mem_cons_of_mem _ (List.mem_cons_of_mem _
    (List.mem_cons_of_mem _ List.mem_cons_self))) tested

theorem detectVersion_ensures {following : Version → Command Action}
    (each : ∀ version, (following version).ensures accepts = true) :
    (detectVersion following).ensures accepts = true := by
  simp only [detectVersion, Command.ensures, each, Bool.true_and, Bool.true_or]

theorem bootimg_ensures (done : doneBootImgEdit.ensures accepts = true)
    (surroundings : Surroundings) (options : List Text) :
    (bootimg surroundings options).ensures accepts = true := by
  refine ensures_steps (List.mem_cons_of_mem _ List.mem_cons_self)
    (startBootImgEdit_ensures fun chromeos architecture =>
      detectVersion_ensures fun version => ?_)
  exact ensures_steps (List.mem_cons_of_mem _ (List.mem_cons_of_mem _ List.mem_cons_self)) done

theorem bootimg_ensures_extract (surroundings : Surroundings) (options : List Text) :
    (bootimg surroundings options).ensures (fun action => decide (action = .extract)) = true := by
  refine ensures_steps (List.mem_cons_of_mem _ List.mem_cons_self) ?_
  exact ensures_steps (List.mem_cons_of_mem _ (List.mem_cons_of_mem _ List.mem_cons_self)) rfl

/-- What bootimg.sh ensures, update-binary.sh has done before it writes. -/
theorem generating_ensures {surroundings : Surroundings}
    (inside : ∀ options, (bootimg surroundings options).ensures accepts = true)
    (modes : List Text) (devices : Text) :
    (steps (preparing ++ generating surroundings modes devices)).ensures accepts = true := by
  refine ensures_steps (List.mem_append_right _ (List.mem_cons_of_mem _ List.mem_cons_self)) ?_
  exact inside _

theorem ensures_performed_append {σ : Type} {act : Action → σ → Bool × σ}
    {command : Command Action} {state : σ} (ensured : command.ensures accepts = true)
    (goesOn : (run act command true state).ending ≠ .stopped) (others : List (Entry Action)) :
    ∃ action, accepts action = true ∧
      action ∈ performed ((run act command true state).log ++ others) := by
  obtain ⟨action, done, accepted⟩ := ensures_performed ensured goesOn
  refine ⟨action, accepted, ?_⟩
  unfold performed at done ⊢
  rw [List.filter_append, List.map_append]
  exact List.mem_append_left _ done

def Action.isCompress : Action → Bool
  | .compress _ => true
  | _ => false

/-- The commands in front of `dd` have been gone through when it is reached. -/
theorem split_at_flash {σ : Type} {act : Action → σ → Bool × σ} {surroundings : Surroundings}
    {modes : List Text} {fstab : Text} {state : σ} {before after : List (Entry Action)}
    {entry : Entry Action} {devices : List Text}
    (split : (run act (updateBinary surroundings modes fstab) true state).log =
      before ++ entry :: after)
    (writes : entry.action = .flash devices) :
    ∃ text middle, Installer.bootimg fstab = some text ∧
      devices = FieldSplitting.fields Sepolicy.isBlank text ∧
      (run act (steps (preparing ++ generating surroundings modes text)) true state).ending ≠
        .stopped ∧
      before = (run act (steps (preparing ++ generating surroundings modes text)) true
        state).log ++ middle := by
  have refused : ∀ {command : Command Action} {state : σ},
      command.forAll Action.leavesPartition = true →
      entry ∉ (run act command true state).log := by
    intro command state leaves logged
    have other := accepts_of_possible leaves (mem_possible logged)
    rw [writes] at other
    cases other
  cases found : Installer.bootimg fstab with
  | none =>
      rw [updateBinary_missing found] at split
      have logged := @List.mem_append_right _ _ before (entry :: after) List.mem_cons_self
      rw [← split] at logged
      exact absurd logged (refused missing_leavesPartition)
  | some text =>
      have early : preparing ++ generating surroundings modes text ≠ [] :=
        List.append_ne_nil_of_left_ne_nil (List.cons_ne_nil _ _) _
      have behind : flashing text ≠ [] := List.cons_ne_nil _ _
      rw [updateBinary_found found, run_steps_append early behind] at split
      obtain ⟨success, middle, ended, same, rest⟩ := Run.next_split split
        (refused (generating_leavesPartition surroundings modes text))
      have late : entry ∈ (run act (steps (flashing text)) true (run act (steps
          (preparing ++ generating surroundings modes text)) true state).state).log := by
        rw [rest]
        exact List.mem_append_right _ List.mem_cons_self
      have possible := mem_possible late
      rw [writes] at possible
      simp only [flashing, steps, Command.possible, List.mem_append, List.mem_singleton,
        Action.flash.injEq, reduceCtorEq, or_false] at possible
      refine ⟨text, middle, rfl, possible, ?_, same⟩
      rw [ended]
      intro stopped
      cases stopped

/-- A device is written only behind a run without a fatal failure in which the image has been
taken apart, compressed, built and copied, and only one that the two greps print of the
recovery's fstab. -/
theorem written_after_success {σ : Type} (act : Action → σ → Bool × σ)
    (surroundings : Surroundings) (modes : List Text) (fstab : Text) (state : σ)
    (before after : List (Entry Action)) (entry : Entry Action) (devices : List Text)
    (split : (run act (updateBinary surroundings modes fstab) true state).log =
      before ++ entry :: after)
    (writes : entry.action = .flash devices) :
    (∃ text, Installer.bootimg fstab = some text ∧
        devices = FieldSplitting.fields Sepolicy.isBlank text) ∧
      (∀ earlier, earlier ∈ before → earlier.checked = true → earlier.success = true) ∧
      .extract ∈ performed before ∧ (∃ compression, .compress compression ∈ performed before) ∧
      .repack ∈ performed before ∧ .copyHome ∈ performed before := by
  obtain ⟨text, middle, found, listed, goesOn, rfl⟩ := split_at_flash split writes
  have done : ∀ accepts : Action → Bool,
      (∀ options, (bootimg surroundings options).ensures accepts = true) →
      ∃ action, accepts action = true ∧ action ∈ performed ((run act (steps (preparing ++
        generating surroundings modes text)) true state).log ++ middle) :=
    fun _ inside => ensures_performed_append (generating_ensures inside modes text) goesOn middle
  have exactly : ∀ action,
      (∀ options, (bootimg surroundings options).ensures (fun other =>
        decide (other = action)) = true) →
      action ∈ performed ((run act (steps (preparing ++ generating surroundings modes text)) true
        state).log ++ middle) := by
    intro action inside
    obtain ⟨other, same, performed⟩ := done _ inside
    cases of_decide_eq_true same
    exact performed
  refine ⟨⟨text, found, listed⟩, fun earlier => success_before split,
    exactly _ (bootimg_ensures_extract surroundings), ?_,
    exactly _ (bootimg_ensures rfl surroundings), exactly _ (bootimg_ensures rfl surroundings)⟩
  obtain ⟨action, compresses, performed⟩ :=
    done Action.isCompress (bootimg_ensures rfl surroundings)
  cases action with
  | compress compression => exact ⟨compression, performed⟩
  | _ => cases compresses

def plainSurroundings : Surroundings :=
  { keystore := false, revision := [], unsupportedSelinux := false, fstabs := [] }

def bootFstab : Text :=
  "/dev/block/mmcblk0p21 /mnt/boot ext4\n".toList

theorem written_after_success_once :
    ∃ before entry after,
      (run succeeding (updateBinary plainSurroundings [] bootFstab) true ()).log =
        before ++ entry :: after ∧ .repack ∈ performed before := by
  have found : Installer.bootimg bootFstab = some "/dev/block/mmcblk0p21".toList := by
    decide +kernel
  have goesOn : (run succeeding (updateBinary plainSurroundings [] bootFstab) true ()).ending ≠
      .stopped := by
    decide +kernel
  have ensured : (updateBinary plainSurroundings [] bootFstab).ensures
      (fun action => !action.leavesPartition) = true := by
    rw [updateBinary_found found]
    exact ensures_steps (List.mem_append_right _ List.mem_cons_self) rfl
  obtain ⟨action, performed, writes⟩ := ensures_performed ensured goesOn
  obtain ⟨entry, logged, rfl⟩ := List.mem_map.mp performed
  obtain ⟨before, after, split⟩ := List.append_of_mem (List.mem_filter.mp logged).1
  cases named : entry.action with
  | flash devices =>
      exact ⟨before, entry, after, split, (written_after_success succeeding plainSurroundings []
        bootFstab () before after entry devices split named).2.2.2.2.1⟩
  | _ =>
      rw [named] at writes
      cases writes

end Precedes

end SuperBootimg.Concrete.Scripts
