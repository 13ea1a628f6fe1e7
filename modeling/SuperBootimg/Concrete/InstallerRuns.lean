/-
One installation, from stage to stage: what holds of the partition, the extracted files and
new-boot.img where a run goes on, and of the partition wherever it ends.
-/

import SuperBootimg.ConditionedRuns
import SuperBootimg.Concrete.EditedImage
import SuperBootimg.Concrete.InstallerMachine
import SuperBootimg.Concrete.WrittenPartition

namespace SuperBootimg.Concrete.Scripts

open ByteImage ExitOnError
open Extract (pageOf)
open ExitOnError.Command (steps forEach onlyIf)
open Sepolicy (Text)

/-! ### Commands of the machine -/

section Act

variable {ρ : Type} {abi : Abi} {platform : Platform abi} {programs : Programs ρ}

theorem readRamdisk_leavesImages (action : Action) (compression : Compression)
    (machine : Machine ρ) :
    (machine.readRamdisk programs action compression).2.partition = machine.partition ∧
      (machine.readRamdisk programs action compression).2.extracted = machine.extracted ∧
      (machine.readRamdisk programs action compression).2.newBoot = machine.newBoot := by
  unfold Machine.readRamdisk
  cases machine.extracted.openRead compression.fileName with
  | none => exact ⟨rfl, rfl, rfl⟩
  | some bytes => exact ⟨rfl, rfl, rfl⟩

theorem act_leavesImages {action : Action} (leaves : action.leavesImages = true)
    (machine : Machine ρ) :
    (machine.act platform programs action).2.partition = machine.partition ∧
      (machine.act platform programs action).2.extracted = machine.extracted ∧
      (machine.act platform programs action).2.newBoot = machine.newBoot := by
  cases action with
  | unpack compression => exact readRamdisk_leavesImages _ _ _
  | decompress compression => exact readRamdisk_leavesImages _ _ _
  | enterExtracted | leaveExtracted | extract | compress _ | repack | copyHome | customPatch
  | appendTrailer | removeInstaller | flash _ => cases leaves
  | _ => exact ⟨rfl, rfl, rfl⟩

theorem act_leavesPartition {action : Action} (leaves : action.leavesPartition = true)
    (machine : Machine ρ) :
    (machine.act platform programs action).2.partition = machine.partition := by
  cases other : action.leavesImages with
  | true => exact (act_leavesImages other machine).1
  | false =>
      cases action with
      | flash devices => cases leaves
      | copyHome =>
          unfold Machine.act
          cases machine.extracted.openRead .newBoot <;> rfl
      | customPatch =>
          unfold Machine.act
          cases machine.newBoot <;> rfl
      | enterExtracted | leaveExtracted | extract | compress _ | repack | appendTrailer
      | removeInstaller => rfl
      | _ => cases other

end Act

/-! ### From one stage of bootimg.sh to the next -/

section Stages

variable {ρ : Type} {abi : Abi} {platform : Platform abi} {programs : Programs ρ}
  (image : List UInt8) (base : Nat) (parts : Parts)
  (New : List UInt8 → FileName → Prop)

/-- A new ramdisk with which the image stays below 2^31 bytes. -/
structure Buildable (payload : List UInt8) (name : FileName) : Prop where
  named : PayloadName payload name
  total : (parts.withRamdisk payload name).length (pageOf image base) < 2147483648

/-- The compressors keep to their formats, and nothing else patches the new image. -/
structure Programs.Suit (programs : Programs ρ) : Prop where
  named : ∀ compression other, (programs.compress compression other).1 = true →
    PayloadName (programs.compress compression other).2 compression.fileName
  unpatched : ∀ other, (programs.act .hasCustomPatch other).1 = false

structure Started (machine : Machine ρ) : Prop where
  partition : machine.partition = image

structure TakenApart (machine : Machine ρ) : Prop extends Started image machine where
  extracted : ∃ secure chromeos, machine.extracted = parts.files secure chromeos

structure Recompressed (machine : Machine ρ) : Prop extends Started image machine where
  extracted : ∃ secure chromeos payload name, New payload name ∧
    machine.extracted = parts.edited secure chromeos payload

structure Repacked (machine : Machine ρ) : Prop extends Started image machine where
  extracted : ∃ payload name, New payload name ∧ machine.extracted.openRead .newBoot =
    some ((parts.withRamdisk payload name).built image base)

structure Copied (trailers : List (List UInt8)) (machine : Machine ρ) : Prop
    extends Started image machine where
  newBoot : ∃ payload name trailer, New payload name ∧ trailer ∈ trailers ∧
    machine.newBoot = some ((parts.withRamdisk payload name).built image base ++ trailer)

/-! ### What the ramdisk goes through -/

def Surroundings.setting (surroundings : Surroundings) (version : Version)
    (architecture : Text) : Setting :=
  { version := version
    architecture := architecture
    unsupportedSelinux := surroundings.unsupportedSelinux
    fstabs := surroundings.fstabs }

def unpacking : Command Action :=
  steps [
    .simple .enterRamdisk,
    .conditional (.simple (.isExtracted .ramdiskGz)) (unpackRamdisk .gz)
      (.conditional (.simple (.isExtracted .ramdiskLzma)) (unpackRamdisk .lzma)
        (steps [.simple .leaveExtracted, .exit]))]

def archiving : Command Action :=
  steps [.simple .touchAll, .simple .archive, .simple .removeStripped, .simple .strip,
    .simple .concatenate, .simple .touchArchive]

/-- The commands by which bootimg.sh finds out about the ramdisk. -/
def Action.isQuery : Action → Bool
  | .isIntel | .isFile _ | .inject _ (.findClass _) | .inject _ (.findType _) => true
  | _ => false

/-- Conditions between the two tools, from which every new ramdisk comes out as it should. -/
structure Phases (platform : Platform abi) (programs : Programs ρ) (surroundings : Surroundings)
    (options : List Text) (loaded edited packed : Machine ρ → Prop) : Prop where
  loads : Leaves (Machine.act platform programs) (TakenApart image parts) unpacking loaded
  queries : ∀ action : Action, action.isQuery = true → ∀ machine, loaded machine →
    loaded (machine.act platform programs action).2
  edits : ∀ version architecture, Leaves (Machine.act platform programs) loaded
    (steps [changes (surroundings.setting version architecture) options,
      writeRevision surroundings.revision]) edited
  packs : Leaves (Machine.act platform programs) edited archiving packed
  apart : ∀ machine, packed machine → TakenApart image parts machine
  compresses : ∀ compression machine, packed machine →
    (programs.compress compression machine.other).1 = true →
    New (programs.compress compression machine.other).2 compression.fileName

variable {image base parts New}

/-- What depends on the images only is kept by commands that leave them alone. -/
theorem leavesImages_kept {invariant : Machine ρ → Prop}
    (same : ∀ before after : Machine ρ, after.partition = before.partition →
      after.extracted = before.extracted → after.newBoot = before.newBoot → invariant before →
      invariant after) {command : Command Action}
    (leaves : command.forAll Action.leavesImages = true) (action : Action)
    (possible : action ∈ command.possible) (machine : Machine ρ) (holds : invariant machine) :
    invariant (machine.act platform programs action).2 := by
  obtain ⟨partition, extracted, newBoot⟩ := @act_leavesImages ρ abi platform programs action
    (accepts_of_possible leaves possible) machine
  exact same machine _ partition extracted newBoot holds

theorem Started.same (before after : Machine ρ) (partition : after.partition = before.partition)
    (_ : after.extracted = before.extracted) (_ : after.newBoot = before.newBoot)
    (started : Started image before) : Started image after :=
  ⟨partition.trans started.partition⟩

theorem TakenApart.same (before after : Machine ρ)
    (partition : after.partition = before.partition)
    (extracted : after.extracted = before.extracted) (_ : after.newBoot = before.newBoot)
    (apart : TakenApart image parts before) : TakenApart image parts after where
  partition := partition.trans apart.partition
  extracted := by
    rw [extracted]
    exact apart.extracted

theorem Recompressed.same (before after : Machine ρ)
    (partition : after.partition = before.partition)
    (extracted : after.extracted = before.extracted) (_ : after.newBoot = before.newBoot)
    (recompressed : Recompressed image parts New before) : Recompressed image parts New after where
  partition := partition.trans recompressed.partition
  extracted := by
    rw [extracted]
    exact recompressed.extracted

theorem Copied.same {trailers : List (List UInt8)} (before after : Machine ρ)
    (partition : after.partition = before.partition) (_ : after.extracted = before.extracted)
    (newBoot : after.newBoot = before.newBoot)
    (copied : Copied image base parts New trailers before) :
    Copied image base parts New trailers after where
  partition := partition.trans copied.partition
  newBoot := by
    rw [newBoot]
    exact copied.newBoot

/-- A command that leaves the images alone takes no stage further. -/
theorem images_alone {invariant : Machine ρ → Prop}
    (same : ∀ before after : Machine ρ, after.partition = before.partition →
      after.extracted = before.extracted → after.newBoot = before.newBoot → invariant before →
      invariant after) {command : Command Action}
    (leaves : command.forAll Action.leavesImages = true) :
    Leaves (Machine.act platform programs) invariant command invariant :=
  .kept (leavesImages_kept same leaves)

theorem images_tested {invariant after : Machine ρ → Prop}
    (same : ∀ before after : Machine ρ, after.partition = before.partition →
      after.extracted = before.extracted → after.newBoot = before.newBoot → invariant before →
      invariant after) {guard body other : Command Action}
    (leaves : guard.forAll Action.leavesImages = true)
    (bodyLeaves : Leaves (Machine.act platform programs) invariant body after)
    (otherLeaves : Leaves (Machine.act platform programs) invariant other after) :
    Leaves (Machine.act platform programs) invariant (.conditional guard body other) after :=
  .conditional_kept (leavesImages_kept same leaves) bodyLeaves otherLeaves

theorem repack_leaves (complete : platform.Complete) (short : platform.ShortWrites)
    (carries : Carries abi image base parts)
    (small : ∀ payload name, New payload name →
      (parts.withRamdisk payload name).length (pageOf image base) < 2147483648) :
    Leaves (Machine.act platform programs) (Recompressed image parts New) (.simple .repack)
      (Repacked image base parts New) := by
  apply Leaves.simple
  intro machine recompressed _
  obtain ⟨secure, chromeos, payload, name, made, extracted⟩ := recompressed.extracted
  refine { partition := recompressed.partition, extracted := ⟨payload, name, made, ?_⟩ }
  change (repack platform machine.partition machine.extracted).dir.openRead .newBoot = _
  rw [recompressed.partition, extracted, carries.repacked complete short secure chromeos payload
    name (small payload name made)]
  exact Directory.openRead_store_same _ _ _

theorem copyHome_leaves :
    Leaves (Machine.act platform programs) (Repacked image base parts New)
      (.simple .copyHome) (Copied image base parts New [[]]) := by
  apply Leaves.simple
  intro machine repacked _
  obtain ⟨payload, name, made, newBoot⟩ := repacked.extracted
  unfold Machine.act
  simp only [newBoot]
  exact
    { partition := repacked.partition
      newBoot := ⟨payload, name, [], made, List.mem_singleton_self _, by rw [List.append_nil]⟩ }

theorem leaveExtracted_leaves {trailers : List (List UInt8)} :
    Leaves (Machine.act platform programs) (Copied image base parts New trailers)
      (.simple .leaveExtracted) (Copied image base parts New trailers) := by
  apply Leaves.simple
  intro machine copied _
  exact { partition := copied.partition, newBoot := copied.newBoot }

section Phases

variable {surroundings : Surroundings} {options : List Text}
  {loaded edited packed : Machine ρ → Prop}

theorem compress_leaves
    (phases : Phases image parts New platform programs surroundings options loaded edited packed)
    (compression : Compression) :
    Leaves (Machine.act platform programs) packed (.simple (.compress compression))
      (Recompressed image parts New) := by
  apply Leaves.simple
  intro machine holds success
  have apart := phases.apart machine holds
  obtain ⟨secure, chromeos, extracted⟩ := apart.extracted
  exact
    { partition := apart.partition
      extracted := ⟨secure, chromeos, _, _, phases.compresses compression machine holds success,
        congrArg (Directory.store · .ramdiskGz _) extracted⟩ }

theorem doneBootImgEdit_leaves (complete : platform.Complete) (short : platform.ShortWrites)
    (carries : Carries abi image base parts)
    (phases : Phases image parts New platform programs surroundings options loaded edited packed)
    (small : ∀ payload name, New payload name →
      (parts.withRamdisk payload name).length (pageOf image base) < 2147483648) :
    Leaves (Machine.act platform programs) edited doneBootImgEdit
      (Copied image base parts New [[]]) := by
  have compressed : Leaves (Machine.act platform programs) packed
      (.conditional (.simple (.isExtracted .ramdiskGz)) (.simple (.compress .gz))
        (.conditional (.simple (.isExtracted .ramdiskLzma)) (.simple (.compress .lzma)) .exit))
      (Recompressed image parts New) :=
    .conditional (fun _ holds _ => holds) (fun _ holds _ => holds) (compress_leaves phases .gz)
      (.conditional (fun _ holds _ => holds) (fun _ holds _ => holds)
        (compress_leaves phases .lzma) (@Leaves.exit _ _ _ packed _))
  have finished : Leaves (Machine.act platform programs) (Recompressed image parts New)
      (steps [.simple .leaveRamdisk, .simple .repack, .simple .copyHome, .simple .leaveExtracted])
      (Copied image base parts New [[]]) :=
    .seq (images_alone Recompressed.same rfl)
      (.seq (repack_leaves complete short carries small)
        (.seq copyHome_leaves leaveExtracted_leaves))
  have archived : Leaves (Machine.act platform programs) edited (steps [.simple .touchAll,
      .simple .archive, .simple .removeStripped, .simple .strip, .simple .concatenate,
      .simple .touchArchive]) packed := phases.packs
  exact .call (.append (List.cons_ne_nil _ _) (List.cons_ne_nil _ _) archived
    (.seq compressed finished))

/-- Without a patch of its own, bootimg.sh only appends what Samsung phones look for. -/
theorem finishBootImg_leaves
    (unpatched : ∀ other, (programs.act .hasCustomPatch other).1 = false) (signs chromeos : Bool) :
    Leaves (Machine.act platform programs) (Copied image base parts New [[]])
      (steps [onlyIf (.status signs) (.simple .sign), onlyIf (.status chromeos) signChromeos,
        onlyIf (.simple .hasCustomPatch) (.simple .customPatch),
        onlyIf (.simple .isSamsung) (.simple .appendTrailer)])
      (Copied image base parts New [[], samsungTrailer]) := by
  have signed : Leaves (Machine.act platform programs) (Copied image base parts New [[]])
      (onlyIf (.status signs) (.simple .sign)) (Copied image base parts New [[]]) :=
    images_alone Copied.same rfl
  have chromeosSigned : Leaves (Machine.act platform programs)
      (Copied image base parts New [[]]) (onlyIf (.status chromeos) signChromeos)
      (Copied image base parts New [[]]) :=
    images_alone Copied.same rfl
  have patched : Leaves (Machine.act platform programs) (Copied image base parts New [[]])
      (onlyIf (.simple .hasCustomPatch) (.simple .customPatch))
      (Copied image base parts New [[]]) := by
    have never : Leaves (Machine.act platform programs) (fun _ => False) (.simple .customPatch)
        (Copied image base parts New [[]]) := fun _ impossible => impossible.elim
    refine .conditional ?_ ?_ never (.status fun _ copied _ => copied)
    · intro machine _ found
      have absent := unpatched machine.other
      exact Bool.false_ne_true (absent.symm.trans found)
    · intro machine copied _
      exact Copied.same machine _ rfl rfl rfl copied
  have appended : Leaves (Machine.act platform programs) (Copied image base parts New [[]])
      (onlyIf (.simple .isSamsung) (.simple .appendTrailer))
      (Copied image base parts New [[], samsungTrailer]) := by
    refine images_tested Copied.same rfl (.simple ?_) (.status ?_)
    · intro machine copied _
      obtain ⟨payload, name, trailer, made, member, newBoot⟩ := copied.newBoot
      cases List.mem_singleton.mp member
      refine
        { partition := copied.partition
          newBoot := ⟨payload, name, samsungTrailer, made, by simp, ?_⟩ }
      change some (machine.newBoot.getD [] ++ samsungTrailer) = _
      rw [newBoot, List.append_nil]
      rfl
    · intro machine copied _
      obtain ⟨payload, name, trailer, made, member, newBoot⟩ := copied.newBoot
      cases List.mem_singleton.mp member
      exact
        { partition := copied.partition
          newBoot := ⟨payload, name, [], made, by simp, newBoot⟩ }
  exact .seq signed (.seq chromeosSigned (.seq patched appended))

theorem detectVersion_leaves {loaded after : Machine ρ → Prop}
    {following : Version → Command Action}
    (queries : ∀ action : Action, action.isQuery = true → ∀ machine, loaded machine →
      loaded (machine.act platform programs action).2)
    (leaves : ∀ version, Leaves (Machine.act platform programs) loaded (following version) after) :
    Leaves (Machine.act platform programs) loaded (detectVersion following) after := by
  have tested : ∀ {guard body other : Command Action}, guard.forAll Action.isQuery = true →
      Leaves (Machine.act platform programs) loaded body after →
      Leaves (Machine.act platform programs) loaded other after →
      Leaves (Machine.act platform programs) loaded (.conditional guard body other) after :=
    fun asks => .conditional_kept fun action possible =>
      queries action (accepts_of_possible asks possible)
  exact tested rfl (leaves _) (tested rfl (leaves _) (tested rfl (leaves _) (leaves _)))

theorem startBootImgEdit_leaves (complete : platform.Complete)
    (carries : Carries abi image base parts) {loaded after : Machine ρ → Prop}
    {following : Bool → Text → Command Action}
    (loads : Leaves (Machine.act platform programs) (TakenApart image parts) unpacking loaded)
    (queries : ∀ action : Action, action.isQuery = true → ∀ machine, loaded machine →
      loaded (machine.act platform programs action).2)
    (leaves : ∀ chromeos architecture, Leaves (Machine.act platform programs) loaded
      (following chromeos architecture) after) :
    Leaves (Machine.act platform programs) (Started image) (startBootImgEdit following) after := by
  have entered : Leaves (Machine.act platform programs) (Started image) (.simple .enterExtracted)
      (fun machine => Started image machine ∧ machine.extracted = .empty) :=
    .simple fun _ started _ => ⟨⟨started.partition⟩, rfl⟩
  have extracted : Leaves (Machine.act platform programs)
      (fun machine => Started image machine ∧ machine.extracted = .empty) (.simple .extract)
      (TakenApart image parts) := by
    apply Leaves.simple
    intro machine ⟨started, empty⟩ _
    obtain ⟨secure, chromeos, result⟩ := carries.extracted complete
    refine { partition := started.partition, extracted := ⟨secure, chromeos, ?_⟩ }
    change (extract platform machine.partition machine.extracted).dir = _
    rw [started.partition, empty, result]
  have unpacked : ∀ chromeos, Leaves (Machine.act platform programs) (TakenApart image parts)
      (startBootImgEdit.ramdisk (following chromeos)) after := by
    intro chromeos
    have tested : Leaves (Machine.act platform programs) loaded
        (.conditional (.simple .isIntel) (following chromeos "x86") (following chromeos "arm"))
        after :=
      .conditional_kept (fun action possible => by
          rw [List.mem_singleton.mp possible]
          exact queries .isIntel rfl) (leaves chromeos _) (leaves chromeos _)
    exact .append (List.cons_ne_nil _ _) (List.cons_ne_nil _ _) loads tested
  exact .seq (images_alone Started.same rfl) (.seq entered (.seq extracted
    (images_tested TakenApart.same rfl (unpacked true) (unpacked false))))

theorem bootimg_leaves (complete : platform.Complete) (short : platform.ShortWrites)
    (carries : Carries abi image base parts)
    (phases : Phases image parts New platform programs surroundings options loaded edited packed)
    (small : ∀ payload name, New payload name →
      (parts.withRamdisk payload name).length (pageOf image base) < 2147483648)
    (unpatched : ∀ other, (programs.act .hasCustomPatch other).1 = false) :
    Leaves (Machine.act platform programs) (Started image) (bootimg surroundings options)
      (Copied image base parts New [[], samsungTrailer]) := by
  have tools : Leaves (Machine.act platform programs) (Started image) chmodTools (Started image) :=
    images_alone Started.same rfl
  refine .seq tools (startBootImgEdit_leaves complete carries phases.loads phases.queries
    fun chromeos architecture => detectVersion_leaves phases.queries fun version => ?_)
  exact .append (List.cons_ne_nil _ _) (List.cons_ne_nil _ _) (phases.edits version architecture)
    (.seq (doneBootImgEdit_leaves complete short carries phases small)
      (finishBootImg_leaves unpatched _ chromeos))

end Phases

/-- Where every new ramdisk is as it should be, nothing need be said of the states in between. -/
theorem phases_of_compresses
    (compresses : ∀ compression other, (programs.compress compression other).1 = true →
      New (programs.compress compression other).2 compression.fileName)
    (surroundings : Surroundings) (options : List Text) :
    Phases image parts New platform programs surroundings options
      (TakenApart image parts) (TakenApart image parts) (TakenApart image parts) where
  loads := by
    have left : Leaves (Machine.act platform programs) (TakenApart image parts)
        (steps [.simple .leaveExtracted, .exit]) (TakenApart image parts) :=
      .seq .anywhere .exit
    exact .seq (images_alone TakenApart.same rfl)
      (images_tested TakenApart.same rfl (images_alone TakenApart.same rfl)
        (images_tested TakenApart.same rfl (images_alone TakenApart.same rfl) left))
  queries := by
    intro action query machine apart
    have leaves : action.leavesImages = true := by
      cases action with
      | isIntel | isFile _ | inject _ _ => rfl
      | _ => cases query
    obtain ⟨partition, extracted, newBoot⟩ := act_leavesImages leaves machine
    exact TakenApart.same machine _ partition extracted newBoot apart
  edits version architecture := .seq
    (images_alone TakenApart.same (changes_leavesImages _ options))
    (images_alone TakenApart.same rfl)
  packs := images_alone TakenApart.same rfl
  apart _ holds := holds
  compresses compression machine _ := compresses compression machine.other

/-! ### One installation -/

/-- Where a run ends does not matter for what its commands leave alone. -/
theorem leavesPartition_run {command : Command Action}
    (leaves : command.forAll Action.leavesPartition = true) (machine : Machine ρ) :
    (run (Machine.act platform programs) command true machine).state.partition =
      machine.partition := by
  have kept : ∀ action, action ∈ command.possible → ∀ after : Machine ρ,
      after.partition = machine.partition →
      (after.act platform programs action).2.partition = machine.partition :=
    fun action possible after same =>
      (act_leavesPartition (accepts_of_possible leaves possible) after).trans same
  exact invariant_run kept true rfl

theorem generating_leaves {surroundings : Surroundings} {modes : List Text} {devices : Text}
    (made : Leaves (Machine.act platform programs) (Started image)
      (bootimg surroundings ((FieldSplitting.fields Sepolicy.isBlank devices).drop 1 ++ modes))
      (Copied image base parts New [[], samsungTrailer])) :
    Leaves (Machine.act platform programs) (Started image)
      (steps (preparing ++ generating surroundings modes devices))
      (Copied image base parts New [[], samsungTrailer]) := by
  have prepared : Leaves (Machine.act platform programs) (Started image) (steps preparing)
      (Started image) :=
    fun machine started _ => ⟨(leavesPartition_run (Command.forAll_steps
      (List.all_eq_true.mp preparing_leavesPartition)) machine).trans started.partition⟩
  have generated : Leaves (Machine.act platform programs) (Started image)
      (steps (generating surroundings modes devices))
      (Copied image base parts New [[], samsungTrailer]) :=
    .seq (images_alone Started.same rfl) (.seq (.child made) (images_alone Copied.same rfl))
  exact .append (List.cons_ne_nil _ _) (List.cons_ne_nil _ _) prepared generated

variable (image base parts New) in
def NewImage (new : List UInt8) : Prop :=
  ∃ payload name trailer, New payload name ∧ trailer ∈ [[], samsungTrailer] ∧
    new = (parts.withRamdisk payload name).built image base ++ trailer

theorem overwritten_all {old new : List UInt8} {count : Nat}
    (all : new.length ≤ min count old.length) :
    overwritten old new count = new ++ old.drop new.length := by
  have moved : min count (min new.length old.length) = new.length := by omega
  simp only [overwritten, moved, List.take_length]

theorem flash_partition {machine : Machine ρ}
    (copied : Copied image base parts New [[], samsungTrailer] machine)
    (devices : List Text) :
    (machine.act platform programs (.flash devices)).2.partition = image ∨
      ∃ new, NewImage image base parts New new ∧
        (machine.act platform programs (.flash devices)).2.partition =
          overwritten image new (programs.written machine.other) ∧
        ∃ device, devices = [device] ∧ (machine.act platform programs (.flash devices)).1 =
          decide (new.length ≤ min (programs.written machine.other) image.length) := by
  obtain ⟨payload, name, trailer, made, member, newBoot⟩ := copied.newBoot
  generalize image' : (parts.withRamdisk payload name).built image base ++ trailer = new at newBoot
  unfold Machine.act
  simp only [newBoot]
  match devices with
  | [] => exact .inl copied.partition
  | [device] =>
      refine .inr ⟨new, ⟨payload, name, trailer, made, member, image'.symm⟩, ?_, device, rfl, ?_⟩
      · simp only [copied.partition]
      · simp only [copied.partition]
  | _ :: _ :: _ => exact .inl copied.partition

theorem flash_success {machine : Machine ρ} {new : List UInt8}
    (newBoot : machine.newBoot = some new) (device : Text) :
    (machine.act platform programs (.flash [device])).1 =
      decide (new.length ≤ min (programs.written machine.other) machine.partition.length) := by
  unfold Machine.act
  simp only [newBoot]

/-- Behind dd nothing writes to the partition. -/
theorem flash_then_print (machine : Machine ρ) (devices : List Text) (text : Text) :
    (run (Machine.act platform programs)
        (.seq (.simple (.flash devices)) (.simple (.uiPrint text))) true machine).state.partition =
        (machine.act platform programs (.flash devices)).2.partition ∧
      ⟨.flash devices, true, (machine.act platform programs (.flash devices)).1⟩ ∈
        (run (Machine.act platform programs)
          (.seq (.simple (.flash devices)) (.simple (.uiPrint text))) true machine).log := by
  have first : run (Machine.act platform programs) (.simple (.flash devices)) true machine =
      ⟨(machine.act platform programs (.flash devices)).2,
        [⟨.flash devices, true, (machine.act platform programs (.flash devices)).1⟩],
        finish true (machine.act platform programs (.flash devices)).1⟩ := rfl
  constructor
  · rw [run, first]
    cases success : (machine.act platform programs (.flash devices)).1 with
    | true => rfl
    | false => rfl
  · apply Run.mem_next_of_mem
    rw [first]
    exact List.mem_singleton_self _

theorem updateBinary_without (surroundings : Surroundings) (modes : List Text) {fstab : Text}
    (missing : Installer.bootimg fstab = none) (machine : Machine ρ) :
    (run (Machine.act platform programs) (updateBinary surroundings modes fstab) true
        machine).state.partition = machine.partition := by
  rw [updateBinary_missing missing]
  exact leavesPartition_run missing_leavesPartition machine

/-- The partition behind an installation that ends anywhere. -/
theorem updateBinary_partition {surroundings : Surroundings} {modes : List Text} {fstab : Text}
    (made : ∀ devices, Installer.bootimg fstab = some devices →
      Leaves (Machine.act platform programs) (Started image)
        (bootimg surroundings ((FieldSplitting.fields Sepolicy.isBlank devices).drop 1 ++ modes))
        (Copied image base parts New [[], samsungTrailer]))
    {machine : Machine ρ} (started : Started image machine) :
    (run (Machine.act platform programs) (updateBinary surroundings modes fstab) true
        machine).state.partition = image ∨
    ∃ new other, NewImage image base parts New new ∧
      (run (Machine.act platform programs) (updateBinary surroundings modes fstab) true
        machine).state.partition = overwritten image new (programs.written other) ∧
      ∃ device, ⟨.flash [device], true,
          decide (new.length ≤ min (programs.written other) image.length)⟩ ∈
        (run (Machine.act platform programs) (updateBinary surroundings modes fstab) true
          machine).log := by
  cases found : Installer.bootimg fstab with
  | none =>
      have partition :=
        @updateBinary_without ρ abi platform programs surroundings modes fstab found machine
      exact .inl (partition.trans started.partition)
  | some devices =>
      have early : preparing ++ generating surroundings modes devices ≠ [] :=
        List.append_ne_nil_of_left_ne_nil (List.cons_ne_nil _ _) _
      have late : flashing devices ≠ [] := List.cons_ne_nil _ _
      rw [updateBinary_found found, run_steps_append early late]
      have unchanged := @leavesPartition_run ρ abi platform programs _
        (generating_leavesPartition surroundings modes devices) machine
      have generated := generating_leaves (made devices found) machine started
      rw [run]
      cases ended : (run (Machine.act platform programs)
        (steps (preparing ++ generating surroundings modes devices)) true machine).ending with
      | stopped =>
          rw [Run.next_stopped ended]
          exact .inl (unchanged.trans started.partition)
      | status success =>
          have copied := generated (by rw [ended]; exact nofun)
          obtain ⟨partition, logged⟩ := @flash_then_print ρ abi platform programs
            (run (Machine.act platform programs)
              (steps (preparing ++ generating surroundings modes devices)) true machine).state
            (FieldSplitting.fields Sepolicy.isBlank devices)
            "seSuperuser: Successfully flashed root-ed boot.img"
          rw [Run.next_status ended]
          rcases flash_partition copied (FieldSplitting.fields Sepolicy.isBlank devices) with
            same | ⟨new, image', written, device, single, success⟩
          · exact .inl (partition.trans same)
          · rw [success] at logged
            refine .inr ⟨new, _, image', partition.trans written, device, ?_⟩
            rw [← single]
            exact List.mem_append_right _ logged

/-! ### Where the commands are carried out -/

variable (page : Nat) (parts) in
/-- The programs, with compressors that fail on a ramdisk which is too large for the image. -/
def Programs.limited (programs : Programs ρ) : Programs ρ where
  act := programs.act
  readRamdisk := programs.readRamdisk
  compress compression other :=
    (decide ((parts.withRamdisk (programs.compress compression other).2
        compression.fileName).length page < 2147483648) &&
          (programs.compress compression other).1,
      (programs.compress compression other).2)
  customPatch := programs.customPatch
  written := programs.written

variable (platform programs parts) (page : Nat) in
/-- A compressor that succeeds leaves room for the other parts below 2^31 bytes, and dd writes
the whole image to the device. -/
def Machine.Fine (action : Action) (machine : Machine ρ) : Prop :=
  match action with
  | .compress compression =>
      (programs.compress compression machine.other).1 = true →
        (parts.withRamdisk (programs.compress compression machine.other).2
          compression.fileName).length page < 2147483648
  | .flash [device] => (machine.act platform programs (.flash [device])).1 = true
  | _ => True

theorem act_limited {page : Nat} {action : Action} {machine : Machine ρ}
    (fine : machine.Fine platform programs parts page action) :
    machine.act platform (programs.limited parts page) action =
      machine.act platform programs action := by
  cases action with
  | compress compression =>
      cases success : (programs.compress compression machine.other).1 with
      | false =>
          simp only [Machine.act, Programs.limited, success, Bool.and_false]
      | true =>
          have small := fine success
          simp only [Machine.act, Programs.limited, success, Bool.and_true, decide_eq_true small]
  | _ => rfl

/-- Besides dd only the compressors have a condition to meet. -/
theorem Machine.fine_of_leaves {page : Nat}
    (small : ∀ compression other, (programs.compress compression other).1 = true →
      (parts.withRamdisk (programs.compress compression other).2
        compression.fileName).length page < 2147483648)
    {action : Action} (leaves : action.leavesPartition = true) (machine : Machine ρ) :
    machine.Fine platform programs parts page action := by
  cases action with
  | compress compression => exact small compression machine.other
  | flash devices => cases leaves
  | _ => trivial

theorem Programs.Suit.limited {page : Nat} (suits : programs.Suit) :
    (programs.limited parts page).Suit where
  named compression other success := suits.named compression other
    (Bool.and_eq_true_iff.mp success).2
  unpatched := suits.unpatched

theorem Programs.Suit.buildable (suits : programs.Suit) (compression : Compression) (other : ρ)
    (success : ((programs.limited parts (pageOf image base)).compress compression other).1 =
      true) :
    Buildable image base parts (programs.compress compression other).2 compression.fileName where
  named := suits.named compression other (Bool.and_eq_true_iff.mp success).2
  total := of_decide_eq_true (Bool.and_eq_true_iff.mp success).1

end Stages

end SuperBootimg.Concrete.Scripts
