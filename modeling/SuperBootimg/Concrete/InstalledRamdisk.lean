/-
The ramdisk from one image to the next: taken from the partition, unpacked, edited, packed,
compressed and built into the image that is written.
-/

import SuperBootimg.ViewedRuns
import SuperBootimg.Concrete.PackedRamdisk
import SuperBootimg.Concrete.RepeatedInstallations

namespace SuperBootimg.Concrete.Scripts

open ByteImage (littleEndian leValue leValue_littleEndian)
open Extract (pageOf ramdiskNames smallImage)
open ExitOnError OverlaidArchive
open ExitOnError.Command (steps onlyIf)
open Sepolicy (Text)
open Initramfs (Paths cpioLines wordsOf firstCalls)

structure Equipment (σ : Type) where
  tools : Tools σ
  /-- `gunzip -c` or `lzcat`, with the entries that `cpio -i` reads -/
  uncompressed : Compression → List UInt8 → Option (Archive Text Text)
  /-- `gzip -9 -c -n` or `lzma -7 -c` -/
  compressed : Compression → Archive Text Text → Bool × List UInt8
  /-- the files cpio-* that strip-cpio makes, one behind the other -/
  strip : Archive Text Text → List Text → Archive Text Text
  customPatch : List UInt8 → σ → Bool × List UInt8
  written : σ → Nat

/-- The directory `$d2` with the work files, which are not among those of the ramdisk, and
INITRAMFS_FILES. -/
structure Workspace (σ : Type) where
  ramdisk : Ramdisk σ
  list : Text
  ramdisk1 : Archive Text Text
  ramdisk2 : Archive Text Text
  stripped : Archive Text Text
  tmp : Archive Text Text

namespace Workspace

variable {σ : Type} (equipment : Equipment σ)

def edit (action : Action) (workspace : Workspace σ) : Bool × Workspace σ :=
  ((workspace.ramdisk.act equipment.tools action).1,
    { workspace with ramdisk := (workspace.ramdisk.act equipment.tools action).2 })

def act (action : Action) (workspace : Workspace σ) : Bool × Workspace σ :=
  match action with
  | .enterRamdisk =>
      -- A new directory; INITRAMFS_FILES is made empty in the same function.
      (true,
        { ramdisk := { workspace.ramdisk with files := fun _ => none }
          list := []
          ramdisk1 := []
          ramdisk2 := []
          stripped := []
          tmp := [] })
  | .addFile name =>
      ((workspace.ramdisk.act equipment.tools (.addFile name)).1,
        { workspace with
          ramdisk := (workspace.ramdisk.act equipment.tools (.addFile name)).2
          list :=
            if (workspace.ramdisk.act equipment.tools (.addFile name)).1 then
              Initramfs.addFile workspace.list name
            else workspace.list })
  | .archive =>
      match archived workspace.ramdisk.files (cpioLines workspace.list) with
      | none => (false, workspace)
      | some archive => (true, { workspace with ramdisk2 := archive })
  | .removeStripped => (true, { workspace with stripped := [] })
  | .strip =>
      (true,
        { workspace with
          stripped := equipment.strip workspace.ramdisk1 (wordsOf workspace.list) })
  | .concatenate => (true, { workspace with tmp := workspace.stripped ++ workspace.ramdisk2 })
  | action => edit equipment action workspace

def read (action : Action) (bytes : List UInt8) (workspace : Workspace σ) : Bool × Workspace σ :=
  match action with
  | .unpack compression =>
      match equipment.uncompressed compression bytes with
      | none => (false, workspace)
      | some archive =>
          (true,
            { workspace with
              ramdisk := { workspace.ramdisk with
                files := fun name => (unpacked archive name).or (workspace.ramdisk.files name) } })
  | .decompress compression =>
      match equipment.uncompressed compression bytes with
      | none => (false, workspace)
      | some archive => (true, { workspace with ramdisk1 := archive })
  | _ => (false, workspace)

end Workspace

def Equipment.programs {σ : Type} (equipment : Equipment σ) : Programs (Workspace σ) where
  act := Workspace.act equipment
  readRamdisk := Workspace.read equipment
  compress compression workspace := equipment.compressed compression workspace.tmp
  customPatch bytes workspace := equipment.customPatch bytes workspace.ramdisk.other
  written workspace := equipment.written workspace.ramdisk.other

/-- The equipment, with compressors that fail on a ramdisk which is too large for the image. -/
def Equipment.limited {σ : Type} (parts : Parts) (page : Nat) (equipment : Equipment σ) :
    Equipment σ where
  tools := equipment.tools
  uncompressed := equipment.uncompressed
  compressed compression archive :=
    (decide ((parts.withRamdisk (equipment.compressed compression archive).2
        compression.fileName).length page < 2147483648) &&
          (equipment.compressed compression archive).1,
      (equipment.compressed compression archive).2)
  strip := equipment.strip
  customPatch := equipment.customPatch
  written := equipment.written

theorem Equipment.programs_limited {σ : Type} (equipment : Equipment σ) (parts : Parts)
    (page : Nat) :
    (equipment.limited parts page).programs = equipment.programs.limited parts page :=
  rfl

/-- What the programs are known for: compressed archives are recognised and read back, strip-cpio
keeps the files that are not named, and a question leaves the policy as it is. -/
structure Equipment.Sound {σ : Type} (equipment : Equipment σ) : Prop where
  named : ∀ compression archive, (equipment.compressed compression archive).1 = true →
    PayloadName (equipment.compressed compression archive).2 compression.fileName
  reads : ∀ compression archive, (equipment.compressed compression archive).1 = true →
    equipment.uncompressed compression (equipment.compressed compression archive).2 = some archive
  keeps : ∀ old names name, name ∉ names →
    unpacked (equipment.strip old names) name = unpacked old name
  asks : ∀ suffix injection policy other, (Action.inject suffix injection).isQuery = true →
    (equipment.tools.inject suffix injection policy other).2.1 = policy

theorem Equipment.Sound.limited {σ : Type} {equipment : Equipment σ} (sound : equipment.Sound)
    (parts : Parts) (page : Nat) : (equipment.limited parts page).Sound where
  named compression archive success := sound.named compression archive
    (Bool.and_eq_true_iff.mp success).2
  reads compression archive success := sound.reads compression archive
    (Bool.and_eq_true_iff.mp success).2
  keeps := sound.keeps
  asks := sound.asks

theorem Equipment.Sound.suits {σ : Type} {equipment : Equipment σ} (sound : equipment.Sound)
    (unpatched : ∀ other, (equipment.tools.act .hasCustomPatch other).1 = false) :
    equipment.programs.Suit where
  named compression workspace := sound.named compression workspace.tmp
  unpatched workspace := unpatched workspace.ramdisk.other

/-! ### From the image to the edited files -/

section Phases

variable {σ : Type} {equipment : Equipment σ} {abi : Abi} {platform : Platform abi}
  (image : List UInt8) (parts : Parts) (old : Archive Text Text)

structure Loaded (machine : Machine (Workspace σ)) : Prop
    extends TakenApart image parts machine where
  files : machine.other.ramdisk.files = unpacked old
  ramdisk1 : machine.other.ramdisk1 = old
  list : machine.other.list = []

variable {image parts old}

theorem TakenApart.payload {machine : Machine (Workspace σ)} {compression : Compression}
    (apart : TakenApart image parts machine)
    (there : (machine.extracted compression.fileName).isSome = true) :
    parts.name = compression.fileName ∧
      machine.extracted.openRead compression.fileName = some parts.payload := by
  obtain ⟨secure, chromeos, extracted⟩ := apart.extracted
  have member : compression.fileName ∈ ramdiskNames := by
    cases compression <;> decide
  have unflagged : compression.fileName ∉ parts.wrapper.flags := by
    cases compression <;> cases parts.wrapper <;> decide
  have content : machine.extracted compression.fileName =
      if compression.fileName = parts.name then some { bytes := parts.payload, readable := true }
      else none := by
    rw [extracted, Parts.files, restored_ramdisk member, if_neg unflagged]
  by_cases same : compression.fileName = parts.name
  · rw [if_pos same] at content
    exact ⟨same.symm, Directory.openRead_of_file content⟩
  · rw [content, if_neg same] at there
    cases there

/-- What a command of changes.sh does to the machine. -/
theorem act_of_edits {action : Action} (edits : action.editsRamdisk = true)
    (machine : Machine (Workspace σ)) :
    machine.act platform equipment.programs action =
      ((machine.other.ramdisk.act equipment.tools action).1,
        { machine with
          other := { machine.other with
            ramdisk := (machine.other.ramdisk.act equipment.tools action).2
            list :=
              if (machine.other.ramdisk.act equipment.tools action).1 then
                noted Initramfs.addFile machine.other.list action
              else machine.other.list } }) := by
  cases action with
  | addFile name => rfl
  | inject _ _ | isFile _ | install _ _ | copy _ _ | chmod _ _ | sed _ _ | append _ _
  | overwrite _ _ | hasRevision | readRevision _ =>
      simp only [noted, ite_self]
      rfl
  | _ => cases edits

/-! ### Loading -/

variable (image parts) in
structure Entered (machine : Machine (Workspace σ)) : Prop
    extends TakenApart image parts machine where
  files : machine.other.ramdisk.files = fun _ => none
  list : machine.other.list = []

theorem enterRamdisk_leaves :
    Leaves (Machine.act platform equipment.programs) (TakenApart image parts)
      (.simple .enterRamdisk) (Entered image parts) :=
  .simple fun _ apart _ =>
    { partition := apart.partition, extracted := apart.extracted, files := rfl, list := rfl }

theorem readRamdisk_found {action : Action} {compression : Compression}
    {machine : Machine (Workspace σ)} {bytes : List UInt8}
    (found : machine.extracted.openRead compression.fileName = some bytes) :
    (machine.readRamdisk equipment.programs action compression).2 =
      { machine with other := (machine.other.read equipment action bytes).2 } := by
  unfold Machine.readRamdisk
  simp only [found]
  rfl

section Read

variable {compression : Compression} {machine : Machine (Workspace σ)}
  (holds : ∀ compression : Compression, parts.name = compression.fileName →
    equipment.uncompressed compression parts.payload = some old)

include holds

theorem act_unpack (apart : TakenApart image parts machine)
    (there : (machine.extracted compression.fileName).isSome = true) :
    (machine.act platform equipment.programs (.unpack compression)).2 =
      { machine with
        other := { machine.other with
          ramdisk := { machine.other.ramdisk with
            files := fun name =>
              (unpacked old name).or (machine.other.ramdisk.files name) } } } := by
  obtain ⟨named, found⟩ := apart.payload there
  change (machine.readRamdisk equipment.programs (.unpack compression) compression).2 = _
  rw [readRamdisk_found found]
  unfold Workspace.read
  simp only [holds compression named]

theorem act_decompress (apart : TakenApart image parts machine)
    (there : (machine.extracted compression.fileName).isSome = true) :
    (machine.act platform equipment.programs (.decompress compression)).2 =
      { machine with other := { machine.other with ramdisk1 := old } } := by
  obtain ⟨named, found⟩ := apart.payload there
  change (machine.readRamdisk equipment.programs (.decompress compression) compression).2 = _
  rw [readRamdisk_found found]
  unfold Workspace.read
  simp only [holds compression named]

theorem unpackRamdisk_leaves :
    Leaves (Machine.act platform equipment.programs)
      (fun machine => Entered image parts machine ∧
        (machine.extracted compression.fileName).isSome = true)
      (unpackRamdisk compression) (Loaded image parts old) := by
  have unpacks : Leaves (Machine.act platform equipment.programs)
      (fun machine => Entered image parts machine ∧
        (machine.extracted compression.fileName).isSome = true)
      (.simple (.unpack compression))
      (fun machine => TakenApart image parts machine ∧
        machine.other.ramdisk.files = unpacked old ∧ machine.other.list = [] ∧
        (machine.extracted compression.fileName).isSome = true) := by
    apply Leaves.simple
    rintro machine ⟨entered, there⟩ _
    rw [act_unpack holds entered.toTakenApart there]
    refine ⟨⟨⟨entered.partition⟩, entered.extracted⟩, ?_, entered.list, there⟩
    funext name
    change (unpacked old name).or (machine.other.ramdisk.files name) = _
    rw [entered.files, Option.or_none]
  refine .seq unpacks (.simple ?_)
  rintro machine ⟨apart, files, list, there⟩ _
  rw [act_decompress holds apart there]
  exact ⟨⟨⟨apart.partition⟩, apart.extracted⟩, files, rfl, list⟩

theorem unpacking_leaves :
    Leaves (Machine.act platform equipment.programs) (TakenApart image parts) unpacking
      (Loaded image parts old) := by
  have refused : Leaves (Machine.act platform equipment.programs)
      (Entered image parts) (steps [.simple .leaveExtracted, .exit]) (Loaded image parts old) :=
    .seq .anywhere .exit
  refine .seq enterRamdisk_leaves (.conditional (fun _ entered there => ⟨entered, there⟩)
    (fun _ entered _ => entered) (unpackRamdisk_leaves holds) ?_)
  exact .conditional (fun _ entered there => ⟨entered, there⟩) (fun _ entered _ => entered)
    (unpackRamdisk_leaves holds) refused

end Read

/-- A question does not change the policy. -/
theorem inject_query (sound : equipment.Sound) {suffix : Text} {injection : Injection}
    (query : (Action.inject suffix injection).isQuery = true) (ramdisk : Ramdisk σ) :
    (ramdisk.inject equipment.tools suffix injection).2.files = ramdisk.files := by
  unfold Ramdisk.inject
  cases content : ramdisk.files "sepolicy".toList with
  | none => rfl
  | some policy =>
      change Function.update ramdisk.files "sepolicy".toList _ = ramdisk.files
      rw [sound.asks suffix injection policy ramdisk.other query, ← content]
      exact Function.update_eq_self _ _

theorem loaded_query (sound : equipment.Sound) (action : Action) (query : action.isQuery = true)
    (machine : Machine (Workspace σ)) (loaded : Loaded image parts old machine) :
    Loaded image parts old (machine.act platform equipment.programs action).2 := by
  have kept : ∀ {action : Action},
      (machine.act platform equipment.programs action).2 =
        { machine with other := (machine.other.edit equipment action).2 } →
      (machine.other.ramdisk.act equipment.tools action).2.files = machine.other.ramdisk.files →
      Loaded image parts old (machine.act platform equipment.programs action).2 := by
    intro action shape files
    rw [shape]
    exact ⟨⟨⟨loaded.partition⟩, loaded.extracted⟩, files.trans loaded.files, loaded.ramdisk1,
      loaded.list⟩
  cases action with
  | isIntel => exact kept rfl rfl
  | isFile name => exact kept rfl rfl
  | inject suffix injection => exact kept rfl (inject_query sound query _)
  | _ => cases query

/-! ### Editing -/

section Edits

variable (equipment old) in
/-- The edits of the old ramdisk, with what has been found out about it. -/
def editedRun (surroundings : Surroundings) (options : List Text) (version : Version)
    (architecture : Text) (other : σ) : Run (Ramdisk σ) Action :=
  run (Ramdisk.act equipment.tools) (ramdiskEdits (surroundings.setting version architecture)
    options surroundings.revision) true ⟨unpacked old, other⟩

variable (equipment image parts old) in
structure Edited (surroundings : Surroundings) (options : List Text)
    (machine : Machine (Workspace σ)) : Prop extends TakenApart image parts machine where
  ramdisk1 : machine.other.ramdisk1 = old
  edited : ∃ version architecture other,
    (editedRun equipment old surroundings options version architecture other).ending ≠ .stopped ∧
    machine.other.ramdisk.files =
      (editedRun equipment old surroundings options version architecture other).state.files ∧
    machine.other.list =
      initramfsList (editedRun equipment old surroundings options version architecture other).log

variable {surroundings : Surroundings} {options : List Text}

theorem ramdiskEdits_editsRamdisk (setting : Setting) (arguments : List Text) (revision : Text) :
    (ramdiskEdits setting arguments revision).forAll Action.editsRamdisk = true :=
  Bool.and_eq_true_iff.mpr ⟨changes_editsRamdisk setting arguments, rfl⟩

theorem ramdiskEdits_leaves (version : Version) (architecture : Text) :
    Leaves (Machine.act platform equipment.programs) (Loaded image parts old)
      (ramdiskEdits (surroundings.setting version architecture) options surroundings.revision)
      (Edited equipment image parts old surroundings options) := by
  intro machine loaded goesOn
  have edits := ramdiskEdits_editsRamdisk (surroundings.setting version architecture) options
    surroundings.revision
  have inside : ∀ {action : Action}, action ∈ (ramdiskEdits (surroundings.setting version
      architecture) options surroundings.revision).possible → action.editsRamdisk = true :=
    accepts_of_possible edits
  have views : ∀ action : Action, action.editsRamdisk = true → ∀ machine : Machine (Workspace σ),
      (machine.act platform equipment.programs action).1 =
          (machine.other.ramdisk.act equipment.tools action).1 ∧
        (machine.act platform equipment.programs action).2.other.ramdisk =
          (machine.other.ramdisk.act equipment.tools action).2 := by
    intro action edits machine
    rw [act_of_edits edits]
    exact ⟨rfl, rfl⟩
  have viewed := @run_viewed _ _ _ (fun machine : Machine (Workspace σ) => machine.other.ramdisk)
    (Machine.act platform equipment.programs) (Ramdisk.act equipment.tools) _ views _ edits
    true machine
  have initial : machine.other.ramdisk = ⟨unpacked old, machine.other.ramdisk.other⟩ := by
    rw [← loaded.files]
  rw [initial] at viewed
  have listed := @Leads.foldl _ _ _ _ (fun machine : Machine (Workspace σ) => machine.other.list)
    (noted Initramfs.addFile) _ _ _ (@leads_run _ _ (Machine.act platform equipment.programs)
      (ramdiskEdits (surroundings.setting version architecture) options surroundings.revision) true
      machine) fun entry logged before => by
    rw [act_of_edits (inside (mem_possible logged))]
  have apart := @images_alone (Workspace σ) abi platform equipment.programs _ TakenApart.same _
    (Command.forAll_mono leavesImages_of_edits edits) machine loaded.toTakenApart goesOn
  have kept : ∀ action, action ∈ (ramdiskEdits (surroundings.setting version architecture) options
      surroundings.revision).possible → ∀ after : Machine (Workspace σ),
      after.other.ramdisk1 = old →
      (after.act platform equipment.programs action).2.other.ramdisk1 = old :=
    fun action possible after same => by
      rw [act_of_edits (inside possible)]
      exact same
  refine ⟨apart, invariant_run kept true loaded.ramdisk1, version, architecture,
    machine.other.ramdisk.other, ?_, congrArg Ramdisk.files viewed.state, ?_⟩
  · intro stopped
    exact goesOn (viewed.ending.trans stopped)
  · rw [listed, loaded.list, viewed.log, foldl_noted]
    rfl

/-! ### Packing -/

theorem Edited.same (before after : Machine (Workspace σ))
    (edited : Edited equipment image parts old surroundings options before)
    (partition : after.partition = before.partition)
    (extracted : after.extracted = before.extracted)
    (files : after.other.ramdisk.files = before.other.ramdisk.files)
    (ramdisk1 : after.other.ramdisk1 = before.other.ramdisk1)
    (list : after.other.list = before.other.list) :
    Edited equipment image parts old surroundings options after where
  partition := partition.trans edited.partition
  extracted := by
    rw [extracted]
    exact edited.extracted
  ramdisk1 := ramdisk1.trans edited.ramdisk1
  edited := by
    rw [files, list]
    exact edited.edited

variable (equipment image parts old) in
structure Archived (surroundings : Surroundings) (options : List Text)
    (machine : Machine (Workspace σ)) : Prop
    extends Edited equipment image parts old surroundings options machine where
  archived : archived machine.other.ramdisk.files (cpioLines machine.other.list) =
    some machine.other.ramdisk2

variable (equipment image parts old) in
structure Stripped (surroundings : Surroundings) (options : List Text)
    (machine : Machine (Workspace σ)) : Prop
    extends Edited equipment image parts old surroundings options machine where
  packed : packed equipment.strip old machine.other.ramdisk.files machine.other.list =
    some (machine.other.stripped ++ machine.other.ramdisk2)

variable (equipment image parts old) in
structure Packed (surroundings : Surroundings) (options : List Text)
    (machine : Machine (Workspace σ)) : Prop extends TakenApart image parts machine where
  packed : ∃ version architecture other,
    (editedRun equipment old surroundings options version architecture other).ending ≠ .stopped ∧
    packed equipment.strip old
      (editedRun equipment old surroundings options version architecture other).state.files
      (initramfsList
        (editedRun equipment old surroundings options version architecture other).log) =
      some machine.other.tmp

theorem archiving_leaves :
    Leaves (Machine.act platform equipment.programs)
      (Edited equipment image parts old surroundings options) archiving
      (Packed equipment image parts old surroundings options) := by
  have touched : Leaves (Machine.act platform equipment.programs)
      (Edited equipment image parts old surroundings options) (.simple .touchAll)
      (Edited equipment image parts old surroundings options) :=
    .simple fun machine edited _ => edited.same machine _ rfl rfl rfl rfl rfl
  have archives : Leaves (Machine.act platform equipment.programs)
      (Edited equipment image parts old surroundings options) (.simple .archive)
      (Archived equipment image parts old surroundings options) := by
    apply Leaves.simple
    intro machine edited success
    change (machine.other.act equipment .archive).1 = true at success
    have shape : (machine.act platform equipment.programs .archive).2 =
        { machine with other := (machine.other.act equipment .archive).2 } := rfl
    rw [shape]
    unfold Workspace.act at success ⊢
    cases made : archived machine.other.ramdisk.files (cpioLines machine.other.list) with
    | none =>
        simp only [made] at success
        cases success
    | some archive =>
        simp only
        exact ⟨edited.same machine _ rfl rfl rfl rfl rfl, made⟩
  have removed : Leaves (Machine.act platform equipment.programs)
      (Archived equipment image parts old surroundings options) (.simple .removeStripped)
      (Archived equipment image parts old surroundings options) :=
    .simple fun machine archived _ =>
      ⟨archived.toEdited.same machine _ rfl rfl rfl rfl rfl, archived.archived⟩
  have strips : Leaves (Machine.act platform equipment.programs)
      (Archived equipment image parts old surroundings options) (.simple .strip)
      (Stripped equipment image parts old surroundings options) := by
    apply Leaves.simple
    intro machine ⟨edited, made⟩ _
    refine ⟨edited.same machine _ rfl rfl rfl rfl rfl, ?_⟩
    change packed equipment.strip old machine.other.ramdisk.files machine.other.list =
      some (equipment.strip machine.other.ramdisk1 (wordsOf machine.other.list) ++
        machine.other.ramdisk2)
    unfold packed
    rw [made, edited.ramdisk1]
    rfl
  have concatenates : Leaves (Machine.act platform equipment.programs)
      (Stripped equipment image parts old surroundings options) (.simple .concatenate)
      (Packed equipment image parts old surroundings options) := by
    apply Leaves.simple
    intro machine ⟨edited, whole⟩ _
    obtain ⟨version, architecture, other, goesOn, files, list⟩ := edited.edited
    rw [files, list] at whole
    exact ⟨⟨⟨edited.partition⟩, edited.extracted⟩, version, architecture, other, goesOn, whole⟩
  have touches : Leaves (Machine.act platform equipment.programs)
      (Packed equipment image parts old surroundings options) (.simple .touchArchive)
      (Packed equipment image parts old surroundings options) :=
    .simple fun _ packed _ => ⟨⟨⟨packed.partition⟩, packed.extracted⟩, packed.packed⟩
  exact .seq touched (.seq archives (.seq removed (.seq strips (.seq concatenates touches))))

variable (equipment) in
/-- What bootimg.sh makes of a ramdisk: registered files are as the scripts have left them, and
all others are the old ones. -/
def Remade (surroundings : Surroundings) (options : List Text)
    (old new : Archive Text Text) : Prop :=
  ∃ version architecture other,
    (editedRun equipment old surroundings options version architecture other).ending ≠ .stopped ∧
    (∀ name, name ∈ registeredFiles surroundings.unsupportedSelinux surroundings.fstabs
        (readOptions options) (unpacked old) →
      unpacked new name = (editedRun equipment old surroundings options version architecture
        other).state.files name) ∧
    ∀ name, name ∉ registeredFiles surroundings.unsupportedSelinux surroundings.fstabs
        (readOptions options) (unpacked old) →
      unpacked new name = unpacked old name

/-- Names of fstabs that are not taken for other names. -/
structure FstabsApart (surroundings : Surroundings) (options : List Text) : Prop where
  names : FstabNames surroundings.fstabs
  paths : Paths surroundings.fstabs
  told : editsFstabs (readOptions options) = true → ∀ files, toldApart [] (firstCalls
    (registeredFiles surroundings.unsupportedSelinux surroundings.fstabs (readOptions options)
      files)) = true

theorem Packed.remade {machine : Machine (Workspace σ)} (sound : equipment.Sound)
    (told : FstabsApart surroundings options)
    (packed : Packed equipment image parts old surroundings options machine) :
    Remade equipment surroundings options old machine.other.tmp := by
  obtain ⟨version, architecture, other, goesOn, whole⟩ := packed.packed
  have keeps : ∀ names name, name ∉ names →
      unpacked (equipment.strip old names) name = unpacked old name :=
    fun names name => sound.keeps old names name
  obtain ⟨new, made, unpacks⟩ := @packed_ramdisk σ equipment.tools (surroundings.setting version
    architecture) options surroundings.revision ⟨unpacked old, other⟩ old equipment.strip keeps
    told.names told.paths goesOn fun edits => told.told edits _
  cases Option.some.inj (made.symm.trans whole)
  exact ⟨version, architecture, other, goesOn,
    fun name named => (unpacks name).trans (if_pos named),
    fun name unnamed => (unpacks name).trans (if_neg unnamed)⟩

end Edits

/-! ### One installation -/

variable (equipment image parts old) in
/-- A payload with what bootimg.sh makes of the old ramdisk. -/
structure NewRamdisk (base : Nat) (surroundings : Surroundings) (options : List Text)
    (payload : List UInt8) (name : FileName) : Prop where
  buildable : Buildable image base parts payload name
  remade : ∃ compression archive, name = Compression.fileName compression ∧
    equipment.uncompressed compression payload = some archive ∧
    Remade equipment surroundings options old archive

section Installation

variable {surroundings : Surroundings} {options : List Text} {base : Nat}

theorem Equipment.Sound.phases (sound : equipment.Sound)
    (builds : ∀ compression archive, (equipment.compressed compression archive).1 = true →
      Buildable image base parts (equipment.compressed compression archive).2
        compression.fileName)
    (holds : ∀ compression : Compression, parts.name = compression.fileName →
      equipment.uncompressed compression parts.payload = some old)
    (told : FstabsApart surroundings options) :
    Phases image parts (NewRamdisk equipment image parts old base surroundings options)
      platform equipment.programs surroundings options (Loaded image parts old)
      (Edited equipment image parts old surroundings options)
      (Packed equipment image parts old surroundings options) where
  loads := unpacking_leaves holds
  queries := loaded_query sound
  edits := ramdiskEdits_leaves
  packs := archiving_leaves
  apart _ packed := packed.toTakenApart
  compresses compression machine packed success :=
    { buildable := builds compression machine.other.tmp success
      remade := ⟨compression, machine.other.tmp, rfl,
        sound.reads compression machine.other.tmp success, packed.remade sound told⟩ }

/-- The new image of bootimg.sh, with compressors that fail where it would be too large. -/
theorem Equipment.Sound.bootimg_leaves (sound : equipment.Sound) (complete : platform.Complete)
    (short : platform.ShortWrites) (carries : Carries abi image base parts)
    (unpatched : ∀ other, (equipment.tools.act .hasCustomPatch other).1 = false)
    (holds : ∀ compression : Compression, parts.name = compression.fileName →
      equipment.uncompressed compression parts.payload = some old)
    (told : FstabsApart surroundings options) :
    Leaves (Machine.act platform (equipment.limited parts (pageOf image base)).programs)
      (Started image) (bootimg surroundings options)
      (Copied image base parts (NewRamdisk (equipment.limited parts (pageOf image base)) image
        parts old base surroundings options) [[], samsungTrailer]) := by
  have builds : ∀ compression archive,
      ((equipment.limited parts (pageOf image base)).compressed compression archive).1 = true →
      Buildable image base parts (equipment.compressed compression archive).2
        compression.fileName := by
    intro compression archive success
    obtain ⟨small, written⟩ := Bool.and_eq_true_iff.mp success
    exact ⟨sound.named compression archive written, of_decide_eq_true small⟩
  exact Scripts.bootimg_leaves complete short carries
    ((sound.limited parts (pageOf image base)).phases builds holds told)
    (fun _ _ new => new.buildable.total) (sound.suits unpatched).limited.unpatched

end Installation

section Devices

variable {ρ : Type} {programs : Programs ρ}

/-- dd takes one device only. -/
theorem flash_several {devices : List Text} (several : devices.drop 1 ≠ [])
    (machine : Machine ρ) :
    (machine.act platform programs (.flash devices)).2.partition = machine.partition := by
  match devices with
  | [] => exact absurd rfl several
  | [_] => exact absurd rfl several
  | _ :: _ :: _ =>
      unfold Machine.act
      cases machine.newBoot with
      | none => rfl
      | some bytes => rfl

theorem updateBinary_several {surroundings : Surroundings} {modes : List Text}
    {fstab devices : Text} (found : Installer.bootimg fstab = some devices)
    (several : (FieldSplitting.fields Sepolicy.isBlank devices).drop 1 ≠ [])
    (machine : Machine ρ) :
    (run (Machine.act platform programs) (updateBinary surroundings modes fstab) true
      machine).state.partition = machine.partition := by
  have early : preparing ++ generating surroundings modes devices ≠ [] :=
    List.append_ne_nil_of_left_ne_nil (List.cons_ne_nil _ _) _
  have late : flashing devices ≠ [] := List.cons_ne_nil _ _
  have unchanged := @leavesPartition_run ρ abi platform programs _
    (generating_leavesPartition surroundings modes devices) machine
  rw [updateBinary_found found, run_steps_append early late, run]
  cases ended : (run (Machine.act platform programs)
    (steps (preparing ++ generating surroundings modes devices)) true machine).ending with
  | stopped =>
      rw [Run.next_stopped ended]
      exact unchanged
  | status success =>
      rw [Run.next_status ended]
      have written := (@flash_then_print ρ abi platform programs
        (run (Machine.act platform programs)
          (steps (preparing ++ generating surroundings modes devices)) true machine).state
        (FieldSplitting.fields Sepolicy.isBlank devices)
        "seSuperuser: Successfully flashed root-ed boot.img").1
      exact written.trans ((flash_several several _).trans unchanged)

end Devices

theorem Compression.fileName_injective {one other : Compression}
    (same : one.fileName = other.fileName) : one = other := by
  cases one with
  | gz =>
      cases other with
      | gz => rfl
      | lzma => cases same
  | lzma =>
      cases other with
      | gz => cases same
      | lzma => rfl

section Sequences

variable {original : List UInt8} {base : Nat}

/-- An installation leaves the partition as it is, or the ramdisk has been remade. -/
theorem Continues.remade {start : Nat} {found : Parts} {compression : Compression}
    {machine : Machine (Workspace σ)}
    (continues : Continues abi original base parts image start found)
    (carries : Carries abi original base parts) (complete : platform.Complete)
    (short : platform.ShortWrites) (sound : equipment.Sound)
    (unpatched : ∀ other, (equipment.tools.act .hasCustomPatch other).1 = false)
    {update : Update}
    (fine : update.Fine platform equipment.programs parts (pageOf original base) machine)
    (told : FstabsApart update.surroundings update.modes)
    (named : found.name = compression.fileName)
    (holds : equipment.uncompressed compression found.payload = some old)
    (partition : machine.partition = image) :
    (update.install platform equipment.programs machine).partition = image ∨
      ∃ payload other new,
        Continues abi original base parts
          (update.install platform equipment.programs machine).partition 0
          (parts.withRamdisk payload (Compression.fileName other)) ∧
        equipment.uncompressed other payload = some new ∧
        Remade equipment update.surroundings update.modes old new := by
  cases listed : Installer.bootimg update.fstab with
  | none =>
      have without := @updateBinary_without (Workspace σ) abi platform equipment.programs
        update.surroundings update.modes update.fstab listed machine
      exact .inl (without.trans partition)
  | some devices =>
      by_cases single : (FieldSplitting.fields Sepolicy.isBlank devices).drop 1 = []
      · have here : ∀ other : Compression, found.name = other.fileName →
            equipment.uncompressed other found.payload = some old := by
          intro other same
          cases Compression.fileName_injective (named.symm.trans same)
          exact holds
        have limited := fine.limited
        rw [← continues.limited, ← equipment.programs_limited] at limited
        have made : ∀ others, Installer.bootimg update.fstab = some others →
            Leaves (Machine.act platform (equipment.limited found (pageOf image start)).programs)
              (Started image)
              (bootimg update.surroundings
                ((FieldSplitting.fields Sepolicy.isBlank others).drop 1 ++ update.modes))
              (Copied image start found (NewRamdisk (equipment.limited found (pageOf image start))
                image found old start update.surroundings update.modes) [[], samsungTrailer]) := by
          intro others same
          cases Option.some.inj (listed.symm.trans same)
          rw [single, List.nil_append]
          exact sound.bootimg_leaves complete short continues.carries unpatched here told
        have ended := updateBinary_partition made ⟨partition⟩
        rw [limited] at ended
        rcases ended with same | ⟨new, other, ⟨payload, name, trailer, remade, _, form⟩, written,
          device, logged⟩
        · exact .inl same
        · obtain ⟨state, flashed, success⟩ := Throughout.of_mem (leads_run _ _ _) fine logged
          have all := of_decide_eq_true (success.trans flashed)
          have buildable := continues.buildable remade.buildable
          obtain ⟨compression, archive, rfl, read, remade⟩ := remade.remade
          have rebuilt := continues.rebuilt buildable form all written
          exact .inr ⟨payload, compression, archive, rebuilt.continues carries, read, remade⟩
      · have unwritten := @updateBinary_several abi platform (Workspace σ) equipment.programs
          update.surroundings update.modes update.fstab devices listed single machine
        exact .inl (unwritten.trans partition)

variable (equipment) in
/-- What the installations make of a ramdisk one after another. -/
def RemadeBy : List Update → Archive Text Text → Archive Text Text → Prop
  | [], old, new => new = old
  | update :: rest, old, new =>
      ∃ middle, Remade equipment update.surroundings update.modes old middle ∧
        RemadeBy rest middle new

/-- After any number of installations, each of which may have ended anywhere but in the writing
itself, bootimg-extract finds the parts of the first image on the partition, but for the ramdisk;
and that one is read back as what some of the installations have made of the first one's files,
one after another. -/
theorem installed_ramdisk (complete : platform.Complete) (short : platform.ShortWrites)
    (sound : equipment.Sound)
    (unpatched : ∀ other, (equipment.tools.act .hasCustomPatch other).1 = false)
    (machine : Machine (Workspace σ)) (carries : Carries abi machine.partition base parts)
    (compression : Compression) (named : parts.name = compression.fileName)
    (holds : equipment.uncompressed compression parts.payload = some old)
    (updates : List Update)
    (told : ∀ update, update ∈ updates → FstabsApart update.surroundings update.modes)
    (fine : AllFine platform equipment.programs parts (pageOf machine.partition base) updates
      machine) :
    ∃ done payload other new secure chromeos,
      done.Sublist updates ∧
      extract platform
          (installed platform equipment.programs updates machine).partition .empty =
        { stop := none
          dir := (parts.withRamdisk payload (Compression.fileName other)).files secure
            chromeos } ∧
      equipment.uncompressed other payload = some new ∧ RemadeBy equipment done old new := by
  have runs : ∀ (updates : List Update) (after : Machine (Workspace σ)) (start : Nat)
      (found : Parts) (compression : Compression) (old : Archive Text Text),
      Continues abi machine.partition base parts after.partition start found →
      found.name = compression.fileName →
      equipment.uncompressed compression found.payload = some old →
      (∀ update, update ∈ updates → FstabsApart update.surroundings update.modes) →
      AllFine platform equipment.programs parts (pageOf machine.partition base) updates after →
      ∃ done start payload other new, done.Sublist updates ∧
        Continues abi machine.partition base parts
          (installed platform equipment.programs updates after).partition start
          (parts.withRamdisk payload (Compression.fileName other)) ∧
        equipment.uncompressed other payload = some new ∧ RemadeBy equipment done old new := by
    intro updates
    induction updates with
    | nil =>
        intro after start found compression old continues named holds _ _
        refine ⟨[], start, found.payload, compression, old, .slnil, ?_, holds, rfl⟩
        rw [← continues.others, ← named]
        exact continues
    | cons update rest ih =>
        intro after start found compression old continues named holds told fine
        have others : ∀ other, other ∈ rest → FstabsApart other.surroundings other.modes :=
          fun other member => told other (List.mem_cons_of_mem _ member)
        rcases continues.remade carries complete short sound unpatched fine.1
            (told update List.mem_cons_self) named holds rfl with
          same | ⟨payload, other, middle, next, read, remade⟩
        · rw [← same] at continues
          obtain ⟨done, last, final, kind, new, part, reached⟩ :=
            ih _ start found compression old continues named holds others fine.2
          exact ⟨done, last, final, kind, new, part.cons update, reached⟩
        · obtain ⟨done, last, final, kind, new, part, reached, readLast, later⟩ :=
            ih _ 0 _ other middle next rfl read others fine.2
          exact ⟨update :: done, last, final, kind, new, part.cons_cons update, reached, readLast,
            middle, remade, later⟩
  obtain ⟨done, start, payload, other, new, part, continues, read, remade⟩ :=
    runs updates machine base parts compression old (.start carries) named holds told fine
  obtain ⟨secure, chromeos, result⟩ := continues.carries.extracted complete
  exact ⟨done, payload, other, new, secure, chromeos, part, result, read, remade⟩

end Sequences

end Phases

def oldUpdate : Update :=
  { surroundings :=
      { keystore := false
        revision := "1"
        unsupportedSelinux := true
        fstabs := oldSetting.fstabs }
    modes := ["nocrypt".toList]
    fstab := bootFstab }

def oldTools : Tools Unit :=
  { completeTools with
    act := fun action state => (decide (action ≠ .hasCustomPatch), state) }

/-! ### Archives as bytes -/

/-- A letter is four bytes, and the end of a name or of a file one. -/
def storedText (text : Text) : List UInt8 :=
  text.flatMap (fun symbol => 1 :: littleEndian 3 symbol.toNat) ++ [0]

def stored : Archive Text Text → List UInt8
  | [] => []
  | (name, content) :: rest => storedText name ++ (storedText content ++ stored rest)

/-- Reads entries back, in the middle of a name or behind it. -/
def readStored : Option Text → Text → List UInt8 → Option (Archive Text Text)
  | none, [], [] => some []
  | name, text, 1 :: first :: second :: third :: rest =>
      readStored name (text ++ [Char.ofNat (leValue [first, second, third])]) rest
  | none, text, 0 :: rest => readStored (some text) [] rest
  | some name, text, 0 :: rest => (readStored none [] rest).map ((name, text) :: ·)
  | _, _, _ => none

theorem readStored_text (name : Option Text) (text read : Text) (rest : List UInt8) :
    readStored name read (storedText text ++ rest) =
      readStored name (read ++ text) (0 :: rest) := by
  induction text generalizing read with
  | nil =>
      rw [List.append_nil]
      rfl
  | cons symbol text ih =>
      have small : symbol.toNat < 256 ^ 3 := by
        rcases symbol.valid with low | high
        · change symbol.toNat < 55296 at low
          omega
        · change _ ∧ symbol.toNat < 1114112 at high
          omega
      have letter : storedText (symbol :: text) ++ rest =
          1 :: (littleEndian 3 symbol.toNat ++ (storedText text ++ rest)) := by
        simp only [storedText, List.flatMap_cons, List.cons_append, List.append_assoc]
      have back : Char.ofNat (leValue (littleEndian 3 symbol.toNat)) = symbol := by
        rw [leValue_littleEndian, Nat.mod_eq_of_lt small, Char.ofNat_toNat]
      have next := ih (read ++ [symbol])
      rw [List.append_assoc] at next
      obtain ⟨first, second, third, bytes⟩ : ∃ first second third,
          littleEndian 3 symbol.toNat = [first, second, third] := ⟨_, _, _, rfl⟩
      rw [bytes] at letter back
      rw [letter]
      simp only [List.cons_append, List.nil_append, readStored, back]
      exact next

theorem readStored_stored (archive : Archive Text Text) :
    readStored none [] (stored archive) = some archive := by
  induction archive with
  | nil => rfl
  | cons entry rest ih =>
      obtain ⟨name, content⟩ := entry
      unfold stored
      rw [readStored_text, List.nil_append, readStored, readStored_text, List.nil_append,
        readStored, ih]
      rfl

/-- Archives are stored behind the magic number, until the file system is full. -/
def oldEquipment : Equipment Unit where
  tools := oldTools
  uncompressed compression bytes :=
    if compression.magic <+: bytes then
      readStored none [] (bytes.drop compression.magic.length)
    else none
  compressed compression archive :=
    (decide ((stored archive).length ≤ 16380), compression.magic ++ stored archive)
  strip := stripNamed
  customPatch bytes _ := (true, bytes)
  written _ := 65536

def oldParts : Parts :=
  smallParts.withRamdisk (Extract.gzipMagic ++ stored oldFiles) .ramdiskGz

def oldPartition : List UInt8 :=
  oldParts.built smallImage 0 ++ List.replicate 32768 0

def oldMachine : Machine (Workspace Unit) :=
  { partition := oldPartition
    extracted := .empty
    newBoot := none
    other :=
      { ramdisk := ⟨fun _ => none, ()⟩
        list := []
        ramdisk1 := []
        ramdisk2 := []
        stripped := []
        tmp := [] } }

theorem oldEquipment_sound : oldEquipment.Sound where
  named := by
    intro compression archive _
    cases compression with
    | gz => exact .gzip (List.prefix_append _ _)
    | lzma => exact .lzma (List.prefix_append _ _)
  reads := by
    intro compression archive _
    change (if compression.magic <+: compression.magic ++ stored archive then
      readStored none [] ((compression.magic ++ stored archive).drop compression.magic.length)
        else none) = some archive
    rw [if_pos (List.prefix_append _ _), List.drop_left, readStored_stored]
  keeps := stripNamed_keeps
  asks _ _ _ _ _ := rfl

theorem oldParts_payload : oldParts.payload.length ≤ 2048 := by
  decide +kernel

theorem oldParts_length : oldParts.length (pageOf smallImage 0) ≤ 10240 :=
  smallParts_bound .ramdiskGz (show oldParts.payload.length ≤ 2048 * 1 from oldParts_payload)

theorem oldPartition_bounds : 32768 ≤ oldPartition.length ∧ oldPartition.length ≤ 57344 := by
  have valid := smallImage_carries.located.pageSize
  have total := oldParts_length
  unfold oldPartition
  rw [List.length_append, Parts.length_built valid, List.length_replicate]
  omega

theorem oldPartition_carries : Carries .lp64 oldPartition 0 oldParts := by
  have total := oldParts_length
  have bounds := oldPartition_bounds
  exact @Carries.built .lp64 smallImage 0 smallParts smallImage_carries oldParts
    (.gzip (List.prefix_append _ _)) smallImage_carries.recognised (by omega) _
    (by
      change oldPartition.length < 2 ^ 63
      omega)

theorem oldMachine_fine (updates : List Update) :
    AllFine (Platform.greedy .lp64) oldEquipment.programs oldParts (pageOf oldPartition 0) updates
      oldMachine := by
  have bounds := oldPartition_bounds
  have page : pageOf oldPartition 0 = pageOf smallImage 0 :=
    pageOf_built smallImage_carries.located.pageSize oldParts
  have initially : oldMachine.partition = oldPartition := rfl
  apply allFine_of_room (Platform.greedy_complete .lp64) (Platform.greedy_shortWrites .lp64)
    (oldEquipment_sound.suits fun _ => rfl) oldPartition_carries (by omega) _ _ updates
    (.inl initially)
  · intro compression workspace success
    have short : (stored workspace.tmp).length ≤ 16380 := of_decide_eq_true success
    have magic := compression.length_magic_le
    have payload : (oldEquipment.programs.compress compression workspace).2.length ≤ 2048 * 8 := by
      change (compression.magic ++ stored workspace.tmp).length ≤ 2048 * 8
      rw [List.length_append]
      omega
    have total := smallParts_bound compression.fileName payload
    have trailer : samsungTrailer.length = 17 := rfl
    rw [page, trailer]
    change (smallParts.withRamdisk (oldEquipment.programs.compress compression workspace).2
      compression.fileName).length (pageOf smallImage 0) + 17 ≤ _
    omega
  · intro _
    change oldPartition.length ≤ 65536
    omega

theorem oldUpdate_apart : FstabsApart oldUpdate.surroundings oldUpdate.modes where
  names := oldSetting_names
  paths := oldSetting_paths
  told := by
    intro _ files
    unfold registeredFiles
    generalize (files "sepolicy".toList).isSome = policy
    generalize (files "init.superuser.rc".toList).isSome = superuser
    revert policy superuser
    decide +kernel

theorem installed_ramdisk_old :
    ∃ done payload other new secure chromeos,
      done.Sublist [oldUpdate, oldUpdate] ∧
      extract (Platform.greedy .lp64) (installed (Platform.greedy .lp64) oldEquipment.programs
          [oldUpdate, oldUpdate] oldMachine).partition .empty =
        { stop := none
          dir := (oldParts.withRamdisk payload (Compression.fileName other)).files secure
            chromeos } ∧
      oldEquipment.uncompressed other payload = some new ∧
      RemadeBy oldEquipment done oldFiles new := by
  have told : ∀ update, update ∈ [oldUpdate, oldUpdate] →
      FstabsApart update.surroundings update.modes := by
    intro update member
    rcases List.mem_pair.mp member with rfl | rfl
    · exact oldUpdate_apart
    · exact oldUpdate_apart
  exact installed_ramdisk (Platform.greedy_complete .lp64) (Platform.greedy_shortWrites .lp64)
    oldEquipment_sound (fun _ => rfl) oldMachine oldPartition_carries .gz rfl
    (oldEquipment_sound.reads .gz oldFiles (by decide +kernel)) [oldUpdate, oldUpdate] told
    (oldMachine_fine _)

end SuperBootimg.Concrete.Scripts
