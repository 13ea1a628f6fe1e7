/-
What each function of repack.c leaves behind. Only the checks can stop a run: a
failed `open` merely turns into a size of -1.
-/

import SuperBootimg.Concrete.RepackProgram

namespace SuperBootimg.Concrete.Repack

open ByteImage StoppableRun

variable {abi : Abi} {platform : Platform abi} {dir : Directory}

/-! ### Appending files -/

def Build.seekTo (build : Build) (pos : Int) : Build :=
  if 0 ≤ pos then { build with offset := pos.toNat } else build

def Build.sent (platform : Platform abi) (build : Build) (name : FileName) (bytes : List UInt8)
    (size : Int) : Build :=
  if abi.sizeOf size < abi.signBit then
    let moved := platform.sendfile name bytes.length (abi.sizeOf size)
    { out := patch build.out build.offset (bytes.take moved), offset := build.offset + moved }
  else build

def appendedSize (abi : Abi) (dir : Directory) (name : FileName) : Int :=
  match dir.openRead name with
  | some bytes => seekEnd abi bytes.length
  | none => -1

def Build.appended (platform : Platform abi) (dir : Directory) (build : Build) (name : FileName)
    (pos : Int) : Build :=
  match dir.openRead name with
  | some bytes => (build.seekTo pos).sent platform name bytes (seekEnd abi bytes.length)
  | none => build.seekTo pos

theorem appendFile_finishes (name : FileName) (pos size : Int) (build after : Build) :
    Finishes (appendFile platform dir name pos) build size after ↔
      size = appendedSize abi dir name ∧ after = build.appended platform dir name pos := by
  unfold appendFile lseek sendfile appendedSize Build.appended
  rw [bind_finishes]
  cases found : dir.openRead name with
  | none =>
      simp only [modify_finishes, pure_finishes]
      constructor
      · intro given
        obtain ⟨_, _, rfl, rfl, rfl⟩ := given
        exact ⟨rfl, rfl⟩
      · intro given
        obtain ⟨rfl, rfl⟩ := given
        exact ⟨(), _, rfl, rfl, rfl⟩
  | some bytes =>
      simp only [bind_finishes, modify_finishes, pure_finishes]
      constructor
      · intro given
        obtain ⟨_, _, rfl, _, _, rfl, rfl, rfl⟩ := given
        exact ⟨rfl, rfl⟩
      · intro given
        obtain ⟨rfl, rfl⟩ := given
        exact ⟨(), _, rfl, (), _, rfl, rfl, rfl⟩

/-! ### The ramdisk -/

def selectedRamdisk (dir : Directory) : FileName :=
  if dir.access .ramdiskMtk ∨ dir.access .ramdiskGz then .ramdiskGz else .ramdisk

def chosenName (dir : Directory) : Option (List UInt8) :=
  if dir.access .ramdiskMtkBoot then some (resize rootfsName 32)
  else if dir.access .ramdiskMtkRecovery then some (resize recoveryName 32)
  else none

def statSize (abi : Abi) (dir : Directory) (name : FileName) : Option Nat :=
  (dir name).bind fun file =>
    if file.bytes.length < abi.signBit then some file.bytes.length else none

def Build.written (platform : Platform abi) (build : Build) (bytes : List UInt8)
    (pos : Int) : Build :=
  if 0 ≤ pos then
    let moved := (platform.write .newBoot bytes.length bytes.length).getD 0
    { build with out := patch build.out pos.toNat (bytes.take moved) }
  else build

def ramdiskSize (abi : Abi) (dir : Directory) : Int :=
  if dir.access .ramdiskMtk then intOf (appendedSize abi dir .ramdiskGz + 512)
  else appendedSize abi dir (selectedRamdisk dir)

/-- The output file after `append_ramdisk`, for the header it writes in the MTK case. -/
def Build.withRamdisk (platform : Platform abi) (dir : Directory) (build : Build)
    (header : List UInt8) (pos : Int) : Build :=
  if dir.access .ramdiskMtk then
    (build.written platform header pos).appended platform dir .ramdiskGz (abi.longOf (pos + 512))
  else build.appended platform dir (selectedRamdisk dir) pos

private theorem fileSize_finishes (name : FileName) (size : Nat) (build after : Build) :
    Finishes (fileSize abi dir name) build size after ↔
      statSize abi dir name = some size ∧ after = build := by
  unfold fileSize statSize
  cases found : dir name with
  | none =>
      constructor
      · intro impossible
        exact absurd impossible (throw_not_finishes _ _ _ _)
      · intro given
        obtain ⟨impossible, _⟩ := given
        cases impossible
  | some file =>
      simp only [ite_finishes, pure_finishes, Option.bind_some]
      constructor
      · intro given
        rcases given with ⟨small, rfl, rfl⟩ | ⟨_, impossible⟩
        · exact ⟨if_pos small, rfl⟩
        · exact absurd impossible (throw_not_finishes _ _ _ _)
      · intro given
        obtain ⟨stat, rfl⟩ := given
        by_cases small : file.bytes.length < abi.signBit
        · rw [if_pos small] at stat
          exact .inl ⟨small, (Option.some.inj stat).symm, rfl⟩
        · rw [if_neg small] at stat
          cases stat

private theorem mtkName_finishes (name : List UInt8) (build after : Build) :
    Finishes (mtkName dir) build name after ↔ chosenName dir = some name ∧ after = build := by
  unfold mtkName chosenName
  by_cases boot : dir.access .ramdiskMtkBoot = true
  · rw [if_pos boot, if_pos boot, pure_finishes]
    exact and_congr ⟨fun same => congrArg some same.symm,
      fun same => (Option.some.inj same).symm⟩ Iff.rfl
  · rw [if_neg boot, if_neg boot]
    by_cases recovery : dir.access .ramdiskMtkRecovery = true
    · rw [if_pos recovery, if_pos recovery, pure_finishes]
      exact and_congr ⟨fun same => congrArg some same.symm,
        fun same => (Option.some.inj same).symm⟩ Iff.rfl
    · rw [if_neg recovery, if_neg recovery]
      constructor
      · intro impossible
        exact absurd impossible (throw_not_finishes _ _ _ _)
      · intro given
        obtain ⟨impossible, _⟩ := given
        cases impossible

theorem appendRamdisk_finishes (pos size : Int) (build after : Build) :
    Finishes (appendRamdisk platform dir pos) build size after ↔
      ∃ header, (dir.access .ramdiskMtk = true → ∃ length name,
          statSize abi dir .ramdiskGz = some length ∧ chosenName dir = some name ∧
          header = mtkHeader length name) ∧
        size = ramdiskSize abi dir ∧ after = build.withRamdisk platform dir header pos := by
  unfold appendRamdisk ramdiskSize Build.withRamdisk selectedRamdisk
  by_cases mtk : dir.access .ramdiskMtk = true
  · simp only [mtk, if_true, bind_finishes, fileSize_finishes, mtkName_finishes, pwrite,
      modify_finishes, appendFile_finishes, pure_finishes]
    constructor
    · intro given
      obtain ⟨length, _, ⟨stat, rfl⟩, name, _, ⟨named, rfl⟩, _, _, rfl, _, _, ⟨rfl, rfl⟩, rfl,
        rfl⟩ := given
      exact ⟨mtkHeader length name, fun _ => ⟨length, name, stat, named, rfl⟩, rfl, rfl⟩
    · intro given
      obtain ⟨header, checked, rfl, rfl⟩ := given
      obtain ⟨length, name, stat, named, rfl⟩ := checked trivial
      exact ⟨length, _, ⟨stat, rfl⟩, name, _, ⟨named, rfl⟩, (), _, rfl, _, _, ⟨rfl, rfl⟩, rfl, rfl⟩
  · rw [if_neg mtk]
    by_cases gzip : dir.access .ramdiskGz = true
    · simp [mtk, gzip, appendFile_finishes]
    · simp [mtk, gzip, appendFile_finishes]

/-! ### Parts and checks -/

def Build.stored (build : Build) (field : HdrField) (value : Int) : Build :=
  { build with out := setHdrWord build.out field (uint32Of value) }

theorem addPart_finishes (append : Int → Process Int) (field : HdrField) (pos next : Int)
    (build after : Build) :
    Finishes (addPart append field pos) build next after ↔
      ∃ size mid, Finishes (append pos) build size mid ∧
        next = advanceInt (hdrWord mid.out 0 .pageSize) pos size ∧
        after = mid.stored field size := by
  unfold addPart loadPageSize storeField
  simp only [bind_finishes, get_finishes, pure_finishes, modify_finishes]
  constructor
  · intro given
    obtain ⟨size, mid, appendRun, _, _, ⟨_, _, ⟨rfl, rfl⟩, rfl, rfl⟩, _, _, rfl, moved,
      rfl⟩ := given
    exact ⟨size, _, appendRun, moved, rfl⟩
  · intro given
    obtain ⟨size, mid, appendRun, moved, rfl⟩ := given
    exact ⟨size, mid, appendRun, _, mid, ⟨mid, mid, ⟨rfl, rfl⟩, rfl, rfl⟩, (), _, rfl, moved, rfl⟩

theorem addOptional_finishes (name : FileName) (field : HdrField) (pos next : Int)
    (build after : Build) :
    Finishes (addOptional platform dir name field pos) build next after ↔
      (dir.access name = true ∧
        next = advanceInt (hdrWord (build.appended platform dir name pos).out 0 .pageSize) pos
          (appendedSize abi dir name) ∧
        after = (build.appended platform dir name pos).stored field (appendedSize abi dir name)) ∨
      (dir.access name = false ∧ next = pos ∧ after = build) := by
  unfold addOptional
  rw [ite_finishes, addPart_finishes, pure_finishes]
  simp only [appendFile_finishes, Bool.not_eq_true]
  constructor
  · intro given
    rcases given with ⟨readable, _, _, ⟨rfl, rfl⟩, moved, stored⟩ | absent
    · exact .inl ⟨readable, moved, stored⟩
    · exact .inr absent
  · intro given
    rcases given with ⟨readable, moved, stored⟩ | absent
    · exact .inl ⟨readable, _, _, ⟨rfl, rfl⟩, moved, stored⟩
    · exact .inr absent

def Build.truncated (build : Build) (pos : Int) : Build :=
  if 0 ≤ pos then { build with out := resize build.out pos.toNat } else build

theorem postProcess_finishes (pos : Int) (build after : Build) :
    Finishes (postProcess dir pos) build () after ↔
      dir.access .rkcrc = false ∧ after = build.truncated pos := by
  unfold postProcess ftruncate
  rw [ite_finishes, modify_finishes]
  simp only [Bool.not_eq_true]
  constructor
  · intro given
    rcases given with ⟨_, impossible⟩ | ⟨absent, rfl⟩
    · exact absurd impossible (throw_not_finishes _ _ _ _)
    · exact ⟨absent, rfl⟩
  · intro given
    obtain ⟨absent, rfl⟩ := given
    exact .inr ⟨absent, rfl⟩

def Build.cleared (build : Build) : Build :=
  let zeroed := (((build.stored .kernelSize 0).stored .ramdiskSize 0).stored .secondSize 0).stored
    .unused0 0
  { zeroed with out := patch zeroed.out HdrField.id.offset (List.replicate HdrField.id.size 0) }

theorem clearFields_finishes (result : Unit) (build after : Build) :
    Finishes clearFields build result after ↔ after = build.cleared := by
  have run : Finishes clearFields build result build.cleared := rfl
  constructor
  · intro finished
    exact (finished.unique run).2
  · intro same
    subst same
    exact run

def clearedImage (platform : Platform abi) (orig : List UInt8) (base : Nat) : Build :=
  (startImage platform orig base).cleared

/-- A whole run, part by part. -/
theorem build_finishes (orig : List UInt8) (base : Nat) (build after : Build) :
    Finishes (Repack.build platform dir orig base) build () after ↔
      ∃ kernelNext withKernel, Finishes (addPart (appendFile platform dir .kernel) .kernelSize
            (intOf (hdrWord (clearedImage platform orig base).out 0 .pageSize)))
          (clearedImage platform orig base) kernelNext withKernel ∧
      ∃ ramdiskNext withRamdisk, Finishes (addPart (appendRamdisk platform dir) .ramdiskSize
          kernelNext) withKernel ramdiskNext withRamdisk ∧
      ∃ secondNext withSecond, Finishes (addOptional platform dir .second .secondSize ramdiskNext)
          withRamdisk secondNext withSecond ∧
      ∃ dtNext withDt, Finishes (addOptional platform dir .dt .unused0 secondNext)
          withSecond dtNext withDt ∧
        dir.access .rkcrc = false ∧ after = withDt.truncated dtNext := by
  unfold Repack.build loadPageSize
  simp only [bind_finishes, get_finishes, set_finishes, pure_finishes, clearFields_finishes,
    postProcess_finishes]
  constructor
  · intro given
    obtain ⟨_, _, started, _, _, cleared, page, loaded, ⟨_, _, ⟨read, same⟩, pageEq, kept⟩,
      parts⟩ := given
    subst started cleared read same kept
    rw [pageEq] at parts
    exact parts
  · intro parts
    exact ⟨(), _, rfl, (), _, rfl, _, _, ⟨_, _, ⟨rfl, rfl⟩, rfl, rfl⟩, parts⟩

/-! ### Runs that are not stopped -/

/-- What repack.c checks before it returns 0. -/
def Checked (abi : Abi) (dir : Directory) : Prop :=
  dir.access .rkcrc = false ∧
    (dir.access .ramdiskMtk = true → ∃ length name,
      statSize abi dir .ramdiskGz = some length ∧ chosenName dir = some name)

variable (platform dir) in
private theorem addOptional_total (name : FileName) (field : HdrField) (pos : Int)
    (build : Build) :
    ∃ next after, Finishes (addOptional platform dir name field pos) build next after := by
  cases readable : dir.access name with
  | true => exact ⟨_, _, (addOptional_finishes _ _ _ _ _ _).mpr (.inl ⟨readable, rfl, rfl⟩)⟩
  | false => exact ⟨_, _, (addOptional_finishes _ _ _ _ _ _).mpr (.inr ⟨readable, rfl, rfl⟩)⟩

/-- Nothing but the checks stops a run, whatever files are missing. -/
theorem build_finishes_iff_checked (orig : List UInt8) (base : Nat) (build : Build) :
    (∃ after, Finishes (Repack.build platform dir orig base) build () after) ↔
      Checked abi dir := by
  constructor
  · intro given
    obtain ⟨after, finished⟩ := given
    obtain ⟨_, _, _, _, _, ramdiskRun, _, _, _, _, _, _, unchecked, _⟩ :=
      (build_finishes _ _ _ _).mp finished
    obtain ⟨_, _, appendRun, _⟩ := (addPart_finishes _ _ _ _ _ _).mp ramdiskRun
    obtain ⟨header, checks, _⟩ := (appendRamdisk_finishes _ _ _ _).mp appendRun
    refine ⟨unchecked, ?_⟩
    intro mtk
    obtain ⟨length, name, stat, named, _⟩ := checks mtk
    exact ⟨length, name, stat, named⟩
  · intro given
    obtain ⟨unchecked, checks⟩ := given
    have header : ∃ header, dir.access .ramdiskMtk = true → ∃ length name,
        statSize abi dir .ramdiskGz = some length ∧ chosenName dir = some name ∧
        header = mtkHeader length name := by
      cases mtk : dir.access .ramdiskMtk with
      | true =>
          obtain ⟨length, name, stat, named⟩ := checks mtk
          exact ⟨mtkHeader length name, fun _ => ⟨length, name, stat, named, rfl⟩⟩
      | false => exact ⟨[], fun impossible => by cases impossible⟩
    obtain ⟨header, passed⟩ := header
    have kernelRun := (addPart_finishes (appendFile platform dir .kernel) .kernelSize
      (intOf (hdrWord (clearedImage platform orig base).out 0 .pageSize)) _
      (clearedImage platform orig base) _).mpr
      ⟨_, _, (appendFile_finishes _ _ _ _ _).mpr ⟨rfl, rfl⟩, rfl, rfl⟩
    have ramdiskRun := fun pos build => (addPart_finishes (appendRamdisk platform dir)
      .ramdiskSize pos _ build _).mpr
      ⟨_, _, (appendRamdisk_finishes _ _ _ _).mpr ⟨header, passed, rfl, rfl⟩, rfl, rfl⟩
    obtain ⟨_, _, secondRun⟩ := addOptional_total platform dir .second .secondSize _ _
    obtain ⟨_, _, dtRun⟩ := addOptional_total platform dir .dt .unused0 _ _
    exact ⟨_, (build_finishes _ _ _ _).mpr ⟨_, _, kernelRun, _, _, ramdiskRun _ _, _, _, secondRun,
      _, _, dtRun, unchecked, rfl⟩⟩

end SuperBootimg.Concrete.Repack
