/-
When bootimg-repack fails closed in a directory. Its own checks, that of the size of
`ramdisk.gz` behind an MTK header among them, end with status 1 and leave what has been
written so far; a file that cannot be opened is appended as one of size -1 and the run
goes on.
-/

import SuperBootimg.Concrete.DescribedImage
import SuperBootimg.Concrete.KeptHeader

namespace SuperBootimg.Concrete

open ByteImage PagedLayout StoppableRun

variable {abi : Abi}

/-! ### Parts and their sizes -/

/-- What `open` gives of a file; one whose length is no `off_t` cannot be opened. -/
def Directory.opened (abi : Abi) (dir : Directory) (name : FileName) : Option (List UInt8) :=
  (dir.openRead name).filter fun bytes => decide (bytes.length < abi.signBit)

def PartHeld (abi : Abi) (dir : Directory) (built : List UInt8) (name : FileName) (extra : Nat)
    (field : HdrField) : Prop :=
  ∃ bytes, dir.opened abi name = some bytes ∧ hdrWord built 0 field = bytes.length + extra

structure PartsHeld (abi : Abi) (dir : Directory) (built : List UInt8) : Prop where
  kernel : PartHeld abi dir built .kernel 0 .kernelSize
  ramdisk : PartHeld abi dir built (Repack.selectedRamdisk dir) (mtkExtra dir) .ramdiskSize
  second : dir.access .second = true → PartHeld abi dir built .second 0 .secondSize
  dt : dir.access .dt = true → PartHeld abi dir built .dt 0 .unused0

/-- An image reported as built holds the parts it was to be built from, and without a kernel
or the ramdisk that is looked for there is none. -/
structure FailsClosed (platform : Platform abi) (orig : List UInt8) (dir : Directory) : Prop where
  held : (repack platform orig dir).stop = none →
    ∃ built, (repack platform orig dir).dir.openRead .newBoot = some built ∧
      PartsHeld abi dir built
  stopped : dir.opened abi .kernel = none ∨
      dir.opened abi (Repack.selectedRamdisk dir) = none →
    (repack platform orig dir).stop ≠ none ∧ (repack platform orig dir).dir .newBoot = none

/-- A file can be opened, and the size of its part fits into its field. -/
def Appendable (abi : Abi) (dir : Directory) (name : FileName) (extra : Nat) : Prop :=
  ∃ bytes, dir.opened abi name = some bytes ∧ bytes.length + extra < 4294967296

structure AllAppendable (abi : Abi) (dir : Directory) : Prop where
  kernel : Appendable abi dir .kernel 0
  ramdisk : Appendable abi dir (Repack.selectedRamdisk dir) (mtkExtra dir)
  second : dir.access .second = true → Appendable abi dir .second 0
  dt : dir.access .dt = true → Appendable abi dir .dt 0

def partLengths (dir : Directory) : List Nat :=
  [((dir.openRead .kernel).getD []).length,
    ((dir.openRead (Repack.selectedRamdisk dir)).getD []).length + mtkExtra dir,
    ((dir.openRead .second).getD []).length, ((dir.openRead .dt).getD []).length]

/-- Kernel and ramdisk can be opened. What is appended unless a check stops the run can be
opened and fits its field, and no part behind the kernel begins, nor the image ends, at a
multiple of 2^32. -/
structure Closes (abi : Abi) (page : Nat) (dir : Directory) : Prop where
  kernel : dir.opened abi .kernel ≠ none
  ramdisk : dir.opened abi (Repack.selectedRamdisk dir) ≠ none
  parts : Repack.Checked abi dir →
    AllAppendable abi dir ∧ Repack.ClearOfHeader page (partLengths dir)

section Directories

variable {dir : Directory} {name : FileName} {bytes : List UInt8}

theorem openRead_of_opened (found : dir.opened abi name = some bytes) :
    dir.openRead name = some bytes ∧ bytes.length < abi.signBit := by
  unfold Directory.opened at found
  rw [Option.filter_eq_some_iff] at found
  exact ⟨found.1, of_decide_eq_true found.2⟩

theorem appendedSize_of_opened (found : dir.opened abi name = some bytes) :
    uint32Of (Repack.appendedSize abi dir name) = bytes.length % 4294967296 := by
  obtain ⟨readable, small⟩ := openRead_of_opened found
  unfold Repack.appendedSize Repack.seekEnd
  rw [readable]
  simp only [if_pos small]
  rw [uint32Of_intOf, uint32Of_ofNat]

theorem ramdiskSize_of_opened
    (found : dir.opened abi (Repack.selectedRamdisk dir) = some bytes) :
    uint32Of (Repack.ramdiskSize abi dir) = (bytes.length + mtkExtra dir) % 4294967296 := by
  unfold Repack.ramdiskSize mtkExtra
  by_cases mtk : dir.access .ramdiskMtk = true
  · have selected : Repack.selectedRamdisk dir = .ramdiskGz := by
      unfold Repack.selectedRamdisk
      rw [if_pos (.inl mtk)]
    rw [selected] at found
    obtain ⟨readable, small⟩ := openRead_of_opened found
    rw [if_pos mtk, if_pos mtk, uint32Of_intOf]
    unfold Repack.appendedSize Repack.seekEnd
    rw [readable]
    simp only [if_pos small]
    have same := intOf_emod bytes.length
    unfold uint32Of
    omega
  · rw [if_neg mtk, if_neg mtk, appendedSize_of_opened found, Nat.add_zero]

theorem Appendable.of_held {built : List UInt8} {extra : Nat} {field : HdrField}
    (held : PartHeld abi dir built name extra field) : Appendable abi dir name extra := by
  obtain ⟨bytes, found, size⟩ := held
  have small := hdrWord_lt built 0 field
  exact ⟨bytes, found, by omega⟩

theorem PartsHeld.allAppendable {built : List UInt8} (held : PartsHeld abi dir built) :
    AllAppendable abi dir where
  kernel := .of_held held.kernel
  ramdisk := .of_held held.ramdisk
  second readable := .of_held (held.second readable)
  dt readable := .of_held (held.dt readable)

private theorem hdrWord_nil (field : HdrField) : hdrWord [] 0 field = 0 := by
  cases field <;> rfl

private theorem PartHeld.size_blank {field : HdrField} (held : PartHeld abi dir [] name 0 field) :
    uint32Of (Repack.appendedSize abi dir name) = 0 := by
  obtain ⟨bytes, found, size⟩ := held
  rw [hdrWord_nil] at size
  rw [appendedSize_of_opened found]
  omega

private theorem optionalSize_blank {field : HdrField}
    (held : dir.access name = true → PartHeld abi dir [] name 0 field) :
    Repack.optionalSize abi dir name = 0 := by
  unfold Repack.optionalSize
  split
  · rename_i readable
    exact (held readable).size_blank
  · rfl

theorem PartsHeld.declaredSizes_blank (held : PartsHeld abi dir []) :
    Repack.declaredSizes abi dir = [0, 0, 0, 0] := by
  obtain ⟨bytes, found, size⟩ := held.ramdisk
  rw [hdrWord_nil] at size
  have ramdisk : uint32Of (Repack.ramdiskSize abi dir) = 0 := by
    rw [ramdiskSize_of_opened found]
    omega
  unfold Repack.declaredSizes
  rw [held.kernel.size_blank, ramdisk, optionalSize_blank held.second, optionalSize_blank held.dt]

theorem Appendable.size (appendable : Appendable abi dir name 0) :
    ((dir.openRead name).getD []).length = uint32Of (Repack.appendedSize abi dir name) := by
  obtain ⟨bytes, found, small⟩ := appendable
  rw [appendedSize_of_opened found, (openRead_of_opened found).1]
  exact (Nat.mod_eq_of_lt small).symm

theorem optionalSize_of_appendable
    (appendable : dir.access name = true → Appendable abi dir name 0) :
    ((dir.openRead name).getD []).length = Repack.optionalSize abi dir name := by
  unfold Repack.optionalSize
  cases readable : dir.access name with
  | true =>
      rw [if_pos rfl]
      exact (appendable readable).size
  | false =>
      have missing : dir.openRead name = none := Option.isNone_iff_eq_none.mp (by
        rw [← Option.not_isSome]
        unfold Directory.access at readable
        rw [readable]
        rfl)
      rw [missing]
      rfl

theorem AllAppendable.declaredSizes (appendable : AllAppendable abi dir) :
    partLengths dir = Repack.declaredSizes abi dir := by
  obtain ⟨bytes, found, small⟩ := appendable.ramdisk
  unfold partLengths Repack.declaredSizes
  rw [appendable.kernel.size, optionalSize_of_appendable appendable.second,
    optionalSize_of_appendable appendable.dt, ramdiskSize_of_opened found,
    (openRead_of_opened found).1, Nat.mod_eq_of_lt small]
  rfl

end Directories

/-! ### Directories in general -/

section Repacked

variable {platform : Platform abi} {orig : List UInt8} {base : Nat} {dir : Directory}

theorem repack_stop_none_iff_checked (accepted : Repack.accepted abi orig = .ok base) :
    (repack platform orig dir).stop = none ↔ Repack.Checked abi dir := by
  rw [repack_stop_none_iff]
  constructor
  · intro success
    obtain ⟨found, after, _, finished⟩ := success
    exact (Repack.build_finishes_iff_checked orig found _).mp ⟨after, finished⟩
  · intro checked
    obtain ⟨after, finished⟩ := (Repack.build_finishes_iff_checked orig base _).mpr checked
    exact ⟨base, after, accepted, finished⟩

theorem repack_fields (written : platform.HeaderWrites)
    (accepted : Repack.accepted abi orig = .ok base) (checked : Repack.Checked abi dir)
    (clear : Repack.ClearOfHeader (hdrWord orig base .pageSize) (Repack.declaredSizes abi dir)) :
    ∃ built, (repack platform orig dir).dir.openRead .newBoot = some built ∧
      hdrWord built 0 .kernelSize = uint32Of (Repack.appendedSize abi dir .kernel) ∧
      hdrWord built 0 .ramdiskSize = uint32Of (Repack.ramdiskSize abi dir) ∧
      (dir.access .second = true →
        hdrWord built 0 .secondSize = uint32Of (Repack.appendedSize abi dir .second)) ∧
      (dir.access .dt = true →
        hdrWord built 0 .unused0 = uint32Of (Repack.appendedSize abi dir .dt)) := by
  obtain ⟨_, header, valid⟩ := (Repack.accepted_iff abi orig base).mp accepted
  obtain ⟨after, finished⟩ : ∃ after, Finishes (Repack.build platform dir orig base)
      { out := [], offset := 0 } () after :=
    (Repack.build_finishes_iff_checked orig base _).mpr checked
  refine ⟨after.out, ?_, Repack.built_fields written header valid clear finished⟩
  rw [repack_of_finishes accepted finished]
  exact Directory.openRead_store_same _ _ _

/-- The new file stays, however the run ends. -/
theorem repack_newBoot (accepted : Repack.accepted abi orig = .ok base) :
    (repack platform orig dir).dir .newBoot ≠ none := by
  unfold repack
  rw [accepted]
  simp only
  cases Repack.build platform dir orig base { out := [], offset := 0 } with
  | ok _ built =>
      simp only [Directory.store_same]
      exact Option.some_ne_none _
  | error stop built =>
      simp only [Directory.store_same]
      exact Option.some_ne_none _

theorem FailsClosed.opened (accepted : Repack.accepted abi orig = .ok base)
    (closed : FailsClosed platform orig dir) :
    dir.opened abi .kernel ≠ none ∧ dir.opened abi (Repack.selectedRamdisk dir) ≠ none := by
  constructor
  · intro missing
    exact repack_newBoot accepted (closed.stopped (.inl missing)).2
  · intro missing
    exact repack_newBoot accepted (closed.stopped (.inr missing)).2

theorem FailsClosed.allAppendable (accepted : Repack.accepted abi orig = .ok base)
    (closed : FailsClosed platform orig dir) (checked : Repack.Checked abi dir) :
    AllAppendable abi dir := by
  obtain ⟨built, _, held⟩ := closed.held ((repack_stop_none_iff_checked accepted).mpr checked)
  exact held.allAppendable

private theorem PartHeld.of_appendable {built : List UInt8} {name : FileName} {field : HdrField}
    (appendable : Appendable abi dir name 0)
    (stored : hdrWord built 0 field = uint32Of (Repack.appendedSize abi dir name)) :
    PartHeld abi dir built name 0 field := by
  obtain ⟨bytes, found, small⟩ := appendable
  refine ⟨bytes, found, ?_⟩
  rw [stored, appendedSize_of_opened found]
  exact Nat.mod_eq_of_lt small

theorem Closes.failsClosed (written : platform.HeaderWrites)
    (accepted : Repack.accepted abi orig = .ok base)
    (closes : Closes abi (hdrWord orig base .pageSize) dir) : FailsClosed platform orig dir := by
  constructor
  case held =>
    intro success
    have checked := (repack_stop_none_iff_checked accepted).mp success
    obtain ⟨appendable, clear⟩ := closes.parts checked
    rw [appendable.declaredSizes] at clear
    obtain ⟨built, stored, kernel, ramdisk, second, dt⟩ :=
      repack_fields written accepted checked clear
    obtain ⟨bytes, found, small⟩ := appendable.ramdisk
    refine ⟨built, stored, ?_⟩
    constructor
    case kernel => exact .of_appendable appendable.kernel kernel
    case ramdisk =>
      refine ⟨bytes, found, ?_⟩
      rw [ramdisk, ramdiskSize_of_opened found]
      exact Nat.mod_eq_of_lt small
    case second =>
      intro readable
      exact .of_appendable (appendable.second readable) (second readable)
    case dt =>
      intro readable
      exact .of_appendable (appendable.dt readable) (dt readable)
  case stopped =>
    intro missing
    rcases missing with none | none
    · exact absurd none closes.kernel
    · exact absurd none closes.ramdisk

/-- An image whose end is 0 as an `int` is cut down to nothing, its size fields included. -/
theorem not_failsClosed_of_end (written : platform.HeaderWrites)
    (accepted : Repack.accepted abi orig = .ok base) (checked : Repack.Checked abi dir)
    (clear : ∀ count, 0 < count → count < 4 →
      Repack.partPos abi dir (hdrWord orig base .pageSize) count % 4294967296 ≠ 0)
    (ends : Repack.partPos abi dir (hdrWord orig base .pageSize) 4 % 4294967296 = 0) :
    ¬ FailsClosed platform orig dir := by
  obtain ⟨_, header, valid⟩ := (Repack.accepted_iff abi orig base).mp accepted
  have bounds := valid.bounds
  intro closed
  obtain ⟨built, stored, held⟩ := closed.held ((repack_stop_none_iff_checked accepted).mpr checked)
  obtain ⟨after, finished⟩ : ∃ after, Finishes (Repack.build platform dir orig base)
      { out := [], offset := 0 } () after :=
    (Repack.build_finishes_iff_checked orig base _).mpr checked
  obtain ⟨_, _, _, withDt, _, outcome⟩ :=
    Repack.build_appends written header valid clear finished
  have cut : intOf (Repack.partPos abi dir (hdrWord orig base .pageSize) 4) = 0 := by
    have same := intOf_emod (Repack.partPos abi dir (hdrWord orig base .pageSize) 4)
    have range := intOf_range (Repack.partPos abi dir (hdrWord orig base .pageSize) 4)
    omega
  have empty : built = [] := by
    rw [repack_of_finishes accepted finished, outcome, cut] at stored
    have same := Option.some.inj (stored.symm.trans (Directory.openRead_store_same _ _ _))
    unfold Repack.Build.truncated at same
    rw [if_pos (Int.le_refl 0)] at same
    rw [same]
    exact List.eq_nil_of_length_eq_zero (length_resize _ _)
  rw [empty] at held
  have sizes := held.declaredSizes_blank
  unfold Repack.partPos at ends
  rw [sizes, List.take_of_length_le (Nat.le_refl 4)] at ends
  simp only [span, roundUp_zero, Nat.add_zero] at ends
  omega

theorem FailsClosed.closes (written : platform.HeaderWrites)
    (accepted : Repack.accepted abi orig = .ok base) (closed : FailsClosed platform orig dir)
    (clear : ∀ count, 0 < count → count < 4 →
      (hdrWord orig base .pageSize +
        span (hdrWord orig base .pageSize) ((partLengths dir).take count)) % 4294967296 ≠ 0) :
    Closes abi (hdrWord orig base .pageSize) dir := by
  obtain ⟨kernel, ramdisk⟩ := closed.opened accepted
  refine ⟨kernel, ramdisk, ?_⟩
  intro checked
  have appendable := closed.allAppendable accepted checked
  refine ⟨appendable, ?_⟩
  intro count positive bound
  by_cases last : count = 4
  · intro ends
    rw [appendable.declaredSizes] at clear ends
    rw [last] at ends
    exact not_failsClosed_of_end written accepted checked clear ends closed
  · exact clear count positive (Nat.lt_of_le_of_ne bound last)

end Repacked

end SuperBootimg.Concrete
