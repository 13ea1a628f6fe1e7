/-
What repack takes from the original: the header, its sizes and id apart. Two runs
differ only up to the point where these are cleared, and a finished image is an
original that clears to the same header page.
-/

import SuperBootimg.Concrete.DescribedImage
import SuperBootimg.Concrete.KeptHeader

namespace SuperBootimg.Concrete.Repack

open ByteImage PagedLayout StoppableRun

variable {abi : Abi} {platform : Platform abi} {dir : Directory}

/-- A header that can be read whole is written whole. -/
def WholeHeader (platform : Platform abi) : Prop :=
  ∀ readable, hdrSize ≤ readable → platform.write .newBoot readable hdrSize = some hdrSize

/-- How much of the original's header reaches the new file. -/
def copiedBytes (platform : Platform abi) (orig : List UInt8) (base : Nat) : Nat :=
  (platform.write .newBoot (mappedLength orig - base) hdrSize).getD 0

/-! ### The cleared header page -/

theorem read_clearedHeader_blank (header : List UInt8) (index : Nat)
    (touched : ¬ HdrField.Untouched index) : read (clearedHeader header) index = 0 := by
  unfold HdrField.Untouched at touched
  have zeros : littleEndian 4 0 = List.replicate 4 0 := by decide
  apply read_patchAll_blank
  · simp only [zeros, List.mem_cons, List.not_mem_nil, or_false, forall_eq_or_imp, forall_eq,
      read_replicate_fill, implies_true, and_self]
  · right
    simp only [List.mem_cons, List.not_mem_nil, or_false, exists_eq_or_imp, exists_eq_left,
      length_littleEndian, List.length_replicate, HdrField.offset, HdrField.size]
    omega

theorem read_clearedImage (orig : List UInt8) (base index : Nat)
    (untouched : HdrField.Untouched index) :
    read (clearedImage platform orig base).out index =
      if index < min (copiedBytes platform orig base) hdrSize then read orig (base + index)
      else 0 := by
  change read (clearedHeader (patch (resize [] (hdrWord orig base .pageSize)) 0
    ((window orig base hdrSize).take (copiedBytes platform orig base)))) index = _
  rw [read_clearedHeader _ _ untouched, read_patch, List.length_take, length_window]
  by_cases copied : index < min (copiedBytes platform orig base) hdrSize
  · rw [if_pos (by omega), if_pos copied, Nat.sub_zero, read_take, if_pos (by omega),
      read_window, if_pos (by omega)]
  · rw [if_neg (by omega), if_neg copied, read_resize]
    split
    · exact read_nil index
    · rfl

theorem read_clearedImage_blank (orig : List UInt8) (base index : Nat)
    (touched : ¬ HdrField.Untouched index) :
    read (clearedImage platform orig base).out index = 0 :=
  read_clearedHeader_blank _ _ touched

theorem length_clearedImage (orig : List UInt8) (base : Nat)
    (valid : PageSize (hdrWord orig base .pageSize)) :
    (clearedImage platform orig base).out.length = hdrWord orig base .pageSize := by
  have bounds := valid.bounds
  have started : (startImage platform orig base).out.length = hdrWord orig base .pageSize := by
    unfold startImage
    rw [length_patch_inside, length_resize]
    rw [List.length_take, length_window, length_resize]
    unfold hdrSize
    omega
  change (clearedHeader (startImage platform orig base).out).length = _
  rw [length_clearedHeader _ (by rw [started]; unfold hdrSize; omega), started]

/-- Two originals clear to the same page when what is copied of their headers agrees. -/
theorem clearedImage_congr {orig other : List UInt8} {base otherBase : Nat}
    (valid : PageSize (hdrWord orig base .pageSize))
    (samePage : hdrWord other otherBase .pageSize = hdrWord orig base .pageSize)
    (agree : ∀ index, HdrField.Untouched index →
      (if index < min (copiedBytes platform other otherBase) hdrSize
        then read other (otherBase + index) else 0) =
      (if index < min (copiedBytes platform orig base) hdrSize
        then read orig (base + index) else 0)) :
    (clearedImage platform other otherBase).out = (clearedImage platform orig base).out := by
  have otherValid := valid
  rw [← samePage] at otherValid
  apply ext_read
  · rw [length_clearedImage other otherBase otherValid, length_clearedImage orig base valid,
      samePage]
  · intro index _
    by_cases untouched : HdrField.Untouched index
    · rw [read_clearedImage other otherBase index untouched,
        read_clearedImage orig base index untouched]
      exact agree index untouched
    · rw [read_clearedImage_blank other otherBase index untouched,
        read_clearedImage_blank orig base index untouched]

/-! ### Two runs from the same page -/

/-- The kernel is put at the first page wherever the file offset was. -/
theorem appendFile_of_out (name : FileName) {pos : Int} (seekable : 0 ≤ pos) {left right : Build}
    (same : left.out = right.out) :
    appendFile platform dir name pos left = appendFile platform dir name pos right := by
  have sought : (lseek pos : Process Unit) left = lseek pos right := by
    change EStateM.Result.ok () (if 0 ≤ pos then { left with offset := pos.toNat } else left) =
      EStateM.Result.ok () (if 0 ≤ pos then { right with offset := pos.toNat } else right)
    rw [if_pos seekable, if_pos seekable, same]
  exact bind_from sought _

private def behindKernel (platform : Platform abi) (dir : Directory) (pos : Int) :
    Process Unit := do
  let pos ← addPart (appendRamdisk platform dir) .ramdiskSize pos
  let pos ← addOptional platform dir .second .secondSize pos
  let pos ← addOptional platform dir .dt .unused0 pos
  postProcess dir pos

private theorem build_from_cleared (orig : List UInt8) (base : Nat) (before : Build) :
    Repack.build platform dir orig base before =
      (addPart (appendFile platform dir .kernel) .kernelSize
          (intOf (hdrWord (clearedImage platform orig base).out 0 .pageSize)) >>=
        behindKernel platform dir) (clearedImage platform orig base) :=
  rfl

/-- Runs of `build` on originals that clear to the same page are the same run. -/
theorem build_of_cleared {orig other : List UInt8} {base otherBase : Nat}
    (valid : PageSize (hdrWord (clearedImage platform orig base).out 0 .pageSize))
    (same : (clearedImage platform other otherBase).out = (clearedImage platform orig base).out)
    (before : Build) :
    Repack.build platform dir other otherBase before =
      Repack.build platform dir orig base before := by
  have first := @appendFile_of_out abi platform dir .kernel
    (intOf (hdrWord (clearedImage platform orig base).out 0 .pageSize))
    (by rw [valid.intOf_eq]; exact Int.natCast_nonneg _) _ _ same
  rw [build_from_cleared, build_from_cleared, same]
  exact bind_from (bind_from first _) _

/-! ### The length of the output -/

def Build.Within (build : Build) (limit : Nat) : Prop :=
  build.out.length ≤ limit ∧ build.offset ≤ limit

section Within

variable {build : Build} {limit : Nat}

theorem Build.Within.mono {other : Nat} (within : build.Within limit) (more : limit ≤ other) :
    build.Within other :=
  ⟨Nat.le_trans within.1 more, Nat.le_trans within.2 more⟩

theorem Build.Within.seekTo (within : build.Within limit) {pos : Int} (near : pos ≤ limit) :
    (build.seekTo pos).Within limit := by
  unfold Build.seekTo
  split
  · exact ⟨within.1, by change pos.toNat ≤ limit; omega⟩
  · exact within

theorem Build.Within.patched (within : build.Within limit) (start : Nat) (bytes : List UInt8)
    (fits : start + bytes.length ≤ limit) :
    ({ build with out := patch build.out start bytes } : Build).Within limit := by
  have bound := length_patch_le build.out bytes start
  have length := within.1
  exact ⟨Nat.le_trans bound (by omega), within.2⟩

theorem Build.Within.truncated (within : build.Within limit) {pos : Int} (near : pos ≤ limit) :
    (build.truncated pos).Within limit := by
  unfold Build.truncated
  split
  · refine ⟨?_, within.2⟩
    change (resize build.out pos.toNat).length ≤ limit
    rw [length_resize]
    omega
  · exact within

theorem seekEnd_range (abi : Abi) (length : Nat) :
    -2147483648 ≤ seekEnd abi length ∧ seekEnd abi length < 2147483648 := by
  unfold seekEnd
  split
  · exact intOf_range _
  · omega

theorem sizeOf_transferred (abi : Abi) {size : Int} (lower : -2147483648 ≤ size)
    (upper : size < 2147483648) (transfers : abi.sizeOf size < abi.signBit) :
    abi.sizeOf size ≤ 2147483648 := by
  cases abi with
  | ilp32 =>
      have half : Abi.signBit .ilp32 = 2147483648 := rfl
      omega
  | lp64 =>
      have half : Abi.signBit .lp64 = 9223372036854775808 := rfl
      rw [half] at transfers
      change (size % 18446744073709551616).toNat < 9223372036854775808 at transfers
      change (size % 18446744073709551616).toNat ≤ 2147483648
      omega

theorem longOf_near (abi : Abi) {pos : Int} (lower : -2147483648 ≤ pos)
    (upper : pos < 2147483648) : abi.longOf (pos + 512) ≤ 4294967296 := by
  unfold Abi.longOf
  rw [Int.bmod_def]
  rcases abi.modulus_signBit with ⟨modulus, _⟩ | ⟨modulus, _⟩ <;> (rw [modulus]; omega)

/-- One append moves at most as much as an `int` can say. -/
theorem Build.Within.appended (within : build.Within limit) (name : FileName) {pos : Int}
    (near : pos ≤ limit) :
    (build.appended platform dir name pos).Within (limit + 2147483648) := by
  have sought := within.seekTo near
  unfold Build.appended
  cases dir.openRead name with
  | none => exact sought.mono (by omega)
  | some bytes =>
      have range := seekEnd_range abi bytes.length
      have moved := (platform.sendfile_le name bytes.length
        (abi.sizeOf (seekEnd abi bytes.length))).1
      simp only [Build.sent]
      split
      · rename_i transfers
        have small := sizeOf_transferred abi range.1 range.2 transfers
        have length := sought.1
        have offset := sought.2
        have patched := length_patch_le (build.seekTo pos).out
          (bytes.take (platform.sendfile name bytes.length
            (abi.sizeOf (seekEnd abi bytes.length)))) (build.seekTo pos).offset
        rw [List.length_take] at patched
        constructor
        · exact Nat.le_trans patched (by omega)
        · change (build.seekTo pos).offset + platform.sendfile _ _ _ ≤ _
          omega
      · exact sought.mono (by omega)

theorem Build.Within.written (within : build.Within limit) (header : List UInt8) {pos : Int}
    (near : pos + header.length ≤ limit) : (build.written platform header pos).Within limit := by
  simp only [Build.written]
  split
  · apply within.patched
    rw [List.length_take]
    omega
  · exact within

theorem Build.Within.stored (within : build.Within limit) (field : HdrField)
    (member : field ∈ HdrField.sizes) (value : Int) (room : 44 ≤ limit) :
    (build.stored field value).Within limit := by
  have inside := (HdrField.sizes_bounds field member).1
  apply within.patched
  rw [length_littleEndian]
  omega

theorem Build.Within.part {append : Int → Process Int} {field : HdrField}
    (member : field ∈ HdrField.sizes) {pos next : Int} {after : Build} (room : 44 ≤ limit)
    (appends : ∀ result mid, Finishes (append pos) build result mid → mid.Within limit)
    (finished : Finishes (addPart append field pos) build next after) :
    after.Within limit ∧ -2147483648 ≤ next ∧ next < 2147483648 := by
  obtain ⟨size, mid, appendRun, moved, stored⟩ := (addPart_finishes _ _ _ _ _ _).mp finished
  rw [moved, stored]
  exact ⟨(appends size mid appendRun).stored field member size room, intOf_range _⟩

theorem Build.Within.optional (within : build.Within limit) (wide : 4294967296 ≤ limit)
    {name : FileName} {field : HdrField} (member : field ∈ HdrField.sizes) {pos next : Int}
    {after : Build} (near : -2147483648 ≤ pos ∧ pos < 2147483648)
    (finished : Finishes (addOptional platform dir name field pos) build next after) :
    after.Within (limit + 2147483648) ∧ -2147483648 ≤ next ∧ next < 2147483648 := by
  unfold addOptional at finished
  cases readable : dir.access name with
  | true =>
      rw [readable, if_pos rfl] at finished
      apply Build.Within.part member (by omega) _ finished
      intro result mid appendRun
      rw [((appendFile_finishes _ _ _ _ _).mp appendRun).2]
      exact within.appended name (by omega)
  | false =>
      rw [readable, if_neg Bool.false_ne_true] at finished
      obtain ⟨still, same⟩ := (pure_finishes _ _ _ _).mp finished
      rw [still, same]
      exact ⟨within.mono (by omega), near⟩

theorem Build.Within.ramdisk (within : build.Within limit) (wide : 4294967296 ≤ limit)
    {pos result : Int} {mid : Build} (near : -2147483648 ≤ pos ∧ pos < 2147483648)
    (finished : Finishes (appendRamdisk platform dir pos) build result mid) :
    mid.Within (limit + 2147483648) := by
  obtain ⟨header, checks, _, same⟩ := (appendRamdisk_finishes _ _ _ _).mp finished
  rw [same]
  unfold Build.withRamdisk
  split
  · rename_i mtk
    obtain ⟨length, name, _, named, made⟩ := checks mtk
    have headerLength : header.length = 512 := by
      rw [made]
      exact length_mtkHeader length name (length_chosenName named)
    apply (within.written header (by omega)).appended
    exact Int.le_trans (longOf_near abi near.1 near.2) (by omega)
  · exact within.appended _ (by omega)

end Within

/-- Every part adds less than 2^31 bytes to a file of less than 2^32. -/
theorem build_within {orig : List UInt8} {base : Nat}
    (valid : PageSize (hdrWord orig base .pageSize)) {before after : Build}
    (finished : Finishes (Repack.build platform dir orig base) before () after) :
    after.Within 12884901888 := by
  have bounds := valid.bounds
  obtain ⟨kernelNext, withKernel, kernelRun, ramdiskNext, withRamdisk, ramdiskRun, secondNext,
    withSecond, secondRun, dtNext, withDt, dtRun, _, outcome⟩ :=
    (build_finishes _ _ _ _).mp finished
  have started : (clearedImage platform orig base).Within 4294967296 := by
    constructor
    · rw [length_clearedImage orig base valid]
      omega
    · change copiedBytes platform orig base ≤ _
      unfold copiedBytes
      cases wrote : platform.write .newBoot (mappedLength orig - base) hdrSize with
      | none => exact Nat.zero_le _
      | some moved =>
          have small := (platform.write_le _ _ _ _ wrote).1
          unfold hdrSize at small
          change moved ≤ _
          omega
  have startNear : intOf (hdrWord (clearedImage platform orig base).out 0 .pageSize) <
      2147483648 :=
    (intOf_range _).2
  have kernelAppends : ∀ result mid, Finishes (appendFile platform dir .kernel
      (intOf (hdrWord (clearedImage platform orig base).out 0 .pageSize)))
      (clearedImage platform orig base) result mid → mid.Within 6442450944 := by
    intro result mid appendRun
    rw [((appendFile_finishes _ _ _ _ _).mp appendRun).2]
    exact started.appended .kernel (by omega)
  obtain ⟨kernelWithin, kernelNear⟩ :=
    Build.Within.part (by decide) (by omega) kernelAppends kernelRun
  have ramdiskAppends : ∀ result mid, Finishes (appendRamdisk platform dir kernelNext)
      withKernel result mid → mid.Within 8589934592 :=
    fun result mid appendRun => kernelWithin.ramdisk (by omega) kernelNear appendRun
  obtain ⟨ramdiskWithin, ramdiskNear⟩ :=
    Build.Within.part (by decide) (by omega) ramdiskAppends ramdiskRun
  obtain ⟨secondWithin, secondNear⟩ :=
    ramdiskWithin.optional (by omega) (by decide) ramdiskNear secondRun
  obtain ⟨dtWithin, dtNear⟩ :=
    secondWithin.optional (by omega) (by decide) secondNear dtRun
  rw [outcome]
  exact dtWithin.truncated (by omega)

/-! ### Headers that agree -/

/-- Two headers are the same in every field that repack.c does not fill in. -/
def HeadersAgree (left : List UInt8) (leftBase : Nat) (right : List UInt8) (rightBase : Nat) :
    Prop :=
  ∀ field, field ∉ HdrField.sizes → field ≠ .id →
    window left (leftBase + field.offset) field.size =
      window right (rightBase + field.offset) field.size

theorem untouched_of_kept {field : HdrField} (kept : field ∉ HdrField.sizes) (notId : field ≠ .id)
    {index : Nat} (within : index < field.size) :
    HdrField.Untouched (field.offset + index) ∧ field.offset + index < hdrSize := by
  unfold HdrField.Untouched hdrSize
  cases field with
  | kernelSize => exact absurd (by decide) kept
  | ramdiskSize => exact absurd (by decide) kept
  | secondSize => exact absurd (by decide) kept
  | unused0 => exact absurd (by decide) kept
  | id => exact absurd rfl notId
  | _ =>
      simp only [HdrField.size, HdrField.offset, bootMagicSize, bootNameSize, bootArgsSize,
        bootExtraArgsSize] at within ⊢
      omega

theorem kept_of_untouched {index : Nat} (untouched : HdrField.Untouched index)
    (inside : index < hdrSize) :
    ∃ field, field ∉ HdrField.sizes ∧ field ≠ .id ∧
      field.offset ≤ index ∧ index < field.offset + field.size := by
  unfold HdrField.Untouched at untouched
  unfold hdrSize at inside
  have ranges : (0 ≤ index ∧ index < 8) ∨ (12 ≤ index ∧ index < 16) ∨
      (20 ≤ index ∧ index < 24) ∨ (28 ≤ index ∧ index < 32) ∨ (32 ≤ index ∧ index < 36) ∨
      (36 ≤ index ∧ index < 40) ∨ (44 ≤ index ∧ index < 48) ∨ (48 ≤ index ∧ index < 64) ∨
      (64 ≤ index ∧ index < 576) ∨ (608 ≤ index ∧ index < 1632) := by
    omega
  rcases ranges with range | range | range | range | range | range | range | range | range | range
  · exact ⟨.magic, by decide, by decide, range⟩
  · exact ⟨.kernelAddr, by decide, by decide, range⟩
  · exact ⟨.ramdiskAddr, by decide, by decide, range⟩
  · exact ⟨.secondAddr, by decide, by decide, range⟩
  · exact ⟨.tagsAddr, by decide, by decide, range⟩
  · exact ⟨.pageSize, by decide, by decide, range⟩
  · exact ⟨.unused1, by decide, by decide, range⟩
  · exact ⟨.name, by decide, by decide, range⟩
  · exact ⟨.cmdline, by decide, by decide, range⟩
  · exact ⟨.extraCmdline, by decide, by decide, range⟩

theorem headersAgree_iff {left right : List UInt8} {leftBase rightBase : Nat} :
    HeadersAgree left leftBase right rightBase ↔
      ∀ index, HdrField.Untouched index → index < hdrSize →
        read left (leftBase + index) = read right (rightBase + index) := by
  constructor
  · intro agree index untouched inside
    obtain ⟨field, kept, notId, start, stop⟩ := kept_of_untouched untouched inside
    have same := congrArg (fun bytes => read bytes (index - field.offset)) (agree field kept notId)
    simp only [read_window] at same
    rw [if_pos (by omega), if_pos (by omega), Nat.add_assoc, Nat.add_assoc,
      Nat.add_sub_cancel' start] at same
    exact same
  · intro same field kept notId
    apply window_congr
    intro index within
    obtain ⟨untouched, inside⟩ := untouched_of_kept kept notId within
    rw [Nat.add_assoc, Nat.add_assoc]
    exact same _ untouched inside

/-! ### What repack depends on -/

/-- Repack sees the header only, keeps what it does not fill in, and rebuilds its own
output. With 32-bit `off_t` no file has 2^31 bytes. -/
structure FramesHeader (platform : Platform abi) (orig : List UInt8) (base : Nat)
    (dir : Directory) : Prop where
  sameOutcome : ∀ other otherBase, accepted abi other = .ok otherBase →
    base + hdrSize ≤ orig.length → otherBase + hdrSize ≤ other.length →
    HeadersAgree other otherBase orig base → repack platform other dir = repack platform orig dir
  preserved : ∀ out, (repack platform orig dir).stop = none →
    (repack platform orig dir).dir.openRead .newBoot = some out →
    base + hdrSize ≤ orig.length → HeadersAgree out 0 orig base
  idempotent : ∀ out, (repack platform orig dir).stop = none →
    (repack platform orig dir).dir.openRead .newBoot = some out →
    (abi = .ilp32 → out.length < 2147483648) →
      repack platform out dir = repack platform orig dir

theorem copiedBytes_whole (whole : WholeHeader platform) {orig : List UInt8} {base : Nat}
    (readable : base + hdrSize ≤ mappedLength orig) :
    copiedBytes platform orig base = hdrSize := by
  unfold copiedBytes
  rw [whole (mappedLength orig - base) (by omega)]
  rfl

theorem repack_congr {orig other : List UInt8} {base otherBase : Nat}
    (written : platform.HeaderWrites)
    (isAccepted : accepted abi orig = .ok base) (otherAccepted : accepted abi other = .ok otherBase)
    (same : (clearedImage platform other otherBase).out = (clearedImage platform orig base).out) :
    repack platform other dir = repack platform orig dir := by
  obtain ⟨_, header, valid⟩ := (accepted_iff _ _ _).mp isAccepted
  rw [← hdrWord_clearedImage written header valid] at valid
  unfold repack
  rw [isAccepted, otherAccepted]
  simp only [build_of_cleared valid same]

theorem repack_same_outcome (written : platform.HeaderWrites) (whole : WholeHeader platform)
    {orig other : List UInt8} {base otherBase : Nat}
    (isAccepted : accepted abi orig = .ok base) (otherAccepted : accepted abi other = .ok otherBase)
    (complete : base + hdrSize ≤ orig.length) (otherComplete : otherBase + hdrSize ≤ other.length)
    (agree : HeadersAgree other otherBase orig base) :
    repack platform other dir = repack platform orig dir := by
  obtain ⟨_, header, valid⟩ := (accepted_iff _ _ _).mp isAccepted
  have lengths := length_le_mappedLength orig
  have otherLengths := length_le_mappedLength other
  have same := headersAgree_iff.mp agree
  apply repack_congr written isAccepted otherAccepted
  apply clearedImage_congr valid
  · apply word_congr
    intro index within
    rw [Nat.add_assoc, Nat.add_assoc]
    obtain ⟨untouched, inside⟩ :=
      @untouched_of_kept .pageSize (by decide) (by decide) index within
    exact same _ untouched inside
  · intro index untouched
    have copied := @copiedBytes_whole abi platform whole orig base (by omega)
    have otherCopied := @copiedBytes_whole abi platform whole other otherBase (by omega)
    rw [copied, otherCopied]
    split
    · exact same index untouched (by omega)
    · rfl

section Kept

variable {orig : List UInt8} {base : Nat}

/-- Outside the sizes a finished image starts with the page it was begun with. -/
theorem read_built (written : platform.HeaderWrites) (header : HeaderAt orig base)
    (valid : PageSize (hdrWord orig base .pageSize))
    (clear : ClearOfHeader (hdrWord orig base .pageSize) (declaredSizes abi dir))
    {before after : Build}
    (finished : Finishes (Repack.build platform dir orig base) before () after)
    {index : Nat} (untouched : HdrField.Untouched index)
    (inside : index < hdrWord orig base .pageSize) :
    read after.out index =
      if index < min (copiedBytes platform orig base) hdrSize then read orig (base + index)
      else 0 := by
  obtain ⟨_, _, _, _, _, _, kept⟩ := build_keeps written header valid clear finished
  have same := congrArg (fun page => read page index) kept.contents
  simp only [read_window] at same
  rw [if_pos inside, Nat.zero_add, read_sizedHeader _ _ _ _ _ _ (.inl untouched), read_window,
    if_pos inside, Nat.zero_add, read_clearedImage orig base index untouched] at same
  exact same

theorem finished_of_success (isAccepted : accepted abi orig = .ok base) {out : List UInt8}
    (success : (repack platform orig dir).stop = none)
    (stored : (repack platform orig dir).dir.openRead .newBoot = some out) :
    ∃ after, Finishes (Repack.build platform dir orig base) { out := [], offset := 0 } () after ∧
      after.out = out := by
  obtain ⟨found, after, foundAccepted, finished⟩ := (repack_stop_none_iff orig).mp success
  have same := isAccepted.symm.trans foundAccepted
  cases same
  rw [repack_of_finishes isAccepted finished, Directory.openRead_store_same] at stored
  exact ⟨after, finished, Option.some.inj stored⟩

theorem copied_of_headerWrites (written : platform.HeaderWrites) (header : HeaderAt orig base) :
    40 ≤ copiedBytes platform orig base := by
  have begins := header.bound
  have lengths := length_le_mappedLength orig
  unfold bootMagicSize at begins
  have readable := block_mapped orig base header.1 (by omega)
  exact written _ (by omega)

/-- The output is found, accepted and cleared to the page it was made from. -/
theorem built_accepted (written : platform.HeaderWrites) (whole : WholeHeader platform)
    (isAccepted : accepted abi orig = .ok base)
    (clear : ClearOfHeader (hdrWord orig base .pageSize) (declaredSizes abi dir))
    {before after : Build}
    (finished : Finishes (Repack.build platform dir orig base) before () after)
    (short : after.out.length < abi.signBit) :
    accepted abi after.out = .ok 0 ∧
      (clearedImage platform after.out 0).out = (clearedImage platform orig base).out := by
  obtain ⟨_, header, valid⟩ := (accepted_iff _ _ _).mp isAccepted
  have bounds := valid.bounds
  have copied := copied_of_headerWrites written header
  have begins := header.bound
  have front : ∀ index, HdrField.Untouched index → index < 40 →
      read after.out (0 + index) = read orig (base + index) := by
    intro index untouched inside
    rw [Nat.zero_add, read_built written header valid clear finished untouched (by omega),
      if_pos (by unfold hdrSize; omega)]
  have magic : matchesAt after.out 0 bootMagic = true := by
    rw [matchesAt_congr after.out orig bootMagic 0 base, header.2.1]
    intro index within
    have eight : bootMagic.length = 8 := rfl
    exact front index (.inl (by omega)) (by omega)
  have builtHeader : HeaderAt after.out 0 :=
    ⟨Nat.dvd_zero _, magic, fun earlier before => absurd before (Nat.not_lt_zero earlier)⟩
  have samePage : hdrWord after.out 0 .pageSize = hdrWord orig base .pageSize := by
    apply word_congr
    intro index within
    obtain ⟨untouched, _⟩ := @untouched_of_kept .pageSize (by decide) (by decide) index within
    rw [Nat.add_assoc, Nat.add_assoc]
    apply front _ untouched
    simp only [HdrField.offset]
    omega
  have builtBegins := builtHeader.bound
  have lengths := length_le_mappedLength after.out
  have readable : 0 + hdrSize ≤ mappedLength after.out := by
    obtain ⟨count, whole⟩ : memoryPage ∣ mappedLength after.out := dvd_roundUp _
    unfold memoryPage at whole
    unfold bootMagicSize at builtBegins
    unfold hdrSize
    omega
  constructor
  · apply (accepted_iff _ _ _).mpr
    rw [samePage]
    exact ⟨short, builtHeader, valid⟩
  · apply clearedImage_congr valid samePage
    intro index untouched
    rw [copiedBytes_whole whole readable, Nat.min_self]
    split
    · rw [Nat.zero_add]
      exact read_built written header valid clear finished untouched (by unfold hdrSize at *; omega)
    · rw [if_neg (by omega)]

end Kept

/-- As long as the position never comes back to the header, repack depends on the header
alone and preserves it. -/
theorem frames_header_of_clear (platform : Platform abi) (written : platform.HeaderWrites)
    (whole : WholeHeader platform) (orig : List UInt8) (base : Nat) (dir : Directory)
    (isAccepted : accepted abi orig = .ok base)
    (clear : ClearOfHeader (hdrWord orig base .pageSize) (declaredSizes abi dir)) :
    FramesHeader platform orig base dir := by
  obtain ⟨_, header, valid⟩ := (accepted_iff _ _ _).mp isAccepted
  have bounds := valid.bounds
  have lengths := length_le_mappedLength orig
  constructor
  case sameOutcome =>
    intro other otherBase otherAccepted complete otherComplete agree
    exact repack_same_outcome written whole isAccepted otherAccepted complete otherComplete agree
  case preserved =>
    intro out success stored complete
    obtain ⟨after, finished, rfl⟩ := finished_of_success isAccepted success stored
    have copied := @copiedBytes_whole abi platform whole orig base (by omega)
    apply headersAgree_iff.mpr
    intro index untouched inside
    unfold hdrSize at inside
    rw [Nat.zero_add, read_built written header valid clear finished untouched (by omega), copied,
      if_pos (by unfold hdrSize; omega)]
  case idempotent =>
    intro out success stored short
    obtain ⟨after, finished, rfl⟩ := finished_of_success isAccepted success stored
    have within := (build_within valid finished).1
    have representable : after.out.length < abi.signBit := by
      cases abi with
      | ilp32 => exact short rfl
      | lp64 => exact Nat.lt_of_le_of_lt within (by decide)
    obtain ⟨builtAccepted, same⟩ :=
      built_accepted written whole isAccepted clear finished representable
    exact repack_congr written isAccepted builtAccepted same

def headerOnly : List UInt8 :=
  plainHeader 2048 0 0 0 0

theorem smallDirectory_frames_header :
    FramesHeader (Platform.greedy .lp64) headerOnly 0 smallDirectory := by
  have complete := Platform.greedy_complete .lp64
  exact frames_header_of_clear (Platform.greedy .lp64)
    (Platform.headerWrites_of_complete complete (Platform.greedy_shortWrites .lp64))
    (fun readable whole => complete.write_all _ _ _ (by decide) whole) headerOnly 0
    smallDirectory
    ((accepted_iff _ _ _).mpr ⟨by decide +kernel,
      (findHeader_eq_some_iff _ _).mp (by decide +kernel), by decide +kernel⟩)
    (.of_total (by decide +kernel) (by decide +kernel))

def wrappingDirectory : Directory :=
  (Directory.empty.store .kernel (List.replicate 4294965248 0)).store .ramdiskGz
    (List.replicate 16 255)

private def wrappedKernel : Build :=
  ((clearedImage (Platform.greedy .lp64) headerOnly 0).seekTo 2048).stored .kernelSize
    (-2048)

private theorem wrappingDirectory_openRead :
    wrappingDirectory.openRead .kernel = some (List.replicate 4294965248 0) := by
  apply Directory.openRead_of_file
  unfold wrappingDirectory
  rw [Directory.store_other _ _ _ _ (by decide), Directory.store_same]

/-- No byte of the kernel is transferred, and the position comes back to the header. -/
private theorem wrappingDirectory_kernel :
    Finishes (addPart (appendFile (Platform.greedy .lp64) wrappingDirectory .kernel) .kernelSize
      (intOf (hdrWord (clearedImage (Platform.greedy .lp64) headerOnly 0).out 0 .pageSize)))
      (clearedImage (Platform.greedy .lp64) headerOnly 0) 0 wrappedKernel := by
  have page : intOf (hdrWord (clearedImage (Platform.greedy .lp64) headerOnly 0).out 0
      .pageSize) = 2048 := by
    decide +kernel
  have wraps : seekEnd .lp64 4294965248 = -2048 := by decide +kernel
  have appended : (clearedImage (Platform.greedy .lp64) headerOnly 0).appended
      (Platform.greedy .lp64) wrappingDirectory .kernel 2048 =
        (clearedImage (Platform.greedy .lp64) headerOnly 0).seekTo 2048 := by
    unfold Build.appended
    rw [wrappingDirectory_openRead]
    simp only [List.length_replicate, wraps]
    unfold Build.sent
    rw [if_neg (by decide)]
  have size : appendedSize .lp64 wrappingDirectory .kernel = -2048 := by
    unfold appendedSize
    rw [wrappingDirectory_openRead]
    simp only [List.length_replicate, wraps]
  rw [page]
  apply (addPart_finishes _ _ _ _ _ _).mpr
  refine ⟨-2048, _, (appendFile_finishes _ _ _ _ _).mpr ⟨size.symm, appended.symm⟩, ?_, rfl⟩
  decide +kernel

private def stateAfter {α : Type} : EStateM.Result Stop Build α → Option Build
  | .ok _ built => some built
  | .error _ _ => none

theorem wrappingDirectory_not_framed :
    ¬ FramesHeader (Platform.greedy .lp64) headerOnly 0 wrappingDirectory := by
  have isAccepted : accepted .lp64 headerOnly = .ok 0 :=
    (accepted_iff _ _ _).mpr ⟨by decide +kernel,
      (findHeader_eq_some_iff _ _).mp (by decide +kernel), by decide +kernel⟩
  have check : (stateAfter (behindKernel (Platform.greedy .lp64) wrappingDirectory 0
      wrappedKernel)).map (fun built => hdrWord built.out 0 .kernelAddr) = some 4294967295 := by
    decide +kernel
  intro framed
  cases run : behindKernel (Platform.greedy .lp64) wrappingDirectory 0 wrappedKernel with
  | error stop built =>
      rw [run] at check
      cases check
  | ok value built =>
      rw [run] at check
      have overwritten : hdrWord built.out 0 .kernelAddr = 4294967295 := Option.some.inj check
      have finished : Finishes (Repack.build (Platform.greedy .lp64) wrappingDirectory
          headerOnly 0) { out := [], offset := 0 } () built := by
        unfold Finishes
        rw [build_from_cleared]
        exact (bind_finishes _ _ _ _ _).mpr ⟨0, wrappedKernel, wrappingDirectory_kernel, run⟩
      have outcome := repack_of_finishes isAccepted finished
      have agree := framed.preserved built.out (by rw [outcome])
        (by rw [outcome, Directory.openRead_store_same]) (by decide +kernel)
      have kept : hdrWord built.out 0 .kernelAddr = hdrWord headerOnly 0 .kernelAddr :=
        congrArg leValue (agree .kernelAddr (by decide) (by decide))
      rw [overwritten] at kept
      revert kept
      decide +kernel

end SuperBootimg.Concrete.Repack
