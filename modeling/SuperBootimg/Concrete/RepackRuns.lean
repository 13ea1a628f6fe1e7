/-
The run of repack.c on a directory with all required files, as long as the
page-rounded total stays below 2^31: the output file is the built image.
-/

import SuperBootimg.Concrete.BuiltImage

namespace SuperBootimg.Concrete.Repack

open ByteImage PagedLayout StoppableRun

variable {abi : Abi} {platform : Platform abi} {dir : Directory}

/-! ### Complete transfers -/

theorem appended_eq (complete : platform.Complete) (build : Build) (name : FileName)
    (bytes : List UInt8) (pos : Nat) (readable : dir.openRead name = some bytes)
    (small : bytes.length ≤ maxTransfer) :
    appendedSize abi dir name = bytes.length ∧ build.appended platform dir name pos =
      { out := patch build.out pos bytes, offset := pos + bytes.length } := by
  have limits := abi.modulus_signBit
  unfold maxTransfer at small
  have size : seekEnd abi bytes.length = bytes.length := by
    unfold seekEnd
    rw [if_pos (by omega), intOf_eq_self _ (by omega) (by omega)]
  have count : abi.sizeOf (bytes.length : Int) = bytes.length := by
    unfold Abi.sizeOf
    rcases abi.bits_cases with width | width <;> (rw [width]; omega)
  have moved : platform.sendfile name bytes.length bytes.length = bytes.length :=
    complete.sendfile_all name _ _ (by unfold maxTransfer; omega) (Nat.le_refl _)
  unfold appendedSize Build.appended
  rw [readable]
  refine ⟨size, ?_⟩
  unfold Build.sent Build.seekTo
  simp only [size, count]
  rw [if_pos (by omega), if_pos (by omega), moved, List.take_length, Int.toNat_natCast]

theorem appended_out (complete : platform.Complete) (build : Build) (name : FileName)
    (bytes : List UInt8) (pos : Nat) (readable : dir.openRead name = some bytes)
    (small : bytes.length ≤ maxTransfer) :
    appendedSize abi dir name = bytes.length ∧
      (build.appended platform dir name pos).out = patch build.out pos bytes := by
  obtain ⟨size, appended⟩ := appended_eq complete build name bytes pos readable small
  exact ⟨size, congrArg Build.out appended⟩

theorem written_out (complete : platform.Complete) (build : Build) (bytes : List UInt8) (pos : Nat)
    (small : bytes.length ≤ maxTransfer) :
    (build.written platform bytes pos).out = patch build.out pos bytes := by
  have moved := complete.write_all .newBoot bytes.length bytes.length small (Nat.le_refl _)
  unfold Build.written
  rw [if_pos (by omega), moved]
  simp only [Option.getD_some, List.take_length, Int.toNat_natCast]

theorem length_mtkHeader (size : Nat) (name : List UInt8) (length : name.length = 32) :
    (mtkHeader size name).length = 512 := by
  unfold mtkHeader
  simp only [List.length_append, length_littleEndian, List.length_replicate, length]
  rfl

theorem length_chosenName {name : List UInt8} (named : chosenName dir = some name) :
    name.length = 32 := by
  unfold chosenName at named
  split at named
  · rw [← Option.some.inj named, length_resize]
  · split at named
    · rw [← Option.some.inj named, length_resize]
    · cases named

def ramdiskSection (dir : Directory) : Option (List UInt8) :=
  if dir.access .ramdiskMtk then do
    let payload ← dir.openRead .ramdiskGz
    let name ← chosenName dir
    pure (mtkHeader payload.length name ++ payload)
  else dir.openRead (selectedRamdisk dir)

private theorem statSize_of_openRead {name : FileName} {bytes : List UInt8}
    (readable : dir.openRead name = some bytes) (small : bytes.length < abi.signBit) :
    statSize abi dir name = some bytes.length := by
  unfold Directory.openRead at readable
  unfold statSize
  cases found : dir name with
  | none =>
      rw [found] at readable
      cases readable
  | some file =>
      rw [found, Option.bind_some] at readable
      split at readable
      · rw [Option.bind_some, Option.some.inj readable, if_pos small]
      · cases readable

theorem appendRamdisk_out (complete : platform.Complete) (build : Build) (bytes : List UInt8)
    (pos : Nat) (chosen : ramdiskSection dir = some bytes)
    (small : pos + bytes.length < 2147483648) (fits : bytes.length ≤ maxTransfer) :
    ∃ mid, Finishes (appendRamdisk platform dir pos) build bytes.length mid ∧
      mid.out = patch build.out pos bytes := by
  have limits := abi.modulus_signBit
  unfold ramdiskSection at chosen
  by_cases mtk : dir.access .ramdiskMtk = true
  · rw [if_pos mtk] at chosen
    obtain ⟨payload, readable, rest⟩ := Option.bind_eq_some_iff.mp chosen
    obtain ⟨name, named, result⟩ := Option.bind_eq_some_iff.mp rest
    cases result
    have headerLength := length_mtkHeader payload.length name (length_chosenName named)
    rw [List.length_append, headerLength] at small fits ⊢
    refine ⟨_, (appendRamdisk_finishes _ _ _ _).mpr ⟨mtkHeader payload.length name,
      fun _ => ⟨_, name, statSize_of_openRead readable (by omega), named, rfl⟩, ?_, rfl⟩, ?_⟩
    · unfold ramdiskSize
      rw [if_pos mtk, (appended_out complete build .ramdiskGz payload pos readable (by omega)).1,
        intOf_eq_self _ (by omega) (by omega)]
      omega
    · have next : abi.longOf ((pos : Int) + 512) = ((pos + 512 : Nat) : Int) :=
        abi.longOf_eq_self (pos + 512) (by omega)
      unfold Build.withRamdisk
      rw [if_pos mtk, next, (appended_out complete _ .ramdiskGz payload (pos + 512) readable
        (by omega)).2, written_out complete build _ pos (by rw [headerLength]; decide),
        ← headerLength, patch_patch_adjacent]
  · rw [if_neg mtk] at chosen
    obtain ⟨size, out⟩ := appended_out complete build _ bytes pos chosen fits
    refine ⟨_, (appendRamdisk_finishes _ _ _ _).mpr ⟨[], fun impossible => absurd impossible mtk,
      ?_, rfl⟩, ?_⟩
    · unfold ramdiskSize
      rw [if_neg mtk, size]
    · unfold Build.withRamdisk
      rw [if_neg mtk, out]

/-! ### The layout so far -/

/-- The file, cut or extended to the position, is the header page and the sections. -/
structure Laid (page : Nat) (build : Build) (pos : Nat) (header : List UInt8)
    (parts : List (List UInt8)) : Prop where
  valid : PageSize page
  headerLength : header.length = page
  pageSize : hdrWord header 0 .pageSize = page
  contents : resize build.out pos = header ++ compose page parts
  behind : build.out.length ≤ pos

section Steps

variable {page pos : Nat} {build : Build} {header : List UInt8} {parts : List (List UInt8)}

theorem Laid.pos_eq (laid : Laid page build pos header parts) :
    pos = page + span page (parts.map List.length) := by
  have lengths := congrArg List.length laid.contents
  rwa [length_resize, List.length_append, laid.headerLength, length_compose] at lengths

theorem Laid.aligned (laid : Laid page build pos header parts) : page ∣ pos ∧ page ≤ pos := by
  rw [laid.pos_eq]
  exact ⟨Nat.dvd_add (Nat.dvd_refl _) (dvd_span _), Nat.le_add_right _ _⟩

theorem Laid.append (laid : Laid page build pos header parts) (mid : Build)
    (bytes : List UInt8) (appended : mid.out = patch build.out pos bytes) :
    Laid page mid (pos + roundUp page bytes.length) header (parts ++ [bytes]) where
  valid := laid.valid
  headerLength := laid.headerLength
  pageSize := laid.pageSize
  contents := by
    rw [appended, resize_patch_behind _ _ _ _ laid.behind, laid.contents, compose_append,
      List.append_assoc]
    simp only [compose, padded, List.append_nil]
  behind := by
    have upper := length_patch_le build.out bytes pos
    have fits := le_roundUp laid.valid.positive bytes.length
    have behind := laid.behind
    rw [appended]
    omega

theorem Laid.hdrWord_out (laid : Laid page build pos header parts) :
    hdrWord build.out 0 .pageSize = page := by
  have bounds := laid.valid.bounds
  have aligned := laid.aligned
  have length := laid.headerLength
  rw [← laid.pageSize]
  apply word_congr
  intro index within
  have same := congrArg (read · (0 + HdrField.pageSize.offset + index)) laid.contents
  simp only [read_resize, read_append, HdrField.offset] at same
  rw [if_pos (by omega), if_pos (by omega)] at same
  exact same

theorem Laid.store (laid : Laid page build pos header parts) (field : HdrField)
    (member : field ∈ HdrField.sizes) (size : Nat) (small : size < 4294967296) :
    Laid page (build.stored field size) pos (setHdrWord header field size) parts := by
  have bounds := laid.valid.bounds
  have aligned := laid.aligned
  have headerLength := laid.headerLength
  obtain ⟨inside, apart⟩ := HdrField.sizes_bounds field member
  have word : uint32Of (size : Int) = size := by
    rw [uint32Of_ofNat, Nat.mod_eq_of_lt small]
  have contents := laid.contents
  have behind := laid.behind
  unfold Build.stored
  constructor
  case valid => exact laid.valid
  case headerLength => rw [length_setHdrWord _ _ _ (by omega), headerLength]
  case pageSize =>
    rw [hdrWord_setHdrWord_other _ _ _ _ (by simp only [HdrField.offset] at *; omega)]
    exact laid.pageSize
  case contents =>
    simp only [word]
    unfold setHdrWord
    rw [resize_patch_inside _ _ _ _ (by rw [length_littleEndian]; omega), contents,
      patch_append_left _ _ _ _ (by rw [length_littleEndian]; omega)]
  case behind =>
    have upper := length_patch_le build.out (littleEndian 4 size) field.offset
    rw [length_littleEndian] at upper
    simp only [word]
    unfold setHdrWord
    omega

theorem Laid.transfer (laid : Laid page build pos header parts) {size : Nat}
    (total : pos + roundUp page size < 2147483648) : size ≤ maxTransfer := by
  have bounds := laid.valid.bounds
  have aligned := laid.aligned
  have fits := le_roundUp laid.valid.positive size
  have rounded : page ∣ roundUp page size := dvd_roundUp size
  unfold maxTransfer
  rcases laid.valid with rfl | rfl | rfl <;> omega

theorem Laid.part (laid : Laid page build pos header parts) {append : Int → Process Int}
    (field : HdrField) {bytes : List UInt8} (member : field ∈ HdrField.sizes)
    (total : pos + roundUp page bytes.length < 2147483648)
    (appends : ∃ mid, Finishes (append pos) build bytes.length mid ∧
      mid.out = patch build.out pos bytes) :
    ∃ after, Finishes (addPart append field pos) build
        ((pos + roundUp page bytes.length : Nat) : Int) after ∧
      Laid page after (pos + roundUp page bytes.length) (setHdrWord header field bytes.length)
        (parts ++ [bytes]) := by
  obtain ⟨mid, finished, out⟩ := appends
  have extended := laid.append mid _ out
  have fits := le_roundUp laid.valid.positive bytes.length
  have moved := laid.valid.advanceInt_eq pos bytes.length laid.aligned.1 total
  refine ⟨mid.stored field bytes.length, (addPart_finishes _ _ _ _ _ _).mpr
    ⟨bytes.length, mid, finished, ?_, rfl⟩, extended.store field member _ (by omega)⟩
  rw [extended.hdrWord_out, moved]

variable (dir) in
/-- A part that is left out has the layout of an empty one. -/
theorem Laid.optional (laid : Laid page build pos header parts) (complete : platform.Complete)
    (name : FileName) (field : HdrField) (member : field ∈ HdrField.sizes)
    (unset : hdrWord header 0 field = 0)
    (total : pos + roundUp page ((dir.openRead name).getD []).length < 2147483648) :
    ∃ after, Finishes (addOptional platform dir name field pos) build
        ((pos + roundUp page ((dir.openRead name).getD []).length : Nat) : Int) after ∧
      Laid page after (pos + roundUp page ((dir.openRead name).getD []).length)
        (setHdrWord header field ((dir.openRead name).getD []).length)
        (parts ++ [(dir.openRead name).getD []]) := by
  unfold addOptional Directory.access
  cases found : dir.openRead name with
  | none =>
      have bounds := laid.valid.bounds
      have length := laid.headerLength
      have inside := (HdrField.sizes_bounds field member).1
      have same := setHdrWord_self header field (by omega)
      rw [unset] at same
      refine ⟨build, ?_, ?_⟩
      · simp only [Option.isSome_none, Bool.false_eq_true, if_false, Option.getD_none,
          List.length_nil, roundUp_zero, Nat.add_zero]
        exact (pure_finishes _ _ _ _).mpr ⟨rfl, rfl⟩
      · have extended := laid.append build [] rfl
        simp only [Option.getD_none, List.length_nil, same]
        exact extended
  | some bytes =>
      rw [found, Option.getD_some] at total
      obtain ⟨size, out⟩ := appended_out complete build name bytes pos found
        (laid.transfer total)
      simp only [Option.isSome_some, if_true, Option.getD_some]
      exact laid.part field member total
        ⟨_, (appendFile_finishes _ _ _ _ _).mpr ⟨size.symm, rfl⟩, out⟩

end Steps

/-! ### The whole run -/

/-- The header goes into the new file whole, or as far as the original is mapped; what
is not mapped would have been zero. -/
theorem startImage_out (complete : platform.Complete) (short : platform.ShortWrites)
    {orig : List UInt8} {base : Nat} (header : HeaderAt orig base)
    (valid : PageSize (hdrWord orig base .pageSize)) :
    (startImage platform orig base).out = headerPage orig base := by
  have bounds := valid.bounds
  have begins := header.bound
  have lengths := length_le_mappedLength orig
  unfold bootMagicSize at begins
  unfold startImage headerPage
  apply patch_take_fill
  · rw [length_window]
    unfold hdrSize
    omega
  · intro index past
    rw [read_window]
    by_cases mapped : hdrSize ≤ mappedLength orig - base
    · rw [complete.write_all .newBoot _ hdrSize (by decide) mapped, Option.getD_some] at past
      rw [if_neg (by omega)]
    · rw [short .newBoot _ hdrSize (by omega) (by omega) (by decide), Option.getD_some] at past
      rw [read_past _ _ (by omega), ite_self]

theorem clearedImage_laid (complete : platform.Complete) (short : platform.ShortWrites)
    {orig : List UInt8} {base : Nat} (header : HeaderAt orig base)
    (valid : PageSize (hdrWord orig base .pageSize)) :
    Laid (hdrWord orig base .pageSize) (clearedImage platform orig base)
      (hdrWord orig base .pageSize) (clearedHeader (headerPage orig base)) [] := by
  have bounds := valid.bounds
  have out : (clearedImage platform orig base).out = clearedHeader (headerPage orig base) := by
    rw [← startImage_out complete short header valid]
    rfl
  have length : (clearedHeader (headerPage orig base)).length = hdrWord orig base .pageSize := by
    rw [length_clearedHeader, length_headerPage]
    rw [length_headerPage]
    unfold hdrSize
    omega
  constructor
  case valid => exact valid
  case headerLength => exact length
  case pageSize =>
    rw [← hdrWord_headerPage orig base .pageSize (by decide) valid]
    apply word_congr
    intro index within
    apply read_clearedHeader
    unfold HdrField.Untouched
    simp only [HdrField.offset]
    omega
  case contents =>
    rw [out]
    simp only [compose, List.append_nil]
    rw [← length, resize_length]
  case behind => rw [out, length]

def builtLength (page kernelSize ramdiskSize secondSize dtSize : Nat) : Nat :=
  page + span page [kernelSize, ramdiskSize, secondSize, dtSize]

/-- With its files readable and no check failing, the run leaves the built image. -/
theorem build_builds (complete : platform.Complete) (short : platform.ShortWrites)
    {orig : List UInt8} {base : Nat} (header : HeaderAt orig base)
    (valid : PageSize (hdrWord orig base .pageSize)) {kernel ramdisk : List UInt8}
    (kernelRead : dir.openRead .kernel = some kernel)
    (ramdiskRead : ramdiskSection dir = some ramdisk)
    (total : builtLength (hdrWord orig base .pageSize) kernel.length ramdisk.length
      ((dir.openRead .second).getD []).length ((dir.openRead .dt).getD []).length < 2147483648)
    (unchecked : dir.access .rkcrc = false) (build : Build) :
    ∃ after, Finishes (Repack.build platform dir orig base) build () after ∧
      after.out = builtImage orig base kernel ramdisk ((dir.openRead .second).getD [])
        ((dir.openRead .dt).getD []) := by
  have start := clearedImage_laid complete short header valid
  have bounds := valid.bounds
  have unset : hdrWord (setHdrWord (setHdrWord (clearedHeader (headerPage orig base)) .kernelSize
      kernel.length) .ramdiskSize ramdisk.length) 0 .secondSize = 0 := by
    rw [hdrWord_setHdrWord_other _ _ _ _ (by decide), hdrWord_setHdrWord_other _ _ _ _ (by decide),
      hdrWord_clearedHeader _ _ (by decide)]
  have dtUnset : hdrWord (setHdrWord (setHdrWord (setHdrWord (clearedHeader (headerPage orig base))
      .kernelSize kernel.length) .ramdiskSize ramdisk.length) .secondSize
      ((dir.openRead .second).getD []).length) 0 .unused0 = 0 := by
    rw [hdrWord_setHdrWord_other _ _ _ _ (by decide), hdrWord_setHdrWord_other _ _ _ _ (by decide),
      hdrWord_setHdrWord_other _ _ _ _ (by decide), hdrWord_clearedHeader _ _ (by decide)]
  have ramdiskFits := le_roundUp valid.positive ramdisk.length
  simp only [builtLength, span] at total
  -- kernel, ramdisk, second stage, device tree, then the cut to the final position
  obtain ⟨kernelSize, kernelOut⟩ := appended_out complete (clearedImage platform orig base)
    .kernel kernel (hdrWord orig base .pageSize) kernelRead (start.transfer (by omega))
  obtain ⟨withKernel, kernelRun, kernelLaid⟩ := start.part .kernelSize (by decide)
    (by omega) ⟨_, (appendFile_finishes _ _ _ _ _).mpr ⟨kernelSize.symm, rfl⟩, kernelOut⟩
  obtain ⟨withRamdisk, ramdiskRun, ramdiskLaid⟩ := kernelLaid.part .ramdiskSize
    (by decide) (by omega) (appendRamdisk_out complete withKernel ramdisk _ ramdiskRead
      (by omega) (kernelLaid.transfer (by omega)))
  obtain ⟨withSecond, secondRun, secondLaid⟩ := ramdiskLaid.optional dir complete .second
    .secondSize (by decide) unset (by omega)
  obtain ⟨withDt, dtRun, dtLaid⟩ := secondLaid.optional dir complete .dt
    .unused0 (by decide) dtUnset (by omega)
  have startPos : intOf (hdrWord (clearedImage platform orig base).out 0 .pageSize) =
      (hdrWord orig base .pageSize : Int) := by
    rw [start.hdrWord_out, valid.intOf_eq]
  refine ⟨_, (build_finishes _ _ _ _).mpr ⟨_, withKernel, ?_, _, withRamdisk, ramdiskRun,
    _, withSecond, secondRun, _, withDt, dtRun, unchecked, rfl⟩, ?_⟩
  · rw [startPos]
    exact kernelRun
  · unfold Build.truncated
    rw [if_pos (Int.natCast_nonneg _), Int.toNat_natCast]
    exact dtLaid.contents

theorem accepted_iff (abi : Abi) (orig : List UInt8) (base : Nat) :
    accepted abi orig = .ok base ↔
      orig.length < abi.signBit ∧ HeaderAt orig base ∧ PageSize (hdrWord orig base .pageSize) := by
  unfold accepted
  constructor
  · intro result
    split at result
    · cases result
    · cases search : findHeader orig with
      | none =>
          rw [search] at result
          cases result
      | some found =>
          rw [search] at result
          simp only at result
          split at result
          · cases result
            exact ⟨by omega, (findHeader_eq_some_iff orig base).mp search, ‹_›⟩
          · cases result
  · intro given
    obtain ⟨small, header, valid⟩ := given
    have begins := header.bound
    unfold bootMagicSize at begins
    rw [if_neg (by omega), (findHeader_eq_some_iff orig base).mpr header]
    exact if_pos valid

end SuperBootimg.Concrete.Repack

namespace SuperBootimg.Concrete

open StoppableRun

variable {abi : Abi} {platform : Platform abi} {dir : Directory}

theorem repack_of_finishes {orig : List UInt8} {base : Nat} {after : Repack.Build}
    (accepted : Repack.accepted abi orig = .ok base)
    (finished : Finishes (Repack.build platform dir orig base) { out := [], offset := 0 } ()
      after) :
    repack platform orig dir = { stop := none, dir := dir.store .newBoot after.out } := by
  unfold Finishes at finished
  unfold repack
  rw [accepted]
  simp only [finished]

/-- A run that ends with status 0 accepted its original and passed every check. -/
theorem repack_stop_none_iff (orig : List UInt8) :
    (repack platform orig dir).stop = none ↔
      ∃ base after, Repack.accepted abi orig = .ok base ∧
        Finishes (Repack.build platform dir orig base) { out := [], offset := 0 } () after := by
  constructor
  · intro success
    unfold repack at success
    cases result : Repack.accepted abi orig with
    | error stop =>
        rw [result] at success
        cases success
    | ok base =>
        rw [result] at success
        cases run : Repack.build platform dir orig base { out := [], offset := 0 } with
        | ok value after => exact ⟨base, after, rfl, run⟩
        | error stop after =>
            simp only [run] at success
            cases success
  · intro given
    obtain ⟨base, after, accepted, finished⟩ := given
    rw [repack_of_finishes accepted finished]

/-- With its files readable and no check failing, repack leaves the built image. -/
theorem repack_builds (complete : platform.Complete) (short : platform.ShortWrites)
    {orig : List UInt8} {base : Nat} (accepted : Repack.accepted abi orig = .ok base)
    {kernel ramdisk : List UInt8} (kernelRead : dir.openRead .kernel = some kernel)
    (ramdiskRead : Repack.ramdiskSection dir = some ramdisk)
    (total : Repack.builtLength (hdrWord orig base .pageSize) kernel.length ramdisk.length
      ((dir.openRead .second).getD []).length ((dir.openRead .dt).getD []).length < 2147483648)
    (unchecked : dir.access .rkcrc = false) :
    repack platform orig dir =
      { stop := none
        dir := dir.store .newBoot (builtImage orig base kernel ramdisk
          ((dir.openRead .second).getD []) ((dir.openRead .dt).getD [])) } := by
  obtain ⟨_, header, valid⟩ := (Repack.accepted_iff abi orig base).mp accepted
  obtain ⟨after, finished, out⟩ := Repack.build_builds complete short header valid kernelRead
    ramdiskRead total unchecked { out := [], offset := 0 }
  rw [repack_of_finishes accepted finished, out]

end SuperBootimg.Concrete
