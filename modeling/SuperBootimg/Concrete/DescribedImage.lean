/-
The image bootimg.h draws, as a specification of its own, and that every image
repack.c reports as built is one.
-/

import SuperBootimg.Concrete.RepackRuns

namespace SuperBootimg.Concrete

open ByteImage PagedLayout

/-- bootimg.h: a header page, `n` pages of kernel, `m` pages of ramdisk, `o` pages of
second stage, here followed by a device tree. -/
structure BootImage (page : Nat) (kernel ramdisk second dt image : List UInt8) : Prop where
  length : image.length = page * (1 + pages page kernel.length + pages page ramdisk.length +
    pages page second.length + pages page dt.length)
  kernelAt : (image.drop page).take kernel.length = kernel
  ramdiskAt : (image.drop (page * (1 + pages page kernel.length))).take ramdisk.length = ramdisk
  secondAt : (image.drop (page * (1 + pages page kernel.length + pages page ramdisk.length))).take
    second.length = second
  dtAt : (image.drop (page * (1 + pages page kernel.length + pages page ramdisk.length +
    pages page second.length))).take dt.length = dt
  ordered : page + kernel.length ≤ page * (1 + pages page kernel.length) ∧
    page * (1 + pages page kernel.length) + ramdisk.length ≤
      page * (1 + pages page kernel.length + pages page ramdisk.length) ∧
    page * (1 + pages page kernel.length + pages page ramdisk.length) + second.length ≤
      page * (1 + pages page kernel.length + pages page ramdisk.length +
        pages page second.length) ∧
    page * (1 + pages page kernel.length + pages page ramdisk.length +
      pages page second.length) + dt.length ≤ image.length
  pageSize : hdrWord image 0 .pageSize = page
  kernelSize : hdrWord image 0 .kernelSize = kernel.length
  ramdiskSize : hdrWord image 0 .ramdiskSize = ramdisk.length
  secondSize : hdrWord image 0 .secondSize = second.length
  dtSize : hdrWord image 0 .unused0 = dt.length
  fill : ∀ offset, hdrSize ≤ offset →
    (offset < page ∨ page + kernel.length ≤ offset) →
    (offset < page * (1 + pages page kernel.length) ∨
      page * (1 + pages page kernel.length) + ramdisk.length ≤ offset) →
    (offset < page * (1 + pages page kernel.length + pages page ramdisk.length) ∨
      page * (1 + pages page kernel.length + pages page ramdisk.length) + second.length ≤ offset) →
    (offset < page * (1 + pages page kernel.length + pages page ramdisk.length +
        pages page second.length) ∨
      page * (1 + pages page kernel.length + pages page ramdisk.length +
        pages page second.length) + dt.length ≤ offset) →
    read image offset = 0

section Built

variable {orig : List UInt8} {base : Nat} {kernel ramdisk second dt : List UInt8}

variable (kernel ramdisk second dt) in
theorem hdrWord_builtImage (valid : PageSize (hdrWord orig base .pageSize)) (field : HdrField)
    (inside : field.offset + 4 ≤ 2048) :
    hdrWord (builtImage orig base kernel ramdisk second dt) 0 field =
      hdrWord (builtHeader orig base kernel.length ramdisk.length second.length dt.length) 0
        field := by
  have bounds := valid.bounds
  apply word_congr
  intro index within
  unfold builtImage
  rw [read_append, length_builtHeader _ _ _ _ _ _ valid, if_pos (by omega)]

variable (kernel ramdisk second dt) in
theorem read_builtImage_behind (valid : PageSize (hdrWord orig base .pageSize)) (offset : Nat) :
    read (builtImage orig base kernel ramdisk second dt) (hdrWord orig base .pageSize + offset) =
      read (compose (hdrWord orig base .pageSize) [kernel, ramdisk, second, dt]) offset := by
  unfold builtImage
  rw [read_append, length_builtHeader _ _ _ _ _ _ valid, if_neg (by omega), Nat.add_sub_cancel_left]

variable (kernel ramdisk second dt) in
theorem length_builtImage (valid : PageSize (hdrWord orig base .pageSize)) :
    (builtImage orig base kernel ramdisk second dt).length =
      Repack.builtLength (hdrWord orig base .pageSize) kernel.length ramdisk.length second.length
        dt.length := by
  unfold builtImage Repack.builtLength
  rw [List.length_append, length_builtHeader _ _ _ _ _ _ valid, length_compose]
  rfl

variable (kernel ramdisk second dt) in
/-- No size is cut off in the header of an image that is itself small enough. -/
theorem hdrWord_builtHeader_total (valid : PageSize (hdrWord orig base .pageSize))
    (total : Repack.builtLength (hdrWord orig base .pageSize) kernel.length ramdisk.length
      second.length dt.length < 2147483648) :
    hdrWord (builtHeader orig base kernel.length ramdisk.length second.length dt.length) 0
        .kernelSize = kernel.length ∧
      hdrWord (builtHeader orig base kernel.length ramdisk.length second.length dt.length) 0
        .ramdiskSize = ramdisk.length ∧
      hdrWord (builtHeader orig base kernel.length ramdisk.length second.length dt.length) 0
        .secondSize = second.length ∧
      hdrWord (builtHeader orig base kernel.length ramdisk.length second.length dt.length) 0
        .unused0 = dt.length := by
  have kernelFits := le_roundUp valid.positive kernel.length
  have ramdiskFits := le_roundUp valid.positive ramdisk.length
  have secondFits := le_roundUp valid.positive second.length
  have dtFits := le_roundUp valid.positive dt.length
  simp only [Repack.builtLength, span] at total
  apply hdrWord_builtHeader_sizes
  · omega
  · omega
  · omega
  · omega

private theorem positions_eq (page kernel ramdisk second dt : Nat) :
    page + startOf page [kernel, ramdisk, second, dt] 0 = page ∧
      page + startOf page [kernel, ramdisk, second, dt] 1 = page * (1 + pages page kernel) ∧
      page + startOf page [kernel, ramdisk, second, dt] 2 =
        page * (1 + pages page kernel + pages page ramdisk) ∧
      page + startOf page [kernel, ramdisk, second, dt] 3 =
        page * (1 + pages page kernel + pages page ramdisk + pages page second) ∧
      page + span page [kernel, ramdisk, second, dt] =
        page * (1 + pages page kernel + pages page ramdisk + pages page second +
          pages page dt) := by
  simp only [startOf, span, roundUp, Nat.mul_add, Nat.mul_one, Nat.add_zero, true_and]
  omega

/-- Outside the header and the parts a built image is zero. -/
private theorem read_builtImage_fill (valid : PageSize (hdrWord orig base .pageSize))
    {offset : Nat} (behindHeader : hdrSize ≤ offset)
    (outside : ∀ index (bound : index < [kernel, ramdisk, second, dt].length),
      offset < hdrWord orig base .pageSize + startOf (hdrWord orig base .pageSize)
          ([kernel, ramdisk, second, dt].map List.length) index ∨
        hdrWord orig base .pageSize + startOf (hdrWord orig base .pageSize)
          ([kernel, ramdisk, second, dt].map List.length) index +
            ([kernel, ramdisk, second, dt][index]).length ≤ offset) :
    read (builtImage orig base kernel ramdisk second dt) offset = 0 := by
  have bounds := valid.bounds
  unfold hdrSize at behindHeader
  by_cases inHeader : offset < hdrWord orig base .pageSize
  · unfold builtImage
    rw [read_append, length_builtHeader _ _ _ _ _ _ valid, if_pos inHeader,
      read_builtHeader _ _ _ _ _ _ _ (by unfold HdrField.Untouched; omega)]
    unfold headerPage hdrSize
    rw [read_resize, if_pos inHeader, read_window, if_neg (by omega)]
  · obtain ⟨rest, rfl⟩ := Nat.exists_eq_add_of_le (Nat.le_of_not_lt inHeader)
    rw [read_builtImage_behind kernel ramdisk second dt valid]
    apply read_compose_outside
    intro index bound
    have apart := outside index bound
    omega

theorem builtImage_describes (valid : PageSize (hdrWord orig base .pageSize))
    (total : Repack.builtLength (hdrWord orig base .pageSize) kernel.length ramdisk.length
      second.length dt.length < 2147483648) :
    BootImage (hdrWord orig base .pageSize) kernel ramdisk second dt
      (builtImage orig base kernel ramdisk second dt) := by
  have slice := slice_compose valid.positive
    (builtHeader orig base kernel.length ramdisk.length second.length dt.length)
    [kernel, ramdisk, second, dt]
  have word := hdrWord_builtImage kernel ramdisk second dt valid
  have headerLength := length_builtHeader orig base kernel.length ramdisk.length second.length
    dt.length valid
  have kernelFits := le_roundUp valid.positive kernel.length
  have ramdiskFits := le_roundUp valid.positive ramdisk.length
  have secondFits := le_roundUp valid.positive second.length
  have dtFits := le_roundUp valid.positive dt.length
  have length := length_builtImage kernel ramdisk second dt valid
  unfold Repack.builtLength at length
  obtain ⟨kernelStart, ramdiskStart, secondStart, dtStart, whole⟩ := positions_eq
    (hdrWord orig base .pageSize) kernel.length ramdisk.length second.length dt.length
  obtain ⟨kernelSize, ramdiskSize, secondSize, dtSize⟩ :=
    hdrWord_builtHeader_total kernel ramdisk second dt valid total
  have kernelSlice := slice 0 (by simp)
  have ramdiskSlice := slice 1 (by simp)
  have secondSlice := slice 2 (by simp)
  have dtSlice := slice 3 (by simp)
  rw [headerLength] at kernelSlice ramdiskSlice secondSlice dtSlice
  constructor
  case length => rw [length, whole]
  case kernelAt =>
    rw [← kernelStart]
    exact kernelSlice
  case ramdiskAt =>
    rw [← ramdiskStart]
    exact ramdiskSlice
  case secondAt =>
    rw [← secondStart]
    exact secondSlice
  case dtAt =>
    rw [← dtStart]
    exact dtSlice
  case ordered =>
    rw [length, ← ramdiskStart, ← secondStart, ← dtStart]
    simp only [startOf, span]
    omega
  case pageSize =>
    rw [word .pageSize (by decide), hdrWord_builtHeader_pageSize _ _ _ _ _ _ valid]
  case kernelSize => rw [word .kernelSize (by decide), kernelSize]
  case ramdiskSize => rw [word .ramdiskSize (by decide), ramdiskSize]
  case secondSize => rw [word .secondSize (by decide), secondSize]
  case dtSize => rw [word .unused0 (by decide), dtSize]
  case fill =>
    intro offset behindHeader offKernel offRamdisk offSecond offDt
    rw [← kernelStart] at offKernel
    rw [← ramdiskStart] at offRamdisk
    rw [← secondStart] at offSecond
    rw [← dtStart] at offDt
    apply read_builtImage_fill valid behindHeader
    intro index bound
    have places : index = 0 ∨ index = 1 ∨ index = 2 ∨ index = 3 := by
      simp only [List.length_cons, List.length_nil] at bound
      omega
    rcases places with rfl | rfl | rfl | rfl
    · exact offKernel
    · exact offRamdisk
    · exact offSecond
    · exact offDt

end Built

/-! ### Images reported as built -/

section Reported

variable {abi : Abi} {platform : Platform abi}

def mtkExtra (dir : Directory) : Nat :=
  if dir.access .ramdiskMtk then 512 else 0

theorem ramdiskSection_of_checked {dir : Directory} {payload : List UInt8}
    (checked : Repack.Checked abi dir)
    (payloadRead : dir.openRead (Repack.selectedRamdisk dir) = some payload) :
    ∃ section_, Repack.ramdiskSection dir = some section_ ∧
      section_.length = payload.length + mtkExtra dir ∧
      (dir.access .ramdiskMtk = true → ∃ name, Repack.chosenName dir = some name ∧
        section_ = [0x88, 0x16, 0x88, 0x58] ++ littleEndian 4 (uint32Of payload.length) ++
          name ++ List.replicate 472 0xff ++ payload) ∧
      (dir.access .ramdiskMtk = false → section_ = payload) := by
  unfold Repack.ramdiskSection mtkExtra
  cases mtk : dir.access .ramdiskMtk with
  | true =>
      obtain ⟨_, name, _, named⟩ := checked.2 mtk
      have selected : Repack.selectedRamdisk dir = .ramdiskGz := by
        unfold Repack.selectedRamdisk
        rw [mtk]
        rfl
      rw [selected] at payloadRead
      have headerLength := Repack.length_mtkHeader payload.length name
        (Repack.length_chosenName named)
      refine ⟨Repack.mtkHeader payload.length name ++ payload, ?_, ?_, ?_, nofun⟩
      · rw [if_pos rfl, payloadRead, named]
        rfl
      · rw [List.length_append, headerLength, if_pos rfl, Nat.add_comm]
      · intro _
        exact ⟨name, named, rfl⟩
  | false =>
      refine ⟨payload, ?_, ?_, nofun, fun _ => rfl⟩
      · rw [if_neg Bool.false_ne_true]
        exact payloadRead
      · rw [if_neg Bool.false_ne_true, Nat.add_zero]

/-- Every image repack reports as built is the one bootimg.h describes. -/
theorem repack_describes (complete : platform.Complete) (short : platform.ShortWrites)
    (orig : List UInt8) (dir : Directory) (base : Nat) (kernel payload : List UInt8)
    (accepted : Repack.accepted abi orig = .ok base)
    (kernelRead : dir.openRead .kernel = some kernel)
    (payloadRead : dir.openRead (Repack.selectedRamdisk dir) = some payload)
    (total : Repack.builtLength (hdrWord orig base .pageSize) kernel.length
      (payload.length + mtkExtra dir) ((dir.openRead .second).getD []).length
      ((dir.openRead .dt).getD []).length < 2147483648)
    (built : (repack platform orig dir).stop = none) :
    ∃ image ramdisk,
      (repack platform orig dir).dir .newBoot = some { bytes := image, readable := true } ∧
      BootImage (hdrWord orig base .pageSize) kernel ramdisk ((dir.openRead .second).getD [])
        ((dir.openRead .dt).getD []) image ∧
      ramdisk.length = payload.length + mtkExtra dir ∧
      (dir.access .ramdiskMtk = true →
        ∃ name, (dir.access .ramdiskMtkBoot = true ∧ name = resize Repack.rootfsName 32 ∨
            dir.access .ramdiskMtkRecovery = true ∧ name = resize Repack.recoveryName 32) ∧
          ramdisk = [0x88, 0x16, 0x88, 0x58] ++ littleEndian 4 payload.length ++ name ++
            List.replicate 472 0xff ++ payload) ∧
      (dir.access .ramdiskMtk = false → ramdisk = payload) := by
  obtain ⟨found, after, foundAccepted, finished⟩ := (repack_stop_none_iff orig).mp built
  have checked := (Repack.build_finishes_iff_checked orig found _).mp ⟨after, finished⟩
  obtain ⟨_, _, valid⟩ := (Repack.accepted_iff abi orig base).mp accepted
  obtain ⟨ramdisk, chosen, length, mtk, plain⟩ := ramdiskSection_of_checked checked payloadRead
  rw [← length] at total
  have outcome := repack_builds complete short accepted kernelRead chosen total checked.1
  have stored := congrArg (fun result : Outcome => result.dir .newBoot) outcome
  simp only [Directory.store_same] at stored
  refine ⟨_, ramdisk, stored, builtImage_describes valid total, length, ?_, plain⟩
  intro flagged
  obtain ⟨name, named, contents⟩ := mtk flagged
  refine ⟨name, ?_, ?_⟩
  · unfold Repack.chosenName at named
    split at named
    · exact .inl ⟨‹_›, (Option.some.inj named).symm⟩
    · split at named
      · exact .inr ⟨‹_›, (Option.some.inj named).symm⟩
      · cases named
  · rw [contents, uint32Of_ofNat, Nat.mod_eq_of_lt]
    have fits := le_roundUp valid.positive ramdisk.length
    simp only [Repack.builtLength, span] at total
    omega

def smallDirectory : Directory :=
  ((Directory.empty.store .kernel [7]).store .ramdiskGz [0x1f, 0x8b, 0x08, 0x00]).store .second
    [1, 2]

theorem smallDirectory_described :
    ∃ image ramdisk,
      (repack (Platform.greedy .ilp32) (plainHeader 4096 0 0 0 0) smallDirectory).dir .newBoot =
        some { bytes := image, readable := true } ∧
      BootImage (hdrWord (plainHeader 4096 0 0 0 0) 0 .pageSize) [7] ramdisk [1, 2] [] image := by
  obtain ⟨image, ramdisk, stored, described, _⟩ :=
    repack_describes (Platform.greedy_complete .ilp32) (Platform.greedy_shortWrites .ilp32)
      (plainHeader 4096 0 0 0 0) smallDirectory 0 [7] [0x1f, 0x8b, 0x08, 0x00]
      ((Repack.accepted_iff _ _ _).mpr ⟨by decide +kernel,
        (findHeader_eq_some_iff _ _).mp (by decide +kernel), by decide +kernel⟩)
      rfl rfl (by decide +kernel) (by decide +kernel)
  exact ⟨image, ramdisk, stored, described⟩

end Reported

end SuperBootimg.Concrete
