/-
Extract undoes repack: the image repack builds, with any prefix a header search
passes over and any trailer, is taken apart into the files it was built from.
-/

import SuperBootimg.Concrete.DescribedImage
import SuperBootimg.Concrete.HeldSections

namespace SuperBootimg.Concrete

open ByteImage PagedLayout Extract

section Wrapped

variable {orig front trailer : List UInt8} {base : Nat} {kernel ramdisk second dt : List UInt8}

theorem read_wrapped_header (valid : PageSize (hdrWord orig base .pageSize)) (index : Nat)
    (inside : index < 2048) :
    read (front ++ builtImage orig base kernel ramdisk second dt ++ trailer)
        (front.length + index) =
      read (builtHeader orig base kernel.length ramdisk.length second.length dt.length) index := by
  have bounds := valid.bounds
  have length := length_builtHeader orig base kernel.length ramdisk.length second.length dt.length
    valid
  rw [List.append_assoc, read_append, if_neg (by omega), Nat.add_sub_cancel_left, read_append,
    if_pos (by unfold builtImage; rw [List.length_append]; omega)]
  unfold builtImage
  rw [read_append, if_pos (by omega)]

variable (front trailer kernel ramdisk second dt) in
theorem read_wrapped_kept (valid : PageSize (hdrWord orig base .pageSize)) (index : Nat)
    (kept : HdrField.Untouched index) (inside : index < hdrSize) :
    read (front ++ builtImage orig base kernel ramdisk second dt ++ trailer)
        (front.length + index) = read orig (base + index) := by
  have bounds := valid.bounds
  unfold hdrSize at inside
  rw [read_wrapped_header valid index (by omega), read_builtHeader _ _ _ _ _ _ _ kept]
  unfold headerPage hdrSize
  rw [read_resize, if_pos (by omega), read_window, if_pos inside]

theorem hdrWord_wrapped (valid : PageSize (hdrWord orig base .pageSize)) (field : HdrField)
    (inside : field.offset + 4 ≤ 2048) :
    hdrWord (front ++ builtImage orig base kernel ramdisk second dt ++ trailer) front.length
        field =
      hdrWord (builtHeader orig base kernel.length ramdisk.length second.length dt.length) 0
        field := by
  apply word_congr
  intro index within
  rw [Nat.add_assoc, read_wrapped_header valid _ (by omega), Nat.zero_add]

variable (front trailer kernel ramdisk second dt) in
theorem pageOf_wrapped (valid : PageSize (hdrWord orig base .pageSize)) :
    pageOf (front ++ builtImage orig base kernel ramdisk second dt ++ trailer) front.length =
      hdrWord orig base .pageSize := by
  rw [← hdrWord_builtHeader_pageSize orig base kernel.length ramdisk.length second.length
    dt.length valid]
  exact hdrWord_wrapped valid .pageSize (by decide)

variable (front trailer kernel ramdisk second dt) in
/-- A built image holds its sections wherever it stands in a file. -/
theorem builtImage_holds (valid : PageSize (hdrWord orig base .pageSize))
    (total : Repack.builtLength (hdrWord orig base .pageSize) kernel.length ramdisk.length
      second.length dt.length < 2147483648) :
    Holds (front ++ builtImage orig base kernel ramdisk second dt ++ trailer) front.length
      kernel ramdisk second dt := by
  have length := length_builtImage kernel ramdisk second dt valid
  have headerLength := length_builtHeader orig base kernel.length ramdisk.length second.length
    dt.length valid
  have page := pageOf_wrapped front trailer kernel ramdisk second dt valid
  obtain ⟨kernelSize, ramdiskSize, secondSize, dtSize⟩ :=
    hdrWord_builtHeader_total kernel ramdisk second dt valid total
  have place (index : Nat) (bound : index < [kernel, ramdisk, second, dt].length) :
      window (front ++ builtImage orig base kernel ramdisk second dt ++ trailer)
          (front.length + (hdrWord orig base .pageSize +
            startOf (hdrWord orig base .pageSize)
              ([kernel, ramdisk, second, dt].map List.length) index))
          [kernel, ramdisk, second, dt][index].length =
        [kernel, ramdisk, second, dt][index] := by
    have seen := window_inside front
      (builtHeader orig base kernel.length ramdisk.length second.length dt.length)
      (compose (hdrWord orig base .pageSize) [kernel, ramdisk, second, dt]) trailer _ _
      (section_inside valid.positive _ index bound)
    rw [headerLength, window_compose valid.positive _ index bound] at seen
    exact seen
  constructor
  case kernelSize =>
    rw [← kernelSize]
    exact hdrWord_wrapped valid .kernelSize (by decide)
  case ramdiskSize =>
    rw [← ramdiskSize]
    exact hdrWord_wrapped valid .ramdiskSize (by decide)
  case secondSize =>
    rw [← secondSize]
    exact hdrWord_wrapped valid .secondSize (by decide)
  case dtSize =>
    rw [← dtSize]
    exact hdrWord_wrapped valid .unused0 (by decide)
  case kernelAt =>
    rw [page]
    exact place 0 (by simp)
  case ramdiskAt =>
    rw [page]
    exact place 1 (by simp)
  case secondAt =>
    have seen := place 2 (by simp)
    simp only [List.map_cons, List.map_nil, startOf, Nat.add_zero, ← Nat.add_assoc] at seen
    rw [page]
    simp only [← Nat.add_assoc]
    exact seen
  case dtAt =>
    have seen := place 3 (by simp)
    simp only [List.map_cons, List.map_nil, startOf, Nat.add_zero, ← Nat.add_assoc] at seen
    rw [page]
    simp only [← Nat.add_assoc]
    exact seen
  case total =>
    rw [page]
    exact total
  case fits =>
    rw [page, List.length_append, List.length_append, length]
    omega

/-- A prefix without the magic leaves the header where the built image begins. -/
theorem builtImage_located {abi : Abi} (header : HeaderAt orig base)
    (valid : PageSize (hdrWord orig base .pageSize)) (aligned : 256 ∣ front.length)
    (clear : ∀ offset, 256 ∣ offset → matchesAt front offset bootMagic = false)
    (mappable : (front ++ builtImage orig base kernel ramdisk second dt ++ trailer).length <
      abi.signBit) :
    Located abi (front ++ builtImage orig base kernel ramdisk second dt ++ trailer)
      front.length where
  representable := mappable
  header := by
    refine ⟨aligned, ?_, ?_⟩
    · rw [matchesAt_congr _ orig bootMagic front.length base]
      · exact header.2.1
      · intro index within
        have short : index < 8 := within
        exact read_wrapped_kept _ _ _ _ _ _ valid index (.inl short) (by unfold hdrSize; omega)
    · intro earlier before alignedEarlier
      rw [← clear earlier alignedEarlier]
      apply matchesAt_congr
      intro index within
      have short : index < 8 := within
      obtain ⟨count, rfl⟩ := alignedEarlier
      obtain ⟨blocks, blocksEq⟩ := aligned
      rw [List.append_assoc, read_append, if_pos (by omega)]
  pageSize := by
    rw [pageOf_wrapped _ _ _ _ _ _ valid]
    exact valid

theorem builtImage_signed (valid : PageSize (hdrWord orig base .pageSize)) :
    signed (front ++ builtImage orig base kernel ramdisk second dt ++ trailer) front.length =
      matchesAt orig (base + 1024) signMagic := by
  apply matchesAt_congr
  intro index within
  have short : index < 4 := within
  rw [Nat.add_assoc, Nat.add_assoc]
  apply read_wrapped_kept _ _ _ _ _ _ valid
  · unfold HdrField.Untouched
    omega
  · unfold hdrSize
    omega

/-- Only a prefix can say CHROMEOS. -/
theorem builtImage_chromeos (header : HeaderAt orig base)
    (valid : PageSize (hdrWord orig base .pageSize)) (aligned : 256 ∣ front.length) :
    matchesAt (front ++ builtImage orig base kernel ramdisk second dt ++ trailer) 0
      chromeosMagic = matchesAt front 0 chromeosMagic := by
  by_cases bare : front = []
  · subst bare
    have magic := (matchesAt_iff orig bootMagic base).mp header.2.1
    have first := read_wrapped_kept [] trailer kernel ramdisk second dt valid 0
      (.inl (by omega)) (by decide)
    rw [read_of_window magic 0 (by decide), List.length_nil, Nat.add_zero] at first
    rw [matchesAt_of_head_ne _ (by decide) (by rw [first]; decide)]
    exact (matchesAt_of_head_ne _ (by decide) (by decide)).symm
  · have nonempty := List.length_pos_iff.mpr bare
    obtain ⟨blocks, blocksEq⟩ := aligned
    apply matchesAt_congr
    intro index within
    have short : index < 8 := within
    rw [List.append_assoc, read_append, if_pos (by omega)]

end Wrapped

/-! ### The round trip -/

section Trip

variable {abi : Abi} {platform : Platform abi}

def wrapperOf (dir : Directory) : MtkWrapper :=
  if dir.access .ramdiskMtk then
    if dir.access .ramdiskMtkBoot then .boot else .recovery
  else .none

theorem ramdiskSection_eq {dir : Directory} (payload : List UInt8)
    (payloadRead : dir.openRead .ramdiskGz = some payload)
    (flags : dir.access .ramdiskMtk = true →
      dir.access .ramdiskMtkBoot = !dir.access .ramdiskMtkRecovery) :
    Repack.ramdiskSection dir = some ((wrapperOf dir).wrap payload) := by
  unfold Repack.ramdiskSection wrapperOf
  cases mtk : dir.access .ramdiskMtk with
  | true =>
      have exclusive := flags mtk
      rw [if_pos rfl, if_pos rfl, payloadRead]
      unfold Repack.chosenName
      cases boot : dir.access .ramdiskMtkBoot with
      | true => rfl
      | false =>
          rw [boot] at exclusive
          have recovery : dir.access .ramdiskMtkRecovery = true := by
            simpa using exclusive.symm
          rw [recovery]
          rfl
  | false =>
      have readable : dir.access .ramdiskGz = true := by
        unfold Directory.access
        rw [payloadRead]
        rfl
      unfold Repack.selectedRamdisk
      rw [if_neg Bool.false_ne_true, if_neg Bool.false_ne_true, readable]
      simpa [MtkWrapper.wrap] using payloadRead

/-- Extracting what repack built, behind any prefix and in front of any trailer, gives
back the files it was built from. -/
theorem extract_undoes_repack (complete : platform.Complete) (short : platform.ShortWrites)
    (orig : List UInt8) (base : Nat) (dir : Directory) (kernel payload : List UInt8)
    (name : FileName) (accepted : Repack.accepted abi orig = .ok base)
    (unsigned : matchesAt orig (base + 1024) signMagic = false)
    (kernelRead : dir.openRead .kernel = some kernel)
    (payloadRead : dir.openRead .ramdiskGz = some payload) (named : PayloadName payload name)
    (dtForm : ∀ dt, dir.openRead .dt = some dt → ∃ magic, magic ∈ dtMagics ∧ magic <+: dt)
    (flags : dir.access .ramdiskMtk = true →
      dir.access .ramdiskMtkBoot = !dir.access .ramdiskMtkRecovery)
    (unchecked : dir.access .rkcrc = false)
    (total : Repack.builtLength (hdrWord orig base .pageSize) kernel.length
      (payload.length + mtkExtra dir) ((dir.openRead .second).getD []).length
      ((dir.openRead .dt).getD []).length < 2147483648) :
    ∃ image, repack platform orig dir = { stop := none, dir := dir.store .newBoot image } ∧
      image.length = Repack.builtLength (hdrWord orig base .pageSize) kernel.length
        (payload.length + mtkExtra dir) ((dir.openRead .second).getD []).length
        ((dir.openRead .dt).getD []).length ∧
      ∀ front trailer, 256 ∣ front.length →
        (∀ offset, 256 ∣ offset → matchesAt front offset bootMagic = false) →
        (front ++ image ++ trailer).length < abi.signBit →
        extract platform (front ++ image ++ trailer) .empty =
          { stop := none
            dir := restored kernel payload ((dir.openRead .second).getD [])
              ((dir.openRead .dt).getD []) (wrapperOf dir) name
              (decide (front ≠ [] ∨ trailer ≠ [])) (matchesAt front 0 chromeosMagic) } := by
  obtain ⟨_, header, valid⟩ := (Repack.accepted_iff abi orig base).mp accepted
  have chosen := ramdiskSection_eq _ payloadRead flags
  have length : ((wrapperOf dir).wrap payload).length = payload.length + mtkExtra dir := by
    rw [MtkWrapper.length_wrap, Nat.add_comm]
    unfold wrapperOf mtkExtra
    cases dir.access .ramdiskMtk <;> cases dir.access .ramdiskMtkBoot <;> rfl
  rw [← length] at total ⊢
  refine ⟨_, repack_builds complete short accepted kernelRead chosen total unchecked,
    length_builtImage _ _ _ _ valid, ?_⟩
  intro front trailer aligned clear mappable
  have located := builtImage_located header valid aligned clear mappable
  have holds := builtImage_holds front trailer _ _ _ _ valid total
  have recognised : (dir.openRead .dt).getD [] = [] ∨
      ∃ magic, magic ∈ dtMagics ∧ magic <+: (dir.openRead .dt).getD [] := by
    cases found : dir.openRead .dt with
    | none => exact .inl rfl
    | some dt => exact .inr (dtForm dt found)
  have outside (size : Nat)
      (sizeEq : size = (builtImage orig base kernel ((wrapperOf dir).wrap payload)
        ((dir.openRead .second).getD []) ((dir.openRead .dt).getD [])).length) :
      decide (size < (front ++ builtImage orig base kernel ((wrapperOf dir).wrap payload)
        ((dir.openRead .second).getD []) ((dir.openRead .dt).getD []) ++ trailer).length) =
      decide (front ≠ [] ∨ trailer ≠ []) := by
    rw [sizeEq, List.length_append, List.length_append, decide_eq_decide,
      ← List.length_pos_iff, ← List.length_pos_iff]
    omega
  rw [extract_of_holds complete located holds named recognised
    (by rw [builtImage_signed valid, unsigned]), builtImage_chromeos header valid aligned,
    outside _ (by rw [length_builtImage _ _ _ _ valid, pageOf_wrapped _ _ _ _ _ _ valid])]

def fullDirectory : Directory :=
  (((((Directory.empty.store .kernel [7]).store .ramdiskGz [0x1f, 0x8b, 0x08, 0x00, 3]).store
    .second [1, 2]).store .dt [0x51, 0x43, 0x44, 0x54]).store .ramdiskMtk []).store
    .ramdiskMtkRecovery []

theorem fullDirectory_round_trip :
    ∃ image, repack (Platform.greedy .ilp32) (plainHeader 2048 0 0 0 0) fullDirectory =
        { stop := none, dir := fullDirectory.store .newBoot image } ∧
      extract (Platform.greedy .ilp32) (resize chromeosMagic 256 ++ image ++ [9]) .empty =
        { stop := none
          dir := restored [7] [0x1f, 0x8b, 0x08, 0x00, 3] [1, 2] [0x51, 0x43, 0x44, 0x54]
            .recovery .ramdiskGz true true } := by
  obtain ⟨image, built, length, back⟩ := extract_undoes_repack (Platform.greedy_complete .ilp32)
    (Platform.greedy_shortWrites .ilp32) (plainHeader 2048 0 0 0 0) 0 fullDirectory [7]
    [0x1f, 0x8b, 0x08, 0x00, 3] .ramdiskGz
    ((Repack.accepted_iff _ _ _).mpr ⟨by decide +kernel,
      (findHeader_eq_some_iff _ _).mp (by decide +kernel), by decide +kernel⟩)
    (by decide +kernel) rfl rfl (.gzip (by decide))
    (by
      intro dt found
      cases found
      exact ⟨[0x51, 0x43, 0x44, 0x54], by decide, by decide⟩)
    (by decide) (by decide) (by decide +kernel)
  have clear : ∀ offset, 256 ∣ offset →
      matchesAt (resize chromeosMagic 256) offset bootMagic = false := by
    intro offset aligned
    cases found : matchesAt (resize chromeosMagic 256) offset bootMagic with
    | false => rfl
    | true =>
        have inside := matchesAt_bound _ _ _ bootMagic_solid (by decide) found
        rw [length_resize] at inside
        change offset + 8 ≤ 256 at inside
        have first : offset = 0 := by omega
        rw [first] at found
        exact absurd found (by decide +kernel)
  have mappable : (resize chromeosMagic 256 ++ image ++ [9]).length < Abi.signBit .ilp32 := by
    have total : Repack.builtLength (hdrWord (plainHeader 2048 0 0 0 0) 0 .pageSize) 1
        (5 + mtkExtra fullDirectory) 2 4 = 10240 := by decide +kernel
    change image.length = Repack.builtLength (hdrWord (plainHeader 2048 0 0 0 0) 0 .pageSize) 1
      (5 + mtkExtra fullDirectory) 2 4 at length
    rw [List.length_append, List.length_append, length_resize]
    change 256 + image.length + 1 < 2147483648
    omega
  have restoredFiles := back (resize chromeosMagic 256) [9]
    (by simp only [length_resize, Nat.dvd_refl]) clear mappable
  have outside : decide (resize chromeosMagic 256 ≠ [] ∨ [9] ≠ ([] : List UInt8)) = true := by
    decide +kernel
  have chromeos : matchesAt (resize chromeosMagic 256) 0 chromeosMagic = true := by
    decide +kernel
  rw [outside, chromeos] at restoredFiles
  exact ⟨image, built, restoredFiles⟩

end Trip

end SuperBootimg.Concrete
