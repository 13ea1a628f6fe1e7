/-
Repack undoes extract on canonical images: what comes back is the same file with
the id and the rest of the header page blanked, and from then on nothing changes.
-/

import SuperBootimg.Concrete.RoundTrip
import SuperBootimg.Concrete.DecodedLayout

namespace SuperBootimg.Concrete

open ByteImage PagedLayout Extract

def declaredSections (image : List UInt8) : List (Nat × Nat) :=
  [(pageOf image 0, kernelSizeOf image 0), (ramdiskStart image 0, ramdiskSizeOf image 0),
    (secondStart image 0, secondSizeOf image 0), (dtStart image 0, dtSizeOf image 0)]

/-- The images repack can reproduce: the header at offset 0, the sections of bootimg.h
behind it with zero padding and nothing else, and a gzip ramdisk, wrapped or not. -/
structure Canonical (image : List UInt8) (wrapper : MtkWrapper) (payload : List UInt8) :
    Prop where
  magic : matchesAt image 0 bootMagic = true
  pageSize : PageSize (pageOf image 0)
  length : image.length = dtStart image 0 + roundUp (pageOf image 0) (dtSizeOf image 0)
  short : image.length < 2147483648
  padding : ∀ range, range ∈ declaredSections image → ∀ offset, range.1 + range.2 ≤ offset →
    offset < range.1 + roundUp (pageOf image 0) range.2 → read image offset = 0
  ramdisk : window image (ramdiskStart image 0) (ramdiskSizeOf image 0) = wrapper.wrap payload
  gzip : gzipMagic <+: payload
  dt : dtSizeOf image 0 ≠ 0 → ∃ magic, magic ∈ dtMagics ∧
    magic <+: window image (dtStart image 0) (dtSizeOf image 0)
  unsigned : matchesAt image 1024 signMagic = false

/-- The image with a zero id and zeros between the header and the first section. -/
def blanked (image : List UInt8) : List UInt8 :=
  patchAll image [(HdrField.id.offset, List.replicate HdrField.id.size 0),
    (hdrSize, List.replicate (pageOf image 0 - hdrSize) 0)]

section Blanked

variable {image : List UInt8} {wrapper : MtkWrapper} {payload : List UInt8}

theorem Canonical.page_le (canonical : Canonical image wrapper payload) :
    2048 ≤ pageOf image 0 ∧ pageOf image 0 ≤ image.length := by
  have bounds := canonical.pageSize.bounds
  have length := canonical.length
  unfold dtStart at length
  simp only [Nat.mul_add, Nat.mul_one] at length
  omega

theorem Canonical.length_blanked (canonical : Canonical image wrapper payload) :
    (blanked image).length = image.length := by
  have bounds := canonical.page_le
  apply length_patchAll
  simp only [List.mem_cons, List.not_mem_nil, or_false, forall_eq_or_imp, forall_eq,
    List.length_replicate, HdrField.offset, HdrField.size, hdrSize]
  omega

theorem read_blanked (image : List UInt8) (index : Nat) :
    read (blanked image) index =
      if (576 ≤ index ∧ index < 608) ∨ (1632 ≤ index ∧ index < pageOf image 0) then 0
      else read image index := by
  unfold blanked
  simp only [patchAll]
  rw [read_patch, read_patch]
  simp only [List.length_replicate, HdrField.offset, HdrField.size, hdrSize]
  by_cases rest : 1632 ≤ index ∧ index < pageOf image 0
  · rw [if_pos (by omega), if_pos (.inr rest), read_replicate_fill]
  · rw [if_neg (by omega)]
    by_cases id : 576 ≤ index ∧ index < 608
    · rw [if_pos (by omega), if_pos (.inl id), read_replicate_fill]
    · rw [if_neg (by omega), if_neg (by omega)]

end Blanked

/-! ### The sections of a canonical image -/

section Sections

variable {image : List UInt8} {wrapper : MtkWrapper} {payload : List UInt8}

def kernelOf (image : List UInt8) : List UInt8 :=
  window image (pageOf image 0) (kernelSizeOf image 0)

def secondOf (image : List UInt8) : List UInt8 :=
  window image (secondStart image 0) (secondSizeOf image 0)

def dtOf (image : List UInt8) : List UInt8 :=
  window image (dtStart image 0) (dtSizeOf image 0)

theorem starts_eq (image : List UInt8) :
    ramdiskStart image 0 = pageOf image 0 + roundUp (pageOf image 0) (kernelSizeOf image 0) ∧
      secondStart image 0 =
        ramdiskStart image 0 + roundUp (pageOf image 0) (ramdiskSizeOf image 0) ∧
      dtStart image 0 =
        secondStart image 0 + roundUp (pageOf image 0) (secondSizeOf image 0) := by
  unfold dtStart secondStart ramdiskStart secondPages ramdiskPages kernelPages roundUp
  simp only [Nat.mul_add, Nat.mul_one, and_self]

theorem Canonical.ramdiskSize (canonical : Canonical image wrapper payload) :
    ramdiskSizeOf image 0 = (wrapper.wrap payload).length := by
  rw [← canonical.ramdisk, length_window]

theorem Canonical.total (canonical : Canonical image wrapper payload) :
    Repack.builtLength (pageOf image 0) (kernelOf image).length (wrapper.wrap payload).length
      (secondOf image).length (dtOf image).length = image.length := by
  obtain ⟨ramdiskAt, secondAt, dtAt⟩ := starts_eq image
  have length := canonical.length
  unfold kernelOf secondOf dtOf Repack.builtLength
  rw [length_window, length_window, length_window, ← canonical.ramdiskSize]
  simp only [span]
  omega

theorem Canonical.holds (canonical : Canonical image wrapper payload) :
    Holds image 0 (kernelOf image) (wrapper.wrap payload) (secondOf image) (dtOf image) := by
  obtain ⟨ramdiskAt, secondAt, dtAt⟩ := starts_eq image
  have total := canonical.total
  have short := canonical.short
  have ramdiskSize := canonical.ramdiskSize
  have kernelLength : (kernelOf image).length = kernelSizeOf image 0 := length_window _ _ _
  have secondLength : (secondOf image).length = secondSizeOf image 0 := length_window _ _ _
  have dtLength : (dtOf image).length = dtSizeOf image 0 := length_window _ _ _
  constructor
  case kernelSize => exact kernelLength.symm
  case ramdiskSize => exact ramdiskSize
  case secondSize => exact secondLength.symm
  case dtSize => exact dtLength.symm
  case kernelAt =>
    rw [kernelLength, Nat.zero_add]
    rfl
  case ramdiskAt =>
    rw [kernelLength, Nat.zero_add, ← ramdiskAt, ← ramdiskSize]
    exact canonical.ramdisk
  case secondAt =>
    rw [kernelLength, secondLength, ← ramdiskSize, Nat.zero_add, ← ramdiskAt, ← secondAt]
    rfl
  case dtAt =>
    rw [kernelLength, secondLength, dtLength, ← ramdiskSize, Nat.zero_add, ← ramdiskAt,
      ← secondAt, ← dtAt]
    rfl
  case total => omega
  case fits => omega

theorem Canonical.headerAt (canonical : Canonical image wrapper payload) : HeaderAt image 0 :=
  ⟨Nat.dvd_zero _, canonical.magic, fun _ before => absurd before (Nat.not_lt_zero _)⟩

theorem Canonical.located (canonical : Canonical image wrapper payload) (abi : Abi) :
    Located abi image 0 where
  representable := by
    have short := canonical.short
    have limits := abi.signBit_cases
    omega
  header := canonical.headerAt
  pageSize := canonical.pageSize

theorem Canonical.recognised (canonical : Canonical image wrapper payload) :
    dtOf image = [] ∨ ∃ magic, magic ∈ dtMagics ∧ magic <+: dtOf image := by
  by_cases absent : dtSizeOf image 0 = 0
  · exact .inl (List.eq_nil_of_length_eq_zero (by unfold dtOf; rw [length_window, absent]))
  · exact .inr (canonical.dt absent)

theorem Canonical.extracted {abi : Abi} {platform : Platform abi}
    (complete : platform.Complete) (canonical : Canonical image wrapper payload) :
    ∃ chromeos, extract platform image .empty =
      { stop := none
        dir := restored (kernelOf image) payload (secondOf image) (dtOf image) wrapper .ramdiskGz
          false chromeos } := by
  have result := extract_of_holds complete (canonical.located abi) canonical.holds
    (.gzip canonical.gzip) canonical.recognised
    (by unfold signed; rw [Nat.zero_add]; exact canonical.unsigned)
  rw [canonical.total, decide_eq_false (Nat.lt_irrefl _)] at result
  exact ⟨_, result⟩

end Sections

/-! ### Repacking what was extracted -/

section Restored

variable (kernel payload second dt : List UInt8) (wrapper : MtkWrapper) (secure chromeos : Bool)

theorem restored_kernel :
    (restored kernel payload second dt wrapper .ramdiskGz secure chromeos).openRead .kernel =
      some kernel := rfl

theorem restored_optional :
    ((restored kernel payload second dt wrapper .ramdiskGz secure chromeos).openRead
        .second).getD [] = second ∧
      ((restored kernel payload second dt wrapper .ramdiskGz secure chromeos).openRead
        .dt).getD [] = dt := by
  have noFlag : FileName.second ∉ wrapper.flags ∧ FileName.dt ∉ wrapper.flags := by
    cases wrapper <;> decide
  unfold Directory.openRead restored
  constructor
  · by_cases absent : second = []
    · simp [noFlag.1, absent]
    · simp [noFlag.1, absent]
  · by_cases absent : dt = []
    · simp [noFlag.2, absent]
    · simp [noFlag.2, absent]

theorem restored_unchecked :
    (restored kernel payload second dt wrapper .ramdiskGz secure chromeos).access .rkcrc =
      false := by
  cases wrapper <;> rfl

theorem restored_ramdiskSection :
    Repack.ramdiskSection (restored kernel payload second dt wrapper .ramdiskGz secure chromeos) =
      some (wrapper.wrap payload) := by
  have exclusive : (restored kernel payload second dt wrapper .ramdiskGz secure chromeos).access
        .ramdiskMtk = true →
      (restored kernel payload second dt wrapper .ramdiskGz secure chromeos).access
          .ramdiskMtkBoot =
        !(restored kernel payload second dt wrapper .ramdiskGz secure chromeos).access
          .ramdiskMtkRecovery := by
    cases wrapper with
    | none =>
        intro flagged
        cases (show false = true from flagged)
    | boot => exact fun _ => rfl
    | recovery => exact fun _ => rfl
  rw [ramdiskSection_eq payload rfl exclusive]
  cases wrapper <;> rfl

end Restored

theorem Canonical.repacked {abi : Abi} {platform : Platform abi} (complete : platform.Complete)
    (short : platform.ShortWrites) {image : List UInt8} {wrapper : MtkWrapper}
    {payload : List UInt8} (canonical : Canonical image wrapper payload) :
    (extract platform image .empty).stop = none ∧
      repack platform image (extract platform image .empty).dir =
        { stop := none
          dir := (extract platform image .empty).dir.store .newBoot
            (builtImage image 0 (kernelOf image) (wrapper.wrap payload) (secondOf image)
              (dtOf image)) } := by
  obtain ⟨chromeos, extracted⟩ := canonical.extracted complete
  rw [extracted]
  refine ⟨rfl, ?_⟩
  have located := canonical.located abi
  have accepted := (Repack.accepted_iff abi image 0).mpr
    ⟨located.representable, located.header, located.pageSize⟩
  obtain ⟨second, dt⟩ := restored_optional (kernelOf image) payload (secondOf image) (dtOf image)
    wrapper false chromeos
  have total := canonical.total
  have small := canonical.short
  rw [repack_builds complete short accepted (restored_kernel _ _ _ _ _ _ _)
    (restored_ramdiskSection _ _ _ _ _ _ _)
    (by rw [second, dt]; exact Nat.lt_of_le_of_lt (Nat.le_of_eq total) small)
    (restored_unchecked _ _ _ _ _ _ _), second, dt]

/-! ### The image that comes back -/

section Back

variable {image : List UInt8} {wrapper : MtkWrapper} {payload : List UInt8}

theorem read_of_hdrWord_eq {left right : List UInt8} (field : HdrField)
    (same : hdrWord left 0 field = hdrWord right 0 field) (index : Nat)
    (inside : field.offset ≤ index ∧ index < field.offset + 4) :
    read left index = read right index := by
  have leftBytes := littleEndian_leValue (window left (0 + field.offset) 4)
  have rightBytes := littleEndian_leValue (window right (0 + field.offset) 4)
  unfold hdrWord word at same
  rw [length_window] at leftBytes rightBytes
  rw [same, rightBytes] at leftBytes
  have seen := congrArg (read · (index - field.offset)) leftBytes
  simp only [read_window, Nat.zero_add] at seen
  rw [if_pos (by omega), if_pos (by omega), Nat.add_sub_cancel' inside.1] at seen
  exact seen.symm

theorem Canonical.header_back (canonical : Canonical image wrapper payload) (index : Nat)
    (inside : index < pageOf image 0) :
    read (builtHeader image 0 (kernelOf image).length (wrapper.wrap payload).length
      (secondOf image).length (dtOf image).length) index = read (blanked image) index := by
  have bounds := canonical.page_le
  have total := canonical.total
  have short := canonical.short
  have holds := canonical.holds
  have kernelFits := le_roundUp canonical.pageSize.positive (kernelOf image).length
  have ramdiskFits := le_roundUp canonical.pageSize.positive (wrapper.wrap payload).length
  have secondFits := le_roundUp canonical.pageSize.positive (secondOf image).length
  have dtFits := le_roundUp canonical.pageSize.positive (dtOf image).length
  simp only [Repack.builtLength, span] at total
  obtain ⟨kernelSize, ramdiskSize, secondSize, dtSize⟩ := hdrWord_builtHeader_sizes image 0
    (kernelOf image).length (wrapper.wrap payload).length (secondOf image).length
    (dtOf image).length (by omega) (by omega) (by omega) (by omega)
  rw [read_blanked]
  by_cases untouched : HdrField.Untouched index
  · rw [read_builtHeader _ _ _ _ _ _ _ untouched]
    unfold HdrField.Untouched at untouched
    unfold headerPage hdrSize
    rw [read_resize, if_pos inside, read_window, Nat.zero_add]
    by_cases declared : index < 1632
    · rw [if_pos declared, if_neg (by omega)]
    · rw [if_neg declared, if_pos (by omega)]
  · by_cases id : 576 ≤ index ∧ index < 608
    · rw [read_builtHeader_id _ _ _ _ _ _ _ id, if_pos (.inl id)]
    · unfold HdrField.Untouched at untouched
      rw [if_neg (by omega)]
      have field : (8 ≤ index ∧ index < 12) ∨ (16 ≤ index ∧ index < 20) ∨
          (24 ≤ index ∧ index < 28) ∨ (40 ≤ index ∧ index < 44) := by omega
      rcases field with here | here | here | here
      · exact read_of_hdrWord_eq .kernelSize
          (kernelSize.trans holds.kernelSize.symm) index here
      · exact read_of_hdrWord_eq .ramdiskSize
          (ramdiskSize.trans holds.ramdiskSize.symm) index here
      · exact read_of_hdrWord_eq .secondSize
          (secondSize.trans holds.secondSize.symm) index here
      · exact read_of_hdrWord_eq .unused0
          (dtSize.trans holds.dtSize.symm) index here

/-- The sections come back because nothing but fill stands between them. -/
theorem Canonical.sections_back (canonical : Canonical image wrapper payload) :
    compose (pageOf image 0) [kernelOf image, wrapper.wrap payload, secondOf image,
      dtOf image] = image.drop (pageOf image 0) := by
  obtain ⟨ramdiskAt, secondAt, dtAt⟩ := starts_eq image
  have bounds := canonical.page_le
  have length := canonical.length
  have pieces : cut (pageOf image 0) (image.drop (pageOf image 0)) [kernelSizeOf image 0,
      ramdiskSizeOf image 0, secondSizeOf image 0, dtSizeOf image 0] =
      [kernelOf image, wrapper.wrap payload, secondOf image, dtOf image] := by
    simp only [cut, List.drop_drop, window_drop, Nat.add_zero]
    rw [← ramdiskAt, ← secondAt, ← dtAt, canonical.ramdisk]
    rfl
  rw [← pieces]
  apply compose_cut
  · rw [List.length_drop]
    simp only [span]
    omega
  · intro index bound offset lower upper
    rw [read_drop]
    have places : index = 0 ∨ index = 1 ∨ index = 2 ∨ index = 3 := by
      simp only [List.length_cons, List.length_nil] at bound
      omega
    rcases places with rfl | rfl | rfl | rfl
    · simp only [startOf, List.getD_cons_zero] at lower upper
      exact canonical.padding (pageOf image 0, kernelSizeOf image 0) (by simp [declaredSections])
        _ (by simp only; omega) (by simp only; omega)
    · simp only [startOf, List.getD_cons_zero, List.getD_cons_succ] at lower upper
      exact canonical.padding (ramdiskStart image 0, ramdiskSizeOf image 0)
        (by simp [declaredSections]) _ (by simp only; omega) (by simp only; omega)
    · simp only [startOf, List.getD_cons_zero, List.getD_cons_succ] at lower upper
      exact canonical.padding (secondStart image 0, secondSizeOf image 0)
        (by simp [declaredSections]) _ (by simp only; omega) (by simp only; omega)
    · simp only [startOf, List.getD_cons_zero, List.getD_cons_succ] at lower upper
      exact canonical.padding (dtStart image 0, dtSizeOf image 0) (by simp [declaredSections])
        _ (by simp only; omega) (by simp only; omega)

theorem Canonical.built_eq_blanked (canonical : Canonical image wrapper payload) :
    builtImage image 0 (kernelOf image) (wrapper.wrap payload) (secondOf image) (dtOf image) =
      blanked image := by
  have bounds := canonical.page_le
  have length := length_builtHeader image 0 (kernelOf image).length
    (wrapper.wrap payload).length (secondOf image).length (dtOf image).length canonical.pageSize
  apply ext_read
  · rw [length_builtImage _ _ _ _ canonical.pageSize, canonical.length_blanked]
    exact canonical.total
  · intro index within
    by_cases inside : index < pageOf image 0
    · rw [← canonical.header_back index inside]
      unfold builtImage
      rw [read_append, length, if_pos inside]
    · rw [read_blanked, if_neg (by omega)]
      unfold builtImage
      rw [read_append, length, if_neg inside]
      change read (compose (pageOf image 0) _) _ = _
      rw [canonical.sections_back, read_drop, Nat.add_sub_cancel' (Nat.le_of_not_lt inside)]

/-! ### A second round -/

theorem hdrWord_blanked (image : List UInt8) (field : HdrField)
    (inside : field.offset + 4 ≤ 576) :
    hdrWord (blanked image) 0 field = hdrWord image 0 field := by
  apply word_congr
  intro index within
  rw [read_blanked, if_neg (by omega)]

theorem starts_blanked (image : List UInt8) :
    ramdiskStart (blanked image) 0 = ramdiskStart image 0 ∧
      secondStart (blanked image) 0 = secondStart image 0 ∧
      dtStart (blanked image) 0 = dtStart image 0 := by
  unfold dtStart secondStart ramdiskStart secondPages ramdiskPages kernelPages
  simp only [hdrWord_blanked image _ (show HdrField.pageSize.offset + 4 ≤ 576 by decide),
    hdrWord_blanked image _ (show HdrField.kernelSize.offset + 4 ≤ 576 by decide),
    hdrWord_blanked image _ (show HdrField.ramdiskSize.offset + 4 ≤ 576 by decide),
    hdrWord_blanked image _ (show HdrField.secondSize.offset + 4 ≤ 576 by decide), and_self]

theorem window_blanked (image : List UInt8) (start size : Nat) (behind : pageOf image 0 ≤ start)
    (large : 608 ≤ start) : window (blanked image) start size = window image start size := by
  apply window_congr
  intro index within
  rw [read_blanked, if_neg (by omega)]

theorem Canonical.blank (canonical : Canonical image wrapper payload) :
    Canonical (blanked image) wrapper payload := by
  obtain ⟨ramdiskAt, secondAt, dtAt⟩ := starts_eq image
  obtain ⟨ramdiskStart, secondStart, dtStart⟩ := starts_blanked image
  have page : pageOf (blanked image) 0 = pageOf image 0 :=
    hdrWord_blanked image .pageSize (by decide)
  have kernelSize : kernelSizeOf (blanked image) 0 = kernelSizeOf image 0 :=
    hdrWord_blanked image .kernelSize (by decide)
  have ramdiskSize : ramdiskSizeOf (blanked image) 0 = ramdiskSizeOf image 0 :=
    hdrWord_blanked image .ramdiskSize (by decide)
  have secondSize : secondSizeOf (blanked image) 0 = secondSizeOf image 0 :=
    hdrWord_blanked image .secondSize (by decide)
  have dtSize : dtSizeOf (blanked image) 0 = dtSizeOf image 0 :=
    hdrWord_blanked image .unused0 (by decide)
  have bounds := canonical.page_le
  constructor
  case magic =>
    rw [← canonical.magic]
    apply matchesAt_congr
    intro index within
    have short : index < 8 := within
    rw [read_blanked, if_neg (by omega)]
  case pageSize =>
    rw [page]
    exact canonical.pageSize
  case length =>
    rw [canonical.length_blanked, dtStart, page, dtSize]
    exact canonical.length
  case short =>
    rw [canonical.length_blanked]
    exact canonical.short
  case padding =>
    intro range member offset lower upper
    rw [page] at upper
    rw [read_blanked]
    by_cases blank : (576 ≤ offset ∧ offset < 608) ∨ (1632 ≤ offset ∧ offset < pageOf image 0)
    · rw [if_pos blank]
    · rw [if_neg blank]
      refine canonical.padding range ?_ offset lower upper
      unfold declaredSections at member ⊢
      rwa [page, kernelSize, ramdiskStart, ramdiskSize, secondStart, secondSize, dtStart,
        dtSize] at member
  case ramdisk =>
    rw [ramdiskStart, ramdiskSize, window_blanked _ _ _ (by omega) (by omega)]
    exact canonical.ramdisk
  case gzip => exact canonical.gzip
  case dt =>
    intro present
    rw [dtSize] at present
    rw [dtStart, dtSize, window_blanked _ _ _ (by omega) (by omega)]
    exact canonical.dt present
  case unsigned =>
    rw [← canonical.unsigned]
    apply matchesAt_congr
    intro index within
    have short : index < 4 := within
    rw [read_blanked, if_neg (by omega)]

theorem blanked_blanked (canonical : Canonical image wrapper payload) :
    blanked (blanked image) = blanked image := by
  have page : pageOf (blanked image) 0 = pageOf image 0 :=
    hdrWord_blanked image .pageSize (by decide)
  apply ext_read
  · rw [canonical.blank.length_blanked]
  · intro index _
    rw [read_blanked, page]
    by_cases blank : (576 ≤ index ∧ index < 608) ∨ (1632 ≤ index ∧ index < pageOf image 0)
    · rw [if_pos blank, read_blanked, if_pos blank]
    · rw [if_neg blank]

end Back

/-- Extract followed by repack gives a canonical image back with the id and the rest of
the header page blanked, and a second round gives back just that. -/
theorem repack_undoes_extract {abi : Abi} {platform : Platform abi} (complete : platform.Complete)
    (short : platform.ShortWrites) (image : List UInt8) (wrapper : MtkWrapper)
    (payload : List UInt8) (canonical : Canonical image wrapper payload) :
    (extract platform image .empty).stop = none ∧
      repack platform image (extract platform image .empty).dir =
        { stop := none
          dir := (extract platform image .empty).dir.store .newBoot (blanked image) } ∧
      (extract platform (blanked image) .empty).stop = none ∧
      repack platform (blanked image) (extract platform (blanked image) .empty).dir =
        { stop := none
          dir := (extract platform (blanked image) .empty).dir.store .newBoot
            (blanked image) } := by
  obtain ⟨extracted, repacked⟩ := canonical.repacked complete short
  obtain ⟨again, stable⟩ := canonical.blank.repacked complete short
  rw [canonical.built_eq_blanked] at repacked
  rw [canonical.blank.built_eq_blanked, blanked_blanked canonical] at stable
  exact ⟨extracted, repacked, again, stable⟩

theorem smallImage_canonical : Canonical smallImage .none gzipMagic where
  magic := by decide +kernel
  pageSize := by decide +kernel
  length := by decide +kernel
  short := by decide +kernel
  padding := by
    have blank : ∀ range, range ∈ declaredSections smallImage →
        window smallImage (range.1 + range.2)
            (roundUp (pageOf smallImage 0) range.2 - range.2) =
          List.replicate (roundUp (pageOf smallImage 0) range.2 - range.2) 0 := by
      decide +kernel
    intro range member offset lower upper
    have seen := read_of_window (by rw [List.length_replicate]; exact blank range member)
      (offset - (range.1 + range.2)) (by rw [List.length_replicate]; omega)
    rw [read_replicate_fill, Nat.add_sub_cancel' lower] at seen
    exact seen
  ramdisk := by decide +kernel
  gzip := List.prefix_refl _
  dt := fun _ => ⟨[0x51, 0x43, 0x44, 0x54], by decide, by decide +kernel⟩
  unsigned := by decide +kernel

theorem smallImage_back :
    (extract (Platform.greedy .lp64) smallImage .empty).stop = none ∧
      repack (Platform.greedy .lp64) smallImage
          (extract (Platform.greedy .lp64) smallImage .empty).dir =
        { stop := none
          dir := (extract (Platform.greedy .lp64) smallImage .empty).dir.store .newBoot
            (blanked smallImage) } := by
  obtain ⟨extracted, repacked, _⟩ := repack_undoes_extract (Platform.greedy_complete .lp64)
    (Platform.greedy_shortWrites .lp64) smallImage .none gzipMagic smallImage_canonical
  exact ⟨extracted, repacked⟩

end SuperBootimg.Concrete
