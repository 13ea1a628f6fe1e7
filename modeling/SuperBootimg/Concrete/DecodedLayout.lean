/-
The layout of bootimg.h as extract.c decodes it. On the 64-bit build no accepted
file makes a rounded size wrap, so the positions are page counts.
-/

import SuperBootimg.Concrete.ExtractCalls

namespace SuperBootimg.Concrete.Extract

open ByteImage PagedLayout

section PageCounts

variable (image : List UInt8) (base : Nat)

def kernelPages : Nat := pages (pageOf image base) (kernelSizeOf image base)
def ramdiskPages : Nat := pages (pageOf image base) (ramdiskSizeOf image base)
def secondPages : Nat := pages (pageOf image base) (secondSizeOf image base)

def ramdiskStart : Nat := pageOf image base * (1 + kernelPages image base)

def secondStart : Nat :=
  pageOf image base * (1 + kernelPages image base + ramdiskPages image base)

def dtStart : Nat :=
  pageOf image base *
    (1 + kernelPages image base + ramdiskPages image base + secondPages image base)

end PageCounts

variable {image : List UInt8} {base : Nat}

/-- As long as no 32-bit sum wraps, the positions are page counts. -/
theorem positions_exact
    (kernelSum : kernelSizeOf image base + pageOf image base ≤ 4294967296)
    (ramdiskSum : ramdiskSizeOf image base + pageOf image base ≤ 4294967296)
    (secondSum : secondSizeOf image base + pageOf image base ≤ 4294967296) :
    ramdiskPos image base = ramdiskStart image base ∧
      secondPos image base = secondStart image base ∧
      dtPos image base = dtStart image base := by
  have atRamdisk : ramdiskPos image base = ramdiskStart image base := by
    unfold ramdiskPos ramdiskStart kernelPages
    rw [roundUp32_eq _ _ kernelSum, Nat.mul_add, Nat.mul_one]
    rfl
  have atSecond : secondPos image base = secondStart image base := by
    unfold secondPos secondStart ramdiskPages
    rw [atRamdisk, roundUp32_eq _ _ ramdiskSum, Nat.mul_add]
    rfl
  refine ⟨atRamdisk, atSecond, ?_⟩
  unfold dtPos dtStart secondPages
  rw [atSecond, roundUp32_eq _ _ secondSum, Nat.mul_add]
  rfl

private theorem sum_lt_of_fits {start size page : Nat} (fits : Fits .lp64 image start size)
    (small : size < 4294967296) (valid : PageSize page) (short : image.length < 2147483648) :
    size + page - 1 < 4294967296 := by
  have bounds := valid.bounds
  have mapped := mappedLength_lt image
  have width : 2 ^ Abi.bits .lp64 = 18446744073709551616 := rfl
  unfold Fits at fits
  unfold memoryPage at mapped
  omega

variable {platform : Platform .lp64} {before mid : Host}

theorem Sections.sums_lt (located : Located .lp64 image base)
    (sections : Sections platform image base before mid) (short : image.length < 2147483648) :
    kernelSizeOf image base + pageOf image base - 1 < 4294967296 ∧
      ramdiskSizeOf image base + pageOf image base - 1 < 4294967296 ∧
      secondSizeOf image base + pageOf image base - 1 < 4294967296 ∧
      (dtDumped image base .lp64 = true →
        dtSizeOf image base + pageOf image base - 1 < 4294967296) := by
  have valid := located.pageSize
  have bounds := valid.bounds
  have mapped := mappedLength_lt image
  have width : 2 ^ Abi.bits .lp64 = 18446744073709551616 := rfl
  have ramdiskSmall : ramdiskSizeOf image base < 4294967296 := hdrWord_lt image base .ramdiskSize
  unfold memoryPage at mapped
  have ramdiskFits := sections.ramdiskPeels.fits (by omega) (by omega)
  refine ⟨sum_lt_of_fits sections.kernelPasses.fits (hdrWord_lt _ _ _) valid short,
    sum_lt_of_fits (.inr ramdiskFits.2) (hdrWord_lt _ _ _) valid short, ?_, ?_⟩
  · by_cases absent : secondSizeOf image base = 0
    · omega
    · exact sum_lt_of_fits (sections.secondPasses absent).fits (hdrWord_lt _ _ _) valid short
  · intro dumped
    exact sum_lt_of_fits (sections.dtPasses dumped).fits (hdrWord_lt _ _ _) valid short

theorem Sections.positions (located : Located .lp64 image base)
    (sections : Sections platform image base before mid) (short : image.length < 2147483648) :
    ramdiskPos image base = ramdiskStart image base ∧
      secondPos image base = secondStart image base ∧
      dtPos image base = dtStart image base := by
  have bounds := located.pageSize.bounds
  obtain ⟨kernelSum, ramdiskSum, secondSum, _⟩ := sections.sums_lt located short
  exact positions_exact (by omega) (by omega) (by omega)

/-! ### The files -/

def fileOf (bytes : List UInt8) : Option File :=
  some { bytes := bytes, readable := true }

/-- The tests a device tree has to pass, at its position in bootimg.h. -/
def DtStands (image : List UInt8) (base : Nat) : Prop :=
  dtSizeOf image base ≠ 0 ∧ dtStart image base < image.length ∧
    dtStart image base + dtSizeOf image base ≤ image.length ∧
    ∃ magic, magic ∈ dtMagics ∧ matchesAt image (base + dtStart image base) magic = true

/-- Each section is in its file; what is left of the ramdisk section behind its MTK headers is
in the one that says how it is compressed. A file without a section is as it was. -/
structure LayoutFiles (image : List UInt8) (base : Nat) (before after : Directory) : Prop where
  kernel : after .kernel =
    fileOf (window image (base + pageOf image base) (kernelSizeOf image base))
  ramdisk : ∃ count name, MtkHeaders image (base + ramdiskStart image base) count name ∧
    after name = fileOf (window image (base + ramdiskStart image base + 512 * count)
      (ramdiskSizeOf image base - 512 * count))
  second : secondSizeOf image base ≠ 0 →
    after .second = fileOf (window image (base + secondStart image base) (secondSizeOf image base))
  noSecond : secondSizeOf image base = 0 → after .second = before .second
  dt : DtStands image base →
    after .dt = fileOf (window image (base + dtStart image base) (dtSizeOf image base))
  noDt : ¬ DtStands image base → after .dt = before .dt

theorem Passes.file_eq {name : FileName} {start size : Nat}
    (passes : Passes platform image name start size) (small : size < 4294967296) :
    some { bytes := dumpedBytes platform image name start size, readable := true } =
      fileOf (window image start size) := by
  have width : 2 ^ Abi.bits .lp64 = 18446744073709551616 := rfl
  unfold fileOf dumpedBytes
  rcases passes.cases with ⟨written, _, _⟩ | ⟨_, huge⟩
  · rw [written, Option.getD_some]
  · omega

/-- A section that is one byte short of its headers leaves an empty file. -/
theorem Unpacks.file_eq {start size count : Nat} {name : FileName} {old new : Directory}
    (unpacks : Unpacks platform image start size old new count name) (small : size < 4294967296)
    (short : image.length < 2147483648) :
    new name = fileOf (window image (start + 512 * count) (size - 512 * count)) := by
  have mapped := mappedLength_lt image
  have readable := unpacks.readable
  have width : 2 ^ Abi.bits .lp64 = 18446744073709551616 := rfl
  unfold memoryPage at mapped
  have left : Abi.sizeOf .lp64 ((size : Int) - 512 * (count : Int)) = size - 512 * count ∨
      size < 512 * count ∧ Abi.sizeOf .lp64 ((size : Int) - 512 * (count : Int)) =
        18446744073709551616 + size - 512 * count := by
    unfold Abi.sizeOf
    rw [show Abi.bits .lp64 = 64 from rfl]
    omega
  rw [unpacks.stored]
  unfold fileOf dumpedBytes
  rcases unpacks.passes.cases with ⟨written, inside, _⟩ | ⟨failed, huge⟩
  · rw [written, Option.getD_some]
    rcases left with whole | ⟨_, wrapped⟩
    · rw [whole]
    · omega
  · have nothing : size - 512 * count = 0 := by omega
    rw [failed, nothing]
    rfl

theorem Sections.layoutFiles {base : Nat} {host mid : Host} (located : Located .lp64 image base)
    (sections : Sections platform image base (host.searched platform image) mid)
    (short : image.length < 2147483648) (dtTest : dtDumped image base .lp64 = true ↔
      DtStands image base) :
    LayoutFiles image base host.dir (Host.completed platform image base mid).dir := by
  have files := sections.files
  obtain ⟨ramdiskAt, secondAt, dtAt⟩ := sections.positions located short
  have ramdiskSmall : ramdiskSizeOf image base < 4294967296 := hdrWord_lt image base .ramdiskSize
  have width : 2 ^ Abi.bits .lp64 = 18446744073709551616 := rfl
  constructor
  case kernel =>
    exact files.kernel.trans (sections.kernelPasses.file_eq (hdrWord_lt _ _ _))
  case ramdisk =>
    obtain ⟨count, name, member, unpacks⟩ := sections.ramdiskPeels.unpacks (by omega)
    rw [ramdiskAt] at unpacks
    refine ⟨count, name, unpacks.headers, ?_⟩
    rw [files.peeled name (by rcases member with rfl | rfl <;> decide)]
    exact unpacks.file_eq ramdiskSmall short
  case second =>
    intro some
    have passes := sections.secondPasses some
    rw [files.second, ← secondAt]
    unfold fileIf
    rw [if_pos (decide_eq_true some), passes.file_eq (hdrWord_lt _ _ _)]
  case noSecond =>
    intro none
    rw [files.second]
    unfold fileIf
    exact if_neg (by rw [decide_eq_true_iff]; exact not_not_intro none)
  case dt =>
    intro stands
    have dumped := dtTest.mpr stands
    rw [files.dt, ← dtAt]
    unfold fileIf
    rw [if_pos dumped, (sections.dtPasses dumped).file_eq (hdrWord_lt _ _ _)]
  case noDt =>
    intro missing
    rw [files.dt]
    unfold fileIf
    exact if_neg fun dumped => missing (dtTest.mp dumped)

/-- Every accepted file is decoded at the positions of bootimg.h. -/
theorem extract_reads_layout (platform : Platform .lp64) (image : List UInt8) (dir : Directory)
    (base : Nat) (short : image.length < 2147483648) (header : HeaderAt image base)
    (accepted : (extract platform image dir).stop = none) :
    PageSize (pageOf image base) ∧
      (extractCalls platform image dir).filterMap (Call.dumpRange .kernel) =
        [(base + pageOf image base, kernelSizeOf image base)] ∧
      (extractCalls platform image dir).findSome? Call.ramdiskRange =
        some (base + ramdiskStart image base, ramdiskSizeOf image base) ∧
      (extractCalls platform image dir).filterMap (Call.dumpRange .second) =
        (if secondSizeOf image base ≠ 0 then
          [(base + secondStart image base, secondSizeOf image base)] else []) ∧
      (extractCalls platform image dir).filterMap (Call.dumpRange .dt) =
        (if dtSizeOf image base ≠ 0 ∧ dtStart image base < image.length ∧
            dtStart image base + dtSizeOf image base ≤ image.length ∧
            ∃ magic, magic ∈ dtMagics ∧ matchesAt image (base + dtStart image base) magic = true
          then [(base + dtStart image base, dtSizeOf image base)] else []) ∧
      kernelSizeOf image base + pageOf image base - 1 < 4294967296 ∧
      ramdiskSizeOf image base + pageOf image base - 1 < 4294967296 ∧
      (secondSizeOf image base ≠ 0 →
        secondSizeOf image base + pageOf image base - 1 < 4294967296) ∧
      ((extractCalls platform image dir).filterMap (Call.dumpRange .dt) ≠ [] →
        dtSizeOf image base + pageOf image base - 1 < 4294967296) ∧
      LayoutFiles image base dir (extract platform image dir).dir := by
  obtain ⟨found, mid, located, sections, files, calls⟩ := accepted_run accepted
  cases located.header.unique header
  have small : dtSizeOf image base < 4294967296 := hdrWord_lt image base .unused0
  have mapped := mappedLength_lt image
  have near := (sections.near located).2.2
  obtain ⟨kernelSum, ramdiskSum, secondSum, dtSum⟩ := sections.sums_lt located short
  obtain ⟨kernelRange, ramdiskRange, secondRange, dtRange⟩ := sections.ranges
  obtain ⟨ramdiskAt, secondAt, dtAt⟩ := sections.positions located short
  have half : Abi.signBit .lp64 = 9223372036854775808 := rfl
  have dtTest := dtDumped_iff .lp64 image base
    (by unfold memoryPage at mapped; omega)
  have stands : dtDumped image base .lp64 = true ↔ DtStands image base := by
    rw [dtTest, dtAt]
    exact Iff.rfl
  rw [ramdiskAt] at ramdiskRange
  rw [secondAt] at secondRange
  simp only [dtTest, dtAt] at dtRange
  rw [calls, files]
  refine ⟨located.pageSize, kernelRange, ramdiskRange, secondRange, dtRange, kernelSum,
    ramdiskSum, fun _ => secondSum, ?_, sections.layoutFiles located short stands⟩
  intro written
  apply dtSum
  rw [dtTest, dtAt]
  by_contra untested
  rw [dtRange, if_neg untested] at written
  exact written rfl

def smallImage : List UInt8 :=
  plainHeader 2048 1 4 2 5 ++ compose 2048 [[7], gzipMagic, [1, 2], [0x51, 0x43, 0x44, 0x54, 9]]

theorem smallImage_reads_layout :
    (extractCalls (Platform.greedy .lp64) smallImage .empty).filterMap (Call.dumpRange .second) =
      (if secondSizeOf smallImage 0 ≠ 0 then
        [(0 + secondStart smallImage 0, secondSizeOf smallImage 0)] else []) :=
  (extract_reads_layout (Platform.greedy .lp64) smallImage .empty 0 (by decide +kernel)
    ((findHeader_eq_some_iff _ _).mp (by decide +kernel)) (by decide +kernel)).2.2.2.1

end SuperBootimg.Concrete.Extract
