/-
Whether sizes and positions are exact in the 32-bit builds. `dump` compares the
result of `write` with an unsigned size, and -1 is the size 2^32 - 1; repack itself
stores that size for a file it cannot open.
-/

import SuperBootimg.Concrete.DecodedLayout

namespace SuperBootimg.Concrete.Extract

open ByteImage PagedLayout

variable {abi : Abi} {platform : Platform abi} {image : List UInt8} {base : Nat}

def HoldsBytes (platform : Platform abi) (image : List UInt8) (dir : Directory) (name : FileName)
    (count : Nat) : Prop :=
  ∃ file, (extract platform image dir).dir name = some file ∧ file.bytes.length = count

/-- The sections are taken at the positions of the page formula, and every file holds
the bytes declared for it. -/
structure ExactSizes (platform : Platform .ilp32) (image : List UInt8) (dir : Directory)
    (base : Nat) : Prop where
  kernelPlace : (extractCalls platform image dir).filterMap (Call.dumpRange .kernel) =
    [(base + pageOf image base, kernelSizeOf image base)]
  kernel : HoldsBytes platform image dir .kernel (kernelSizeOf image base)
  ramdiskPlace : (extractCalls platform image dir).findSome? Call.ramdiskRange =
    some (base + ramdiskStart image base, ramdiskSizeOf image base)
  ramdisk : ∃ count name, MtkHeaders image (base + ramdiskStart image base) count name ∧
    512 * count ≤ ramdiskSizeOf image base ∧
    HoldsBytes platform image dir name (ramdiskSizeOf image base - 512 * count)
  secondPlace : ∀ range,
    range ∈ (extractCalls platform image dir).filterMap (Call.dumpRange .second) →
      range = (base + secondStart image base, secondSizeOf image base)
  second : secondSizeOf image base ≠ 0 →
    HoldsBytes platform image dir .second (secondSizeOf image base)
  dtPlace : ∀ range, range ∈ (extractCalls platform image dir).filterMap (Call.dumpRange .dt) →
    range = (base + dtStart image base, dtSizeOf image base)
  dt : (extractCalls platform image dir).filterMap (Call.dumpRange .dt) ≠ [] →
    HoldsBytes platform image dir .dt (dtSizeOf image base)

/-- No section that is written has the size a failed write is taken for. -/
structure NoFailedSize (image : List UInt8) (base : Nat) : Prop where
  kernel : kernelSizeOf image base ≠ 4294967295
  ramdisk : ramdiskSizeOf image base ≠ 4294967295
  payload : ∀ count name, MtkHeaders image (base + ramdiskStart image base) count name →
    ramdiskSizeOf image base + 1 ≠ 512 * count
  second : secondSizeOf image base ≠ 4294967295
  dt : ¬ (dtSizeOf image base = 4294967295 ∧ dtStart image base < image.length ∧
    ∃ magic, magic ∈ dtMagics ∧ matchesAt image (base + dtStart image base) magic = true)

/-- A dump that passed is complete unless its size is the one of a failed write. -/
theorem Passes.length_iff {name : FileName} {start size : Nat}
    (passes : Passes platform image name start size) :
    (dumpedBytes platform image name start size).length = size ↔ size ≠ 2 ^ abi.bits - 1 := by
  have limits := abi.modulus_signBit
  unfold dumpedBytes
  rw [length_window]
  rcases passes.cases with ⟨written, _, small⟩ | ⟨failed, huge⟩
  · rw [written]
    change size = size ↔ _
    unfold maxTransfer at small
    omega
  · rw [failed]
    change 0 = size ↔ _
    omega

/-- Of the ramdisk the rest behind the headers is complete unless that rest is -1. -/
theorem Unpacks.complete_iff {start size count : Nat} {before after : Directory} {name : FileName}
    (unpacks : Unpacks platform image start size before after count name)
    (small : size < 2 ^ abi.bits) (mapped : mappedLength image < 2 ^ abi.bits - 1) :
    512 * count ≤ size ∧
        (dumpedBytes platform image name (start + 512 * count)
          (abi.sizeOf (size - 512 * count))).length = size - 512 * count ↔
      size ≠ 2 ^ abi.bits - 1 ∧ size + 1 ≠ 512 * count := by
  have limits := abi.modulus_signBit
  have readable := unpacks.readable
  have complete := unpacks.passes.length_iff
  have rest : (512 * count ≤ size → abi.sizeOf ((size : Int) - 512 * count) = size - 512 * count) ∧
      (size < 512 * count →
        abi.sizeOf ((size : Int) - 512 * count) = 2 ^ abi.bits + size - 512 * count) := by
    unfold Abi.sizeOf
    rcases abi.bits_cases with same | same <;> (rw [same] at mapped small ⊢; omega)
  have fits : abi.sizeOf ((size : Int) - 512 * count) ≤ mappedLength image - (start + 512 * count) ∨
      abi.sizeOf ((size : Int) - 512 * count) = 2 ^ abi.bits - 1 := by
    rcases unpacks.passes.cases with ⟨_, inside, _⟩ | ⟨_, huge⟩
    · exact .inl inside
    · exact .inr huge
  by_cases enough : 512 * count ≤ size
  · rw [rest.1 enough] at complete fits ⊢
    omega
  · rw [rest.2 (by omega)] at fits
    omega

variable {dir : Directory}

theorem Passes.holdsBytes_iff {name : FileName} {start size : Nat}
    (passes : Passes platform image name start size)
    (stored : (extract platform image dir).dir name =
      some { bytes := dumpedBytes platform image name start size, readable := true }) :
    HoldsBytes platform image dir name size ↔ size ≠ 2 ^ abi.bits - 1 := by
  rw [← passes.length_iff]
  unfold HoldsBytes
  rw [stored]
  constructor
  · intro held
    obtain ⟨file, same, length⟩ := held
    cases same
    exact length
  · intro length
    exact ⟨_, rfl, length⟩

theorem Peels.holdsBytes_iff {start size : Nat} {host after : Host}
    (peels : Peels platform image start size host after)
    (kept : ∀ name, name ∈ ramdiskNames → (extract platform image dir).dir name = after.dir name)
    (small : size < 2 ^ abi.bits) (mapped : mappedLength image < 2 ^ abi.bits - 1) :
    (∃ count name, MtkHeaders image start count name ∧ 512 * count ≤ size ∧
        HoldsBytes platform image dir name (size - 512 * count)) ↔
      size ≠ 2 ^ abi.bits - 1 ∧
        ∀ count name, MtkHeaders image start count name → size + 1 ≠ 512 * count := by
  obtain ⟨count, name, member, unpacks⟩ := peels.unpacks small
  have stored := (kept name (by rcases member with rfl | rfl <;> decide)).trans unpacks.stored
  have complete := unpacks.complete_iff small mapped
  constructor
  · intro given
    obtain ⟨other, otherName, headers, enough, file, held, length⟩ := given
    obtain ⟨rfl, rfl⟩ := unpacks.headers.unique headers
    rw [stored] at held
    cases held
    obtain ⟨whole, payload⟩ := complete.mp ⟨enough, length⟩
    refine ⟨whole, ?_⟩
    intro other otherName headers
    obtain ⟨rfl, rfl⟩ := unpacks.headers.unique headers
    exact payload
  · intro given
    obtain ⟨whole, payload⟩ := given
    obtain ⟨enough, length⟩ := complete.mpr ⟨whole, payload count name unpacks.headers⟩
    exact ⟨count, name, unpacks.headers, enough, _, stored, length⟩

/-! ### The 32-bit build -/

section Narrow

variable {platform : Platform .ilp32} {before mid : Host}

private theorem sum_le_of_fits {start size page : Nat} (fits : Fits .ilp32 image start size)
    (small : size ≠ 4294967295) (valid : PageSize page) (short : image.length < 2147483648) :
    size + page ≤ 4294967296 := by
  have bounds := valid.bounds
  have mapped := mappedLength_lt image
  have width : 2 ^ Abi.bits .ilp32 = 4294967296 := rfl
  unfold Fits at fits
  unfold memoryPage at mapped
  omega

theorem Sections.narrow_positions (located : Located .ilp32 image base)
    (sections : Sections platform image base before mid)
    (kernel : kernelSizeOf image base ≠ 4294967295)
    (ramdisk : ramdiskSizeOf image base ≠ 4294967295)
    (second : secondSizeOf image base ≠ 4294967295) :
    ramdiskPos image base = ramdiskStart image base ∧
      secondPos image base = secondStart image base ∧
      dtPos image base = dtStart image base := by
  have valid := located.pageSize
  have bounds := valid.bounds
  have mapped := located.bounds.2.2
  have width : 2 ^ Abi.bits .ilp32 = 4294967296 := rfl
  have half : Abi.signBit .ilp32 = 2147483648 := rfl
  have short : image.length < 2147483648 := located.representable
  have ramdiskFits := sections.ramdiskPeels.fits (hdrWord_lt image base .ramdiskSize)
    (by rw [width]; omega)
  apply positions_exact
  · exact sum_le_of_fits sections.kernelPasses.fits kernel valid short
  · exact sum_le_of_fits (.inr ramdiskFits.2) ramdisk valid short
  · by_cases absent : secondSizeOf image base = 0
    · omega
    · exact sum_le_of_fits (sections.secondPasses absent).fits second valid short

/-- A device tree of size -1 passes the bound checks wherever its position is in the file. -/
theorem Sections.dt_failed_iff (located : Located .ilp32 image base)
    (sections : Sections platform image base before mid) :
    dtDumped image base .ilp32 = true ∧ dtSizeOf image base = 4294967295 ↔
      dtSizeOf image base = 4294967295 ∧ dtPos image base < image.length ∧
        ∃ magic, magic ∈ dtMagics ∧ matchesAt image (base + dtPos image base) magic = true := by
  have half : Abi.signBit .ilp32 = 2147483648 := rfl
  have short := located.representable
  have bounds := located.pageSize.bounds
  have positive : pageOf image base ≤ dtPos image base := by
    unfold dtPos secondPos ramdiskPos
    omega
  have mapped : mappedLength image ≤ 2147483648 := by
    have near := mappedLength_lt image
    obtain ⟨count, whole⟩ : memoryPage ∣ mappedLength image := PagedLayout.dvd_roundUp _
    unfold memoryPage at near whole
    omega
  unfold dtDumped
  rw [Bool.and_eq_true, List.any_eq_true]
  constructor
  · intro given
    obtain ⟨⟨tested, recognised⟩, size⟩ := given
    have readable := sections.dtReadable tested
    unfold dtTested at tested
    rw [decide_eq_true_iff, Abi.longOf_eq_self _ _ (by omega), Int.ofNat_lt] at tested
    exact ⟨size, tested.2.1, recognised⟩
  · intro given
    obtain ⟨size, inside, recognised⟩ := given
    refine ⟨⟨?_, recognised⟩, size⟩
    unfold dtTested
    rw [decide_eq_true_iff, Abi.longOf_eq_self _ _ (by omega), Int.ofNat_lt, size]
    refine ⟨by decide, inside, ?_⟩
    unfold Abi.sumWithin
    rw [decide_eq_true_iff]
    omega

/-- A section is held in full exactly when its size is not that of a failed write. -/
structure HeldInFull (platform : Platform .ilp32) (image : List UInt8) (dir : Directory)
    (base : Nat) : Prop where
  kernel : HoldsBytes platform image dir .kernel (kernelSizeOf image base) ↔
    kernelSizeOf image base ≠ 4294967295
  ramdisk : (∃ count name, MtkHeaders image (base + ramdiskPos image base) count name ∧
      512 * count ≤ ramdiskSizeOf image base ∧
      HoldsBytes platform image dir name (ramdiskSizeOf image base - 512 * count)) ↔
    ramdiskSizeOf image base ≠ 4294967295 ∧
      ∀ count name, MtkHeaders image (base + ramdiskPos image base) count name →
        ramdiskSizeOf image base + 1 ≠ 512 * count
  second : secondSizeOf image base ≠ 0 →
    (HoldsBytes platform image dir .second (secondSizeOf image base) ↔
      secondSizeOf image base ≠ 4294967295)
  dt : dtDumped image base .ilp32 = true →
    (HoldsBytes platform image dir .dt (dtSizeOf image base) ↔ dtSizeOf image base ≠ 4294967295)

theorem Sections.heldInFull (located : Located .ilp32 image base)
    (sections : Sections platform image base before mid) {former : Directory}
    (files : Files platform image base former mid.dir (extract platform image dir).dir) :
    HeldInFull platform image dir base := by
  have mapped := located.bounds.2.2
  have half : Abi.signBit .ilp32 = 2147483648 := rfl
  have width : 2 ^ Abi.bits .ilp32 - 1 = 4294967295 := rfl
  constructor
  case kernel => exact sections.kernelPasses.holdsBytes_iff files.kernel
  case ramdisk =>
    exact sections.ramdiskPeels.holdsBytes_iff files.peeled
      (hdrWord_lt image base .ramdiskSize) (by rw [width]; omega)
  case second =>
    intro present
    exact (sections.secondPasses present).holdsBytes_iff
      (files.second.trans (if_pos (decide_eq_true present)))
  case dt =>
    intro dumped
    exact (sections.dtPasses dumped).holdsBytes_iff (files.dt.trans (if_pos dumped))

/-- Sizes are exact only where no dump of a failed size can have passed. -/
theorem ExactSizes.noFailedSize (exactly : ExactSizes platform image dir base)
    (located : Located .ilp32 image base)
    (sections : Sections platform image base
      (Host.searched platform image { dir := dir, calls := [] }) mid)
    (calls : extractCalls platform image dir = (Host.completed platform image base mid).calls)
    (held : HeldInFull platform image dir base) : NoFailedSize image base := by
  obtain ⟨_, ramdiskRange, _, dtRange⟩ := sections.ranges
  have kernel := held.kernel.mp exactly.kernel
  have samePlace : base + ramdiskStart image base = base + ramdiskPos image base := by
    have place := exactly.ramdiskPlace
    rw [calls, ramdiskRange, Option.some_inj, Prod.mk.injEq] at place
    exact place.1.symm
  have ramdisk := exactly.ramdisk
  rw [samePlace] at ramdisk
  have whole := held.ramdisk.mp ramdisk
  have second : secondSizeOf image base ≠ 4294967295 := by
    by_cases absent : secondSizeOf image base = 0
    · omega
    · exact (held.second absent).mp (exactly.second absent)
  have dtPlace := (sections.narrow_positions located kernel whole.1 second).2.2
  constructor
  case kernel => exact kernel
  case ramdisk => exact whole.1
  case payload =>
    rw [samePlace]
    exact whole.2
  case second => exact second
  case dt =>
    rw [← dtPlace, ← sections.dt_failed_iff located]
    intro failed
    have dumped : (extractCalls platform image dir).filterMap (Call.dumpRange .dt) ≠ [] := by
      rw [calls, dtRange, if_pos failed.1]
      exact List.cons_ne_nil _ _
    exact (held.dt failed.1).mp (exactly.dt dumped) failed.2

private theorem eq_of_mem_ite {condition : Prop} [Decidable condition] {range only : Nat × Nat}
    (member : range ∈ if condition then [only] else []) : range = only := by
  split at member
  · exact List.mem_singleton.mp member
  · cases member

theorem NoFailedSize.exactSizes (fine : NoFailedSize image base)
    (located : Located .ilp32 image base)
    (sections : Sections platform image base
      (Host.searched platform image { dir := dir, calls := [] }) mid)
    (calls : extractCalls platform image dir = (Host.completed platform image base mid).calls)
    (held : HeldInFull platform image dir base) : ExactSizes platform image dir base := by
  obtain ⟨kernelRange, ramdiskRange, secondRange, dtRange⟩ := sections.ranges
  obtain ⟨ramdiskPlace, secondPlace, dtPlace⟩ :=
    sections.narrow_positions located fine.kernel fine.ramdisk fine.second
  have payload := fine.payload
  rw [← ramdiskPlace] at payload
  constructor
  case kernelPlace => rw [calls, kernelRange]
  case kernel => exact held.kernel.mpr fine.kernel
  case ramdiskPlace => rw [calls, ramdiskRange, ramdiskPlace]
  case ramdisk =>
    rw [← ramdiskPlace]
    exact held.ramdisk.mpr ⟨fine.ramdisk, payload⟩
  case secondPlace =>
    intro range member
    rw [calls, secondRange, secondPlace] at member
    exact eq_of_mem_ite member
  case second =>
    intro present
    exact (held.second present).mpr fine.second
  case dtPlace =>
    intro range member
    rw [calls, dtRange, dtPlace] at member
    exact eq_of_mem_ite member
  case dt =>
    intro written
    rw [calls, dtRange] at written
    by_cases dumped : dtDumped image base .ilp32 = true
    · apply (held.dt dumped).mpr
      intro huge
      apply fine.dt
      rw [← dtPlace]
      exact (sections.dt_failed_iff located).mp ⟨dumped, huge⟩
    · rw [if_neg dumped] at written
      exact absurd rfl written

/-- The 32-bit extract stores exactly what is declared unless a size is that of a failed
write. -/
theorem exact_sizes_iff (platform : Platform .ilp32) (image : List UInt8) (dir : Directory)
    (base : Nat) (header : HeaderAt image base)
    (accepted : (extract platform image dir).stop = none) :
    ExactSizes platform image dir base ↔ NoFailedSize image base := by
  obtain ⟨found, mid, located, sections, outcome, calls⟩ := accepted_run accepted
  cases located.header.unique header
  have files := sections.files
  rw [← outcome] at files
  have held := sections.heldInFull located files
  constructor
  · intro exactly
    exact exactly.noFailedSize located sections calls held
  · intro fine
    exact fine.exactSizes located sections calls held

end Narrow

theorem smallImage_exact_sizes :
    ExactSizes (Platform.greedy .ilp32) smallImage .empty 0 := by
  have sizes : kernelSizeOf smallImage 0 = 1 ∧ ramdiskSizeOf smallImage 0 = 4 ∧
      secondSizeOf smallImage 0 = 2 ∧ dtSizeOf smallImage 0 = 5 := by
    decide +kernel
  refine (exact_sizes_iff (Platform.greedy .ilp32) smallImage .empty 0
    ((findHeader_eq_some_iff _ _).mp (by decide +kernel)) (by decide +kernel)).mpr ?_
  constructor
  case payload =>
    intro count name headers
    omega
  all_goals omega

def unopenedImage : List UInt8 :=
  plainHeader 2048 4294967295 4 0 0 ++ gzipMagic

theorem unopenedImage_inexact :
    HeaderAt unopenedImage 0 ∧
      (extract (Platform.greedy .ilp32) unopenedImage .empty).stop = none ∧
      ¬ ExactSizes (Platform.greedy .ilp32) unopenedImage .empty 0 := by
  refine ⟨(findHeader_eq_some_iff _ _).mp (by decide +kernel), by decide +kernel, ?_⟩
  intro exactly
  obtain ⟨file, stored, length⟩ := exactly.kernel
  have empty : (extract (Platform.greedy .ilp32) unopenedImage .empty).dir .kernel =
      some { bytes := [], readable := true } := by
    decide +kernel
  have declared : kernelSizeOf unopenedImage 0 = 4294967295 := by decide +kernel
  rw [empty] at stored
  cases stored
  rw [declared] at length
  cases length

end SuperBootimg.Concrete.Extract
