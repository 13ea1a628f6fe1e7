/-
What bootimg-extract leaves in an empty directory for bootimg-repack: a kernel, one ramdisk
under a name that says how it is compressed, and where the image has them a second stage and
a device tree. None of them takes more pages than its section.
-/

import SuperBootimg.Concrete.AppendedParts
import SuperBootimg.Concrete.LeftoverFiles

namespace SuperBootimg.Concrete

open ByteImage PagedLayout

variable {abi : Abi} {platform : Platform abi} {image : List UInt8} {base : Nat}

/-- There is room for an MTK header between a page boundary below 2^31 and 2^31. -/
theorem PageSize.half_room {page pos : Nat} (valid : PageSize page) (aligned : page ∣ pos)
    (below : pos < 2147483648) : pos + 512 < 2147483648 := by
  obtain ⟨count, rfl⟩ := aligned
  rcases valid with rfl | rfl | rfl <;> omega

namespace Extract

/-- The ramdisk section begins as an LZMA stream, and the image has no mark by which repack
would refuse it. -/
def BareLzma (image : List UInt8) (base : Nat) : Prop :=
  ramdiskKind image (base + ramdiskPos image base) = some .ramdiskLzma ∧
    signed image base = false

/-- The file is short, or its ramdisk begins below 2^31 and the padding of its last section
ends below 2^32. -/
def InReach (abi : Abi) (image : List UInt8) (base : Nat) : Prop :=
  image.length < 2147483648 ∨
    pageOf image base + roundUp (pageOf image base) (kernelSizeOf image base) < 2147483648 ∧
      pageOf image base + span (pageOf image base) [kernelSizeOf image base,
        ramdiskSizeOf image base, secondSizeOf image base,
        if dtDumped image base abi then dtSizeOf image base else 0] < 4294967296

/-! ### Files -/

structure Leaves (platform : Platform abi) (image : List UInt8) (base : Nat) (dir : Directory)
    (count : Nat) (name : FileName) (payload : List UInt8) : Prop where
  headers : MtkHeaders image (base + ramdiskPos image base) count name
  named : name = .ramdiskGz ∨ name = .ramdiskLzma
  kernel : dir .kernel = fileIf platform image .empty true .kernel
    (base + pageOf image base) (kernelSizeOf image base)
  payload : dir.openRead name = some payload
  others : ∀ other, (other = .ramdiskGz ∨ other = .ramdiskLzma) → other ≠ name →
    dir other = none
  ramdisk : dir .ramdisk = none
  second : dir .second = fileIf platform image .empty (decide (secondSizeOf image base ≠ 0))
    .second (base + secondPos image base) (secondSizeOf image base)
  dt : dir .dt = fileIf platform image .empty (dtDumped image base abi) .dt
    (base + dtPos image base) (dtSizeOf image base)
  mtk : dir.access .ramdiskMtk = decide (count ≠ 0)
  rkcrc : dir.access .rkcrc = signed image base

/-- The MTK flag is there exactly if the section does not begin with a known kind. -/
theorem Peels.access_mtk {start size : Nat} {host after : Host}
    (peels : Peels platform image start size host after) :
    after.dir.access .ramdiskMtk =
      (host.dir.access .ramdiskMtk || (ramdiskKind image start).isNone) := by
  induction peels with
  | @found start size host name readable kind passes =>
      have other : FileName.ramdiskMtk ≠ name := by
        rcases ramdiskKind_names kind with rfl | rfl <;> decide
      rw [kind, Option.isNone_some, Bool.or_false]
      unfold Directory.access Directory.openRead
      rw [Host.dumped_dir_other _ _ _ _ _ other]
      rfl
  | @peel start size host after flag readable unknown mtk named flagPasses mtkPasses rest ih =>
      have flagged : (host.peeled platform image flag start size).dir.access .ramdiskMtk =
          true := by
        unfold Host.peeled Directory.access Directory.openRead
        rw [Host.dumped_dir_same]
        rfl
      rw [ih, flagged, unknown, Option.isNone_none, Bool.or_true, Bool.true_or]

theorem MtkHeaders.isNone_kind {start count : Nat} {name : FileName}
    (headers : MtkHeaders image start count name) :
    (ramdiskKind image start).isNone = decide (count ≠ 0) := by
  cases count with
  | zero =>
      have kind : ramdiskKind image start = some name := headers.2
      rw [kind]
      rfl
  | succ count =>
      have kind : ramdiskKind image start = none := (headers.1 0 (Nat.succ_pos _)).1
      rw [kind]
      exact (decide_eq_true (Nat.succ_ne_zero _)).symm

theorem MtkHeaders.kind_eq_some_iff {start count : Nat} {name other : FileName}
    (headers : MtkHeaders image start count name) :
    ramdiskKind image start = some other ↔ count = 0 ∧ name = other := by
  constructor
  · intro kind
    exact headers.unique ⟨fun _ below => absurd below (Nat.not_lt_zero _), kind⟩
  · intro given
    obtain ⟨rfl, rfl⟩ := given
    exact headers.2

theorem Leaves.bareLzma_iff {dir : Directory} {count : Nat} {name : FileName}
    {payload : List UInt8} (leaves : Leaves platform image base dir count name payload) :
    BareLzma image base ↔
      (count = 0 ∧ name = .ramdiskLzma) ∧ dir.access .rkcrc = false := by
  unfold BareLzma
  rw [leaves.headers.kind_eq_some_iff, leaves.rkcrc]

theorem Sections.leaves {mid : Host}
    (sections : Sections platform image base
      (Host.searched platform image { dir := Directory.empty, calls := [] }) mid) :
    ∃ count name, Unpacks platform image (base + ramdiskPos image base)
        (ramdiskSizeOf image base)
        ((Host.searched platform image { dir := Directory.empty, calls := [] }).dumped platform
          image .kernel (base + pageOf image base) (kernelSizeOf image base)).dir
        mid.dir count name ∧
      Leaves platform image base (Host.completed platform image base mid).dir count name
        (dumpedBytes platform image name (base + ramdiskPos image base + 512 * count)
          (abi.sizeOf ((ramdiskSizeOf image base : Int) - 512 * (count : Int)))) := by
  have files := sections.files
  have limits := abi.modulus_signBit
  have small : ramdiskSizeOf image base < 2 ^ abi.bits :=
    Nat.lt_of_lt_of_le (hdrWord_lt image base .ramdiskSize) (by omega)
  obtain ⟨count, name, named, unpacks⟩ := sections.ramdiskPeels.unpacks small
  refine ⟨count, name, unpacks, ?_⟩
  constructor
  case headers => exact unpacks.headers
  case named => exact named
  case kernel => exact files.kernel
  case payload =>
    apply Directory.openRead_of_file
    rw [files.peeled name (by rcases named with rfl | rfl <;> decide)]
    exact unpacks.stored
  case others =>
    intro other ramdisk different
    have member : other ∈ ramdiskNames := by
      rcases ramdisk with rfl | rfl <;> decide
    rw [files.peeled other member, unpacks.others other ramdisk different,
      before_kernel_none member]
  case ramdisk => exact files.ramdisk
  case second => exact files.second
  case dt => exact files.dt
  case mtk =>
    have before := @before_kernel_none abi platform image base .ramdiskMtk (by decide)
    rw [← unpacks.headers.isNone_kind]
    have flag := sections.ramdiskPeels.access_mtk
    unfold Directory.access Directory.openRead at flag ⊢
    rw [files.peeled .ramdiskMtk (by decide), flag, before]
    rfl
  case rkcrc =>
    unfold Directory.access Directory.openRead
    rw [files.rkcrc]
    unfold fileIf
    cases signed image base with
    | true => rfl
    | false => rfl

/-! ### Pages -/

/-- A file takes no more pages than its section, also where the rounded size has wrapped. -/
theorem Passes.pages_le {name : FileName} {start size page : Nat} (valid : PageSize page)
    (passes : Passes platform image name start size) :
    roundUp page (dumpedBytes platform image name start size).length ≤ roundUp32 page size := by
  have bounds := valid.bounds
  unfold dumpedBytes
  rw [length_window]
  rcases passes.cases with ⟨written, _, small⟩ | ⟨failed, _⟩
  · unfold maxTransfer at small
    rw [written, Option.getD_some, roundUp32_eq _ _ (by omega)]
  · rw [failed, Option.getD_none, roundUp_zero]
    exact Nat.zero_le _

theorem fileIf_pages_le {dir : Directory} {condition : Bool} {name : FileName}
    {start size page : Nat} (valid : PageSize page)
    (file : dir name = fileIf platform image .empty condition name start size)
    (passes : condition = true → Passes platform image name start size) :
    ((dir.openRead name).getD []).length ≤ maxTransfer ∧
      roundUp page ((dir.openRead name).getD []).length ≤
        if condition then roundUp32 page size else 0 := by
  unfold Directory.openRead
  rw [file]
  unfold fileIf
  cases condition with
  | true => exact ⟨length_dumpedBytes_le _ _ _, (passes rfl).pages_le valid⟩
  | false => exact ⟨Nat.zero_le _, Nat.le_of_eq (roundUp_zero page)⟩

/-- With one MTK header in front again, a ramdisk takes no more pages than its section. Where
its size is not 0 the section is in the mapping. -/
theorem Unpacks.pages_le {start size count : Nat} {name : FileName} {old new : Directory}
    (unpacks : Unpacks platform image start size old new count name) {page : Nat}
    (valid : PageSize page) (small : size < 4294967296)
    (mapped : mappedLength image < abi.signBit + 4096) :
    roundUp page ((dumpedBytes platform image name (start + 512 * count)
        (abi.sizeOf ((size : Int) - 512 * (count : Int)))).length +
          if count = 0 then 0 else 512) ≤ roundUp page size ∧
      ((dumpedBytes platform image name (start + 512 * count)
          (abi.sizeOf ((size : Int) - 512 * (count : Int)))).length +
            (if count = 0 then 0 else 512) = 0 ∨ size ≤ mappedLength image) := by
  have limits := abi.modulus_signBit
  have inside := unpacks.readable
  have left : 512 * count ≤ size ∧
        abi.sizeOf ((size : Int) - 512 * (count : Int)) + 512 * count = size ∨
      size < 512 * count ∧
        abi.sizeOf ((size : Int) - 512 * (count : Int)) + 512 * count =
          2 ^ abi.bits + size := by
    unfold Abi.sizeOf
    rcases abi.bits_cases with same | same <;> (rw [same] at limits ⊢; omega)
  unfold dumpedBytes
  rw [length_window]
  rcases unpacks.passes.cases with ⟨written, within, most⟩ | ⟨failed, huge⟩
  · unfold maxTransfer at most
    rw [written, Option.getD_some]
    rcases left with ⟨_, whole⟩ | ⟨_, wrapped⟩
    · have fewer : abi.sizeOf ((size : Int) - 512 * (count : Int)) +
          (if count = 0 then 0 else 512) ≤ size := by
        split <;> omega
      exact ⟨roundUp_mono fewer, .inr (by omega)⟩
    · omega
  · rw [failed, Option.getD_none, Nat.zero_add]
    by_cases plain : count = 0
    · rw [if_pos plain, roundUp_zero]
      exact ⟨Nat.zero_le _, .inl rfl⟩
    · -- one byte is missing of the last header, which is a page of its own all the same
      have almost : roundUp page 512 = roundUp page 511 := by
        rcases valid with rfl | rfl | rfl <;> rfl
      rw [if_neg plain, almost]
      exact ⟨roundUp_mono (by omega), .inr (by omega)⟩

section Parts

variable {dir : Directory} {count : Nat} {name : FileName} {payload : List UInt8}

theorem Leaves.mtkExtra_eq (leaves : Leaves platform image base dir count name payload) :
    mtkExtra dir = if count = 0 then 0 else 512 := by
  unfold mtkExtra
  rw [leaves.mtk]
  cases count with
  | zero => rfl
  | succ count => rw [if_neg (Nat.succ_ne_zero _), decide_eq_true (Nat.succ_ne_zero _), if_pos rfl]

/-- A gzip ramdisk is the one repack selects. -/
theorem Leaves.selected_gzip (leaves : Leaves platform image base dir count .ramdiskGz payload) :
    Repack.selectedRamdisk dir = .ramdiskGz := by
  unfold Repack.selectedRamdisk Directory.access
  rw [leaves.payload]
  exact if_pos (.inr rfl)

theorem Leaves.openRead_lzma
    (leaves : Leaves platform image base dir count .ramdiskLzma payload) :
    dir.openRead (Repack.selectedRamdisk dir) = none := by
  apply Directory.openRead_of_missing
  unfold Repack.selectedRamdisk
  split
  · exact leaves.others .ramdiskGz (.inl rfl) (by decide)
  · exact leaves.ramdisk

theorem Leaves.selected_length (leaves : Leaves platform image base dir count name payload) :
    ((dir.openRead (Repack.selectedRamdisk dir)).getD []).length ≤ payload.length := by
  rcases leaves.named with rfl | rfl
  · rw [leaves.selected_gzip, leaves.payload]
    exact Nat.le_refl _
  · rw [leaves.openRead_lzma]
    exact Nat.zero_le _

end Parts

/-- The pages of what repack is going to append, against those of the sections. -/
structure Pages (abi : Abi) (image : List UInt8) (base : Nat) (dir : Directory) : Prop where
  kernel : roundUp (pageOf image base) ((dir.openRead .kernel).getD []).length ≤
    roundUp32 (pageOf image base) (kernelSizeOf image base)
  ramdisk : roundUp (pageOf image base)
      (((dir.openRead (Repack.selectedRamdisk dir)).getD []).length + mtkExtra dir) ≤
    roundUp (pageOf image base) (ramdiskSizeOf image base)
  short : image.length < 2147483648 → roundUp (pageOf image base)
      (((dir.openRead (Repack.selectedRamdisk dir)).getD []).length + mtkExtra dir) ≤
    roundUp32 (pageOf image base) (ramdiskSizeOf image base)
  second : roundUp (pageOf image base) ((dir.openRead .second).getD []).length ≤
    roundUp32 (pageOf image base) (secondSizeOf image base)
  dt : roundUp (pageOf image base) ((dir.openRead .dt).getD []).length ≤
    if dtDumped image base abi then roundUp32 (pageOf image base) (dtSizeOf image base) else 0
  sendable : ∀ file, file ∈ [.kernel, Repack.selectedRamdisk dir, .second, .dt] →
    ((dir.openRead file).getD []).length ≤ maxTransfer

theorem Sections.pages {mid : Host} (located : Located abi image base)
    (sections : Sections platform image base
      (Host.searched platform image { dir := Directory.empty, calls := [] }) mid) :
    Pages abi image base (Host.completed platform image base mid).dir := by
  obtain ⟨count, name, unpacks, leaves⟩ := sections.leaves
  have valid := located.pageSize
  have bounds := valid.bounds
  have kernel := fileIf_pages_le valid leaves.kernel fun _ => sections.kernelPasses
  have second := fileIf_pages_le valid leaves.second fun given =>
    sections.secondPasses (of_decide_eq_true given)
  have dt := fileIf_pages_le valid leaves.dt sections.dtPasses
  have selected := leaves.selected_length
  obtain ⟨payload, held⟩ :=
    unpacks.pages_le valid (hdrWord_lt image base .ramdiskSize) located.bounds.2.2
  rw [← leaves.mtkExtra_eq] at payload held
  have rounded := @roundUp_mono (pageOf image base) _ _ (Nat.add_le_add_right selected
    (mtkExtra (Host.completed platform image base mid).dir))
  have ramdisk := Nat.le_trans rounded payload
  constructor
  case kernel => exact kernel.2
  case ramdisk => exact ramdisk
  case short =>
    intro short
    have mapped := mappedLength_lt image
    unfold memoryPage at mapped
    rcases held with nothing | inside
    · rw [nothing, roundUp_zero] at rounded
      exact Nat.le_trans rounded (Nat.zero_le _)
    · rw [roundUp32_eq _ _ (by omega)]
      exact ramdisk
  case second =>
    apply Nat.le_trans second.2
    split
    · exact Nat.le_refl _
    · exact Nat.zero_le _
  case dt => exact dt.2
  case sendable =>
    simp only [List.forall_mem_cons, List.not_mem_nil, IsEmpty.forall_iff, implies_true, and_true]
    exact ⟨kernel.1, Nat.le_trans selected (length_dumpedBytes_le _ _ _), second.1, dt.1⟩

/-- What repack is going to append can be sent, and leaves the positions where they belong. -/
structure Room (page : Nat) (dir : Directory) : Prop where
  sendable : ∀ file, file ∈ [.kernel, Repack.selectedRamdisk dir, .second, .dt] →
    ((dir.openRead file).getD []).length ≤ maxTransfer
  ramdisk : page + roundUp page ((dir.openRead .kernel).getD []).length + 512 < 2147483648
  finish : page + span page (partLengths dir) < 4294967296

theorem Sections.room {mid : Host} (located : Located abi image base)
    (sections : Sections platform image base
      (Host.searched platform image { dir := Directory.empty, calls := [] }) mid)
    (reach : InReach abi image base) :
    Room (pageOf image base) (Host.completed platform image base mid).dir := by
  have taken := sections.pages located
  have valid := located.pageSize
  have kernel := taken.kernel
  have second := taken.second
  have dt := taken.dt
  refine ⟨taken.sendable, ?_, ?_⟩
  case refine_1 =>
    rcases reach with short | ⟨start, _⟩
    · obtain ⟨blocks, whole⟩ : memoryPage ∣ mappedLength image := dvd_roundUp _
      have below := mappedLength_lt image
      have inside := (sections.near located).1
      unfold memoryPage at whole below
      have room := valid.half_room (dvd_positions image base).1 (by omega)
      unfold ramdiskPos at room
      omega
    · have raw := roundUp32_le_roundUp (pageOf image base) (kernelSizeOf image base)
      have room := valid.half_room (Nat.dvd_add (Nat.dvd_refl _) (dvd_roundUp _)) start
      omega
  case refine_2 =>
    unfold partLengths
    simp only [span]
    rcases reach with short | ⟨_, finish⟩
    · have last := sections.end_near located
      have below := mappedLength_lt image
      have ramdisk := taken.short short
      unfold memoryPage at below
      unfold endPos dtPos secondPos ramdiskPos at last
      omega
    · have ramdisk := taken.ramdisk
      have kernelRaw := roundUp32_le_roundUp (pageOf image base) (kernelSizeOf image base)
      have secondRaw := roundUp32_le_roundUp (pageOf image base) (secondSizeOf image base)
      have dtRaw := roundUp32_le_roundUp (pageOf image base) (dtSizeOf image base)
      simp only [span] at finish
      cases dumped : dtDumped image base abi with
      | true =>
          rw [dumped, if_pos rfl] at dt finish
          omega
      | false =>
          rw [dumped, if_neg Bool.false_ne_true] at dt
          omega

end Extract

end SuperBootimg.Concrete
