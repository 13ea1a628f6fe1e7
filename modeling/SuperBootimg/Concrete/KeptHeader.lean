/-
The header page through a run of repack.c whose positions may leave the range of
`int`. A part is written behind the header page, or its seek fails and it goes where
the file offset was left. Only a position that is a multiple of 2^32 leads back to the
header.
-/

import SuperBootimg.Concrete.RepackRuns

namespace SuperBootimg.Concrete

open ByteImage PagedLayout StoppableRun

/-- The first write into the new file transfers at least the fields in front of the
command line. -/
def Platform.HeaderWrites {abi : Abi} (platform : Platform abi) : Prop :=
  ∀ readable, 256 ≤ readable → 40 ≤ (platform.write .newBoot readable hdrSize).getD 0

theorem Platform.headerWrites_of_complete {abi : Abi} {platform : Platform abi}
    (complete : platform.Complete) (short : platform.ShortWrites) : platform.HeaderWrites := by
  intro readable mapped
  by_cases whole : hdrSize ≤ readable
  · rw [complete.write_all .newBoot readable hdrSize (by decide) whole]
    decide
  · rw [short .newBoot readable hdrSize (by omega) (by omega) (by decide)]
    exact Nat.le_trans (by decide) mapped

namespace Repack

variable {abi : Abi} {platform : Platform abi} {dir : Directory}

/-! ### Writes behind what stands already -/

def Beyond (fence : Nat) (pos : Int) : Prop :=
  pos < 0 ∨ (fence : Int) ≤ pos

/-- Some bytes stand in the output file, and the file offset behind them. -/
structure KeepsBytes (start : Nat) (bytes : List UInt8) (build : Build) : Prop where
  contents : window build.out start bytes.length = bytes
  behind : start + bytes.length ≤ build.offset

section Bytes

variable {start : Nat} {bytes : List UInt8} {build : Build} {pos : Int}

theorem Beyond.le_toNat {fence : Nat} (beyond : Beyond fence pos) (seekable : 0 ≤ pos) :
    fence ≤ pos.toNat := by
  rcases beyond with negative | behind <;> omega

theorem KeepsBytes.patched (kept : KeepsBytes start bytes build) (more : List UInt8)
    {offset : Nat} (behind : start + bytes.length ≤ offset) :
    window (patch build.out offset more) start bytes.length = bytes := by
  rw [window_patch_disjoint _ _ _ _ _ (.inl behind), kept.contents]

theorem KeepsBytes.seekTo (kept : KeepsBytes start bytes build)
    (beyond : Beyond (start + bytes.length) pos) : KeepsBytes start bytes (build.seekTo pos) := by
  unfold Build.seekTo
  by_cases seekable : 0 ≤ pos
  · rw [if_pos seekable]
    exact { kept with behind := beyond.le_toNat seekable }
  · rw [if_neg seekable]
    exact kept

theorem KeepsBytes.sent (kept : KeepsBytes start bytes build) (name : FileName)
    (more : List UInt8) (size : Int) :
    KeepsBytes start bytes (build.sent platform name more size) := by
  unfold Build.sent
  by_cases transfers : abi.sizeOf size < abi.signBit
  · rw [if_pos transfers]
    exact
      { contents := kept.patched _ kept.behind
        behind := Nat.le_trans kept.behind (Nat.le_add_right _ _) }
  · rw [if_neg transfers]
    exact kept

theorem KeepsBytes.appended (kept : KeepsBytes start bytes (build.seekTo pos))
    (name : FileName) : KeepsBytes start bytes (build.appended platform dir name pos) := by
  unfold Build.appended
  cases dir.openRead name with
  | none => exact kept
  | some more => exact kept.sent name more _

theorem KeepsBytes.written (kept : KeepsBytes start bytes build) (more : List UInt8)
    (beyond : Beyond (start + bytes.length) pos) :
    KeepsBytes start bytes (build.written platform more pos) := by
  unfold Build.written
  by_cases seekable : 0 ≤ pos
  · rw [if_pos seekable]
    exact { kept with contents := kept.patched _ (beyond.le_toNat seekable) }
  · rw [if_neg seekable]
    exact kept

theorem KeepsBytes.truncated (kept : KeepsBytes start bytes build)
    (beyond : Beyond (start + bytes.length) pos) :
    KeepsBytes start bytes (build.truncated pos) := by
  unfold Build.truncated
  by_cases positive : 0 ≤ pos
  · have below := beyond.le_toNat positive
    rw [if_pos positive]
    refine { kept with contents := ?_ }
    refine Eq.trans (window_congr _ _ _ _ _ ?_) kept.contents
    intro index within
    rw [read_resize, if_pos (by omega)]
  · rw [if_neg positive]
    exact kept

theorem KeepsBytes.stored (kept : KeepsBytes start bytes build) (behind : 44 ≤ start)
    {field : HdrField} (member : field ∈ HdrField.sizes) (value : Int) :
    KeepsBytes start bytes (build.stored field value) := by
  have inside := (HdrField.sizes_bounds field member).1
  refine ⟨?_, kept.behind⟩
  unfold Build.stored setHdrWord
  rw [window_patch_disjoint _ _ _ _ _ (.inr (by rw [length_littleEndian]; omega)), kept.contents]

theorem KeepsBytes.optional (kept : KeepsBytes start bytes build) (behind : 44 ≤ start)
    {name : FileName} {field : HdrField} (member : field ∈ HdrField.sizes)
    (beyond : Beyond (start + bytes.length) pos) {next : Int} {after : Build}
    (finished : Finishes (addOptional platform dir name field pos) build next after) :
    KeepsBytes start bytes after := by
  rcases (addOptional_finishes _ _ _ _ _ _).mp finished with ⟨_, _, rfl⟩ | ⟨_, _, rfl⟩
  · exact ((kept.seekTo beyond).appended name).stored behind member _
  · exact kept

end Bytes

/-! ### The header page -/

/-- The header page stands in the output file, and the file offset behind it. -/
structure KeepsHeader (page : Nat) (header : List UInt8) (build : Build) : Prop where
  valid : PageSize page
  length : header.length = page
  pageSize : hdrWord header 0 .pageSize = page
  contents : window build.out 0 page = header
  behind : page ≤ build.offset

section Steps

variable {page : Nat} {header : List UInt8} {build : Build}

private theorem hdrWord_of_window {out : List UInt8} (valid : PageSize page)
    (contents : window out 0 page = header) (field : HdrField)
    (inside : field.offset + 4 ≤ 2048) : hdrWord out 0 field = hdrWord header 0 field := by
  have bounds := valid.bounds
  rw [← contents]
  apply word_congr
  intro index within
  rw [read_window, if_pos (by omega)]
  congr 1
  omega

theorem KeepsHeader.hdrWord_out (kept : KeepsHeader page header build) (field : HdrField)
    (inside : field.offset + 4 ≤ 2048) : hdrWord build.out 0 field = hdrWord header 0 field :=
  hdrWord_of_window kept.valid kept.contents field inside

theorem KeepsHeader.bytes (kept : KeepsHeader page header build) : KeepsBytes 0 header build := by
  constructor
  · rw [kept.length]
    exact kept.contents
  · rw [kept.length, Nat.zero_add]
    exact kept.behind

theorem KeepsHeader.again (kept : KeepsHeader page header build) {other : Build}
    (bytes : KeepsBytes 0 header other) : KeepsHeader page header other := by
  have contents := bytes.contents
  have behind := bytes.behind
  rw [kept.length] at contents behind
  exact { kept with contents := contents, behind := by omega }

theorem KeepsHeader.beyond (kept : KeepsHeader page header build) {pos : Int}
    (beyond : Beyond page pos) : Beyond (0 + header.length) pos := by
  rw [Nat.zero_add, kept.length]
  exact beyond

theorem KeepsHeader.seekTo (kept : KeepsHeader page header build) {pos : Int}
    (beyond : Beyond page pos) : KeepsHeader page header (build.seekTo pos) :=
  kept.again (kept.bytes.seekTo (kept.beyond beyond))

theorem KeepsHeader.appended {pos : Int} (kept : KeepsHeader page header (build.seekTo pos))
    (name : FileName) : KeepsHeader page header (build.appended platform dir name pos) :=
  kept.again (kept.bytes.appended name)

theorem KeepsHeader.written (kept : KeepsHeader page header build) (bytes : List UInt8)
    {pos : Int} (beyond : Beyond page pos) :
    KeepsHeader page header (build.written platform bytes pos) :=
  kept.again (kept.bytes.written bytes (kept.beyond beyond))

theorem KeepsHeader.withRamdisk (kept : KeepsHeader page header build) (mtk : List UInt8)
    {pos : Int} (beyond : Beyond page pos) (payloadBeyond : Beyond page (abi.longOf (pos + 512))) :
    KeepsHeader page header (build.withRamdisk platform dir mtk pos) := by
  unfold Build.withRamdisk
  split
  · exact ((kept.written mtk beyond).seekTo payloadBeyond).appended _
  · exact (kept.seekTo beyond).appended _

theorem KeepsHeader.stored (kept : KeepsHeader page header build) (field : HdrField)
    (member : field ∈ HdrField.sizes) (value : Int) :
    KeepsHeader page (setHdrWord header field (uint32Of value)) (build.stored field value) := by
  have bounds := kept.valid.bounds
  have length := kept.length
  obtain ⟨inside, apart⟩ := HdrField.sizes_bounds field member
  unfold Build.stored
  constructor
  case valid => exact kept.valid
  case length => rw [length_setHdrWord _ _ _ (by omega), length]
  case pageSize =>
    rw [hdrWord_setHdrWord_other _ _ _ _ (by simp only [HdrField.offset] at *; omega)]
    exact kept.pageSize
  case contents =>
    have contents := kept.contents
    apply ext_read
    · rw [length_window, length_setHdrWord _ _ _ (by omega), length]
    · intro index within
      rw [length_window] at within
      have same : read build.out index = read header index := by
        rw [← contents, read_window, if_pos within, Nat.zero_add]
      rw [read_window, if_pos within, Nat.zero_add]
      unfold setHdrWord
      rw [read_patch, read_patch, same]
  case behind => exact kept.behind

theorem KeepsHeader.truncated (kept : KeepsHeader page header build) {pos : Int}
    (beyond : Beyond page pos) : KeepsHeader page header (build.truncated pos) :=
  kept.again (kept.bytes.truncated (kept.beyond beyond))

variable (abi) in
/-- A position that is no multiple of 2^32 keeps a part, MTK header or not, off the page. -/
theorem beyond_intOf (valid : PageSize page) {pos : Nat} (aligned : page ∣ pos)
    (apart : pos % 4294967296 ≠ 0) :
    Beyond page (intOf pos) ∧ Beyond page (abi.longOf (intOf pos + 512)) := by
  have range := intOf_range pos
  obtain ⟨sides, upper⟩ := valid.intOf_beyond pos aligned apart
  rw [abi.longOf_int _ (by omega) (by omega)]
  unfold Beyond
  omega

/-- One part of `main`: the position becomes the pattern of the rounded sum, and the
size is stored in its field. -/
theorem KeepsHeader.part {append : Int → Process Int} {field : HdrField}
    (member : field ∈ HdrField.sizes) {pos : Nat} (aligned : page ∣ pos) {size next : Int}
    {after : Build}
    (appends : ∀ result mid, Finishes (append (intOf pos)) build result mid →
      result = size ∧ KeepsHeader page header mid)
    (finished : Finishes (addPart append field (intOf pos)) build next after) :
    next = intOf ((pos + roundUp page (uint32Of size) : Nat) : Int) ∧
      KeepsHeader page (setHdrWord header field (uint32Of size)) after := by
  obtain ⟨result, mid, appendRun, moved, stored⟩ := (addPart_finishes _ _ _ _ _ _).mp finished
  obtain ⟨same, kept⟩ := appends result mid appendRun
  rw [same] at moved stored
  rw [kept.hdrWord_out .pageSize (by decide), kept.pageSize,
    kept.valid.advanceInt_intOf _ _ aligned] at moved
  rw [stored]
  exact ⟨moved, kept.stored field member size⟩

theorem KeepsHeader.kernelPart (kept : KeepsHeader page header (build.seekTo page)) {next : Int}
    {after : Build}
    (finished : Finishes (addPart (appendFile platform dir .kernel) .kernelSize (intOf page))
      build next after) :
    next = intOf ((page + roundUp page (uint32Of (appendedSize abi dir .kernel)) : Nat) : Int) ∧
      KeepsHeader page
        (setHdrWord header .kernelSize (uint32Of (appendedSize abi dir .kernel))) after := by
  apply KeepsHeader.part (by decide) (Nat.dvd_refl page) _ finished
  intro result mid appendRun
  obtain ⟨size, same⟩ := (appendFile_finishes _ _ _ _ _).mp appendRun
  rw [same, kept.valid.intOf_eq]
  exact ⟨size, kept.appended .kernel⟩

theorem KeepsHeader.ramdiskPart (kept : KeepsHeader page header build) {pos : Nat}
    (aligned : page ∣ pos) (apart : pos % 4294967296 ≠ 0) {next : Int} {after : Build}
    (finished : Finishes (addPart (appendRamdisk platform dir) .ramdiskSize (intOf pos))
      build next after) :
    next = intOf ((pos + roundUp page (uint32Of (ramdiskSize abi dir)) : Nat) : Int) ∧
      KeepsHeader page
        (setHdrWord header .ramdiskSize (uint32Of (ramdiskSize abi dir))) after := by
  apply KeepsHeader.part (by decide) aligned _ finished
  intro result mid appendRun
  obtain ⟨mtk, _, size, same⟩ := (appendRamdisk_finishes _ _ _ _).mp appendRun
  obtain ⟨beyond, payloadBeyond⟩ := beyond_intOf abi kept.valid aligned apart
  rw [same]
  exact ⟨size, kept.withRamdisk mtk beyond payloadBeyond⟩

def optionalSize (abi : Abi) (dir : Directory) (name : FileName) : Nat :=
  if dir.access name then uint32Of (appendedSize abi dir name) else 0

theorem KeepsHeader.optional (kept : KeepsHeader page header build) {name : FileName}
    {field : HdrField} (member : field ∈ HdrField.sizes) {pos : Nat} (aligned : page ∣ pos)
    (apart : pos % 4294967296 ≠ 0) {next : Int} {after : Build}
    (finished : Finishes (addOptional platform dir name field (intOf pos)) build next after) :
    next = intOf ((pos + roundUp page (optionalSize abi dir name) : Nat) : Int) ∧
      ∃ size, KeepsHeader page (setHdrWord header field size) after ∧ size < 4294967296 ∧
        (dir.access name = true → size = uint32Of (appendedSize abi dir name)) := by
  unfold optionalSize
  unfold addOptional at finished
  cases readable : dir.access name with
  | true =>
      rw [readable, if_pos rfl] at finished
      have appends : ∀ result mid,
          Finishes (appendFile platform dir name (intOf pos)) build result mid →
          result = appendedSize abi dir name ∧ KeepsHeader page header mid := by
        intro result mid appendRun
        obtain ⟨size, same⟩ := (appendFile_finishes _ _ _ _ _).mp appendRun
        rw [same]
        exact ⟨size, (kept.seekTo (beyond_intOf abi kept.valid aligned apart).1).appended name⟩
      obtain ⟨moved, stored⟩ := KeepsHeader.part member aligned appends finished
      exact ⟨moved, _, stored, uint32Of_lt _, fun _ => rfl⟩
  | false =>
      rw [readable, if_neg Bool.false_ne_true] at finished
      obtain ⟨still, same⟩ := (pure_finishes _ _ _ _).mp finished
      have bounds := kept.valid.bounds
      have length := kept.length
      have inside := (HdrField.sizes_bounds field member).1
      rw [if_neg Bool.false_ne_true, roundUp_zero, Nat.add_zero, same]
      refine ⟨still, hdrWord header 0 field, ?_, hdrWord_lt _ _ _, nofun⟩
      rw [setHdrWord_self header field (by omega)]
      exact kept

end Steps

/-! ### The whole run -/

def declaredSizes (abi : Abi) (dir : Directory) : List Nat :=
  [uint32Of (appendedSize abi dir .kernel), uint32Of (ramdiskSize abi dir),
    optionalSize abi dir .second, optionalSize abi dir .dt]

/-- No part behind the first begins at a multiple of 2^32, and the last does not end there. -/
def ClearOfHeader (page : Nat) (sizes : List Nat) : Prop :=
  ∀ count, 0 < count → count ≤ sizes.length →
    (page + span page (sizes.take count)) % 4294967296 ≠ 0

private theorem hdrWord_transferred (orig blank : List UInt8) (base moved : Nat)
    (enough : 40 ≤ moved) :
    hdrWord (clearedHeader (patch blank 0 ((window orig base hdrSize).take moved))) 0 .pageSize =
      hdrWord orig base .pageSize := by
  apply word_congr
  intro index within
  change read _ (0 + 36 + index) = read _ (base + 36 + index)
  have untouched : HdrField.Untouched (0 + 36 + index) := by
    unfold HdrField.Untouched
    omega
  have transferred : 36 + index < (((window orig base hdrSize).take moved).length) := by
    rw [List.length_take, length_window]
    unfold hdrSize
    omega
  rw [read_clearedHeader _ _ untouched, Nat.add_assoc, read_patch_inside _ _ _ _ transferred,
    read_take, if_pos (by omega), read_window, if_pos (by unfold hdrSize; omega), Nat.add_assoc]

theorem ClearOfHeader.of_total {page : Nat} {sizes : List Nat} (valid : PageSize page)
    (total : page + span page sizes < 4294967296) : ClearOfHeader page sizes := by
  have bounds := valid.bounds
  intro count _ _
  have part : span page (sizes.take count) ≤ span page sizes := span_take_le sizes count
  omega

/-- The header page of the new file, its offset once it has been set for the first part. -/
theorem clearedImage_keeps (written : platform.HeaderWrites) {orig : List UInt8} {base : Nat}
    (header : HeaderAt orig base) (valid : PageSize (hdrWord orig base .pageSize)) :
    KeepsHeader (hdrWord orig base .pageSize)
      (window (clearedImage platform orig base).out 0 (hdrWord orig base .pageSize))
      ((clearedImage platform orig base).seekTo (hdrWord orig base .pageSize)) := by
  have bounds := valid.bounds
  have begins := header.bound
  have lengths := length_le_mappedLength orig
  unfold bootMagicSize at begins
  have readable := block_mapped orig base header.1 (by omega)
  have pageSize : hdrWord (clearedImage platform orig base).out 0 .pageSize =
      hdrWord orig base .pageSize :=
    hdrWord_transferred orig _ base _ (written (mappedLength orig - base) (by omega))
  unfold Build.seekTo
  rw [if_pos (Int.natCast_nonneg _), Int.toNat_natCast]
  constructor
  case valid => exact valid
  case length => exact length_window _ _ _
  case pageSize =>
    rw [← pageSize]
    apply word_congr
    intro index within
    rw [pageSize, read_window, if_pos, Nat.zero_add]
    simp only [HdrField.offset]
    omega
  case contents => rfl
  case behind => exact Nat.le_refl _

/-- The page size of the new file is the original's. -/
theorem hdrWord_clearedImage (written : platform.HeaderWrites) {orig : List UInt8} {base : Nat}
    (header : HeaderAt orig base) (valid : PageSize (hdrWord orig base .pageSize)) :
    hdrWord (clearedImage platform orig base).out 0 .pageSize = hdrWord orig base .pageSize := by
  have start := clearedImage_keeps written header valid
  have same := start.hdrWord_out .pageSize (by decide)
  rw [start.pageSize] at same
  unfold Build.seekTo at same
  rwa [if_pos (Int.natCast_nonneg _)] at same

def partPos (abi : Abi) (dir : Directory) (page count : Nat) : Nat :=
  page + span page ((declaredSizes abi dir).take count)

theorem dvd_partPos (abi : Abi) (dir : Directory) (page count : Nat) :
    page ∣ partPos abi dir page count :=
  Nat.dvd_add (Nat.dvd_refl _) (dvd_span _)

/-- The header page with the sizes that a finished run has filled in. -/
def FilledIn (platform : Platform abi) (dir : Directory) (orig : List UInt8) (base : Nat)
    (build : Build) : Prop :=
  ∃ second dt, second < 4294967296 ∧ dt < 4294967296 ∧
    (dir.access .second = true → second = uint32Of (appendedSize abi dir .second)) ∧
    (dir.access .dt = true → dt = uint32Of (appendedSize abi dir .dt)) ∧
    KeepsHeader (hdrWord orig base .pageSize)
      (sizedHeader
        (window (clearedImage platform orig base).out 0 (hdrWord orig base .pageSize))
        (uint32Of (appendedSize abi dir .kernel)) (uint32Of (ramdiskSize abi dir)) second dt)
      build

/-- A run up to its last `ftruncate`, each part at the pattern of its position. -/
structure Appends (platform : Platform abi) (dir : Directory) (orig : List UInt8) (base : Nat)
    (withKernel withRamdisk withSecond withDt : Build) : Prop where
  kernel : Finishes (addPart (appendFile platform dir .kernel) .kernelSize
      (intOf (hdrWord orig base .pageSize))) (clearedImage platform orig base)
    (intOf (partPos abi dir (hdrWord orig base .pageSize) 1)) withKernel
  ramdisk : Finishes (addPart (appendRamdisk platform dir) .ramdiskSize
      (intOf (partPos abi dir (hdrWord orig base .pageSize) 1))) withKernel
    (intOf (partPos abi dir (hdrWord orig base .pageSize) 2)) withRamdisk
  second : Finishes (addOptional platform dir .second .secondSize
      (intOf (partPos abi dir (hdrWord orig base .pageSize) 2))) withRamdisk
    (intOf (partPos abi dir (hdrWord orig base .pageSize) 3)) withSecond
  dt : Finishes (addOptional platform dir .dt .unused0
      (intOf (partPos abi dir (hdrWord orig base .pageSize) 3))) withSecond
    (intOf (partPos abi dir (hdrWord orig base .pageSize) 4)) withDt
  filledIn : FilledIn platform dir orig base withDt

/-- The positions are what they should be, modulo 2^32, as long as no part begins where it
would overwrite the header. -/
theorem build_appends (written : platform.HeaderWrites) {orig : List UInt8} {base : Nat}
    (header : HeaderAt orig base) (valid : PageSize (hdrWord orig base .pageSize))
    (clear : ∀ count, 0 < count → count < 4 →
      partPos abi dir (hdrWord orig base .pageSize) count % 4294967296 ≠ 0)
    {before after : Build}
    (finished : Finishes (Repack.build platform dir orig base) before () after) :
    ∃ withKernel withRamdisk withSecond withDt,
      Appends platform dir orig base withKernel withRamdisk withSecond withDt ∧
      after = withDt.truncated (intOf (partPos abi dir (hdrWord orig base .pageSize) 4)) := by
  have start := clearedImage_keeps written header valid
  obtain ⟨kernelNext, withKernel, kernelRun, ramdiskNext, withRamdisk, ramdiskRun, secondNext,
    withSecond, secondRun, dtNext, withDt, dtRun, _, outcome⟩ :=
    (build_finishes _ _ _ _).mp finished
  have ramdiskClear := clear 1 (by decide) (by decide)
  have secondClear := clear 2 (by decide) (by decide)
  have dtClear := clear 3 (by decide) (by decide)
  have ramdiskAligned := dvd_partPos abi dir (hdrWord orig base .pageSize) 1
  have secondAligned := dvd_partPos abi dir (hdrWord orig base .pageSize) 2
  have dtAligned := dvd_partPos abi dir (hdrWord orig base .pageSize) 3
  have steps : partPos abi dir (hdrWord orig base .pageSize) 1 = hdrWord orig base .pageSize +
        roundUp (hdrWord orig base .pageSize) (uint32Of (appendedSize abi dir .kernel)) ∧
      partPos abi dir (hdrWord orig base .pageSize) 2 =
        partPos abi dir (hdrWord orig base .pageSize) 1 +
          roundUp (hdrWord orig base .pageSize) (uint32Of (ramdiskSize abi dir)) ∧
      partPos abi dir (hdrWord orig base .pageSize) 3 =
        partPos abi dir (hdrWord orig base .pageSize) 2 +
          roundUp (hdrWord orig base .pageSize) (optionalSize abi dir .second) ∧
      partPos abi dir (hdrWord orig base .pageSize) 4 =
        partPos abi dir (hdrWord orig base .pageSize) 3 +
          roundUp (hdrWord orig base .pageSize) (optionalSize abi dir .dt) := by
    simp only [partPos, declaredSizes, List.take, span, Nat.add_zero, ← Nat.add_assoc,
      true_and]
  obtain ⟨kernelStep, ramdiskStep, secondStep, dtStep⟩ := steps
  rw [hdrWord_clearedImage written header valid] at kernelRun
  obtain ⟨kernelMoved, kernelKept⟩ := start.kernelPart kernelRun
  rw [← kernelStep] at kernelMoved
  rw [kernelMoved] at kernelRun ramdiskRun
  obtain ⟨ramdiskMoved, ramdiskKept⟩ :=
    kernelKept.ramdiskPart ramdiskAligned ramdiskClear ramdiskRun
  rw [← ramdiskStep] at ramdiskMoved
  rw [ramdiskMoved] at ramdiskRun secondRun
  obtain ⟨secondMoved, second, secondKept, secondSmall, secondSize⟩ :=
    ramdiskKept.optional (by decide) secondAligned secondClear secondRun
  rw [← secondStep] at secondMoved
  rw [secondMoved] at secondRun dtRun
  obtain ⟨dtMoved, dt, dtKept, dtSmall, dtSize⟩ :=
    secondKept.optional (by decide) dtAligned dtClear dtRun
  rw [← dtStep] at dtMoved
  rw [dtMoved] at dtRun outcome
  exact ⟨withKernel, withRamdisk, withSecond, withDt, ⟨kernelRun, ramdiskRun, secondRun, dtRun,
    second, dt, secondSmall, dtSmall, secondSize, dtSize, dtKept⟩, outcome⟩

/-- A finished run leaves the header page it started with, its sizes filled in, however
far its positions went. -/
theorem build_keeps (written : platform.HeaderWrites) {orig : List UInt8} {base : Nat}
    (header : HeaderAt orig base) (valid : PageSize (hdrWord orig base .pageSize))
    (clear : ClearOfHeader (hdrWord orig base .pageSize) (declaredSizes abi dir))
    {before after : Build}
    (finished : Finishes (Repack.build platform dir orig base) before () after) :
    FilledIn platform dir orig base after := by
  obtain ⟨_, _, _, withDt, appends, outcome⟩ := build_appends written header valid
    (fun count positive below => clear count positive (Nat.le_of_lt below)) finished
  obtain ⟨second, dt, secondSmall, dtSmall, secondSize, dtSize, kept⟩ := appends.filledIn
  have aligned := dvd_partPos abi dir (hdrWord orig base .pageSize) 4
  have beyond := (beyond_intOf abi valid aligned (clear 4 (by decide) (Nat.le_refl 4))).1
  rw [outcome]
  exact ⟨second, dt, secondSmall, dtSmall, secondSize, dtSize, kept.truncated beyond⟩

theorem built_pageSize (written : platform.HeaderWrites) {orig : List UInt8} {base : Nat}
    (header : HeaderAt orig base) (valid : PageSize (hdrWord orig base .pageSize))
    (clear : ClearOfHeader (hdrWord orig base .pageSize) (declaredSizes abi dir))
    {before after : Build}
    (finished : Finishes (Repack.build platform dir orig base) before () after) :
    hdrWord after.out 0 .pageSize = hdrWord orig base .pageSize := by
  obtain ⟨_, _, _, _, _, _, kept⟩ := build_keeps written header valid clear finished
  rw [kept.hdrWord_out .pageSize (by decide), kept.pageSize]

/-- The size fields of a finished run. -/
theorem built_fields (written : platform.HeaderWrites) {orig : List UInt8} {base : Nat}
    (header : HeaderAt orig base) (valid : PageSize (hdrWord orig base .pageSize))
    (clear : ClearOfHeader (hdrWord orig base .pageSize) (declaredSizes abi dir))
    {before after : Build}
    (finished : Finishes (Repack.build platform dir orig base) before () after) :
    hdrWord after.out 0 .kernelSize = uint32Of (appendedSize abi dir .kernel) ∧
      hdrWord after.out 0 .ramdiskSize = uint32Of (ramdiskSize abi dir) ∧
      (dir.access .second = true →
        hdrWord after.out 0 .secondSize = uint32Of (appendedSize abi dir .second)) ∧
      (dir.access .dt = true →
        hdrWord after.out 0 .unused0 = uint32Of (appendedSize abi dir .dt)) := by
  obtain ⟨second, dt, secondSmall, dtSmall, secondSize, dtSize, kept⟩ :=
    build_keeps written header valid clear finished
  have fields := kept.hdrWord_out
  have sizes := hdrWord_sizedHeader
    (window (clearedImage platform orig base).out 0 (hdrWord orig base .pageSize))
    _ _ second dt (uint32Of_lt (appendedSize abi dir .kernel)) (uint32Of_lt (ramdiskSize abi dir))
    secondSmall dtSmall
  refine ⟨?_, ?_, ?_, ?_⟩
  · rw [fields .kernelSize (by decide), sizes.1]
  · rw [fields .ramdiskSize (by decide), sizes.2.1]
  · intro readable
    rw [fields .secondSize (by decide), sizes.2.2.1, secondSize readable]
  · intro readable
    rw [fields .unused0 (by decide), sizes.2.2.2, dtSize readable]

end Repack

end SuperBootimg.Concrete
