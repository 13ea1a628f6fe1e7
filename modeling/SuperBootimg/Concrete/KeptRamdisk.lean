/-
The ramdisk of an image that has been extracted and is built again. repack.c looks for
`ramdisk.gz` and `ramdisk`; a ramdisk that extract.c leaves as `ramdisk.lzma` is missed.
-/

import SuperBootimg.Concrete.ExtractedParts

namespace SuperBootimg.Concrete

open ByteImage PagedLayout StoppableRun

variable {abi : Abi}

/-! ### The ramdisk of a finished run -/

namespace Repack

variable {platform : Platform abi} {dir : Directory}

theorem appended_keeps (complete : platform.Complete) (build : Build) {name : FileName}
    {bytes : List UInt8} (readable : dir.openRead name = some bytes)
    (small : bytes.length ≤ maxTransfer) (pos : Nat) :
    KeepsBytes pos bytes (build.appended platform dir name pos) := by
  rw [(appended_eq complete build name bytes pos readable small).2]
  exact ⟨window_patch_self _ _ _, Nat.le_refl _⟩

theorem withRamdisk_keeps (complete : platform.Complete) (build : Build) {payload : List UInt8}
    (readable : dir.openRead (selectedRamdisk dir) = some payload)
    (small : payload.length ≤ maxTransfer) (mtk : List UInt8) {pos : Nat}
    (near : pos + 512 < 2147483648) :
    KeepsBytes (pos + mtkExtra dir) payload (build.withRamdisk platform dir mtk pos) := by
  have limits := abi.modulus_signBit
  unfold Build.withRamdisk mtkExtra
  by_cases flagged : dir.access .ramdiskMtk = true
  · have selected : selectedRamdisk dir = .ramdiskGz := by
      unfold selectedRamdisk
      rw [if_pos (.inl flagged)]
    have next : abi.longOf ((pos : Int) + 512) = ((pos + 512 : Nat) : Int) :=
      abi.longOf_eq_self (pos + 512) (by omega)
    rw [selected] at readable
    rw [if_pos flagged, if_pos flagged, next]
    exact appended_keeps complete _ readable small _
  · rw [if_neg flagged, if_neg flagged]
    exact appended_keeps complete _ readable small _

private theorem beyond_of_lt {fence pos : Nat} (behind : fence ≤ pos) (below : pos < 4294967296) :
    Beyond fence (intOf pos) := by
  have same := intOf_emod pos
  have range := intOf_range pos
  unfold Beyond
  omega

theorem partPos_mono (page : Nat) {count more : Nat} (fewer : count ≤ more) :
    partPos abi dir page count ≤ partPos abi dir page more := by
  have taken := @span_take_le page ((declaredSizes abi dir).take more) count
  rw [List.take_take, Nat.min_eq_left fewer] at taken
  exact Nat.add_le_add_left taken page

/-- The ramdisk stays where it has been written, whatever comes behind it. -/
theorem build_ramdisk (complete : platform.Complete) (written : platform.HeaderWrites)
    {orig : List UInt8} {base : Nat} (header : HeaderAt orig base)
    (valid : PageSize (hdrWord orig base .pageSize)) {payload : List UInt8}
    (readable : dir.openRead (selectedRamdisk dir) = some payload)
    (small : payload.length ≤ maxTransfer)
    (near : partPos abi dir (hdrWord orig base .pageSize) 1 + 512 < 2147483648)
    (total : partPos abi dir (hdrWord orig base .pageSize) 4 < 4294967296)
    {before after : Build}
    (finished : Finishes (Repack.build platform dir orig base) before () after) :
    window after.out (partPos abi dir (hdrWord orig base .pageSize) 1 + mtkExtra dir)
      payload.length = payload := by
  have bounds := valid.bounds
  have limits := abi.signBit_cases
  have extra : mtkExtra dir ≤ 512 := by
    unfold mtkExtra
    split <;> omega
  have opened : dir.opened abi (selectedRamdisk dir) = some payload := by
    unfold maxTransfer at small
    unfold Directory.opened
    rw [readable, Option.filter_some, if_pos (decide_eq_true (by omega))]
  have starts : ∀ count, hdrWord orig base .pageSize ≤
      partPos abi dir (hdrWord orig base .pageSize) count := fun _ => Nat.le_add_right _ _
  have secondPos := @partPos_mono abi dir (hdrWord orig base .pageSize) 2 3 (by decide)
  have dtPos := @partPos_mono abi dir (hdrWord orig base .pageSize) 3 4 (by decide)
  obtain ⟨withKernel, withRamdisk, withSecond, withDt, appends, outcome⟩ :=
    build_appends written header valid (fun count _ below => by
      have last := @partPos_mono abi dir (hdrWord orig base .pageSize) _ _ (Nat.le_of_lt below)
      have first := starts count
      omega) finished
  obtain ⟨size, mid, appendRun, _, stored⟩ := (addPart_finishes _ _ _ _ _ _).mp appends.ramdisk
  obtain ⟨mtk, _, _, same⟩ := (appendRamdisk_finishes _ _ _ _).mp appendRun
  -- everything behind the ramdisk is written behind its end, or at no position at all
  have fence : partPos abi dir (hdrWord orig base .pageSize) 1 + mtkExtra dir + payload.length ≤
      partPos abi dir (hdrWord orig base .pageSize) 2 := by
    have room := le_roundUp valid.positive (uint32Of (ramdiskSize abi dir))
    rw [ramdiskSize_of_opened opened] at room
    unfold maxTransfer at small
    simp only [partPos, declaredSizes, List.take, span, Nat.add_zero, ← Nat.add_assoc]
    rw [ramdiskSize_of_opened opened]
    omega
  have header44 := starts 1
  have placed : KeepsBytes (partPos abi dir (hdrWord orig base .pageSize) 1 + mtkExtra dir)
      payload mid := by
    rw [same, intOf_eq_self _ (by omega) (by omega)]
    exact withRamdisk_keeps complete _ readable small mtk near
  have kept : KeepsBytes (partPos abi dir (hdrWord orig base .pageSize) 1 + mtkExtra dir)
      payload withRamdisk := by
    rw [stored]
    exact placed.stored (by omega) (by decide) size
  have withSecondKept := kept.optional (by omega) (by decide)
    (beyond_of_lt fence (by omega)) appends.second
  have withDtKept := withSecondKept.optional (by omega) (by decide)
    (beyond_of_lt (Nat.le_trans fence secondPos) (by omega)) appends.dt
  rw [outcome]
  exact (withDtKept.truncated
    (beyond_of_lt (Nat.le_trans fence (Nat.le_trans secondPos dtPos)) total)).contents

end Repack

/-! ### Directories as extract leaves them -/

def extractedRamdisk (dir : Directory) : Option (List UInt8) :=
  (dir.openRead .ramdiskGz).or (dir.openRead .ramdiskLzma)

/-- The ramdisk section of an image, without the MTK header. -/
def heldRamdisk (image : List UInt8) (extra : Nat) : List UInt8 :=
  window image (Extract.pageOf image 0 +
      roundUp (Extract.pageOf image 0) (Extract.kernelSizeOf image 0) + extra)
    (Extract.ramdiskSizeOf image 0 - extra)

/-- An image built again from what was extracted holds the extracted ramdisk. -/
def RamdiskKept (platform : Platform abi) (image : List UInt8) : Prop :=
  (rebuilt platform image .empty).stop = none →
    ∃ built, (rebuilt platform image .empty).dir.openRead .newBoot = some built ∧
      extractedRamdisk (extract platform image .empty).dir =
        some (heldRamdisk built (mtkExtra (extract platform image .empty).dir))

section Rebuilt

variable {platform : Platform abi} {image : List UInt8} {base : Nat} {dir : Directory}

open Extract (BareLzma InReach Leaves Room pageOf)

private theorem appendable_of_sendable {name : FileName} {extra : Nat}
    (sendable : ((dir.openRead name).getD []).length ≤ maxTransfer) (small : extra ≤ 512)
    (readable : dir.access name = true) : Appendable abi dir name extra := by
  have limits := abi.signBit_cases
  unfold Directory.access at readable
  obtain ⟨bytes, found⟩ := Option.isSome_iff_exists.mp readable
  rw [found] at sendable
  change bytes.length ≤ maxTransfer at sendable
  unfold maxTransfer at sendable
  refine ⟨bytes, ?_, by omega⟩
  unfold Directory.opened
  rw [found, Option.filter_some, if_pos (decide_eq_true (by omega))]

theorem Extract.Room.allAppendable {page : Nat} (room : Room page dir)
    (kernel : dir.access .kernel = true)
    (ramdisk : dir.access (Repack.selectedRamdisk dir) = true) : AllAppendable abi dir where
  kernel := appendable_of_sendable (room.sendable _ (by simp)) (Nat.zero_le _) kernel
  ramdisk := by
    apply appendable_of_sendable (room.sendable _ (by simp)) _ ramdisk
    unfold mtkExtra
    split <;> omega
  second := appendable_of_sendable (room.sendable _ (by simp)) (Nat.zero_le _)
  dt := appendable_of_sendable (room.sendable _ (by simp)) (Nat.zero_le _)

theorem Extract.Leaves.kernel_access {count : Nat} {name : FileName} {payload : List UInt8}
    (leaves : Leaves platform image base dir count name payload) :
    dir.access .kernel = true := by
  unfold Directory.access
  rw [Directory.openRead_of_file leaves.kernel]
  rfl

theorem ramdiskKept_of_gzip (complete : platform.Complete) (short : platform.ShortWrites)
    {count : Nat} {payload : List UInt8} (accepted : Repack.accepted abi image = .ok base)
    (leaves : Leaves platform image base (extract platform image .empty).dir count .ramdiskGz
      payload)
    (room : Room (pageOf image base) (extract platform image .empty).dir) :
    RamdiskKept platform image := by
  obtain ⟨_, header, valid⟩ := (Repack.accepted_iff abi image base).mp accepted
  have written := Platform.headerWrites_of_complete complete short
  have selected : (extract platform image .empty).dir.openRead
      (Repack.selectedRamdisk (extract platform image .empty).dir) = some payload := by
    rw [leaves.selected_gzip]
    exact leaves.payload
  have small := room.sendable (Repack.selectedRamdisk (extract platform image .empty).dir) (by simp)
  rw [selected] at small
  have appendable : AllAppendable abi (extract platform image .empty).dir :=
    room.allAppendable leaves.kernel_access (by
      unfold Directory.access
      rw [selected]
      rfl)
  have sizes := appendable.declaredSizes
  have total := room.finish
  have near := room.ramdisk
  have kernelSize := appendable.kernel.size
  rw [sizes] at total
  rw [kernelSize] at near
  obtain ⟨bytes, found, ramdiskSmall⟩ := appendable.ramdisk
  obtain rfl : payload = bytes :=
    Option.some.inj (selected.symm.trans (openRead_of_opened found).1)
  have ramdiskSize := ramdiskSize_of_opened found
  rw [Nat.mod_eq_of_lt ramdiskSmall] at ramdiskSize
  have clear := Repack.ClearOfHeader.of_total valid total
  intro success
  obtain ⟨after, finished⟩ : ∃ after, Finishes (Repack.build platform
      (extract platform image .empty).dir image base) { out := [], offset := 0 } () after :=
    (Repack.build_finishes_iff_checked image base _).mpr
      ((repack_stop_none_iff_checked accepted).mp success)
  obtain ⟨kernelField, ramdiskField, _⟩ :=
    Repack.built_fields written header valid clear finished
  have placed := Repack.build_ramdisk complete written header valid selected small
    (by simpa only [Repack.partPos, Repack.declaredSizes, List.take, span, Nat.add_zero] using near)
    total finished
  refine ⟨after.out, ?_, ?_⟩
  · unfold rebuilt
    rw [repack_of_finishes accepted finished]
    exact Directory.openRead_store_same _ _ _
  · unfold extractedRamdisk heldRamdisk Extract.pageOf Extract.kernelSizeOf Extract.ramdiskSizeOf
    rw [leaves.payload, Option.some_or, Repack.built_pageSize written header valid clear finished,
      kernelField, ramdiskField, ramdiskSize, Nat.add_sub_cancel]
    simp only [Repack.partPos, Repack.declaredSizes, List.take, span, Nat.add_zero] at placed
    rw [placed]

/-- A ramdisk of size -1 moves the position by 2^32, which is not at all. -/
private theorem clear_of_ones (page kernelSize ramdiskLength secondSize dtSize : Nat)
    (valid : PageSize page)
    (total : page + span page [kernelSize, ramdiskLength, secondSize, dtSize] < 4294967296) :
    Repack.ClearOfHeader page [kernelSize, 4294967295, secondSize, dtSize] := by
  have bounds := valid.bounds
  have ones : roundUp page 4294967295 = 4294967296 := by
    rcases valid with rfl | rfl | rfl <;> rfl
  simp only [span] at total
  intro count positive bound
  have cases_ : count = 1 ∨ count = 2 ∨ count = 3 ∨ count = 4 := by
    simp only [List.length_cons, List.length_nil] at bound
    omega
  rcases cases_ with rfl | rfl | rfl | rfl <;> simp only [List.take, span, ones] <;> omega

/-- No ramdisk to append makes a size field of all ones. -/
theorem not_ramdiskKept_of_bare (complete : platform.Complete) (short : platform.ShortWrites)
    {payload : List UInt8} (accepted : Repack.accepted abi image = .ok base)
    (leaves : Leaves platform image base (extract platform image .empty).dir 0 .ramdiskLzma
      payload)
    (unmarked : (extract platform image .empty).dir.access .rkcrc = false)
    (small : payload.length ≤ maxTransfer)
    (room : Room (pageOf image base) (extract platform image .empty).dir) :
    ¬ RamdiskKept platform image := by
  obtain ⟨_, _, valid⟩ := (Repack.accepted_iff abi image base).mp accepted
  have noMtk : (extract platform image .empty).dir.access .ramdiskMtk = false := leaves.mtk
  have checked : Repack.Checked abi (extract platform image .empty).dir :=
    ⟨unmarked, fun flagged => by rw [noMtk] at flagged; cases flagged⟩
  have noGzip : (extract platform image .empty).dir.openRead .ramdiskGz = none :=
    Directory.openRead_of_missing (leaves.others .ramdiskGz (.inl rfl) (by decide))
  have ones : uint32Of (Repack.ramdiskSize abi (extract platform image .empty).dir) =
      4294967295 := by
    unfold Repack.ramdiskSize Repack.appendedSize
    rw [noMtk, if_neg Bool.false_ne_true, leaves.openRead_lzma]
    rfl
  have kernelSize := (appendable_of_sendable (room.sendable _ (by simp)) (Nat.zero_le 512)
    leaves.kernel_access : Appendable abi _ _ 0).size
  have secondSize := optionalSize_of_appendable (@appendable_of_sendable abi _ .second 0
    (room.sendable _ (by simp)) (Nat.zero_le 512))
  have dtSize := optionalSize_of_appendable (@appendable_of_sendable abi _ .dt 0
    (room.sendable _ (by simp)) (Nat.zero_le 512))
  have clear : Repack.ClearOfHeader (hdrWord image base .pageSize)
      (Repack.declaredSizes abi (extract platform image .empty).dir) := by
    have total := room.finish
    unfold partLengths at total
    unfold Repack.declaredSizes
    rw [kernelSize, secondSize, dtSize] at total
    rw [ones]
    exact clear_of_ones _ _ _ _ _ valid total
  intro kept
  obtain ⟨built, stored, held⟩ := kept ((repack_stop_none_iff_checked accepted).mpr checked)
  obtain ⟨other, otherStored, _, ramdiskSize, _⟩ := repack_fields
    (Platform.headerWrites_of_complete complete short) accepted checked clear
  have same : built = other := Option.some.inj (stored.symm.trans otherStored)
  have lengths := congrArg (Option.map List.length) held
  unfold extractedRamdisk heldRamdisk Extract.ramdiskSizeOf mtkExtra at lengths
  rw [noGzip, leaves.payload, noMtk, same, ramdiskSize, ones] at lengths
  unfold maxTransfer at small
  simp only [Option.none_or, Option.map_some, length_window] at lengths
  have full := Option.some.inj lengths
  rw [if_neg Bool.false_ne_true] at full
  omega

/-- Rebuilding keeps the extracted ramdisk unless it is a bare LZMA one, which repack
does not look for. -/
theorem ramdiskKept_iff (complete : platform.Complete) (short : platform.ShortWrites)
    (accepted : Repack.accepted abi image = .ok base)
    (success : (extract platform image .empty).stop = none) (reach : InReach abi image base) :
    RamdiskKept platform image ↔ ¬ BareLzma image base := by
  obtain ⟨_, header, _⟩ := (Repack.accepted_iff abi image base).mp accepted
  obtain ⟨found, mid, located, sections, outcome, _⟩ := Extract.accepted_run success
  cases located.header.unique header
  obtain ⟨count, name, unpacks, leaves⟩ := sections.leaves
  have room := sections.room located reach
  have small := @Extract.length_dumpedBytes_le abi platform image name
    (base + Extract.ramdiskPos image base + 512 * count)
    (abi.sizeOf ((Extract.ramdiskSizeOf image base : Int) - 512 * (count : Int)))
  rw [← outcome] at leaves room
  constructor
  · intro kept bare
    obtain ⟨⟨rfl, rfl⟩, unmarked⟩ := leaves.bareLzma_iff.mp bare
    exact not_ramdiskKept_of_bare complete short accepted leaves unmarked small room kept
  · intro notBare
    rcases leaves.named with rfl | rfl
    · exact ramdiskKept_of_gzip complete short accepted leaves room
    · intro built
      have checked := (repack_stop_none_iff_checked accepted).mp built
      by_cases plain : count = 0
      · exact absurd (leaves.bareLzma_iff.mpr ⟨⟨plain, rfl⟩, checked.1⟩) notBare
      · obtain ⟨_, _, stat, _⟩ := checked.2 (leaves.mtk.trans (decide_eq_true plain))
        unfold Repack.statSize at stat
        rw [leaves.others .ramdiskGz (.inl rfl) (by decide)] at stat
        cases stat

end Rebuilt

end SuperBootimg.Concrete
