/-
When bootimg-repack fails closed, in any directory and in one that bootimg-extract has
filled.
-/

import SuperBootimg.Concrete.KeptRamdisk

namespace SuperBootimg.Concrete

open ByteImage PagedLayout StoppableRun

variable {abi : Abi}

/-- Repack fails closed where kernel and ramdisk can be opened and, unless a check stops the
run, every part can and keeps clear of the header. Elsewhere it does not, a part behind the
kernel that begins over the header apart. Of an extracted image it keeps the ramdisk unless
that is a bare LZMA one. -/
theorem fails_closed_iff (platform : Platform abi) (written : platform.HeaderWrites)
    (orig : List UInt8) (base : Nat) (dir : Directory)
    (accepted : Repack.accepted abi orig = .ok base) :
    (Closes abi (hdrWord orig base .pageSize) dir → FailsClosed platform orig dir) ∧
      (FailsClosed platform orig dir →
        dir.opened abi .kernel ≠ none ∧ dir.opened abi (Repack.selectedRamdisk dir) ≠ none ∧
          (Repack.Checked abi dir → AllAppendable abi dir)) ∧
      ((∀ count, 0 < count → count < 4 →
          (hdrWord orig base .pageSize +
            span (hdrWord orig base .pageSize) ((partLengths dir).take count)) % 4294967296 ≠
              0) →
        (FailsClosed platform orig dir ↔ Closes abi (hdrWord orig base .pageSize) dir)) ∧
      (platform.Complete → platform.ShortWrites → (extract platform orig .empty).stop = none →
        Extract.InReach abi orig base →
        (RamdiskKept platform orig ↔ ¬ Extract.BareLzma orig base)) := by
  refine ⟨Closes.failsClosed written accepted, ?_, ?_, ?_⟩
  · intro closed
    obtain ⟨kernel, ramdisk⟩ := closed.opened accepted
    exact ⟨kernel, ramdisk, closed.allAppendable accepted⟩
  · intro clear
    exact ⟨fun closed => closed.closes written accepted clear,
      Closes.failsClosed written accepted⟩
  · intro complete short success reach
    exact ramdiskKept_iff complete short accepted success reach

private theorem smallImage_accepted :
    Repack.accepted .lp64 Extract.smallImage = .ok 0 :=
  (Repack.accepted_iff _ _ _).mpr ⟨by decide +kernel,
    (findHeader_eq_some_iff _ _).mp (by decide +kernel), by decide +kernel⟩

theorem smallDirectory_fails_closed :
    FailsClosed (Platform.greedy .lp64) Extract.smallImage smallDirectory ∧
      RamdiskKept (Platform.greedy .lp64) Extract.smallImage := by
  have complete := Platform.greedy_complete .lp64
  have short := Platform.greedy_shortWrites .lp64
  obtain ⟨_, _, closed, kept⟩ := fails_closed_iff (Platform.greedy .lp64)
    (Platform.headerWrites_of_complete complete short) Extract.smallImage 0 smallDirectory
    smallImage_accepted
  have clear : Repack.ClearOfHeader (hdrWord Extract.smallImage 0 .pageSize)
      (partLengths smallDirectory) := .of_total (by decide +kernel) (by decide +kernel)
  constructor
  · apply (closed fun count positive below => clear count positive (Nat.le_of_lt below)).mpr
    refine ⟨Option.some_ne_none _, Option.some_ne_none _, fun _ => ⟨?_, clear⟩⟩
    exact
      { kernel := ⟨[7], rfl, by decide⟩
        ramdisk := ⟨[0x1f, 0x8b, 0x08, 0x00], rfl, by decide⟩
        second := fun _ => ⟨[1, 2], rfl, by decide⟩
        dt := nofun }
  · apply (kept complete short (by decide +kernel) (.inl (by decide +kernel))).mpr
    intro bare
    exact absurd bare.1 (by decide +kernel)

/-- With no file at all repack still reports an image as built. -/
theorem emptyDirectory_not_fails_closed :
    ¬ FailsClosed (Platform.greedy .lp64) Extract.smallImage .empty := by
  intro closed
  obtain ⟨_, _, held⟩ :=
    closed.held ((repack_stop_none_iff_checked smallImage_accepted).mpr ⟨rfl, nofun⟩)
  obtain ⟨_, found, _⟩ := held.kernel
  cases found

end SuperBootimg.Concrete
