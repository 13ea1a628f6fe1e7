/-
The file mapping and the calls that move data. Their transfer counts belong to
the platform; what is assumed of them is what their manual pages promise.
-/

import SuperBootimg.Concrete.MachineWords
import SuperBootimg.Concrete.WorkDirectory

namespace SuperBootimg.Concrete

open ByteImage

def maxTransfer : Nat := 0x7ffff000

def memoryPage : Nat := 4096

/-- Length of the mapping of a file: bytes between the end of the file and the end
of its last memory page read as zero, the ones behind fault. -/
def mappedLength (image : List UInt8) : Nat :=
  PagedLayout.roundUp memoryPage image.length

theorem length_le_mappedLength (image : List UInt8) : image.length ≤ mappedLength image :=
  PagedLayout.le_roundUp (by decide) _

theorem mappedLength_lt (image : List UInt8) : mappedLength image < image.length + memoryPage :=
  PagedLayout.roundUp_lt (by decide) _

/-- An offset whose 256-byte block begins in the file is mapped with its block. -/
theorem block_mapped (image : List UInt8) (start : Nat) (aligned : 256 ∣ start)
    (mapped : start < mappedLength image) : start + 256 ≤ mappedLength image := by
  obtain ⟨count, rfl⟩ := aligned
  have pageAligned : memoryPage ∣ mappedLength image := PagedLayout.dvd_roundUp _
  obtain ⟨total, same⟩ := Nat.dvd_trans (by decide : 256 ∣ memoryPage) pageAligned
  rw [same] at mapped ⊢
  omega

/-- `write(fd, buf, count)` and `sendfile(out, in, NULL, count)`. For `write` the
second argument is how many bytes are readable at `buf`, `none` is -1. -/
structure Platform (abi : Abi) where
  write : FileName → Nat → Nat → Option Nat
  sendfile : FileName → Nat → Nat → Nat
  write_le : ∀ name readable count moved, write name readable count = some moved →
    moved ≤ count ∧ moved ≤ readable ∧ moved ≤ maxTransfer
  write_negative : ∀ name readable count, abi.signBit ≤ count →
    write name readable count = none
  sendfile_le : ∀ name length count,
    sendfile name length count ≤ count ∧ sendfile name length count ≤ length

/-- Reads, writes and sendfile complete: nothing but the transfer limit cuts them. -/
structure Platform.Complete {abi : Abi} (platform : Platform abi) : Prop where
  write_all : ∀ name readable count, count ≤ maxTransfer → count ≤ readable →
    platform.write name readable count = some count
  sendfile_all : ∀ name length count, count ≤ maxTransfer → count ≤ length →
    platform.sendfile name length count = count

/-- A write from a range that leaves the mapping transfers the readable part. -/
def Platform.ShortWrites {abi : Abi} (platform : Platform abi) : Prop :=
  ∀ name readable count, 0 < readable → readable ≤ count → count ≤ maxTransfer →
    platform.write name readable count = some readable

/-- What is written of a range that is readable does not depend on what lies behind it. -/
def Platform.Steady {abi : Abi} (platform : Platform abi) : Prop :=
  ∀ name readable count, count ≤ readable →
    platform.write name readable count = platform.write name count count

def Platform.greedy (abi : Abi) : Platform abi where
  write _ readable count :=
    if abi.signBit ≤ count then none
    else if readable = 0 ∧ count ≠ 0 then none
    else some (min (min count readable) maxTransfer)
  sendfile _ length count := min (min count length) maxTransfer
  write_le := by
    intro name readable count moved result
    split at result
    · cases result
    · split at result
      · cases result
      · cases result
        omega
  write_negative := by
    intro name readable count negative
    rw [if_pos negative]
  sendfile_le := by
    intro name length count
    omega

theorem Platform.greedy_complete (abi : Abi) : (Platform.greedy abi).Complete where
  write_all := by
    intro name readable count small mapped
    have limits := abi.signBit_cases
    unfold maxTransfer at small
    simp only [Platform.greedy]
    rw [if_neg (by omega), if_neg (by omega)]
    congr 1
    unfold maxTransfer
    omega
  sendfile_all := by
    intro name length count small stored
    simp only [Platform.greedy]
    omega

theorem Platform.greedy_shortWrites (abi : Abi) : (Platform.greedy abi).ShortWrites := by
  intro name readable count positive short small
  have limits := abi.signBit_cases
  unfold maxTransfer at small
  simp only [Platform.greedy]
  rw [if_neg (by omega), if_neg (by omega)]
  congr 1
  unfold maxTransfer
  omega

theorem Platform.greedy_steady (abi : Abi) : (Platform.greedy abi).Steady := by
  intro name readable count inside
  simp only [Platform.greedy]
  split
  · rfl
  · rw [if_neg (by omega), if_neg (by omega), Nat.min_eq_left inside, Nat.min_self]

end SuperBootimg.Concrete
