/-
Installations one after another on one partition. Wherever each of them ends, the partition
holds its first bytes or an image that was built from them.
-/

import SuperBootimg.Concrete.InstallerRuns

namespace SuperBootimg.Concrete.Scripts

open ByteImage ExitOnError
open ExitOnError.Command (steps)
open Extract (pageOf kernelSizeOf secondSizeOf dtSizeOf smallImage)
open Sepolicy (Text)

/-- What an installation depends on besides the machine. -/
structure Update where
  surroundings : Surroundings
  modes : List Text
  fstab : Text

section Sequences

variable {ρ : Type} {abi : Abi} (platform : Platform abi) (programs : Programs ρ)

def Update.install (update : Update) (machine : Machine ρ) : Machine ρ :=
  (run (Machine.act platform programs)
    (updateBinary update.surroundings update.modes update.fstab) true machine).state

def installed : List Update → Machine ρ → Machine ρ
  | [], machine => machine
  | update :: rest, machine => installed rest (update.install platform programs machine)

/-- The installation ends anywhere; but its compressors keep to the size that an image may have,
and dd, where it is reached, writes the whole image. -/
def Update.Fine (update : Update) (parts : Parts) (page : Nat) (machine : Machine ρ) : Prop :=
  Throughout (Machine.act platform programs) (Machine.Fine platform programs parts page) machine
    (run (Machine.act platform programs)
      (updateBinary update.surroundings update.modes update.fstab) true machine).log

def AllFine (parts : Parts) (page : Nat) : List Update → Machine ρ → Prop
  | [], _ => True
  | update :: rest, machine =>
      update.Fine platform programs parts page machine ∧
        AllFine parts page rest (update.install platform programs machine)

variable {platform programs} {original : List UInt8} {base : Nat} {parts : Parts}

theorem Update.Fine.limited {update : Update} {page : Nat} {machine : Machine ρ}
    (fine : update.Fine platform programs parts page machine) :
    run (Machine.act platform (programs.limited parts page))
        (updateBinary update.surroundings update.modes update.fstab) true machine =
      run (Machine.act platform programs)
        (updateBinary update.surroundings update.modes update.fstab) true machine :=
  run_congr (fun _ _ => act_limited) _ true machine fine

/-- A new image at the front of a partition, which is built from an original. -/
structure Rebuilt (original : List UInt8) (base : Nat) (parts : Parts) (payload : List UInt8)
    (name : FileName) (partition : List UInt8) : Prop where
  buildable : Buildable original base parts payload name
  front : ∃ rest, partition = (parts.withRamdisk payload name).built original base ++ rest
  length : partition.length = original.length

/-- An image that leads to the same new images as the original. -/
structure Continues (abi : Abi) (original : List UInt8) (base : Nat) (parts : Parts)
    (image : List UInt8) (start : Nat) (found : Parts) : Prop where
  carries : Carries abi image start found
  length : image.length = original.length
  page : pageOf image start = pageOf original base
  built : ∀ other : Parts, other.length (pageOf original base) < 2147483648 →
    other.built image start = other.built original base
  others : ∀ payload name, found.withRamdisk payload name = parts.withRamdisk payload name

/-- The original itself. -/
theorem Continues.start (carries : Carries abi original base parts) :
    Continues abi original base parts original base parts :=
  ⟨carries, rfl, rfl, fun _ _ => rfl, fun _ _ => rfl⟩

theorem Continues.of_built {payload : List UInt8} {name : FileName} {partition rest : List UInt8}
    (carries : Carries abi original base parts) (named : PayloadName payload name)
    (total : (parts.withRamdisk payload name).length (pageOf original base) < 2147483648)
    (front : partition = (parts.withRamdisk payload name).built original base ++ rest)
    (length : partition.length = original.length) :
    Continues abi original base parts partition 0 (parts.withRamdisk payload name) := by
  have valid := carries.located.pageSize
  have mappable : partition.length < abi.signBit := by
    rw [length]
    exact carries.located.representable
  refine ⟨?_, length, ?_, ?_, fun _ _ => rfl⟩
  · rw [front] at mappable ⊢
    exact @Carries.built abi original base parts carries (parts.withRamdisk payload name)
      named carries.recognised total rest mappable
  · rw [front]
    exact pageOf_built valid _
  · intro other total
    rw [front]
    exact Parts.built_again valid _ other total

theorem Rebuilt.continues {payload : List UInt8} {name : FileName} {partition : List UInt8}
    (rebuilt : Rebuilt original base parts payload name partition)
    (carries : Carries abi original base parts) :
    Continues abi original base parts partition 0 (parts.withRamdisk payload name) := by
  obtain ⟨rest, front⟩ := rebuilt.front
  exact .of_built carries rebuilt.buildable.named rebuilt.buildable.total front rebuilt.length

section Continued

variable {image : List UInt8} {start : Nat} {found : Parts}
  (continues : Continues abi original base parts image start found)

include continues

theorem Continues.buildable {payload : List UInt8} {name : FileName}
    (buildable : Buildable image start found payload name) :
    Buildable original base parts payload name where
  named := buildable.named
  total := by
    rw [← continues.page, ← continues.others]
    exact buildable.total

theorem Continues.limited (programs : Programs ρ) :
    programs.limited found (pageOf image start) =
      programs.limited parts (pageOf original base) := by
  unfold Programs.limited
  simp only [continues.page, continues.others]

/-- A new image that has been written as a whole. -/
theorem Continues.rebuilt {new after : List UInt8} {count : Nat} {payload trailer : List UInt8}
    {name : FileName} (buildable : Buildable original base parts payload name)
    (form : new = (found.withRamdisk payload name).built image start ++ trailer)
    (all : new.length ≤ min count image.length) (written : after = overwritten image new count) :
    Rebuilt original base parts payload name after := by
  rw [overwritten_all all] at written
  rw [continues.others, continues.built _ buildable.total] at form
  refine ⟨buildable, ⟨trailer ++ image.drop new.length, ?_⟩, ?_⟩
  · rw [written, ← List.append_assoc, ← form]
  · rw [written, List.length_append, List.length_drop, ← continues.length]
    omega

theorem Continues.install (complete : platform.Complete) (short : platform.ShortWrites)
    (suits : programs.Suit) {update : Update} {machine : Machine ρ}
    (fine : update.Fine platform programs parts (pageOf original base) machine)
    (partition : machine.partition = image) :
    (update.install platform programs machine).partition = image ∨
      ∃ payload name, Rebuilt original base parts payload name
        (update.install platform programs machine).partition := by
  have limited := fine.limited
  rw [← continues.limited] at limited
  have made := fun options => bootimg_leaves complete short continues.carries
    (phases_of_compresses suits.buildable update.surroundings options)
    (fun _ _ buildable => buildable.total) suits.limited.unpatched
  have ended := @updateBinary_partition ρ abi platform (programs.limited found (pageOf image start))
    image start found _ update.surroundings update.modes update.fstab (fun _ _ => made _) machine
    ⟨partition⟩
  rw [limited] at ended
  rcases ended with same | ⟨new, other, ⟨payload, name, trailer, built, _, form⟩, written, device,
    logged⟩
  · exact .inl same
  · obtain ⟨state, flashed, success⟩ := Throughout.of_mem (leads_run _ _ _) fine logged
    have all := of_decide_eq_true (success.trans flashed)
    exact .inr ⟨payload, name, continues.rebuilt (continues.buildable built) form all written⟩

/-- A new image with room for a trailer is written as a whole. -/
theorem Continues.flash_fine {machine : Machine ρ}
    (copied : Copied image start found (fun payload name =>
      (found.withRamdisk payload name).length (pageOf image start) + samsungTrailer.length ≤
        image.length) [[], samsungTrailer] machine)
    (uncut : image.length ≤ programs.written machine.other) (devices : List Text) :
    machine.Fine platform programs parts (pageOf original base) (.flash devices) := by
  obtain ⟨payload, name, trailer, room, member, newBoot⟩ := copied.newBoot
  have last : trailer.length ≤ samsungTrailer.length := by
    simp only [List.mem_cons, List.not_mem_nil, or_false] at member
    rcases member with rfl | rfl
    · exact Nat.zero_le _
    · exact Nat.le_refl _
  have length := @Parts.length_built image start continues.carries.located.pageSize
    (found.withRamdisk payload name)
  match devices with
  | [] => trivial
  | [device] =>
      apply (flash_success newBoot device).trans
      apply decide_eq_true
      rw [copied.partition, List.length_append, length]
      omega
  | _ :: _ :: _ => trivial

/-- Programs that never make an image too large for the partition do well in any installation. -/
theorem Continues.fine (complete : platform.Complete) (short : platform.ShortWrites)
    (suits : programs.Suit) (size : original.length < 2147483648)
    (room : ∀ compression other, (programs.compress compression other).1 = true →
      (parts.withRamdisk (programs.compress compression other).2
        compression.fileName).length (pageOf original base) + samsungTrailer.length ≤
          original.length)
    (uninterrupted : ∀ other, original.length ≤ programs.written other) (update : Update)
    {machine : Machine ρ} (partition : machine.partition = image) :
    update.Fine platform programs parts (pageOf original base) machine := by
  have before : ∀ {command : Command Action}, command.forAll Action.leavesPartition = true →
      Throughout (Machine.act platform programs)
        (Machine.Fine platform programs parts (pageOf original base)) machine
        (run (Machine.act platform programs) command true machine).log := by
    intro command leaves
    apply Throughout.of_always
    intro entry member
    apply Machine.fine_of_leaves
    · intro compression other success
      have inside := room compression other success
      omega
    · exact accepts_of_possible leaves (mem_possible member)
  have compresses : ∀ compression other, (programs.compress compression other).1 = true →
      (found.withRamdisk (programs.compress compression other).2
          compression.fileName).length (pageOf image start) + samsungTrailer.length ≤
        image.length := by
    intro compression other success
    rw [continues.page, continues.others, continues.length]
    exact room compression other success
  have made := fun options => bootimg_leaves complete short continues.carries
    (@phases_of_compresses _ _ platform programs _ _ (fun payload name =>
      (found.withRamdisk payload name).length (pageOf image start) + samsungTrailer.length ≤
        image.length) compresses update.surroundings options)
    (fun payload name inside => by
      rw [continues.length] at inside
      omega) suits.unpatched
  unfold Update.Fine
  cases listed : Installer.bootimg update.fstab with
  | none =>
      rw [updateBinary_missing listed]
      exact before missing_leavesPartition
  | some devices =>
      have early : preparing ++ generating update.surroundings update.modes devices ≠ [] :=
        List.append_ne_nil_of_left_ne_nil (List.cons_ne_nil _ _) _
      have late : flashing devices ≠ [] := List.cons_ne_nil _ _
      rw [updateBinary_found listed, run_steps_append early late]
      apply (Throughout.next_iff (leads_run _ _ _)).mpr
      refine ⟨before (generating_leavesPartition _ _ devices), fun success ended => ?_⟩
      have copied := generating_leaves (made _) machine ⟨partition⟩ (by rw [ended]; exact nofun)
      apply (Throughout.next_iff (leads_run _ _ _)).mpr
      refine ⟨⟨continues.flash_fine copied ?_ _, trivial⟩, fun _ _ => ⟨trivial, trivial⟩⟩
      rw [continues.length]
      exact uninterrupted _

end Continued

/-- What one more installation makes of the first bytes or of an image built from them. -/
theorem install_reached (complete : platform.Complete) (short : platform.ShortWrites)
    (suits : programs.Suit) (carries : Carries abi original base parts) {update : Update}
    {machine : Machine ρ}
    (fine : update.Fine platform programs parts (pageOf original base) machine)
    (reached : machine.partition = original ∨
      ∃ payload name, Rebuilt original base parts payload name machine.partition) :
    (update.install platform programs machine).partition = original ∨
      ∃ payload name, Rebuilt original base parts payload name
        (update.install platform programs machine).partition := by
  rcases reached with same | ⟨payload, name, rebuilt⟩
  · exact (Continues.start carries).install complete short suits fine same
  · rcases (rebuilt.continues carries).install complete short suits fine rfl with same | again
    · rw [same]
      exact .inr ⟨payload, name, rebuilt⟩
    · exact .inr again

/-- After any number of installations, each of which may have ended anywhere but in the writing
itself, the partition has its first bytes or an image that one installation would have built
from these; the kernel, the second stage, the device tree and the wrapper of the ramdisk are
those of the first image. -/
theorem installations_keep (complete : platform.Complete) (short : platform.ShortWrites)
    (suits : programs.Suit) (machine : Machine ρ)
    (carries : Carries abi machine.partition base parts) (updates : List Update)
    (fine : AllFine platform programs parts (pageOf machine.partition base) updates machine) :
    (installed platform programs updates machine).partition = machine.partition ∨
      ∃ payload name, Rebuilt machine.partition base parts payload name
          (installed platform programs updates machine).partition ∧
        ∃ secure chromeos,
          extract platform (installed platform programs updates machine).partition .empty =
            { stop := none, dir := (parts.withRamdisk payload name).files secure chromeos } := by
  have runs : ∀ (updates : List Update) (after : Machine ρ),
      AllFine platform programs parts (pageOf machine.partition base) updates after →
      (after.partition = machine.partition ∨
        ∃ payload name, Rebuilt machine.partition base parts payload name after.partition) →
      (installed platform programs updates after).partition = machine.partition ∨
        ∃ payload name, Rebuilt machine.partition base parts payload name
          (installed platform programs updates after).partition := by
    intro updates
    induction updates with
    | nil => exact fun _ _ reached => reached
    | cons update rest ih =>
        intro after fine reached
        exact ih _ fine.2 (install_reached complete short suits carries fine.1 reached)
  rcases runs updates machine fine (.inl rfl) with same | ⟨payload, name, rebuilt⟩
  · exact .inl same
  · exact .inr ⟨payload, name, rebuilt,
      (rebuilt.continues carries).carries.extracted complete⟩

theorem allFine_of_room (complete : platform.Complete) (short : platform.ShortWrites)
    (suits : programs.Suit) (carries : Carries abi original base parts)
    (size : original.length < 2147483648)
    (room : ∀ compression other, (programs.compress compression other).1 = true →
      (parts.withRamdisk (programs.compress compression other).2
        compression.fileName).length (pageOf original base) + samsungTrailer.length ≤
          original.length)
    (uninterrupted : ∀ other, original.length ≤ programs.written other) (updates : List Update)
    {machine : Machine ρ}
    (reached : machine.partition = original ∨
      ∃ payload name, Rebuilt original base parts payload name machine.partition) :
    AllFine platform programs parts (pageOf original base) updates machine := by
  induction updates generalizing machine with
  | nil => trivial
  | cons update rest ih =>
      have fine : update.Fine platform programs parts (pageOf original base) machine := by
        rcases reached with same | ⟨_, _, rebuilt⟩
        · exact (Continues.start carries).fine complete short suits size room uninterrupted update
            same
        · exact (rebuilt.continues carries).fine complete short suits size room uninterrupted
            update rfl
      exact ⟨fine, ih (install_reached complete short suits carries fine reached)⟩

end Sequences

def Compression.magic : Compression → List UInt8
  | .gz => Extract.gzipMagic
  | .lzma => Extract.lzmaMagic

theorem Compression.length_magic_le (compression : Compression) : compression.magic.length ≤ 4 := by
  cases compression <;> decide

/-- The compressors store the ramdisk behind their magic number, until the file system is full;
new files come as one byte. -/
def storingPrograms : Programs (List UInt8) where
  act action ramdisk :=
    match action with
    | .hasCustomPatch => (false, ramdisk)
    | .concatenate => (true, ramdisk ++ [0])
    | _ => (true, ramdisk)
  readRamdisk action bytes ramdisk :=
    match action with
    | .decompress compression => (true, bytes.drop compression.magic.length)
    | _ => (true, ramdisk)
  compress compression ramdisk :=
    (decide (ramdisk.length ≤ 2000), compression.magic ++ ramdisk)
  customPatch bytes _ := (true, bytes)
  written _ := 16384

def smallParts : Parts :=
  { kernel := kernelOf smallImage
    payload := Extract.gzipMagic
    name := .ramdiskGz
    wrapper := .none
    second := secondOf smallImage
    dt := dtOf smallImage }

def plainPartition : List UInt8 :=
  smallParts.built smallImage 0 ++ List.replicate 2048 0

theorem smallImage_carries : Carries .lp64 smallImage 0 smallParts where
  located := smallImage_canonical.located .lp64
  holds := smallImage_canonical.holds
  named := .gzip (List.prefix_refl _)
  recognised := smallImage_canonical.recognised
  unsigned := smallImage_canonical.unsigned

theorem smallParts_total (payload : List UInt8) (name : FileName) :
    (smallParts.withRamdisk payload name).length (pageOf smallImage 0) =
      Repack.builtLength 2048 1 payload.length 2 5 := by
  have sizes : pageOf smallImage 0 = 2048 ∧ kernelSizeOf smallImage 0 = 1 ∧
      secondSizeOf smallImage 0 = 2 ∧ dtSizeOf smallImage 0 = 5 := by
    decide +kernel
  obtain ⟨page, kernel, second, dt⟩ := sizes
  change Repack.builtLength (pageOf smallImage 0) (kernelOf smallImage).length payload.length
    (secondOf smallImage).length (dtOf smallImage).length = _
  unfold kernelOf secondOf dtOf
  rw [length_window, length_window, length_window, page, kernel, second, dt]

theorem smallParts_bound {payload : List UInt8} (name : FileName) {pages : Nat}
    (short : payload.length ≤ 2048 * pages) :
    (smallParts.withRamdisk payload name).length (pageOf smallImage 0) ≤ 8192 + 2048 * pages := by
  have rounded := @PagedLayout.roundUp_mono 2048 _ _ short
  have whole : PagedLayout.roundUp 2048 (2048 * pages) = 2048 * pages := by
    unfold PagedLayout.roundUp PagedLayout.pages
    omega
  have others : PagedLayout.roundUp 2048 1 = 2048 ∧ PagedLayout.roundUp 2048 2 = 2048 ∧
      PagedLayout.roundUp 2048 5 = 2048 := ⟨rfl, rfl, rfl⟩
  rw [smallParts_total]
  simp only [Repack.builtLength, PagedLayout.span]
  omega

theorem smallParts_length : smallParts.length (pageOf smallImage 0) = 10240 :=
  (smallParts_total Extract.gzipMagic .ramdiskGz).trans (by decide)

theorem length_plainPartition : plainPartition.length = 12288 := by
  have valid := smallImage_carries.located.pageSize
  unfold plainPartition
  rw [List.length_append, Parts.length_built valid, smallParts_length, List.length_replicate]

theorem plainPartition_carries : Carries .lp64 plainPartition 0 smallParts :=
  smallImage_carries.built smallImage_carries.named smallImage_carries.recognised
    (by rw [smallParts_length]; decide) _
    (by
      change plainPartition.length < _
      rw [length_plainPartition]
      decide)

theorem storingPrograms_suit : storingPrograms.Suit where
  named := by
    intro compression ramdisk _
    cases compression with
    | gz => exact .gzip (List.prefix_append _ _)
    | lzma => exact .lzma (List.prefix_append _ _)
  unpatched _ := rfl

theorem storingPrograms_room (compression : Compression) (ramdisk : List UInt8)
    (success : (storingPrograms.compress compression ramdisk).1 = true) :
    (smallParts.withRamdisk (storingPrograms.compress compression ramdisk).2
      compression.fileName).length (pageOf plainPartition 0) + samsungTrailer.length ≤
        plainPartition.length := by
  have short : ramdisk.length ≤ 2000 := of_decide_eq_true success
  have page : pageOf plainPartition 0 = pageOf smallImage 0 :=
    pageOf_built smallImage_carries.located.pageSize smallParts
  have magic := compression.length_magic_le
  have payload : (storingPrograms.compress compression ramdisk).2.length ≤ 2048 * 1 := by
    change (compression.magic ++ ramdisk).length ≤ 2048 * 1
    rw [List.length_append]
    omega
  have total := smallParts_bound compression.fileName payload
  have trailer : samsungTrailer.length = 17 := rfl
  rw [page, trailer, length_plainPartition]
  omega

def plainUpdate : Update :=
  { surroundings := plainSurroundings, modes := [], fstab := bootFstab }

def plainMachine : Machine (List UInt8) :=
  { partition := plainPartition, extracted := .empty, newBoot := none, other := [] }

theorem plainMachine_fine (updates : List Update) :
    AllFine (Platform.greedy .lp64) storingPrograms smallParts (pageOf plainPartition 0) updates
      plainMachine :=
  allFine_of_room (Platform.greedy_complete .lp64) (Platform.greedy_shortWrites .lp64)
    storingPrograms_suit plainPartition_carries
    (by rw [length_plainPartition]; decide)
    storingPrograms_room
    (fun _ => by
      change plainPartition.length ≤ 16384
      rw [length_plainPartition]
      decide) updates (.inl rfl)

theorem installations_keep_twice :
    ∃ payload name secure chromeos,
      extract (Platform.greedy .lp64) (installed (Platform.greedy .lp64) storingPrograms
          [plainUpdate, plainUpdate] plainMachine).partition .empty =
        { stop := none, dir := (smallParts.withRamdisk payload name).files secure chromeos } := by
  have complete := Platform.greedy_complete .lp64
  rcases installations_keep complete (Platform.greedy_shortWrites .lp64) storingPrograms_suit
      plainMachine plainPartition_carries [plainUpdate, plainUpdate] (plainMachine_fine _) with
    same | ⟨payload, name, _, secure, chromeos, result⟩
  · rw [same]
    obtain ⟨secure, chromeos, result⟩ := plainPartition_carries.extracted complete
    exact ⟨_, _, secure, chromeos, result⟩
  · exact ⟨payload, name, secure, chromeos, result⟩

end SuperBootimg.Concrete.Scripts
