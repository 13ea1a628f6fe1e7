/-
When each function of extract.c returns, and what it has done then. A write
that fails is indistinguishable from one of SIZE_MAX bytes, which is the only
way past the assertion of `dump` other than a complete transfer.
-/

import SuperBootimg.Concrete.ExtractProgram

namespace SuperBootimg.Concrete.Extract

open ByteImage StoppableRun

variable {abi : Abi} {platform : Platform abi} {image : List UInt8}

/-! ### Comparisons and dumps -/

theorem memcmp_finishes (start : Nat) (pattern : List UInt8) (found : Bool) (host after : Host) :
    Finishes (memcmp image start pattern) host found after ↔
      start + pattern.length ≤ mappedLength image ∧ found = matchesAt image start pattern ∧
        after = host := by
  unfold memcmp
  rw [ite_finishes, pure_finishes]
  constructor
  · intro given
    rcases given with ⟨readable, sameFound, sameHost⟩ | ⟨_, impossible⟩
    · exact ⟨readable, sameFound, sameHost⟩
    · exact absurd impossible (throw_not_finishes _ _ _ _)
  · intro given
    obtain ⟨readable, sameFound, sameHost⟩ := given
    exact .inl ⟨readable, sameFound, sameHost⟩

theorem memcmp_bind_finishes {α : Type} (start : Nat) (pattern : List UInt8)
    (next : Bool → Process α) (result : α) (host after : Host) :
    Finishes (memcmp image start pattern >>= next) host result after ↔
      start + pattern.length ≤ mappedLength image ∧
        Finishes (next (matchesAt image start pattern)) host result after :=
  bind_finishes_of (fun found reached => memcmp_finishes start pattern found host reached) next
    result after

variable (image) in
theorem memcmpAny_finishes (start length : Nat) (patterns : List (List UInt8))
    (nonempty : patterns ≠ []) (lengths : ∀ pattern, pattern ∈ patterns → pattern.length = length)
    (found : Bool) (host after : Host) :
    Finishes (memcmpAny image start patterns) host found after ↔
      start + length ≤ mappedLength image ∧ found = patterns.any (matchesAt image start) ∧
        after = host := by
  induction patterns with
  | nil => exact absurd rfl nonempty
  | cons pattern rest ih =>
      have sameLength := lengths pattern List.mem_cons_self
      have restLengths : ∀ other, other ∈ rest → other.length = length :=
        fun other member => lengths other (List.mem_cons_of_mem pattern member)
      unfold memcmpAny
      rw [memcmp_bind_finishes, sameLength, List.any_cons]
      apply and_congr_right
      intro readable
      cases here : matchesAt image start pattern with
      | true =>
          rw [if_pos rfl, pure_finishes, Bool.true_or]
      | false =>
          rw [if_neg Bool.false_ne_true, Bool.false_or]
          cases rest with
          | nil =>
              unfold memcmpAny
              rw [pure_finishes, List.any_nil]
          | cons next others =>
              rw [ih (List.cons_ne_nil _ _) restLengths]
              exact and_iff_right readable

def Passes (platform : Platform abi) (image : List UInt8) (name : FileName)
    (start size : Nat) : Prop :=
  returned abi (platform.write name (mappedLength image - start) size) = size

def dumpedBytes (platform : Platform abi) (image : List UInt8) (name : FileName)
    (start size : Nat) : List UInt8 :=
  window image start ((platform.write name (mappedLength image - start) size).getD 0)

theorem length_dumpedBytes_le (name : FileName) (start size : Nat) :
    (dumpedBytes platform image name start size).length ≤ maxTransfer := by
  unfold dumpedBytes
  rw [length_window]
  cases moved : platform.write name (mappedLength image - start) size with
  | none => exact Nat.zero_le _
  | some count => exact (platform.write_le _ _ _ _ moved).2.2

def Host.dumped (platform : Platform abi) (image : List UInt8) (host : Host) (name : FileName)
    (start size : Nat) : Host :=
  (host.record (.dump name start size)).store name (dumpedBytes platform image name start size)

theorem dump_finishes (name : FileName) (start size : Nat) (result : Unit) (host after : Host) :
    Finishes (dump platform image start size name) host result after ↔
      Passes platform image name start size ∧
        after = host.dumped platform image name start size := by
  unfold dump Passes Host.dumped dumpedBytes
  rw [modify_bind_finishes, modify_bind_finishes]
  by_cases complete : returned abi (platform.write name (mappedLength image - start) size) = size
  · rw [if_pos complete, pure_finishes]
    exact and_congr_left fun _ => iff_of_true rfl complete
  · rw [if_neg complete]
    exact iff_of_false (throw_not_finishes _ _ _ _) fun given => complete given.1

theorem dump_bind_finishes {α : Type} (name : FileName) (start size : Nat)
    (next : Unit → Process α) (result : α) (host after : Host) :
    Finishes (dump platform image start size name >>= next) host result after ↔
      Passes platform image name start size ∧
        Finishes (next ()) (host.dumped platform image name start size) result after := by
  apply bind_finishes_of
  intro found reached
  rw [dump_finishes]
  exact and_congr_right fun _ => (and_iff_right rfl).symm

theorem returned_some (moved : Nat) (small : moved ≤ maxTransfer) :
    returned abi (some moved) = moved := by
  have limits := abi.modulus_signBit
  unfold maxTransfer at small
  simp only [returned]
  rw [intOf_eq_self _ (by omega) (by omega)]
  unfold Abi.sizeOf
  rcases abi.bits_cases with same | same <;> (rw [same]; omega)

theorem returned_none : returned abi none = 2 ^ abi.bits - 1 := by
  cases abi <;> rfl

/-- A dump passes by transferring all of its range, or by failing at SIZE_MAX. -/
theorem Passes.cases {name : FileName} {start size : Nat}
    (passes : Passes platform image name start size) :
    (platform.write name (mappedLength image - start) size = some size ∧
        size ≤ mappedLength image - start ∧ size ≤ maxTransfer) ∨
      (platform.write name (mappedLength image - start) size = none ∧
        size = 2 ^ abi.bits - 1) := by
  unfold Passes at passes
  cases outcome : platform.write name (mappedLength image - start) size with
  | none =>
      rw [outcome, returned_none] at passes
      exact .inr ⟨rfl, passes.symm⟩
  | some moved =>
      have bounds := platform.write_le name _ _ moved outcome
      rw [outcome, returned_some moved bounds.2.2] at passes
      rw [passes] at bounds
      exact .inl ⟨by rw [passes], bounds.2.1, bounds.2.2⟩

theorem passes_of_write {name : FileName} {start size : Nat}
    (transferred : platform.write name (mappedLength image - start) size = some size) :
    Passes platform image name start size := by
  have bounds := platform.write_le name _ _ size transferred
  unfold Passes
  rw [transferred, returned_some size bounds.2.2]

theorem passes_of_complete (complete : platform.Complete) (name : FileName) (start size : Nat)
    (small : size ≤ maxTransfer) (inside : start + size ≤ mappedLength image) :
    Passes platform image name start size :=
  passes_of_write (complete.write_all name _ size small (by omega))

theorem passes_flag (complete : platform.Complete) (name : FileName) (start : Nat) :
    Passes platform image name start 0 :=
  passes_of_write (complete.write_all name _ 0 (Nat.zero_le _) (Nat.zero_le _))

/-- A range that passed is empty, or mapped, or has the size a failed write is taken for. -/
def Fits (abi : Abi) (image : List UInt8) (start size : Nat) : Prop :=
  size = 0 ∨ start + size ≤ mappedLength image ∨ size = 2 ^ abi.bits - 1

theorem Passes.fits {name : FileName} {start size : Nat}
    (passes : Passes platform image name start size) : Fits abi image start size := by
  unfold Fits
  rcases passes.cases with ⟨_, inside, _⟩ | ⟨_, huge⟩
  · omega
  · exact .inr (.inr huge)

theorem Fits.sum_le {start size page : Nat} (fits : Fits abi image start size)
    (small : size < 4294967296) (valid : PageSize page) :
    start + (size + page - 1) % 2 ^ 32 ≤ max (mappedLength image) start + page := by
  have bounds := valid.bounds
  have limits := abi.modulus_signBit
  unfold Fits at fits
  omega

/-! ### The host after dumps -/

theorem Host.dumped_calls (host : Host) (name : FileName) (start size : Nat) :
    (host.dumped platform image name start size).calls = host.calls ++ [.dump name start size] :=
  rfl

theorem Host.dumped_dir_same (host : Host) (name : FileName) (start size : Nat) :
    (host.dumped platform image name start size).dir name =
      some { bytes := dumpedBytes platform image name start size, readable := true } :=
  Directory.store_same _ _ _

theorem Host.dumped_dir_other (host : Host) (name other : FileName) (start size : Nat)
    (different : other ≠ name) :
    (host.dumped platform image name start size).dir other = host.dir other :=
  Directory.store_other _ _ _ _ different

/-! ### Peeling MTK headers -/

def mtkFlag (image : List UInt8) (start : Nat) : Option FileName :=
  if matchesAt image (start + 8) recoveryName then some .ramdiskMtkRecovery
  else if matchesAt image (start + 8) rootfsName then some .ramdiskMtkBoot
  else none

def Host.peeled (platform : Platform abi) (image : List UInt8) (host : Host) (flag : FileName)
    (start size : Nat) : Host :=
  ((host.record (.dumpRamdisk start size)).dumped platform image flag start 0).dumped
    platform image .ramdiskMtk start 0

def ramdiskKind (image : List UInt8) (start : Nat) : Option FileName :=
  if matchesAt image start gzipMagic then some .ramdiskGz
  else if matchesAt image start lzmaMagic then some .ramdiskLzma
  else none

/-- The returning runs of `dump_ramdisk`: some MTK headers, then a known ramdisk. -/
inductive Peels (platform : Platform abi) (image : List UInt8) : Nat → Nat → Host → Host → Prop
  | found {start size : Nat} {host : Host} (name : FileName)
      (readable : start + 4 ≤ mappedLength image)
      (kind : ramdiskKind image start = some name)
      (passes : Passes platform image name start size) :
      Peels platform image start size host
        ((host.record (.dumpRamdisk start size)).dumped platform image name start size)
  | peel {start size : Nat} {host after : Host} (flag : FileName)
      (readable : start + 16 ≤ mappedLength image)
      (unknown : ramdiskKind image start = none)
      (mtk : matchesAt image start mtkMagic = true)
      (named : mtkFlag image start = some flag)
      (flagPasses : Passes platform image flag start 0)
      (mtkPasses : Passes platform image .ramdiskMtk start 0)
      (rest : Peels platform image (start + 512) (abi.sizeOf (size - 512))
        (host.peeled platform image flag start size) after) :
      Peels platform image start size host after

/-- Peeling never wraps the remaining size: what is left after the headers either
is a part of the section or is the one size a failed write is taken for. -/
theorem Peels.fits {start size : Nat} {host after : Host}
    (peels : Peels platform image start size host after) (small : size < 2 ^ abi.bits)
    (mapped : mappedLength image < 2 ^ abi.bits) :
    start + 4 ≤ mappedLength image ∧
      (start + size ≤ mappedLength image ∨ size = 2 ^ abi.bits - 1) := by
  have limits := abi.modulus_signBit
  induction peels with
  | found name readable kind passes =>
      have fits := passes.fits
      unfold Fits at fits
      omega
  | @peel start size host after flag readable unknown mtk named flagPasses mtkPasses rest ih =>
      have wrapped : abi.sizeOf ((size : Int) - 512) < 2 ^ abi.bits ∧
          (512 ≤ size → abi.sizeOf ((size : Int) - 512) = size - 512) ∧
          (size < 512 → abi.sizeOf ((size : Int) - 512) = 2 ^ abi.bits + size - 512) := by
        unfold Abi.sizeOf
        rcases abi.bits_cases with same | same <;> (rw [same] at small ⊢; omega)
      obtain ⟨below, enough, short⟩ := wrapped
      obtain ⟨mappedStart, inner⟩ := ih below
      by_cases large : 512 ≤ size
      · have remaining := enough large
        omega
      · have remaining := short (by omega)
        omega

private theorem dumpMtkName_finishes (start : Nat) (result : Unit) (host after : Host)
    (near : start + 8 < 2 ^ abi.bits) :
    Finishes (dumpMtkName platform image start) host result after ↔
      start + 16 ≤ mappedLength image ∧ ∃ flag, mtkFlag image start = some flag ∧
        Passes platform image flag start 0 ∧ after = host.dumped platform image flag start 0 := by
  have address : abi.pointer start 8 = start + 8 := Nat.mod_eq_of_lt near
  have recoveryLength : start + 8 + recoveryName.length = start + 16 := rfl
  have rootfsLength : start + 8 + rootfsName.length = start + 16 := rfl
  unfold dumpMtkName mtkFlag
  rw [address, memcmp_bind_finishes, recoveryLength]
  apply and_congr_right
  intro readable
  cases recovery : matchesAt image (start + 8) recoveryName with
  | true =>
      rw [if_pos rfl, if_pos rfl, dump_finishes]
      simp only [Option.some.injEq, exists_eq_left']
  | false =>
      rw [if_neg Bool.false_ne_true, if_neg Bool.false_ne_true, memcmp_bind_finishes,
        rootfsLength, and_iff_right readable]
      cases rootfs : matchesAt image (start + 8) rootfsName with
      | true =>
          rw [if_pos rfl, if_pos rfl, dump_finishes]
          simp only [Option.some.injEq, exists_eq_left']
      | false =>
          rw [if_neg Bool.false_ne_true, if_neg Bool.false_ne_true]
          refine iff_of_false (throw_not_finishes _ _ _ _) ?_
          intro given
          obtain ⟨flag, named, _⟩ := given
          cases named

/-- A ramdisk of a known kind is dumped. -/
private theorem dumpRamdisk_known (fuel start size : Nat) (host after : Host) {name : FileName}
    (kind : ramdiskKind image start = some name) :
    Finishes (dumpRamdisk platform image (fuel + 1) start size) host () after ↔
      start + 4 ≤ mappedLength image ∧ Passes platform image name start size ∧
        after = (host.record (.dumpRamdisk start size)).dumped platform image name start size := by
  have gzipLength : gzipMagic.length = 4 := rfl
  unfold ramdiskKind at kind
  rw [dumpRamdisk, modify_bind_finishes, memcmp_bind_finishes, gzipLength]
  apply and_congr_right
  intro readable
  cases gzip : matchesAt image start gzipMagic with
  | true =>
      rw [gzip, if_pos rfl] at kind
      cases kind
      rw [if_pos rfl, dump_finishes]
  | false =>
      rw [gzip, if_neg Bool.false_ne_true] at kind
      rw [if_neg Bool.false_ne_true, memcmp_bind_finishes]
      cases lzma : matchesAt image start lzmaMagic with
      | true =>
          rw [lzma, if_pos rfl] at kind
          cases kind
          rw [if_pos rfl, dump_finishes]
          apply and_iff_right
          exact Nat.le_of_succ_le readable
      | false =>
          rw [lzma, if_neg Bool.false_ne_true] at kind
          cases kind

/-- An MTK header is dumped as two flags and the walk goes on behind it. -/
private theorem dumpRamdisk_unknown (fuel start size : Nat) (host after : Host)
    (mapped : mappedLength image + 512 < 2 ^ abi.bits) (kind : ramdiskKind image start = none) :
    Finishes (dumpRamdisk platform image (fuel + 1) start size) host () after ↔
      ∃ flag, start + 16 ≤ mappedLength image ∧ matchesAt image start mtkMagic = true ∧
        mtkFlag image start = some flag ∧ Passes platform image flag start 0 ∧
        Passes platform image .ramdiskMtk start 0 ∧
        Finishes (dumpRamdisk platform image fuel (start + 512) (abi.sizeOf (size - 512)))
          (host.peeled platform image flag start size) () after := by
  have gzipLength : gzipMagic.length = 4 := rfl
  have lzmaLength : lzmaMagic.length = 3 := rfl
  have mtkLength : mtkMagic.length = 4 := rfl
  have missed : matchesAt image start gzipMagic = false ∧
      matchesAt image start lzmaMagic = false := by
    unfold ramdiskKind at kind
    constructor
    · apply Bool.eq_false_iff.mpr
      intro gzip
      rw [if_pos gzip] at kind
      cases kind
    · apply Bool.eq_false_iff.mpr
      intro lzma
      rw [if_pos lzma] at kind
      split at kind <;> cases kind
  rw [dumpRamdisk, modify_bind_finishes, memcmp_bind_finishes, missed.1,
    if_neg Bool.false_ne_true, memcmp_bind_finishes, missed.2, if_neg Bool.false_ne_true,
    memcmp_bind_finishes, gzipLength, lzmaLength, mtkLength]
  cases mtk : matchesAt image start mtkMagic with
  | false =>
      rw [if_neg Bool.false_ne_true, dump_bind_finishes]
      constructor
      · intro given
        obtain ⟨_, _, _, _, impossible⟩ := given
        exact absurd impossible (throw_not_finishes _ _ _ _)
      · intro given
        obtain ⟨_, _, hit, _⟩ := given
        cases hit
  | true =>
      rw [if_pos rfl, bind_finishes]
      simp only [dump_bind_finishes]
      constructor
      · intro given
        obtain ⟨readable, _, _, _, _, nameRun, mtkPasses, rest⟩ := given
        obtain ⟨wide, flag, named, flagPasses, rfl⟩ :=
          (dumpMtkName_finishes start _ _ _ (by omega)).mp nameRun
        have address : abi.pointer start 512 = start + 512 := Nat.mod_eq_of_lt (by omega)
        rw [address] at rest
        exact ⟨flag, wide, trivial, named, flagPasses, mtkPasses, rest⟩
      · intro given
        obtain ⟨flag, wide, _, named, flagPasses, mtkPasses, rest⟩ := given
        have address : abi.pointer start 512 = start + 512 := Nat.mod_eq_of_lt (by omega)
        rw [← address] at rest
        have nameRun := (dumpMtkName_finishes start () (host.record (.dumpRamdisk start size)) _
          (by omega)).mpr ⟨wide, flag, named, flagPasses, rfl⟩
        exact ⟨by omega, by omega, by omega, (), _, nameRun, mtkPasses, rest⟩

/-- With enough fuel the program returns exactly on the derivations of `Peels`. -/
theorem dumpRamdisk_finishes (fuel start size : Nat) (host after : Host)
    (mapped : mappedLength image + 512 < 2 ^ abi.bits)
    (enough : mappedLength image < start + 512 * fuel) :
    Finishes (dumpRamdisk platform image fuel start size) host () after ↔
      Peels platform image start size host after := by
  induction fuel generalizing start size host with
  | zero =>
      constructor
      · intro impossible
        exact absurd impossible (throw_not_finishes _ _ _ _)
      · intro peels
        cases peels with
        | found name readable => omega
        | peel flag readable => omega
  | succ fuel ih =>
      rw [Nat.mul_succ] at enough
      cases known : ramdiskKind image start with
      | some name =>
          rw [dumpRamdisk_known fuel start size host after known]
          constructor
          · intro given
            obtain ⟨readable, passes, rfl⟩ := given
            exact .found name readable known passes
          · intro peels
            cases peels with
            | found other readable kind passes =>
                rw [known] at kind
                cases kind
                exact ⟨readable, passes, rfl⟩
            | peel flag readable unknown =>
                rw [known] at unknown
                cases unknown
      | none =>
          rw [dumpRamdisk_unknown fuel start size host after mapped known]
          constructor
          · intro given
            obtain ⟨flag, readable, mtk, named, flagPasses, mtkPasses, rest⟩ := given
            exact .peel flag readable known mtk named flagPasses mtkPasses
              ((ih (start + 512) _ _ (by omega)).mp rest)
          · intro peels
            cases peels with
            | found other readable kind passes =>
                rw [known] at kind
                cases kind
            | peel flag readable unknown mtk named flagPasses mtkPasses rest =>
                exact ⟨flag, readable, mtk, named, flagPasses, mtkPasses,
                  (ih (start + 512) _ _ (by omega)).mpr rest⟩

end SuperBootimg.Concrete.Extract
