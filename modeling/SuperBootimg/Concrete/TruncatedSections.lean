/-
Whether the kernel and the ramdisk are taken from inside the file. They have no bound
check of their own: a range is given up when `write` faults behind the mapping, not
when it leaves the file, so a truncated section may end in the zero fill of the last
memory page.
-/

import SuperBootimg.Concrete.SectionBounds

namespace SuperBootimg.Concrete.Extract

open ByteImage

variable {abi : Abi} {platform : Platform abi} {image : List UInt8} {base : Nat}

/-- Kernel and ramdisk lie in the file as declared, and only its bytes are stored. -/
structure WholeSections (platform : Platform abi) (image : List UInt8) (dir : Directory) :
    Prop where
  kernel : TakenFromFile platform image dir .kernel
  ramdisk : ∀ start size,
    (extractCalls platform image dir).findSome? Call.ramdiskRange = some (start, size) →
      start + size ≤ image.length
  payload : ∃ name bytes, (name = .ramdiskGz ∨ name = .ramdiskLzma) ∧
    (extract platform image dir).dir name = some { bytes := bytes, readable := true } ∧
    bytes <:+: image ∧
    ∀ other, (other = .ramdiskGz ∨ other = .ramdiskLzma) → other ≠ name →
      (extract platform image dir).dir other = dir other

/-- A section that ends in the zero fill, or has the size a failed write is taken for. -/
def CutOff (abi : Abi) (image : List UInt8) (start size : Nat) : Prop :=
  size = 2 ^ abi.bits - 1 ∨
    (image.length < start + size ∧ start + size ≤ mappedLength image)

instance (abi : Abi) (image : List UInt8) (start size : Nat) :
    Decidable (CutOff abi image start size) :=
  inferInstanceAs (Decidable (_ ∨ _))

/-- What was accepted reaches no further than the mapping, so the zero fill decides. -/
theorem inside_iff_not_cutOff {start size : Nat} (short : image.length < abi.signBit)
    (reach : start + size ≤ mappedLength image ∨ size = 2 ^ abi.bits - 1) :
    start + size ≤ image.length ↔ ¬ CutOff abi image start size := by
  have limits := abi.modulus_signBit
  unfold CutOff
  omega

theorem window_part (start size : Nat) (inside : start + size ≤ image.length) :
    window image start size <:+: image := by
  rw [window_eq_take_drop image start size inside]
  exact (List.take_prefix _ _).isInfix.trans (List.drop_suffix _ _).isInfix

/-- Behind any MTK headers, what is stored of a section inside the file is a part of it. -/
theorem Unpacks.part {start size count : Nat} {before after : Directory} {name : FileName}
    (unpacks : Unpacks platform image start size before after count name)
    (mapped : mappedLength image < 2 ^ abi.bits) (inside : start + size ≤ image.length) :
    dumpedBytes platform image name (start + 512 * count) (abi.sizeOf (size - 512 * count)) <:+:
      image := by
  have limits := abi.modulus_signBit
  have lengths := length_le_mappedLength image
  have readable := unpacks.readable
  unfold dumpedBytes
  rcases unpacks.passes.cases with ⟨written, fits, _⟩ | ⟨failed, _⟩
  · rw [written]
    apply window_part
    have remaining : 512 * count ≤ size → abi.sizeOf ((size : Int) - 512 * count) =
        size - 512 * count := by
      unfold Abi.sizeOf
      rcases abi.bits_cases with same | same <;> (rw [same] at mapped ⊢; omega)
    have wrapped : size < 512 * count → abi.sizeOf ((size : Int) - 512 * count) =
        2 ^ abi.bits + size - 512 * count := by
      unfold Abi.sizeOf
      rcases abi.bits_cases with same | same <;> (rw [same] at mapped ⊢; omega)
    change start + 512 * count + abi.sizeOf ((size : Int) - 512 * count) ≤ image.length
    by_cases enough : 512 * count ≤ size
    · rw [remaining enough]
      omega
    · have left := wrapped (by omega)
      omega
  · rw [failed]
    have nothing : window image (start + 512 * count) ((none : Option Nat).getD 0) = [] :=
      List.eq_nil_of_length_eq_zero (length_window image _ 0)
    rw [nothing]
    exact List.nil_infix

/-- Truncated images are rejected unless the kernel or the ramdisk is cut off. -/
theorem truncated_rejected_iff (platform : Platform abi) (image : List UInt8) (dir : Directory)
    (base : Nat) (header : HeaderAt image base)
    (accepted : (extract platform image dir).stop = none) :
    WholeSections platform image dir ↔
      ¬ CutOff abi image (base + pageOf image base) (kernelSizeOf image base) ∧
        ¬ CutOff abi image (base + ramdiskPos image base) (ramdiskSizeOf image base) := by
  obtain ⟨found, mid, located, sections, outcome, calls⟩ := accepted_run accepted
  cases located.header.unique header
  have limits := abi.modulus_signBit
  have short := located.representable
  have mapped := located.bounds.2.2
  have kernelRange := sections.ranges.1
  have ramdiskRange := sections.ranges.2.1
  have files := sections.files
  have small : ramdiskSizeOf image base < 2 ^ abi.bits :=
    Nat.lt_of_lt_of_le (hdrWord_lt image base .ramdiskSize) (by omega)
  have ramdiskFits := sections.ramdiskPeels.fits small (by omega)
  have kernelReach : base + pageOf image base + kernelSizeOf image base ≤ mappedLength image ∨
      kernelSizeOf image base = 2 ^ abi.bits - 1 := by
    have before : pageOf image base ≤ ramdiskPos image base := Nat.le_add_right _ _
    have fits := sections.kernelPasses.fits
    unfold Fits at fits
    omega
  have kernelIff := inside_iff_not_cutOff short kernelReach
  have ramdiskIff := inside_iff_not_cutOff short ramdiskFits.2
  constructor
  · intro whole
    constructor
    · apply kernelIff.mp
      apply (whole.kernel _ _ _).1
      rw [calls, kernelRange]
      exact List.mem_singleton_self _
    · apply ramdiskIff.mp
      apply whole.ramdisk
      rw [calls]
      exact ramdiskRange
  · intro uncut
    have kernelInside := kernelIff.mpr uncut.1
    have ramdiskInside := ramdiskIff.mpr uncut.2
    constructor
    case kernel =>
      intro start size member
      rw [calls, kernelRange, List.mem_singleton] at member
      cases member
      refine ⟨kernelInside, ?_⟩
      rw [outcome, files.kernel]
      unfold fileIf dumpedBytes
      rcases sections.kernelPasses.cases with ⟨written, _, _⟩ | ⟨_, huge⟩
      · rw [if_pos rfl, written]
        congr 2
        exact window_eq_take_drop image _ _ kernelInside
      · omega
    case ramdisk =>
      intro start size range
      rw [calls, ramdiskRange] at range
      cases range
      exact ramdiskInside
    case payload =>
      obtain ⟨count, name, member, unpacks⟩ := sections.ramdiskPeels.unpacks small
      refine ⟨name, _, member, ?_, unpacks.part (by omega) ramdiskInside, ?_⟩
      · rw [outcome, files.peeled name (by rcases member with rfl | rfl <;> decide)]
        exact unpacks.stored
      · intro other otherMember different
        rw [outcome, files.peeled other (by rcases otherMember with rfl | rfl <;> decide),
          unpacks.others other otherMember different]
        have apart : other ≠ .kernel ∧ other ≠ .chromeos := by
          rcases otherMember with rfl | rfl <;> decide
        rw [Host.dumped_dir_other _ _ _ _ _ apart.1]
        unfold Host.searched
        exact Host.dumpedIf_dir_other _ _ _ _ _ _ apart.2

theorem smallImage_whole_sections :
    WholeSections (Platform.greedy .ilp32) (resize [] 256 ++ smallImage) .empty :=
  (truncated_rejected_iff (Platform.greedy .ilp32) (resize [] 256 ++ smallImage) .empty 256
    ((findHeader_eq_some_iff _ _).mp (by decide +kernel)) (by decide +kernel)).mpr
    (by decide +kernel)

def truncatedImage : List UInt8 :=
  plainHeader 2048 0 8 0 0 ++ gzipMagic

theorem truncatedImage_accepted :
    (extract (Platform.greedy .lp64) truncatedImage .empty).stop = none ∧
      ¬ WholeSections (Platform.greedy .lp64) truncatedImage .empty := by
  have length : truncatedImage.length = 2052 := by decide +kernel
  have range : (extractCalls (Platform.greedy .lp64) truncatedImage .empty).findSome?
      Call.ramdiskRange = some (2048, 8) := by
    decide +kernel
  refine ⟨by decide +kernel, ?_⟩
  intro whole
  have inside := whole.ramdisk 2048 8 range
  omega

end SuperBootimg.Concrete.Extract
