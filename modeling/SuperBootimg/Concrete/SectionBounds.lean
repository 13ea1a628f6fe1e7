/-
Whether the optional sections are taken from inside the file. Their bound checks
compare header-relative positions with the whole size, so behind a prefix a section
may end in the zero fill of the last memory page.
-/

import SuperBootimg.Concrete.DecodedLayout

namespace SuperBootimg.Concrete.Extract

open ByteImage

variable {abi : Abi} {platform : Platform abi} {image : List UInt8} {base : Nat}

/-- Every range dumped under the name is a slice of the image, and the file holds it. -/
def TakenFromFile (platform : Platform abi) (image : List UInt8) (dir : Directory)
    (name : FileName) : Prop :=
  ∀ start size, (start, size) ∈ (extractCalls platform image dir).filterMap (Call.dumpRange name) →
    start + size ≤ image.length ∧
      (extract platform image dir).dir name =
        some { bytes := (image.drop start).take size, readable := true }

/-- A section that is dumped although the file does not hold it: behind a prefix it
ends in the zero fill, and at any place it may have the size a failed write is taken for. -/
def PastEnd (abi : Abi) (image : List UInt8) (base pos size : Nat) : Prop :=
  size = 2 ^ abi.bits - 1 ∨
    (base ≠ 0 ∧ image.length < base + pos + size ∧ base + pos + size ≤ mappedLength image)

instance (abi : Abi) (image : List UInt8) (base pos size : Nat) :
    Decidable (PastEnd abi image base pos size) :=
  inferInstanceAs (Decidable (_ ∨ _))

theorem positions_le (valid : PageSize (pageOf image base)) :
    secondPos image base ≤ dtPos image base ∧ dtPos image base ≤ 16384 + 3 * 4294967296 := by
  have bounds := valid.bounds
  have kernelPart := roundUp32_le (pageOf image base) (kernelSizeOf image base)
  have ramdiskPart := roundUp32_le (pageOf image base) (ramdiskSizeOf image base)
  have secondPart := roundUp32_le (pageOf image base) (secondSizeOf image base)
  unfold dtPos secondPos ramdiskPos
  omega

private theorem past_end_iff {name : FileName} {pos size : Nat}
    (located : Located abi image base) (nonzero : size ≠ 0) (small : size < 4294967296)
    (near : pos ≤ 16384 + 3 * 4294967296)
    (within : abi.sumWithin pos size image.length = true)
    (passes : Passes platform image name (base + pos) size) :
    (base + pos + size ≤ image.length ∧
      dumpedBytes platform image name (base + pos) size =
        (image.drop (base + pos)).take size) ↔
      ¬ PastEnd abi image base pos size := by
  have limits := abi.modulus_signBit
  have mapped := located.bounds.2.2
  have short := located.representable
  unfold PastEnd
  rcases passes.cases with ⟨written, inside, _⟩ | ⟨_, huge⟩
  · have ends : pos + size ≤ image.length := by
      cases abi with
      | ilp32 =>
          have half : Abi.signBit .ilp32 = 2147483648 := rfl
          unfold Abi.sumWithin at within
          rw [decide_eq_true_iff, Nat.mod_eq_of_lt (by omega)] at within
          exact within
      | lp64 =>
          have half : Abi.signBit .lp64 = 9223372036854775808 := rfl
          exact (Abi.sumWithin_iff .lp64 pos size image.length (by omega)).mp within
    have slice (fits : base + pos + size ≤ image.length) :
        dumpedBytes platform image name (base + pos) size =
          (image.drop (base + pos)).take size := by
      unfold dumpedBytes
      rw [written]
      exact window_eq_take_drop image (base + pos) size fits
    constructor
    · intro given
      obtain ⟨fits, _⟩ := given
      omega
    · intro inFile
      have fits : base + pos + size ≤ image.length := by omega
      exact ⟨fits, slice fits⟩
  · omega

/-- Both sections come from the file exactly when neither of them is past its end. -/
theorem sections_from_file_iff (platform : Platform abi) (image : List UInt8) (dir : Directory)
    (base : Nat) (header : HeaderAt image base)
    (accepted : (extract platform image dir).stop = none) :
    (TakenFromFile platform image dir .second ∧ TakenFromFile platform image dir .dt) ↔
      ¬ (secondSizeOf image base ≠ 0 ∧
          PastEnd abi image base (secondPos image base) (secondSizeOf image base)) ∧
        ¬ (dtDumped image base abi = true ∧
          PastEnd abi image base (dtPos image base) (dtSizeOf image base)) := by
  obtain ⟨found, mid, located, sections, outcome, calls⟩ := accepted_run accepted
  cases located.header.unique header
  have far := positions_le located.pageSize
  have files := sections.files
  obtain ⟨_, _, secondRange, dtRange⟩ := sections.ranges
  unfold TakenFromFile
  rw [calls, outcome, secondRange, dtRange, files.second, files.dt]
  unfold fileIf
  apply and_congr
  · by_cases present : secondSizeOf image base ≠ 0
    · have exactly := past_end_iff located present (hdrWord_lt image base .secondSize) (by omega)
        (sections.secondWithin present) (sections.secondPasses present)
      simpa [present] using exactly
    · simp [present]
  · cases dumped : dtDumped image base abi with
    | true =>
        have tested : dtTested image base abi = true := by
          unfold dtDumped at dumped
          exact (Bool.and_eq_true_iff.mp dumped).1
        unfold dtTested at tested
        rw [decide_eq_true_iff] at tested
        have exactly := past_end_iff located tested.1 (hdrWord_lt image base .unused0) far.2
          tested.2.2 (sections.dtPasses dumped)
        simpa using exactly
    | false => simp

theorem smallImage_sections_from_file :
    TakenFromFile (Platform.greedy .ilp32) (resize [] 256 ++ smallImage) .empty .second ∧
      TakenFromFile (Platform.greedy .ilp32) (resize [] 256 ++ smallImage) .empty .dt :=
  (sections_from_file_iff (Platform.greedy .ilp32) (resize [] 256 ++ smallImage) .empty 256
    ((findHeader_eq_some_iff _ _).mp (by decide +kernel)) (by decide +kernel)).mpr
    (by decide +kernel)

def overrunImage : List UInt8 :=
  resize [] 256 ++ plainHeader 2048 0 4 256 0 ++ resize gzipMagic 2048

theorem overrunImage_second_past_end :
    (extract (Platform.greedy .lp64) overrunImage .empty).stop = none ∧
      ¬ TakenFromFile (Platform.greedy .lp64) overrunImage .empty .second := by
  have length : overrunImage.length = 4352 := by decide +kernel
  have range : (4352, 256) ∈
      (extractCalls (Platform.greedy .lp64) overrunImage .empty).filterMap
        (Call.dumpRange .second) := by
    decide +kernel
  refine ⟨by decide +kernel, ?_⟩
  intro taken
  have inside := (taken 4352 256 range).1
  omega

end SuperBootimg.Concrete.Extract
