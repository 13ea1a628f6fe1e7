/-
Which bytes of an accepted file extract.c accounts for. The `secure` flag hangs on
one comparison: the header-relative end of the last section, cut to an `int`, with
the size of the whole file.
-/

import SuperBootimg.Concrete.DecodedLayout

namespace SuperBootimg.Concrete.Extract

open ByteImage PagedLayout

variable {abi : Abi} {platform : Platform abi} {image : List UInt8} {base : Nat}

def componentRanges (calls : List Call) : List (Nat × Nat) :=
  calls.filterMap (Call.dumpRange .kernel) ++ (calls.findSome? Call.ramdiskRange).toList ++
    calls.filterMap (Call.dumpRange .second) ++ calls.filterMap (Call.dumpRange .dt)

/-- An offset in the header page, in a component or in the padding of a component. -/
def Accounted (image : List UInt8) (base : Nat) (ranges : List (Nat × Nat))
    (offset : Nat) : Prop :=
  (base ≤ offset ∧ offset < base + pageOf image base) ∨
    ∃ range, range ∈ ranges ∧ range.1 ≤ offset ∧
      offset < range.1 + roundUp (pageOf image base) range.2

/-- Without the `secure` flag the header comes first and every byte is accounted for. -/
def NoSilentLoss (platform : Platform abi) (image : List UInt8) (base : Nat) : Prop :=
  (extract platform image .empty).dir .secure = none →
    base = 0 ∧ ∀ offset, offset < image.length →
      Accounted image base (componentRanges (extractCalls platform image .empty)) offset

/-- The furthest end of a padded component of a header at offset 0. -/
def coveredEnd (abi : Abi) (image : List UInt8) : Nat :=
  max (max (pageOf image 0 + roundUp (pageOf image 0) (kernelSizeOf image 0))
      (ramdiskPos image 0 + roundUp (pageOf image 0) (ramdiskSizeOf image 0)))
    (max (secondPos image 0 + roundUp (pageOf image 0) (secondSizeOf image 0))
      (dtPos image 0 +
        if dtDumped image 0 abi then roundUp (pageOf image 0) (dtSizeOf image 0) else 0))

/-- Padded components leave no gap, also where a rounded size has wrapped. -/
theorem accounted_iff (offset : Nat) :
    Accounted image 0
      ([(0 + pageOf image 0, kernelSizeOf image 0)] ++
        [(0 + ramdiskPos image 0, ramdiskSizeOf image 0)] ++
        (if secondSizeOf image 0 ≠ 0 then
          [(0 + secondPos image 0, secondSizeOf image 0)] else []) ++
        (if dtDumped image 0 abi then [(0 + dtPos image 0, dtSizeOf image 0)] else []))
      offset ↔ offset < coveredEnd abi image := by
  have kernelReach := roundUp32_le_roundUp (pageOf image 0) (kernelSizeOf image 0)
  have ramdiskReach := roundUp32_le_roundUp (pageOf image 0) (ramdiskSizeOf image 0)
  have secondReach := roundUp32_le_roundUp (pageOf image 0) (secondSizeOf image 0)
  have ramdiskAt : ramdiskPos image 0 =
      pageOf image 0 + roundUp32 (pageOf image 0) (kernelSizeOf image 0) := rfl
  have secondAt : secondPos image 0 =
      ramdiskPos image 0 + roundUp32 (pageOf image 0) (ramdiskSizeOf image 0) := rfl
  have dtAt : dtPos image 0 =
      secondPos image 0 + roundUp32 (pageOf image 0) (secondSizeOf image 0) := rfl
  unfold Accounted coveredEnd
  by_cases absent : secondSizeOf image 0 = 0
  · rw [absent, roundUp_zero] at secondReach
    rw [absent] at dtAt
    cases dumped : dtDumped image 0 abi with
    | true => simp [absent, roundUp_zero]; omega
    | false => simp [absent, roundUp_zero]; omega
  · cases dumped : dtDumped image 0 abi with
    | true => simp [absent]; omega
    | false => simp [absent]; omega

variable (abi) in
theorem secured_iff (base : Nat) (short : image.length < abi.signBit) :
    secured image base abi = true ↔
      signed image base = true ∨
        (endPos image base abi % 4294967296 < 2147483648 ∧
          endPos image base abi % 4294967296 < image.length) := by
  unfold secured
  rw [Bool.or_eq_true, decide_eq_true_iff, Abi.truncated_lt_iff _ _ _ short]

/-- Nothing is lost silently exactly when the flag is raised, or else the header is first and
the sections reach the end. -/
theorem noSilentLoss_flagged (platform : Platform abi) (header : HeaderAt image base)
    (accepted : (extract platform image .empty).stop = none) :
    NoSilentLoss platform image base ↔
      signed image base = true ∨
        (endPos image base abi % 4294967296 < 2147483648 ∧
          endPos image base abi % 4294967296 < image.length) ∨
        (base = 0 ∧ image.length ≤ coveredEnd abi image) := by
  obtain ⟨found, mid, located, sections, outcome, calls⟩ := accepted_run accepted
  cases located.header.unique header
  obtain ⟨kernelRange, ramdiskRange, secondRange, dtRange⟩ := sections.ranges
  have flag := secured_iff abi base located.representable
  unfold NoSilentLoss componentRanges
  rw [outcome, calls, sections.files.secure, kernelRange, ramdiskRange, secondRange, dtRange,
    ← or_assoc, ← flag]
  unfold fileIf
  cases secure : secured image base abi with
  | true => simp
  | false =>
      have covered : base = 0 →
          ((∀ offset, offset < image.length → Accounted image base
              ([(base + pageOf image base, kernelSizeOf image base)] ++
                [(base + ramdiskPos image base, ramdiskSizeOf image base)] ++
                (if secondSizeOf image base ≠ 0 then
                  [(base + secondPos image base, secondSizeOf image base)] else []) ++
                (if dtDumped image base abi then
                  [(base + dtPos image base, dtSizeOf image base)] else [])) offset) ↔
            image.length ≤ coveredEnd abi image) := by
        intro same
        subst same
        simp only [accounted_iff]
        constructor
        · intro all
          by_contra short
          have past := all (coveredEnd abi image) (by omega)
          omega
        · intro reaches offset inside
          omega
      constructor
      · intro nothing
        have whole := nothing rfl
        exact .inr ⟨whole.1, (covered whole.1).mp whole.2⟩
      · rintro (impossible | ⟨first, reaches⟩) _
        · cases impossible
        · exact ⟨first, (covered first).mpr reaches⟩

theorem endPos_le_coveredEnd : endPos image 0 abi ≤ coveredEnd abi image := by
  have reach := roundUp32_le_roundUp (pageOf image 0) (dtSizeOf image 0)
  have last := Nat.le_max_right
    (max (pageOf image 0 + roundUp (pageOf image 0) (kernelSizeOf image 0))
      (ramdiskPos image 0 + roundUp (pageOf image 0) (ramdiskSizeOf image 0)))
    (max (secondPos image 0 + roundUp (pageOf image 0) (secondSizeOf image 0))
      (dtPos image 0 +
        if dtDumped image 0 abi then roundUp (pageOf image 0) (dtSizeOf image 0) else 0))
  unfold endPos coveredEnd
  cases dumped : dtDumped image 0 abi with
  | true =>
      rw [dumped] at last
      simp only [if_true] at last ⊢
      omega
  | false =>
      rw [dumped] at last
      simp only [Bool.false_eq_true, if_false] at last ⊢
      omega

/-- Of a file below 2^31 bytes nothing is lost silently exactly when it has the signature mark,
or is longer than its sections reach behind the header, or begins with the header. A larger
one may also end where an `int` is negative. -/
theorem no_silent_loss_iff (platform : Platform abi) (image : List UInt8) (base : Nat)
    (header : HeaderAt image base)
    (accepted : (extract platform image .empty).stop = none) :
    (image.length < 2147483648 →
      (NoSilentLoss platform image base ↔
        signed image base = true ∨ endPos image base abi < image.length ∨ base = 0)) ∧
      (2147483648 ≤ image.length →
        (NoSilentLoss platform image base ↔
          signed image base = true ∨ endPos image base abi % 4294967296 < 2147483648 ∨
            (base = 0 ∧ image.length ≤ coveredEnd abi image))) := by
  rw [noSilentLoss_flagged platform header accepted]
  constructor
  · intro short
    obtain ⟨found, mid, located, sections, _, _⟩ := accepted_run accepted
    cases located.header.unique header
    have near := sections.end_near located
    have mapped := mappedLength_lt image
    unfold memoryPage at mapped
    rw [Nat.mod_eq_of_lt (by omega)]
    apply or_congr_right
    constructor
    · intro given
      rcases given with flagged | first
      · exact .inl flagged.2
      · exact .inr first.1
    · intro given
      by_cases behind : endPos image base abi < image.length
      · exact .inl ⟨Nat.lt_trans behind short, behind⟩
      · obtain rfl := given.resolve_left behind
        have reach := @endPos_le_coveredEnd abi image
        exact .inr ⟨rfl, by omega⟩
  · intro long
    apply or_congr_right
    apply or_congr_left
    exact and_iff_left_of_imp fun positive => Nat.lt_of_lt_of_le positive long

theorem smallImage_no_silent_loss : NoSilentLoss (Platform.greedy .ilp32) smallImage 0 :=
  ((no_silent_loss_iff (Platform.greedy .ilp32) smallImage 0
    ((findHeader_eq_some_iff _ _).mp (by decide +kernel)) (by decide +kernel)).1
    (by decide +kernel)).mpr (.inr (.inr rfl))

def prefixedImage : List UInt8 :=
  resize [] 256 ++ plainHeader 2048 0 4 0 0 ++ gzipMagic

theorem prefixedImage_silent_loss :
    HeaderAt prefixedImage 256 ∧
      (extract (Platform.greedy .lp64) prefixedImage .empty).stop = none ∧
      ¬ NoSilentLoss (Platform.greedy .lp64) prefixedImage 256 := by
  refine ⟨(findHeader_eq_some_iff _ _).mp (by decide +kernel), by decide +kernel, ?_⟩
  intro nothing
  have unflagged : (extract (Platform.greedy .lp64) prefixedImage .empty).dir .secure = none := by
    decide +kernel
  have first := (nothing unflagged).1
  omega

end SuperBootimg.Concrete.Extract
