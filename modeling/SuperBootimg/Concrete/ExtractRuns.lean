/-
The runs of extract.c that end with status 0, in closed form. Positions are sums
of rounded sections because no accepted section is large enough to wrap them.
-/

import SuperBootimg.Concrete.ExtractSteps

namespace SuperBootimg.Concrete.Extract

open ByteImage StoppableRun

/-! ### Positions in terms of the header -/

section Positions

variable (image : List UInt8) (base : Nat)

abbrev pageOf : Nat := hdrWord image base .pageSize
abbrev kernelSizeOf : Nat := hdrWord image base .kernelSize
abbrev ramdiskSizeOf : Nat := hdrWord image base .ramdiskSize
abbrev secondSizeOf : Nat := hdrWord image base .secondSize
abbrev dtSizeOf : Nat := hdrWord image base .unused0

def ramdiskPos : Nat :=
  pageOf image base + roundUp32 (pageOf image base) (kernelSizeOf image base)

def secondPos : Nat :=
  ramdiskPos image base + roundUp32 (pageOf image base) (ramdiskSizeOf image base)

def dtPos : Nat :=
  secondPos image base + roundUp32 (pageOf image base) (secondSizeOf image base)

def dtTested (abi : Abi) : Bool :=
  decide (dtSizeOf image base ≠ 0 ∧ abi.longOf (dtPos image base) < image.length ∧
    abi.sumWithin (dtPos image base) (dtSizeOf image base) image.length)

def dtDumped (abi : Abi) : Bool :=
  dtTested image base abi && dtMagics.any (matchesAt image (base + dtPos image base))

/-- The final position: the end of the last section that was dumped. -/
def endPos (abi : Abi) : Nat :=
  dtPos image base +
    if dtDumped image base abi then roundUp32 (pageOf image base) (dtSizeOf image base) else 0

def signed : Bool :=
  matchesAt image (base + 1024) signMagic

def secured (abi : Abi) : Bool :=
  signed image base ||
    decide (abi.sizeOf (intOf (abi.longOf (endPos image base abi))) < image.length)

end Positions

variable {abi : Abi} {platform : Platform abi} {image : List UInt8}

def Host.dumpedIf (platform : Platform abi) (image : List UInt8) (host : Host) (condition : Bool)
    (name : FileName) (start size : Nat) : Host :=
  if condition then host.dumped platform image name start size else host

def Host.searched (platform : Platform abi) (image : List UInt8) (host : Host) : Host :=
  host.dumpedIf platform image (matchesAt image 0 chromeosMagic) .chromeos 0 0

/-- The host after the ramdisk, carried through to the end of `main`. -/
def Host.completed (platform : Platform abi) (image : List UInt8) (base : Nat)
    (host : Host) : Host :=
  (((host.dumpedIf platform image (decide (secondSizeOf image base ≠ 0)) .second
        (base + secondPos image base) (secondSizeOf image base)).dumpedIf
      platform image (dtDumped image base abi) .dt
        (base + dtPos image base) (dtSizeOf image base)).dumpedIf
    platform image (signed image base) .rkcrc base 0).dumpedIf
  platform image (secured image base abi) .secure base 0

/-- What an accepted image satisfies, with the host in front of and behind the
ramdisk section. -/
structure Sections (platform : Platform abi) (image : List UInt8) (base : Nat)
    (before mid : Host) : Prop where
  kernelPasses : Passes platform image .kernel (base + pageOf image base) (kernelSizeOf image base)
  ramdiskPeels : Peels platform image (base + ramdiskPos image base) (ramdiskSizeOf image base)
    (before.dumped platform image .kernel (base + pageOf image base) (kernelSizeOf image base)) mid
  secondWithin : secondSizeOf image base ≠ 0 →
    abi.sumWithin (secondPos image base) (secondSizeOf image base) image.length = true
  secondPasses : secondSizeOf image base ≠ 0 →
    Passes platform image .second (base + secondPos image base) (secondSizeOf image base)
  dtReadable : dtTested image base abi = true →
    base + dtPos image base + 4 ≤ mappedLength image
  dtPasses : dtDumped image base abi = true →
    Passes platform image .dt (base + dtPos image base) (dtSizeOf image base)
  signReadable : base + 1024 + 4 ≤ mappedLength image
  signPasses : signed image base = true → Passes platform image .rkcrc base 0
  securePasses : secured image base abi = true → Passes platform image .secure base 0

/-- The file can be mapped, and the header in it passes the assertions. -/
structure Located (abi : Abi) (image : List UInt8) (base : Nat) : Prop where
  representable : image.length < abi.signBit
  header : HeaderAt image base
  pageSize : PageSize (pageOf image base)

theorem Located.bounds {base : Nat} (located : Located abi image base) :
    256 ∣ base ∧ base + 8 ≤ image.length ∧ mappedLength image < abi.signBit + 4096 := by
  have headerBound := located.header.bound
  have mapped := mappedLength_lt image
  have short := located.representable
  unfold bootMagicSize at headerBound
  unfold memoryPage at mapped
  exact ⟨located.header.1, headerBound, by omega⟩

/-! ### Keeping positions below the word size -/

theorem dvd_positions (image : List UInt8) (base : Nat) :
    pageOf image base ∣ ramdiskPos image base ∧ pageOf image base ∣ secondPos image base ∧
      pageOf image base ∣ dtPos image base := by
  have first : pageOf image base ∣ ramdiskPos image base :=
    Nat.dvd_add (Nat.dvd_refl _) (dvd_roundUp32 _ _)
  have second : pageOf image base ∣ secondPos image base :=
    Nat.dvd_add first (dvd_roundUp32 _ _)
  exact ⟨first, second, Nat.dvd_add second (dvd_roundUp32 _ _)⟩

theorem Located.advance_eq {base pos size : Nat} (located : Located abi image base)
    (aligned : pageOf image base ∣ pos) (small : size < 4294967296)
    (fits : Fits abi image (base + pos) size)
    (near : base + pos ≤ mappedLength image + 65536) :
    abi.advance (pageOf image base) pos size = pos + roundUp32 (pageOf image base) size ∧
      base + (pos + roundUp32 (pageOf image base) size) ≤
        max (mappedLength image) (base + pos) + pageOf image base := by
  have valid := located.pageSize
  have pageBounds := valid.bounds
  have mapped := located.bounds.2.2
  have limits := abi.modulus_signBit
  have sum := fits.sum_le small valid
  have rounded := roundUp32_le (pageOf image base) size
  exact ⟨valid.advance_eq abi pos size aligned (by omega), by omega⟩

theorem Located.pointer_eq {base : Nat} (located : Located abi image base) (pos : Nat)
    (near : base + pos ≤ mappedLength image + 65536) : abi.pointer base pos = base + pos := by
  have mapped := located.bounds.2.2
  have limits := abi.modulus_signBit
  unfold Abi.pointer
  exact Nat.mod_eq_of_lt (by omega)

theorem Located.kernel_moves {base : Nat} (located : Located abi image base)
    (passes : Passes platform image .kernel (base + pageOf image base) (kernelSizeOf image base)) :
    abi.advance (pageOf image base) (pageOf image base) (kernelSizeOf image base) =
        ramdiskPos image base ∧
      base + ramdiskPos image base ≤ mappedLength image + 32768 := by
  have bounds := located.bounds
  have pageBounds := located.pageSize.bounds
  have lengths := length_le_mappedLength image
  have moved := located.advance_eq (Nat.dvd_refl _) (hdrWord_lt image base .kernelSize)
    passes.fits (by omega)
  have reach : base + ramdiskPos image base ≤ _ := moved.2
  exact ⟨moved.1, by omega⟩

theorem Located.ramdisk_moves {base : Nat} {before mid : Host}
    (located : Located abi image base)
    (peels : Peels platform image (base + ramdiskPos image base) (ramdiskSizeOf image base)
      before mid) :
    abi.advance (pageOf image base) (ramdiskPos image base) (ramdiskSizeOf image base) =
        secondPos image base ∧
      base + ramdiskPos image base + 4 ≤ mappedLength image ∧
      base + secondPos image base ≤ mappedLength image + 16384 := by
  have bounds := located.bounds
  have pageBounds := located.pageSize.bounds
  have limits := abi.modulus_signBit
  have fits := peels.fits
    (Nat.lt_of_lt_of_le (hdrWord_lt image base .ramdiskSize) (by omega)) (by omega)
  have moved := located.advance_eq (dvd_positions image base).1
    (hdrWord_lt image base .ramdiskSize) (.inr fits.2) (by omega)
  have reach : base + secondPos image base ≤ _ := moved.2
  exact ⟨moved.1, fits.1, by omega⟩

theorem Located.dtPos_of_no_second {base : Nat} (located : Located abi image base)
    (absent : secondSizeOf image base = 0) : dtPos image base = secondPos image base := by
  have pageBounds := located.pageSize.bounds
  unfold dtPos
  rw [absent, roundUp32_eq _ 0 (by omega), PagedLayout.roundUp_zero, Nat.add_zero]

theorem Located.second_moves {base : Nat} (located : Located abi image base)
    (near : base + secondPos image base ≤ mappedLength image + 16384)
    (passes : Passes platform image .second (base + secondPos image base)
      (secondSizeOf image base)) :
    abi.advance (pageOf image base) (secondPos image base) (secondSizeOf image base) =
        dtPos image base ∧
      base + dtPos image base ≤ mappedLength image + 32768 := by
  have pageBounds := located.pageSize.bounds
  have moved := located.advance_eq (dvd_positions image base).2.1
    (hdrWord_lt image base .secondSize) passes.fits (by omega)
  have reach : base + dtPos image base ≤ _ := moved.2
  exact ⟨moved.1, by omega⟩

theorem Located.dt_near {base : Nat} (located : Located abi image base)
    (near : base + secondPos image base ≤ mappedLength image + 16384)
    (passes : secondSizeOf image base ≠ 0 → Passes platform image .second
      (base + secondPos image base) (secondSizeOf image base)) :
    base + dtPos image base ≤ mappedLength image + 32768 := by
  by_cases absent : secondSizeOf image base = 0
  · rw [located.dtPos_of_no_second absent]
    omega
  · exact (located.second_moves near (passes absent)).2

theorem Sections.near {base : Nat} {before mid : Host} (located : Located abi image base)
    (sections : Sections platform image base before mid) :
    base + ramdiskPos image base + 4 ≤ mappedLength image ∧
      base + secondPos image base ≤ mappedLength image + 16384 ∧
      base + dtPos image base ≤ mappedLength image + 32768 := by
  obtain ⟨_, ramdiskNear, secondNear⟩ := located.ramdisk_moves sections.ramdiskPeels
  exact ⟨ramdiskNear, secondNear, located.dt_near secondNear sections.secondPasses⟩

theorem Sections.end_near {base : Nat} {before mid : Host} (located : Located abi image base)
    (sections : Sections platform image base before mid) :
    base + endPos image base abi ≤ mappedLength image + 65536 := by
  have bounds := located.pageSize.bounds
  have near := (sections.near located).2.2
  unfold endPos
  cases dumped : dtDumped image base abi with
  | false =>
      rw [if_neg Bool.false_ne_true]
      omega
  | true =>
      have sum := (sections.dtPasses dumped).fits.sum_le (hdrWord_lt image base .unused0)
        located.pageSize
      have rounded := roundUp32_le (pageOf image base) (dtSizeOf image base)
      rw [if_pos rfl]
      omega

variable (abi image) in
theorem dtDumped_iff (base : Nat) (near : dtPos image base + dtSizeOf image base < abi.signBit) :
    dtDumped image base abi = true ↔
      dtSizeOf image base ≠ 0 ∧ dtPos image base < image.length ∧
        dtPos image base + dtSizeOf image base ≤ image.length ∧
        ∃ magic, magic ∈ dtMagics ∧ matchesAt image (base + dtPos image base) magic = true := by
  unfold dtDumped dtTested
  rw [Bool.and_eq_true, decide_eq_true_iff, List.any_eq_true, Abi.longOf_eq_self _ _ (by omega),
    Abi.sumWithin_iff _ _ _ _ near, Int.ofNat_lt, and_assoc, and_assoc]

/-! ### The statements of `main` behind the ramdisk -/

theorem dumpSecond_finishes {base : Nat} (located : Located abi image base)
    (near : base + secondPos image base ≤ mappedLength image + 16384)
    (result : Nat) (host after : Host) :
    Finishes (dumpSecond platform image base (pageOf image base) (secondPos image base))
        host result after ↔
      (secondSizeOf image base ≠ 0 →
        abi.sumWithin (secondPos image base) (secondSizeOf image base) image.length = true) ∧
      (secondSizeOf image base ≠ 0 →
        Passes platform image .second (base + secondPos image base) (secondSizeOf image base)) ∧
      result = dtPos image base ∧
      after = host.dumpedIf platform image (decide (secondSizeOf image base ≠ 0)) .second
        (base + secondPos image base) (secondSizeOf image base) := by
  have address := located.pointer_eq (secondPos image base) (by omega)
  unfold dumpSecond Host.dumpedIf
  simp only [ite_finishes, bind_finishes, pure_finishes, dump_finishes, address]
  change ((secondSizeOf image base = 0 ∧ _) ∨ (¬ secondSizeOf image base = 0 ∧ _)) ↔ _
  by_cases absent : secondSizeOf image base = 0
  · have still := located.dtPos_of_no_second absent
    simp [absent, still]
  · constructor
    · intro given
      rcases given with ⟨zero, _⟩ | ⟨_, (⟨within, _, _, ⟨passes, rfl⟩, rfl, rfl⟩ |
        ⟨_, _, _, impossible, _⟩)⟩
      · exact absurd zero absent
      · refine ⟨fun _ => within, fun _ => passes, (located.second_moves near passes).1, ?_⟩
        rw [if_pos (decide_eq_true absent)]
      · exact absurd impossible (throw_not_finishes _ _ _ _)
    · intro given
      obtain ⟨within, passes, rfl, rfl⟩ := given
      rw [if_pos (decide_eq_true absent)]
      exact .inr ⟨absent, .inl ⟨within absent, (), _, ⟨passes absent, rfl⟩,
        (located.second_moves near (passes absent)).1.symm, rfl⟩⟩

theorem dumpDt_finishes {base : Nat} (located : Located abi image base)
    (near : base + dtPos image base ≤ mappedLength image + 32768)
    (result : Nat) (host after : Host) :
    Finishes (dumpDt platform image base (pageOf image base) (dtPos image base))
        host result after ↔
      (dtTested image base abi = true → base + dtPos image base + 4 ≤ mappedLength image) ∧
      (dtDumped image base abi = true →
        Passes platform image .dt (base + dtPos image base) (dtSizeOf image base)) ∧
      result = endPos image base abi ∧
      after = host.dumpedIf platform image (dtDumped image base abi) .dt
        (base + dtPos image base) (dtSizeOf image base) := by
  have address := located.pointer_eq (dtPos image base) (by omega)
  have matching := memcmpAny_finishes image (base + dtPos image base) 4 dtMagics
    (by decide) (by decide)
  have advanced (passes : Passes platform image .dt (base + dtPos image base)
      (dtSizeOf image base)) :
      abi.advance (pageOf image base) (dtPos image base) (dtSizeOf image base) =
        dtPos image base + roundUp32 (pageOf image base) (dtSizeOf image base) :=
    (located.advance_eq (dvd_positions image base).2.2 (hdrWord_lt image base .unused0)
      passes.fits (by omega)).1
  have test : (hdrWord image base .unused0 ≠ 0 ∧ abi.longOf (dtPos image base) < image.length ∧
      abi.sumWithin (dtPos image base) (hdrWord image base .unused0) image.length = true) ↔
        dtTested image base abi = true := by
    unfold dtTested
    rw [decide_eq_true_iff]
  unfold dumpDt endPos Host.dumpedIf dtDumped
  simp only [test, address]
  cases tested : dtTested image base abi with
  | false =>
      rw [if_neg Bool.false_ne_true, pure_finishes]
      simp only [Bool.false_eq_true, IsEmpty.forall_iff, Bool.false_and, if_false, true_and,
        Nat.add_zero]
  | true =>
      rw [if_pos rfl, bind_finishes_of fun found reached => matching found host reached,
        forall_prop_of_true rfl]
      apply and_congr_right
      intro readable
      cases recognised : dtMagics.any (matchesAt image (base + dtPos image base)) with
      | false =>
          rw [if_neg Bool.false_ne_true, pure_finishes]
          simp only [Bool.and_false, Bool.false_eq_true, IsEmpty.forall_iff, if_false, true_and,
            Nat.add_zero]
      | true =>
          rw [if_pos rfl, dump_bind_finishes, pure_finishes]
          simp only [Bool.and_self, if_true, forall_prop_of_true]
          exact and_congr_right fun passes => by rw [← advanced passes]

theorem searchSecurity_finishes {base : Nat} (located : Located abi image base)
    (result : Bool) (host after : Host) :
    Finishes (searchSecurity platform image base (intOf (abi.longOf (endPos image base abi))))
        host result after ↔
      base + 1024 + 4 ≤ mappedLength image ∧
      (signed image base = true → Passes platform image .rkcrc base 0) ∧
      result = secured image base abi ∧
      after = host.dumpedIf platform image (signed image base) .rkcrc base 0 := by
  have bounds := located.bounds
  have lengths := length_le_mappedLength image
  have address := located.pointer_eq 1024 (by omega)
  have signLength : signMagic.length = 4 := rfl
  unfold searchSecurity secured signed Host.dumpedIf
  rw [address, memcmp_bind_finishes, signLength]
  apply and_congr_right
  intro readable
  cases sign : matchesAt image (base + 1024) signMagic with
  | true =>
      rw [if_pos rfl, if_pos rfl, dump_bind_finishes, pure_finishes, Bool.true_or,
        forall_prop_of_true rfl]
  | false =>
      rw [if_neg Bool.false_ne_true, if_neg Bool.false_ne_true, pure_finishes, Bool.false_or,
        forall_prop_of_false Bool.false_ne_true, true_and]

/-! ### The whole program -/

theorem dumpSections_finishes {base : Nat} (located : Located abi image base)
    (host after : Host) :
    Finishes (dumpSections platform image base) host () after ↔
      ∃ mid, Sections platform image base host mid ∧
        after = Host.completed platform image base mid := by
  have bounds := located.bounds
  have pageBounds := located.pageSize.bounds
  have limits := abi.modulus_signBit
  have lengths := length_le_mappedLength image
  have enough : ∀ start, mappedLength image < start + 512 * dumpRamdiskFuel image := by
    intro start
    unfold dumpRamdiskFuel
    omega
  have kernelAddress : abi.pointer base (hdrWord image base .pageSize) =
      base + pageOf image base :=
    located.pointer_eq (pageOf image base) (by omega)
  unfold dumpSections
  simp only [bind_finishes, dump_finishes, ite_finishes, pure_finishes, kernelAddress]
  constructor
  · intro given
    obtain ⟨_, _, ⟨kernelPasses, rfl⟩, _, mid, ramdiskRun, _, _, secondRun, _, _, dtRun,
      _, _, securityRun, secureRun⟩ := given
    obtain ⟨kernelMoved, kernelNear⟩ := located.kernel_moves kernelPasses
    rw [kernelMoved, located.pointer_eq _ (by omega),
      dumpRamdisk_finishes _ _ _ _ _ (by omega) (enough _)] at ramdiskRun
    obtain ⟨ramdiskMoved, _, secondNear⟩ := located.ramdisk_moves ramdiskRun
    rw [kernelMoved, ramdiskMoved] at secondRun
    obtain ⟨secondWithin, secondPasses, rfl, rfl⟩ :=
      (dumpSecond_finishes located secondNear _ _ _).mp secondRun
    have dtNear := located.dt_near secondNear secondPasses
    obtain ⟨dtReadable, dtPasses, rfl, rfl⟩ := (dumpDt_finishes located dtNear _ _ _).mp dtRun
    obtain ⟨signReadable, signPasses, rfl, rfl⟩ :=
      (searchSecurity_finishes located _ _ _).mp securityRun
    refine ⟨mid, ⟨kernelPasses, ramdiskRun, secondWithin, secondPasses, dtReadable, dtPasses,
      signReadable, signPasses, ?_⟩, ?_⟩
    · intro secure
      rcases secureRun with ⟨_, passes, _⟩ | ⟨missed, _⟩
      · exact passes
      · exact absurd secure missed
    · unfold Host.completed
      rcases secureRun with ⟨secure, _, rfl⟩ | ⟨missed, _, rfl⟩
      · rw [secure]
        rfl
      · rw [eq_false_of_ne_true missed]
        rfl
  · intro given
    obtain ⟨mid, sections, rfl⟩ := given
    obtain ⟨kernelMoved, kernelNear⟩ := located.kernel_moves sections.kernelPasses
    obtain ⟨ramdiskMoved, _, secondNear⟩ := located.ramdisk_moves sections.ramdiskPeels
    have dtNear := located.dt_near secondNear sections.secondPasses
    rw [kernelMoved, ramdiskMoved, located.pointer_eq _ (by omega)]
    refine ⟨(), _, ⟨sections.kernelPasses, rfl⟩, (), mid,
      (dumpRamdisk_finishes _ _ _ _ _ (by omega) (enough _)).mpr sections.ramdiskPeels, _, _,
      (dumpSecond_finishes located secondNear _ _ _).mpr
        ⟨sections.secondWithin, sections.secondPasses, rfl, rfl⟩, _, _,
      (dumpDt_finishes located dtNear _ _ _).mpr
        ⟨sections.dtReadable, sections.dtPasses, rfl, rfl⟩, _, _,
      (searchSecurity_finishes located _ _ _).mpr
        ⟨sections.signReadable, sections.signPasses, rfl, rfl⟩, ?_⟩
    unfold Host.completed
    cases secure : secured image base abi with
    | true => exact .inl ⟨rfl, sections.securePasses secure, rfl⟩
    | false => exact .inr ⟨by simp, trivial, rfl⟩

private theorem searchSecurityHdr_finishes (nonempty : image.length ≠ 0)
    (result : Unit) (host after : Host) :
    Finishes (searchSecurityHdr platform image 0) host result after ↔
      (matchesAt image 0 chromeosMagic = true → Passes platform image .chromeos 0 0) ∧
        after = host.searched platform image := by
  have chromeosLength : chromeosMagic.length = 8 := rfl
  have lengths := length_le_mappedLength image
  have mapped := block_mapped image 0 (Nat.dvd_zero _) (by omega)
  unfold searchSecurityHdr Host.searched Host.dumpedIf
  rw [memcmp_bind_finishes, chromeosLength, and_iff_right (by omega)]
  cases chromeos : matchesAt image 0 chromeosMagic with
  | true => rw [if_pos rfl, if_pos rfl, dump_finishes, forall_prop_of_true rfl]
  | false =>
      rw [if_neg Bool.false_ne_true, if_neg Bool.false_ne_true, pure_finishes,
        forall_prop_of_false Bool.false_ne_true]
      exact and_congr_left fun _ => iff_of_true rfl trivial

variable (platform image) in
/-- The runs that end with status 0: the header is located, every section passes. -/
theorem main_finishes (host after : Host) :
    Finishes (main platform image) host () after ↔
      (matchesAt image 0 chromeosMagic = true → Passes platform image .chromeos 0 0) ∧
      ∃ base mid, Located abi image base ∧
        Sections platform image base (host.searched platform image) mid ∧
        after = Host.completed platform image base mid := by
  unfold main mapFile
  simp only [bind_finishes, ite_finishes, pure_finishes]
  constructor
  · intro given
    obtain ⟨_, _, (⟨_, impossible⟩ | ⟨mapped, _, rfl⟩), _, _, searchRun, rest⟩ := given
    · exact absurd impossible (throw_not_finishes _ _ _ _)
    · obtain ⟨chromeosPasses, rfl⟩ :=
        (searchSecurityHdr_finishes (by omega) _ _ _).mp searchRun
      cases search : findHeader image with
      | none =>
          rw [search] at rest
          exact absurd rest (throw_not_finishes _ _ _ _)
      | some base =>
          rw [search, ite_finishes] at rest
          rcases rest with ⟨valid, sectionRun⟩ | ⟨_, impossible⟩
          · have located : Located abi image base :=
              ⟨by omega, (findHeader_eq_some_iff image base).mp search, valid⟩
            obtain ⟨mid, sections, rfl⟩ := (dumpSections_finishes located _ _).mp sectionRun
            exact ⟨chromeosPasses, base, mid, located, sections, rfl⟩
          · exact absurd impossible (throw_not_finishes _ _ _ _)
  · intro given
    obtain ⟨chromeosPasses, base, mid, located, sections, rfl⟩ := given
    have bounds := located.bounds
    have short := located.representable
    refine ⟨(), _, .inr ⟨by omega, trivial, rfl⟩, (), _,
      (searchSecurityHdr_finishes (by omega) _ _ _).mpr ⟨chromeosPasses, rfl⟩, ?_⟩
    rw [(findHeader_eq_some_iff image base).mpr located.header, ite_finishes]
    exact .inl ⟨located.pageSize, (dumpSections_finishes located _ _).mpr ⟨mid, sections, rfl⟩⟩

theorem accepted_run {dir : Directory} (accepted : (extract platform image dir).stop = none) :
    ∃ base mid, Located abi image base ∧
      Sections platform image base
        (Host.searched platform image { dir := dir, calls := [] }) mid ∧
      (extract platform image dir).dir = (Host.completed platform image base mid).dir ∧
      extractCalls platform image dir = (Host.completed platform image base mid).calls := by
  obtain ⟨host, finished⟩ := (extract_stop_none_iff platform image dir).mp accepted
  have results := extract_of_finishes finished
  obtain ⟨_, base, mid, located, sections, rfl⟩ := (main_finishes _ _ _ _).mp finished
  exact ⟨base, mid, located, sections, congrArg Outcome.dir results.1, results.2⟩

end SuperBootimg.Concrete.Extract
