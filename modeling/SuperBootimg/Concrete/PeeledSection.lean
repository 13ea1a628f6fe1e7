/-
What `dump_ramdisk` should make of a ramdisk section, as a function of the bytes of the
section alone. It does so as long as no comparison reaches behind the section.
-/

import SuperBootimg.Concrete.ExtractSteps

namespace SuperBootimg.Concrete.Extract

open ByteImage StoppableRun

/-! ### Peeling the bytes of a section -/

def sectionKind (bytes : List UInt8) : Option FileName :=
  if gzipMagic <+: bytes then some .ramdiskGz
  else if lzmaMagic <+: bytes then some .ramdiskLzma
  else none

def sectionFlag (bytes : List UInt8) : Option FileName :=
  if recoveryName <+: bytes.drop 8 then some .ramdiskMtkRecovery
  else if rootfsName <+: bytes.drop 8 then some .ramdiskMtkBoot
  else none

section Program

variable {abi : Abi} (platform : Platform abi)

def dumpSection (bytes : List UInt8) (start : Nat) (name : FileName) : Process Unit := do
  modify (Host.record · (.dump name start bytes.length))
  let written := platform.write name bytes.length bytes.length
  modify (Host.store · name (bytes.take (written.getD 0)))
  if returned abi written = bytes.length then pure () else throw .abort

/-- Takes MTK headers off a section that begins at an address. -/
def peelSection : Nat → List UInt8 → Nat → Process Unit
  | 0, _, _ => throw .fault
  | fuel + 1, bytes, start => do
      modify (Host.record · (.dumpRamdisk start bytes.length))
      match sectionKind bytes with
      | some name => dumpSection platform bytes start name
      | none =>
          if mtkMagic <+: bytes then
            match sectionFlag bytes with
            | some flag => do
                dumpSection platform [] start flag
                dumpSection platform [] start .ramdiskMtk
                peelSection fuel (bytes.drop 512) (start + 512)
            | none => throw .exitOne
          else do
            dumpSection platform bytes start .ramdisk
            throw .abort

end Program

/-! ### One call of `dump_ramdisk` -/

variable {abi : Abi} {platform : Platform abi} {image : List UInt8}

theorem memcmp_mapped {start : Nat} {pattern : List UInt8}
    (mapped : start + pattern.length ≤ mappedLength image) :
    memcmp image start pattern = pure (matchesAt image start pattern) := by
  unfold memcmp
  rw [if_pos mapped]

/-- A call whose comparisons are all mapped. -/
theorem dumpRamdisk_succ {start : Nat} (fuel size : Nat)
    (mapped : start + 16 ≤ mappedLength image) (near : start + 512 < 2 ^ abi.bits) :
    dumpRamdisk platform image (fuel + 1) start size = (do
      modify (Host.record · (.dumpRamdisk start size))
      match ramdiskKind image start with
      | some name => dump platform image start size name
      | none =>
          if matchesAt image start mtkMagic then
            match mtkFlag image start with
            | some flag => do
                dump platform image start 0 flag
                dump platform image start 0 .ramdiskMtk
                dumpRamdisk platform image fuel (start + 512) (abi.sizeOf (size - 512))
            | none => throw .exitOne
          else do
            dump platform image start size .ramdisk
            throw .abort) := by
  have gzipMapped : start + gzipMagic.length ≤ mappedLength image := by
    change start + 4 ≤ _
    omega
  have lzmaMapped : start + lzmaMagic.length ≤ mappedLength image := by
    change start + 3 ≤ _
    omega
  have mtkMapped : start + mtkMagic.length ≤ mappedLength image := by
    change start + 4 ≤ _
    omega
  have recoveryMapped : start + 8 + recoveryName.length ≤ mappedLength image := by
    change start + 8 + 8 ≤ _
    omega
  have rootfsMapped : start + 8 + rootfsName.length ≤ mappedLength image := by
    change start + 8 + 8 ≤ _
    omega
  have name : abi.pointer start 8 = start + 8 := Nat.mod_eq_of_lt (by omega)
  have next : abi.pointer start 512 = start + 512 := Nat.mod_eq_of_lt near
  rw [dumpRamdisk, memcmp_mapped gzipMapped, memcmp_mapped lzmaMapped, memcmp_mapped mtkMapped]
  unfold dumpMtkName ramdiskKind mtkFlag
  rw [name, next, memcmp_mapped recoveryMapped, memcmp_mapped rootfsMapped]
  simp only [pure_bind]
  congr 1
  funext _
  cases matchesAt image start gzipMagic with
  | true => rfl
  | false =>
      cases matchesAt image start lzmaMagic with
      | true => rfl
      | false =>
          cases matchesAt image start mtkMagic with
          | false => rfl
          | true =>
              cases matchesAt image (start + 8) recoveryName with
              | true => rfl
              | false =>
                  cases matchesAt image (start + 8) rootfsName with
                  | true => rfl
                  | false => rfl

/-! ### Sections that decide every comparison -/

/-- No magic number or name is cut off by the end of the section, nor is a header that will
be peeled. -/
inductive SelfContained : List UInt8 → Prop
  | plain {bytes : List UInt8} (gzip : ¬ EndsInside bytes gzipMagic)
      (lzma : ¬ EndsInside bytes lzmaMagic) (mtk : ¬ EndsInside bytes mtkMagic)
      (unheaded : sectionKind bytes = none → ¬ mtkMagic <+: bytes) :
      SelfContained bytes
  | unnamed {bytes : List UInt8} (unknown : sectionKind bytes = none) (mtk : mtkMagic <+: bytes)
      (recovery : ¬ EndsInside (bytes.drop 8) recoveryName)
      (rootfs : ¬ EndsInside (bytes.drop 8) rootfsName) (flag : sectionFlag bytes = none) :
      SelfContained bytes
  | peeled {bytes : List UInt8} {flag : FileName} (unknown : sectionKind bytes = none)
      (mtk : mtkMagic <+: bytes) (named : sectionFlag bytes = some flag)
      (whole : 512 ≤ bytes.length) (rest : SelfContained (bytes.drop 512)) :
      SelfContained bytes

/-- The bytes of a file from an address on begin with a section. -/
structure SectionAt (abi : Abi) (image : List UInt8) (start : Nat) (bytes : List UInt8) :
    Prop where
  aligned : 256 ∣ start
  mappable : image.length < abi.signBit
  inside : ∃ front behind, image = front ++ bytes ++ behind ∧ front.length = start

theorem SectionAt.begins {start : Nat} {bytes : List UInt8}
    (holds : SectionAt abi image start bytes) :
    ∃ behind, image.drop start = bytes ++ behind := by
  obtain ⟨front, behind, rfl, rfl⟩ := holds.inside
  refine ⟨behind, ?_⟩
  rw [List.append_assoc, List.drop_left]

theorem SectionAt.rest {start : Nat} {bytes : List UInt8}
    (holds : SectionAt abi image start bytes) (whole : 512 ≤ bytes.length) :
    SectionAt abi image (start + 512) (bytes.drop 512) := by
  obtain ⟨front, behind, same, length⟩ := holds.inside
  refine ⟨?_, holds.mappable, front ++ bytes.take 512, behind, ?_, ?_⟩
  · exact Nat.dvd_add holds.aligned (by decide)
  · rw [same, List.append_assoc front (bytes.take 512), List.take_append_drop]
  · rw [List.length_append, List.length_take, length, Nat.min_eq_left whole]

theorem SectionAt.length_le {start : Nat} {bytes : List UInt8}
    (holds : SectionAt abi image start bytes) : start + bytes.length ≤ image.length := by
  obtain ⟨front, behind, rfl, rfl⟩ := holds.inside
  rw [List.length_append, List.length_append]
  exact Nat.le_add_right _ _

/-- A block in which the section has a byte is mapped. -/
theorem SectionAt.mapped {start : Nat} {bytes : List UInt8}
    (holds : SectionAt abi image start bytes) (nonempty : bytes ≠ []) :
    start + 16 ≤ mappedLength image ∧ start + 512 < 2 ^ abi.bits := by
  have positive := List.length_pos_of_ne_nil nonempty
  have length := holds.length_le
  have below := length_le_mappedLength image
  have block := block_mapped image start holds.aligned (by omega)
  have short := holds.mappable
  have limits := abi.modulus_signBit
  omega

theorem SectionAt.decided_mapped (holds : SectionAt abi image start bytes)
    (gzip : ¬ EndsInside bytes gzipMagic) :
    start + 16 ≤ mappedLength image ∧ start + 512 < 2 ^ abi.bits := by
  apply holds.mapped
  rintro rfl
  exact gzip (by decide)

/-! ### Only the section decides -/

theorem not_endsInside {word pattern : List UInt8} (long : pattern.length ≤ word.length) :
    ¬ EndsInside word pattern :=
  fun ends => absurd ends.2 (Nat.not_lt_of_le long)

/-- Nothing is left to decide about a magic number that is all there. -/
theorem kinds_decided {bytes : List UInt8} (long : 4 ≤ bytes.length) :
    ¬ EndsInside bytes gzipMagic ∧ ¬ EndsInside bytes lzmaMagic ∧ ¬ EndsInside bytes mtkMagic :=
  ⟨not_endsInside long, not_endsInside (Nat.le_of_succ_le long), not_endsInside long⟩

section Section

variable {start : Nat} {bytes : List UInt8}

theorem ramdiskKind_of_begins {behind : List UInt8}
    (begins : image.drop start = bytes ++ behind)
    (gzip : ¬ EndsInside bytes gzipMagic) (lzma : ¬ EndsInside bytes lzmaMagic) :
    ramdiskKind image start = sectionKind bytes := by
  unfold ramdiskKind sectionKind
  rw [matchesAt_of_begins begins gzip, matchesAt_of_begins begins lzma]
  simp only [decide_eq_true_eq]

theorem mtkFlag_of_begins {behind : List UInt8} (begins : image.drop start = bytes ++ behind)
    (recovery : ¬ EndsInside (bytes.drop 8) recoveryName)
    (rootfs : ¬ EndsInside (bytes.drop 8) rootfsName) :
    mtkFlag image start = sectionFlag bytes := by
  have long : 8 ≤ bytes.length := by
    by_contra short
    have empty : bytes.drop 8 = [] := List.drop_eq_nil_of_le (by omega)
    rw [empty] at recovery
    exact recovery (by decide)
  have named : image.drop (start + 8) = bytes.drop 8 ++ behind := by
    rw [← List.drop_drop, begins, List.drop_append_of_le_length long]
  unfold mtkFlag sectionFlag
  rw [matchesAt_of_begins named recovery, matchesAt_of_begins named rootfs]
  simp only [decide_eq_true_eq]

theorem SectionAt.dump_eq (holds : SectionAt abi image start bytes) (steady : platform.Steady)
    (name : FileName) :
    dump platform image start bytes.length name = dumpSection platform bytes start name := by
  have inside := holds.length_le
  have below := length_le_mappedLength image
  unfold dump dumpSection
  rw [steady name (mappedLength image - start) bytes.length (by omega)]
  obtain ⟨behind, begins⟩ := holds.begins
  have stored : window image start
      ((platform.write name bytes.length bytes.length).getD 0) =
        bytes.take ((platform.write name bytes.length bytes.length).getD 0) := by
    have moved : (platform.write name bytes.length bytes.length).getD 0 ≤ bytes.length := by
      cases outcome : platform.write name bytes.length bytes.length with
      | none => exact Nat.zero_le _
      | some count => exact (platform.write_le _ _ _ _ outcome).1
    rw [window_eq_take_drop _ _ _ (by omega), begins, List.take_append_of_le_length moved]
  simp only [stored]

theorem dump_flag_eq (image : List UInt8) (start : Nat) (steady : platform.Steady)
    (name : FileName) :
    dump platform image start 0 name = dumpSection platform [] start name := by
  have nothing : window image start ((platform.write name 0 0).getD 0) = [] := by
    apply List.eq_nil_of_length_eq_zero
    rw [length_window]
    cases outcome : platform.write name 0 0 with
    | none => rfl
    | some count => exact Nat.le_zero.mp (platform.write_le _ _ _ _ outcome).1
  unfold dump dumpSection
  rw [steady name _ 0 (Nat.zero_le _)]
  simp only [List.length_nil, List.take_nil, nothing]

/-- A section that decides every comparison is peeled as its own bytes say. -/
theorem SelfContained.dumpRamdisk_eq (contained : SelfContained bytes)
    (holds : SectionAt abi image start bytes) (steady : platform.Steady) {fuel : Nat}
    (enough : bytes.length < 512 * fuel) :
    dumpRamdisk platform image fuel start bytes.length =
      peelSection platform (bytes.length / 512 + 1) bytes start := by
  induction contained generalizing start fuel with
  | @plain bytes gzip lzma mtk unheaded =>
      obtain ⟨fuel, rfl⟩ : ∃ less, fuel = less + 1 := ⟨fuel - 1, by omega⟩
      obtain ⟨mapped, near⟩ := holds.decided_mapped gzip
      obtain ⟨behind, begins⟩ := holds.begins
      rw [dumpRamdisk_succ fuel _ mapped near, peelSection, ramdiskKind_of_begins begins gzip lzma]
      cases kind : sectionKind bytes with
      | some name => simp only [holds.dump_eq steady]
      | none =>
          simp only [matchesAt_of_begins begins mtk, decide_eq_true_eq, if_neg (unheaded kind),
            holds.dump_eq steady]
  | @unnamed bytes unknown mtk recovery rootfs flag =>
      obtain ⟨fuel, rfl⟩ : ∃ less, fuel = less + 1 := ⟨fuel - 1, by omega⟩
      obtain ⟨gzip, lzma, whole⟩ := kinds_decided mtk.length_le
      obtain ⟨mapped, near⟩ := holds.decided_mapped gzip
      obtain ⟨behind, begins⟩ := holds.begins
      rw [dumpRamdisk_succ fuel _ mapped near, peelSection, ramdiskKind_of_begins begins gzip lzma,
        unknown, matchesAt_of_begins begins whole, mtkFlag_of_begins begins recovery rootfs, flag]
      simp only [decide_eq_true_eq, if_pos mtk]
  | @peeled bytes flag unknown mtk named whole rest ih =>
      obtain ⟨fuel, rfl⟩ : ∃ less, fuel = less + 1 := ⟨fuel - 1, by omega⟩
      obtain ⟨gzip, lzma, decided⟩ := kinds_decided mtk.length_le
      obtain ⟨mapped, near⟩ := holds.decided_mapped gzip
      obtain ⟨behind, begins⟩ := holds.begins
      have long : 8 ≤ (bytes.drop 8).length := by
        rw [List.length_drop]
        omega
      have remaining : abi.sizeOf ((bytes.length : Int) - 512) = (bytes.drop 512).length := by
        have short := holds.length_le
        have mappable := holds.mappable
        have limits := abi.modulus_signBit
        rw [List.length_drop]
        unfold Abi.sizeOf
        rcases abi.bits_cases with same | same <;> (rw [same] at limits ⊢; omega)
      have fuels : bytes.length / 512 = (bytes.drop 512).length / 512 + 1 := by
        rw [List.length_drop]
        omega
      have inner := @ih (start + 512) (holds.rest whole) fuel (by rw [List.length_drop]; omega)
      rw [dumpRamdisk_succ fuel _ mapped near, peelSection, ramdiskKind_of_begins begins gzip lzma,
        unknown, matchesAt_of_begins begins decided,
        mtkFlag_of_begins begins (not_endsInside long) (not_endsInside long), named, fuels]
      simp only [decide_eq_true_eq, if_pos mtk, dump_flag_eq _ _ steady, remaining, inner]

end Section

end SuperBootimg.Concrete.Extract
