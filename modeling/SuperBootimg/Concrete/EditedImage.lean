/-
A boot image whose ramdisk is replaced: bootimg-extract takes it apart, the payload of its
ramdisk is exchanged, and bootimg-repack builds an image that carries the same sections
otherwise. Whatever stands behind the new image belongs to none of them.
-/

import SuperBootimg.Concrete.CanonicalImage

namespace SuperBootimg.Concrete

open ByteImage PagedLayout Extract

/-- What bootimg-extract finds in an image. -/
structure Parts where
  kernel : List UInt8
  /-- the payload of the ramdisk, and the name that its file gets -/
  payload : List UInt8
  name : FileName
  wrapper : MtkWrapper
  second : List UInt8
  dt : List UInt8

namespace Parts

def ramdisk (parts : Parts) : List UInt8 :=
  parts.wrapper.wrap parts.payload

def withRamdisk (parts : Parts) (payload : List UInt8) (name : FileName) : Parts :=
  { parts with payload := payload, name := name }

def length (parts : Parts) (page : Nat) : Nat :=
  Repack.builtLength page parts.kernel.length parts.ramdisk.length parts.second.length
    parts.dt.length

def built (parts : Parts) (image : List UInt8) (base : Nat) : List UInt8 :=
  builtImage image base parts.kernel parts.ramdisk parts.second parts.dt

def files (parts : Parts) (secure chromeos : Bool) : Directory :=
  restored parts.kernel parts.payload parts.second parts.dt parts.wrapper parts.name secure chromeos

/-- The files of an image, with another payload in the place that repack reads. -/
def edited (parts : Parts) (secure chromeos : Bool) (payload : List UInt8) : Directory :=
  (parts.files secure chromeos).store .ramdiskGz payload

end Parts

structure Carries (abi : Abi) (image : List UInt8) (base : Nat) (parts : Parts) : Prop where
  located : Located abi image base
  holds : Holds image base parts.kernel parts.ramdisk parts.second parts.dt
  named : PayloadName parts.payload parts.name
  recognised : parts.dt = [] ∨ ∃ magic, magic ∈ dtMagics ∧ magic <+: parts.dt
  unsigned : signed image base = false

/-! ### The edited files -/

namespace Parts

variable {parts : Parts} {secure chromeos : Bool} {payload : List UInt8}

theorem edited_other {file : FileName} (different : file ≠ .ramdiskGz) :
    parts.edited secure chromeos payload file = parts.files secure chromeos file :=
  Directory.store_other _ _ _ _ different

theorem edited_ramdisk :
    (parts.edited secure chromeos payload).openRead .ramdiskGz = some payload :=
  Directory.openRead_store_same _ _ _

theorem edited_kernel :
    (parts.edited secure chromeos payload).openRead .kernel = some parts.kernel := by
  apply Directory.openRead_of_file
  rw [edited_other (by decide)]
  rfl

theorem getD_openRead {dir : Directory} {file : FileName} {bytes : List UInt8}
    (found : dir file = if bytes = [] then none else some { bytes := bytes, readable := true }) :
    (dir.openRead file).getD [] = bytes := by
  by_cases empty : bytes = []
  · rw [if_pos empty] at found
    rw [Directory.openRead_of_missing found, empty]
    rfl
  · rw [if_neg empty] at found
    rw [Directory.openRead_of_file found]
    rfl

/-- A file that belongs neither to the kernel nor to the ramdisk. -/
theorem edited_optional (named : PayloadName parts.payload parts.name) {file : FileName}
    (other : file ∉ ramdiskNames) (different : file ≠ .kernel) :
    parts.edited secure chromeos payload file =
      if file = .second ∧ parts.second ≠ [] then some { bytes := parts.second, readable := true }
      else if file = .dt ∧ parts.dt ≠ [] then some { bytes := parts.dt, readable := true }
      else if file = .secure ∧ secure then some { bytes := [], readable := true }
      else if file = .chromeos ∧ chromeos then some { bytes := [], readable := true }
      else none := by
  have noGz : file ≠ .ramdiskGz := by
    rintro rfl
    exact other (by decide)
  have noPayload : file ≠ parts.name := by
    rintro rfl
    exact other named.member
  have noFlag : file ∉ parts.wrapper.flags := fun flag => other (parts.wrapper.flags_member flag)
  rw [edited_other noGz]
  unfold files restored
  rw [if_neg different, if_neg noPayload, if_neg noFlag]

theorem edited_second (named : PayloadName parts.payload parts.name) :
    ((parts.edited secure chromeos payload).openRead .second).getD [] = parts.second := by
  apply getD_openRead
  rw [edited_optional named (by decide) (by decide)]
  by_cases empty : parts.second = []
  · simp [empty]
  · simp [empty]

theorem edited_dt (named : PayloadName parts.payload parts.name) :
    ((parts.edited secure chromeos payload).openRead .dt).getD [] = parts.dt := by
  apply getD_openRead
  rw [edited_optional named (by decide) (by decide)]
  by_cases empty : parts.dt = []
  · simp [empty]
  · simp [empty]

theorem edited_unchecked (named : PayloadName parts.payload parts.name) :
    (parts.edited secure chromeos payload).access .rkcrc = false := by
  have missing : parts.edited secure chromeos payload .rkcrc = none := by
    rw [edited_optional named (by decide) (by decide)]
    simp
  unfold Directory.access
  rw [Directory.openRead_of_missing missing]
  rfl

/-- A flag is there where the wrapper has it. -/
theorem edited_flag (named : PayloadName parts.payload parts.name) {flag : FileName}
    (marks : flag ∈ MtkWrapper.boot.flags ++ MtkWrapper.recovery.flags) :
    (parts.edited secure chromeos payload).access flag = decide (flag ∈ parts.wrapper.flags) := by
  have member : flag ∈ ramdiskNames := by
    rcases List.mem_append.mp marks with boot | recovery
    · exact MtkWrapper.flags_member .boot boot
    · exact MtkWrapper.flags_member .recovery recovery
  have noGz : flag ≠ .ramdiskGz := by
    revert marks
    cases flag <;> decide
  have noPayload : ∀ {bytes : List UInt8} {name : FileName}, PayloadName bytes name →
      flag ≠ name := by
    intro bytes name named
    revert marks
    cases named <;> cases flag <;> decide
  have flagged : parts.edited secure chromeos payload flag =
      if flag ∈ parts.wrapper.flags then some { bytes := [], readable := true } else none := by
    rw [edited_other noGz]
    unfold files
    rw [restored_ramdisk member, if_neg (noPayload named)]
  unfold Directory.access
  by_cases listed : flag ∈ parts.wrapper.flags
  · rw [if_pos listed] at flagged
    rw [Directory.openRead_of_file flagged, decide_eq_true listed]
    rfl
  · rw [if_neg listed] at flagged
    rw [Directory.openRead_of_missing flagged, decide_eq_false listed]
    rfl

theorem edited_ramdiskSection (named : PayloadName parts.payload parts.name) :
    Repack.ramdiskSection (parts.edited secure chromeos payload) =
      some (parts.wrapper.wrap payload) := by
  have mtk := @edited_flag parts secure chromeos payload named .ramdiskMtk (by decide)
  have boot := @edited_flag parts secure chromeos payload named .ramdiskMtkBoot (by decide)
  have recovery := @edited_flag parts secure chromeos payload named .ramdiskMtkRecovery (by decide)
  have same : wrapperOf (parts.edited secure chromeos payload) = parts.wrapper := by
    unfold wrapperOf
    rw [mtk, boot]
    cases parts.wrapper <;> rfl
  rw [ramdiskSection_eq payload edited_ramdisk, same]
  intro flagged
  rw [boot, recovery]
  rw [mtk] at flagged
  cases wrapper : parts.wrapper with
  | none =>
      rw [wrapper] at flagged
      cases flagged
  | boot => rfl
  | recovery => rfl

end Parts

/-! ### Images that carry parts -/

section Carried

variable {abi : Abi} {platform : Platform abi} {image : List UInt8} {base : Nat} {parts : Parts}

theorem Carries.extracted (carries : Carries abi image base parts)
    (complete : platform.Complete) :
    ∃ secure chromeos,
      extract platform image .empty = { stop := none, dir := parts.files secure chromeos } :=
  ⟨_, _, extract_of_holds complete carries.located carries.holds carries.named carries.recognised
    carries.unsigned⟩

/-- With another payload in place of the ramdisk's, repack builds the image again. -/
theorem Carries.repacked (carries : Carries abi image base parts) (complete : platform.Complete)
    (short : platform.ShortWrites) (secure chromeos : Bool) (payload : List UInt8)
    (name : FileName)
    (total : (parts.withRamdisk payload name).length (pageOf image base) < 2147483648) :
    repack platform image (parts.edited secure chromeos payload) =
      { stop := none
        dir := (parts.edited secure chromeos payload).store .newBoot
          ((parts.withRamdisk payload name).built image base) } := by
  have accepted := (Repack.accepted_iff abi image base).mpr
    ⟨carries.located.representable, carries.located.header, carries.located.pageSize⟩
  have second := @Parts.edited_second parts secure chromeos payload carries.named
  have dt := @Parts.edited_dt parts secure chromeos payload carries.named
  have built := repack_builds complete short accepted Parts.edited_kernel
    (Parts.edited_ramdiskSection carries.named) (by rw [second, dt]; exact total)
    (Parts.edited_unchecked carries.named)
  rw [second, dt] at built
  exact built

/-- An image that is built from these parts carries them, whatever stands behind it. -/
theorem Carries.built (carries : Carries abi image base parts) {other : Parts}
    (named : PayloadName other.payload other.name)
    (recognised : other.dt = [] ∨ ∃ magic, magic ∈ dtMagics ∧ magic <+: other.dt)
    (total : other.length (pageOf image base) < 2147483648) (trailer : List UInt8)
    (mappable : (other.built image base ++ trailer).length < abi.signBit) :
    Carries abi (other.built image base ++ trailer) 0 other := by
  have valid := carries.located.pageSize
  have clear : ∀ offset, 256 ∣ offset → matchesAt [] offset bootMagic = false := by
    intro offset _
    apply matchesAt_of_head_ne _ (by decide)
    rw [read_nil]
    decide
  have located := @builtImage_located image [] trailer base other.kernel other.ramdisk other.second
    other.dt abi carries.located.header valid (Nat.dvd_zero _) clear
    (by rw [List.nil_append]; exact mappable)
  have holds := builtImage_holds [] trailer other.kernel other.ramdisk other.second other.dt valid
    total
  have unsigned := @builtImage_signed image [] trailer base other.kernel other.ramdisk other.second
    other.dt valid
  rw [List.nil_append] at located holds unsigned
  exact
    { located := located
      holds := holds
      named := named
      recognised := recognised
      unsigned := unsigned.trans carries.unsigned }

end Carried

/-! ### Building from a built image -/

section Again

variable {orig trailer kernel ramdisk second dt : List UInt8} {base : Nat}

/-- A header that was filled in is the one that it was made from, but for sizes and id. -/
theorem read_headerPage_built (valid : PageSize (hdrWord orig base .pageSize)) (index : Nat)
    (kept : HdrField.Untouched index) :
    read (headerPage (builtImage orig base kernel ramdisk second dt ++ trailer) 0) index =
      read (headerPage orig base) index := by
  have bounds := valid.bounds
  have page := pageOf_wrapped [] trailer kernel ramdisk second dt valid
  have same := read_wrapped_kept [] trailer kernel ramdisk second dt valid index kept
  simp only [List.nil_append, List.length_nil, Nat.zero_add, pageOf] at page same
  unfold headerPage
  rw [page, read_resize, read_resize, read_window, read_window, Nat.zero_add]
  by_cases declared : index < hdrSize
  · rw [if_pos declared, if_pos declared, same declared]
  · rw [if_neg declared, if_neg declared]

theorem builtHeader_again (valid : PageSize (hdrWord orig base .pageSize))
    {kernelSize ramdiskSize secondSize dtSize : Nat} (kernelSmall : kernelSize < 4294967296)
    (ramdiskSmall : ramdiskSize < 4294967296) (secondSmall : secondSize < 4294967296)
    (dtSmall : dtSize < 4294967296) :
    builtHeader (builtImage orig base kernel ramdisk second dt ++ trailer) 0 kernelSize
        ramdiskSize secondSize dtSize =
      builtHeader orig base kernelSize ramdiskSize secondSize dtSize := by
  have page := pageOf_wrapped [] trailer kernel ramdisk second dt valid
  simp only [List.nil_append, List.length_nil, pageOf] at page
  have again : PageSize (hdrWord (builtImage orig base kernel ramdisk second dt ++ trailer) 0
      .pageSize) := by
    rw [page]
    exact valid
  have left := hdrWord_builtHeader_sizes
    (builtImage orig base kernel ramdisk second dt ++ trailer) 0 kernelSize ramdiskSize
    secondSize dtSize kernelSmall ramdiskSmall secondSmall dtSmall
  have right := hdrWord_builtHeader_sizes orig base kernelSize ramdiskSize secondSize dtSize
    kernelSmall ramdiskSmall secondSmall dtSmall
  apply ext_read
  · rw [length_builtHeader _ _ _ _ _ _ again, length_builtHeader _ _ _ _ _ _ valid, page]
  · intro index _
    by_cases untouched : HdrField.Untouched index
    · rw [read_builtHeader _ _ _ _ _ _ _ untouched, read_builtHeader _ _ _ _ _ _ _ untouched,
        read_headerPage_built valid index untouched]
    · by_cases id : 576 ≤ index ∧ index < 608
      · rw [read_builtHeader_id _ _ _ _ _ _ _ id, read_builtHeader_id _ _ _ _ _ _ _ id]
      · unfold HdrField.Untouched at untouched
        have field : (8 ≤ index ∧ index < 12) ∨ (16 ≤ index ∧ index < 20) ∨
            (24 ≤ index ∧ index < 28) ∨ (40 ≤ index ∧ index < 44) := by omega
        rcases field with here | here | here | here
        · exact read_of_hdrWord_eq .kernelSize (left.1.trans right.1.symm) index here
        · exact read_of_hdrWord_eq .ramdiskSize (left.2.1.trans right.2.1.symm) index here
        · exact read_of_hdrWord_eq .secondSize (left.2.2.1.trans right.2.2.1.symm) index here
        · exact read_of_hdrWord_eq .unused0 (left.2.2.2.trans right.2.2.2.symm) index here

/-- What is built from a built image depends on the image that this was built from only. -/
theorem builtImage_again (valid : PageSize (hdrWord orig base .pageSize))
    (newKernel newRamdisk newSecond newDt : List UInt8)
    (total : Repack.builtLength (hdrWord orig base .pageSize) newKernel.length newRamdisk.length
      newSecond.length newDt.length < 2147483648) :
    builtImage (builtImage orig base kernel ramdisk second dt ++ trailer) 0 newKernel newRamdisk
        newSecond newDt =
      builtImage orig base newKernel newRamdisk newSecond newDt := by
  have page := pageOf_wrapped [] trailer kernel ramdisk second dt valid
  simp only [List.nil_append, List.length_nil, pageOf] at page
  have kernelFits := le_roundUp valid.positive newKernel.length
  have ramdiskFits := le_roundUp valid.positive newRamdisk.length
  have secondFits := le_roundUp valid.positive newSecond.length
  have dtFits := le_roundUp valid.positive newDt.length
  simp only [Repack.builtLength, span] at total
  have header := @builtHeader_again orig trailer kernel ramdisk second dt base valid
    newKernel.length newRamdisk.length newSecond.length newDt.length (by omega) (by omega)
    (by omega) (by omega)
  unfold builtImage at page header ⊢
  rw [header, page]

theorem pageOf_built (valid : PageSize (hdrWord orig base .pageSize)) (parts : Parts) :
    pageOf (parts.built orig base ++ trailer) 0 = pageOf orig base := by
  have page := pageOf_wrapped [] trailer parts.kernel parts.ramdisk parts.second parts.dt valid
  rw [List.nil_append] at page
  exact page

theorem Parts.built_again (valid : PageSize (hdrWord orig base .pageSize)) (parts other : Parts)
    (total : other.length (pageOf orig base) < 2147483648) :
    other.built (parts.built orig base ++ trailer) 0 = other.built orig base :=
  builtImage_again valid other.kernel other.ramdisk other.second other.dt total

theorem Parts.length_built (valid : PageSize (hdrWord orig base .pageSize)) (parts : Parts) :
    (parts.built orig base).length = parts.length (pageOf orig base) :=
  length_builtImage _ _ _ _ valid

end Again

end SuperBootimg.Concrete
