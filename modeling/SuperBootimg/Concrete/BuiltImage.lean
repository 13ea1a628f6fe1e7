/-
The image repack.c builds: the original header with new sizes, then the padded
sections. The running file, cut or extended to the position, is at every step
the header page followed by the sections appended so far.
-/

import SuperBootimg.Concrete.RepackSteps

namespace SuperBootimg.Concrete

open ByteImage PagedLayout

/-! ### Header pages -/

def HdrField.sizes : List HdrField :=
  [.kernelSize, .ramdiskSize, .secondSize, .unused0]

theorem HdrField.sizes_bounds (field : HdrField) (member : field ∈ sizes) :
    field.offset + 4 ≤ 44 ∧ (field.offset + 4 ≤ 36 ∨ 40 ≤ field.offset) := by
  cases field <;> revert member <;> decide

theorem length_setHdrWord (image : List UInt8) (field : HdrField) (value : Nat)
    (inside : field.offset + 4 ≤ image.length) :
    (setHdrWord image field value).length = image.length :=
  length_patch_inside _ _ _ (by rw [length_littleEndian]; exact inside)

theorem hdrWord_setHdrWord_same (image : List UInt8) (field : HdrField) (value : Nat)
    (small : value < 4294967296) : hdrWord (setHdrWord image field value) 0 field = value := by
  unfold hdrWord setHdrWord
  rw [Nat.zero_add, word_patch_self]
  exact Nat.mod_eq_of_lt small

theorem hdrWord_setHdrWord_other (image : List UInt8) (field other : HdrField) (value : Nat)
    (apart : other.offset + 4 ≤ field.offset ∨ field.offset + 4 ≤ other.offset) :
    hdrWord (setHdrWord image field value) 0 other = hdrWord image 0 other := by
  unfold hdrWord setHdrWord
  rw [Nat.zero_add]
  exact word_patch_disjoint _ _ _ _ _ (by rw [length_littleEndian]; exact apart)

theorem setHdrWord_self (image : List UInt8) (field : HdrField)
    (inside : field.offset + 4 ≤ image.length) :
    setHdrWord image field (hdrWord image 0 field) = image := by
  unfold hdrWord setHdrWord
  rw [Nat.zero_add]
  exact patch_word_self image field.offset 4 inside

theorem hdrWord_patchAll (image : List UInt8) (field : HdrField) (value : Nat)
    (before after : List (Nat × List UInt8)) (small : value < 4294967296)
    (apart : ∀ edit, edit ∈ after →
      field.offset + 4 ≤ edit.1 ∨ edit.1 + edit.2.length ≤ field.offset) :
    hdrWord (patchAll image (before ++ (field.offset, littleEndian 4 value) :: after)) 0 field =
      value := by
  have seen := window_patchAll image (littleEndian 4 value) field.offset before after
    (by rw [length_littleEndian]; exact apart)
  rw [length_littleEndian] at seen
  unfold hdrWord word
  rw [Nat.zero_add, seen, leValue_littleEndian]
  exact Nat.mod_eq_of_lt small

def headerPage (orig : List UInt8) (base : Nat) : List UInt8 :=
  resize (window orig base hdrSize) (hdrWord orig base .pageSize)

def clearedHeader (header : List UInt8) : List UInt8 :=
  patchAll header [(HdrField.kernelSize.offset, littleEndian 4 0),
    (HdrField.ramdiskSize.offset, littleEndian 4 0),
    (HdrField.secondSize.offset, littleEndian 4 0), (HdrField.unused0.offset, littleEndian 4 0),
    (HdrField.id.offset, List.replicate HdrField.id.size 0)]

def sizedHeader (header : List UInt8) (kernelSize ramdiskSize secondSize dtSize : Nat) :
    List UInt8 :=
  patchAll header [(HdrField.kernelSize.offset, littleEndian 4 kernelSize),
    (HdrField.ramdiskSize.offset, littleEndian 4 ramdiskSize),
    (HdrField.secondSize.offset, littleEndian 4 secondSize),
    (HdrField.unused0.offset, littleEndian 4 dtSize)]

def builtHeader (orig : List UInt8) (base kernelSize ramdiskSize secondSize dtSize : Nat) :
    List UInt8 :=
  sizedHeader (clearedHeader (headerPage orig base)) kernelSize ramdiskSize secondSize dtSize

/-- The image bootimg.h describes, with the header page of an original. An absent
section is an empty one. -/
def builtImage (orig : List UInt8) (base : Nat) (kernel ramdisk second dt : List UInt8) :
    List UInt8 :=
  builtHeader orig base kernel.length ramdisk.length second.length dt.length ++
    compose (hdrWord orig base .pageSize) [kernel, ramdisk, second, dt]

theorem length_headerPage (orig : List UInt8) (base : Nat) :
    (headerPage orig base).length = hdrWord orig base .pageSize :=
  length_resize _ _

theorem hdrWord_headerPage (orig : List UInt8) (base : Nat) (field : HdrField)
    (inside : field.offset + 4 ≤ hdrSize) (valid : PageSize (hdrWord orig base .pageSize)) :
    hdrWord (headerPage orig base) 0 field = hdrWord orig base field := by
  have bounds := valid.bounds
  unfold hdrSize at inside
  apply word_congr
  intro index within
  unfold headerPage hdrSize
  rw [read_resize, if_pos (by omega), read_window, if_pos (by omega)]
  congr 1
  omega

theorem length_clearedHeader (header : List UInt8) (fits : hdrSize ≤ header.length) :
    (clearedHeader header).length = header.length := by
  unfold hdrSize at fits
  apply length_patchAll
  simp only [List.mem_cons, List.not_mem_nil, or_false, forall_eq_or_imp, forall_eq,
    length_littleEndian, List.length_replicate, HdrField.offset, HdrField.size]
  omega

/-- Outside the size fields and the id nothing is cleared. -/
def HdrField.Untouched (index : Nat) : Prop :=
  index < 8 ∨ (12 ≤ index ∧ index < 16) ∨ (20 ≤ index ∧ index < 24) ∨
    (28 ≤ index ∧ index < 40) ∨ (44 ≤ index ∧ index < 576) ∨ 608 ≤ index

theorem read_clearedHeader (header : List UInt8) (index : Nat)
    (untouched : HdrField.Untouched index) :
    read (clearedHeader header) index = read header index := by
  unfold HdrField.Untouched at untouched
  apply read_patchAll_outside
  simp only [List.mem_cons, List.not_mem_nil, or_false, forall_eq_or_imp, forall_eq,
    length_littleEndian, List.length_replicate, HdrField.offset, HdrField.size]
  omega

theorem hdrWord_clearedHeader (header : List UInt8) (field : HdrField)
    (member : field ∈ HdrField.sizes) : hdrWord (clearedHeader header) 0 field = 0 := by
  simp only [HdrField.sizes, List.mem_cons, List.not_mem_nil, or_false] at member
  rcases member with rfl | rfl | rfl | rfl
  · exact hdrWord_patchAll header .kernelSize 0 [] _ (by decide) (by decide)
  · exact hdrWord_patchAll header .ramdiskSize 0 [(8, littleEndian 4 0)] _ (by decide) (by decide)
  · exact hdrWord_patchAll header .secondSize 0 [(8, littleEndian 4 0), (16, littleEndian 4 0)] _
      (by decide) (by decide)
  · exact hdrWord_patchAll header .unused0 0
      [(8, littleEndian 4 0), (16, littleEndian 4 0), (24, littleEndian 4 0)] _
      (by decide) (by decide)

theorem read_sizedHeader (header : List UInt8)
    (kernelSize ramdiskSize secondSize dtSize index : Nat)
    (outside : HdrField.Untouched index ∨ (576 ≤ index ∧ index < 608)) :
    read (sizedHeader header kernelSize ramdiskSize secondSize dtSize) index =
      read header index := by
  unfold HdrField.Untouched at outside
  apply read_patchAll_outside
  simp only [List.mem_cons, List.not_mem_nil, or_false, forall_eq_or_imp, forall_eq,
    length_littleEndian, HdrField.offset]
  omega

theorem hdrWord_sizedHeader (header : List UInt8) (kernelSize ramdiskSize secondSize dtSize : Nat)
    (kernelSmall : kernelSize < 4294967296) (ramdiskSmall : ramdiskSize < 4294967296)
    (secondSmall : secondSize < 4294967296) (dtSmall : dtSize < 4294967296) :
    hdrWord (sizedHeader header kernelSize ramdiskSize secondSize dtSize) 0 .kernelSize =
        kernelSize ∧
      hdrWord (sizedHeader header kernelSize ramdiskSize secondSize dtSize) 0 .ramdiskSize =
        ramdiskSize ∧
      hdrWord (sizedHeader header kernelSize ramdiskSize secondSize dtSize) 0 .secondSize =
        secondSize ∧
      hdrWord (sizedHeader header kernelSize ramdiskSize secondSize dtSize) 0 .unused0 =
        dtSize := by
  have kernelLast : sizedHeader header kernelSize ramdiskSize secondSize dtSize =
      setHdrWord (setHdrWord (setHdrWord (setHdrWord header .kernelSize kernelSize)
        .ramdiskSize ramdiskSize) .secondSize secondSize) .unused0 dtSize := rfl
  rw [kernelLast]
  refine ⟨?_, ?_, ?_, hdrWord_setHdrWord_same _ _ _ dtSmall⟩
  · rw [hdrWord_setHdrWord_other _ _ _ _ (by decide), hdrWord_setHdrWord_other _ _ _ _ (by decide),
      hdrWord_setHdrWord_other _ _ _ _ (by decide), hdrWord_setHdrWord_same _ _ _ kernelSmall]
  · rw [hdrWord_setHdrWord_other _ _ _ _ (by decide), hdrWord_setHdrWord_other _ _ _ _ (by decide),
      hdrWord_setHdrWord_same _ _ _ ramdiskSmall]
  · rw [hdrWord_setHdrWord_other _ _ _ _ (by decide), hdrWord_setHdrWord_same _ _ _ secondSmall]

section BuiltHeader

variable (orig : List UInt8) (base kernelSize ramdiskSize secondSize dtSize : Nat)

theorem length_builtHeader (valid : PageSize (hdrWord orig base .pageSize)) :
    (builtHeader orig base kernelSize ramdiskSize secondSize dtSize).length =
      hdrWord orig base .pageSize := by
  have bounds := valid.bounds
  have cleared := length_clearedHeader (headerPage orig base)
    (by rw [length_headerPage]; unfold hdrSize; omega)
  rw [length_headerPage] at cleared
  rw [← cleared]
  apply length_patchAll
  simp only [List.mem_cons, List.not_mem_nil, or_false, forall_eq_or_imp, forall_eq,
    length_littleEndian, HdrField.offset]
  omega

theorem read_builtHeader (index : Nat) (untouched : HdrField.Untouched index) :
    read (builtHeader orig base kernelSize ramdiskSize secondSize dtSize) index =
      read (headerPage orig base) index := by
  unfold builtHeader
  rw [read_sizedHeader _ _ _ _ _ _ (.inl untouched), read_clearedHeader _ _ untouched]

theorem read_builtHeader_id (index : Nat) (inside : 576 ≤ index ∧ index < 608) :
    read (builtHeader orig base kernelSize ramdiskSize secondSize dtSize) index = 0 := by
  unfold builtHeader
  rw [read_sizedHeader _ _ _ _ _ _ (.inr inside)]
  have seen := window_patchAll (headerPage orig base) (List.replicate 32 (0 : UInt8)) 576
    [(8, littleEndian 4 0), (16, littleEndian 4 0), (24, littleEndian 4 0),
      (40, littleEndian 4 0)] [] (by simp)
  rw [window_eq_iff] at seen
  have zero := seen (index - 576) (by rw [List.length_replicate]; omega)
  rw [read_replicate_fill, Nat.add_sub_cancel' inside.1] at zero
  exact zero

theorem hdrWord_builtHeader_pageSize (valid : PageSize (hdrWord orig base .pageSize)) :
    hdrWord (builtHeader orig base kernelSize ramdiskSize secondSize dtSize) 0 .pageSize =
      hdrWord orig base .pageSize := by
  rw [← hdrWord_headerPage orig base .pageSize (by decide) valid]
  apply word_congr
  intro index within
  apply read_builtHeader
  unfold HdrField.Untouched
  simp only [HdrField.offset]
  omega

theorem hdrWord_builtHeader_sizes (kernelSmall : kernelSize < 4294967296)
    (ramdiskSmall : ramdiskSize < 4294967296) (secondSmall : secondSize < 4294967296)
    (dtSmall : dtSize < 4294967296) :
    hdrWord (builtHeader orig base kernelSize ramdiskSize secondSize dtSize) 0 .kernelSize =
        kernelSize ∧
      hdrWord (builtHeader orig base kernelSize ramdiskSize secondSize dtSize) 0 .ramdiskSize =
        ramdiskSize ∧
      hdrWord (builtHeader orig base kernelSize ramdiskSize secondSize dtSize) 0 .secondSize =
        secondSize ∧
      hdrWord (builtHeader orig base kernelSize ramdiskSize secondSize dtSize) 0 .unused0 =
        dtSize :=
  hdrWord_sizedHeader _ _ _ _ _ kernelSmall ramdiskSmall secondSmall dtSmall

end BuiltHeader

end SuperBootimg.Concrete
