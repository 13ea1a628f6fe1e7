/-
The packed `boot_img_hdr` of bootimg.h and the search for it that extract and
repack share.
-/

import SuperBootimg.FirstMatch
import SuperBootimg.Concrete.MachineWords

namespace SuperBootimg.Concrete

open ByteImage FirstMatch

def bootMagic : List UInt8 :=
  [0x41, 0x4e, 0x44, 0x52, 0x4f, 0x49, 0x44, 0x21]

def bootMagicSize : Nat := 8
def bootNameSize : Nat := 16
def bootArgsSize : Nat := 512
def bootExtraArgsSize : Nat := 1024

inductive HdrField
  | magic
  | kernelSize
  | kernelAddr
  | ramdiskSize
  | ramdiskAddr
  | secondSize
  | secondAddr
  | tagsAddr
  | pageSize
  | unused0
  | unused1
  | name
  | cmdline
  | id
  | extraCmdline
  deriving DecidableEq, Repr

namespace HdrField

def size : HdrField → Nat
  | .magic => bootMagicSize
  | .name => bootNameSize
  | .cmdline => bootArgsSize
  | .id => 8 * 4
  | .extraCmdline => bootExtraArgsSize
  | _ => 4

def declared : List HdrField :=
  [.magic, .kernelSize, .kernelAddr, .ramdiskSize, .ramdiskAddr, .secondSize, .secondAddr,
    .tagsAddr, .pageSize, .unused0, .unused1, .name, .cmdline, .id, .extraCmdline]

def offset : HdrField → Nat
  | .magic => 0
  | .kernelSize => 8
  | .kernelAddr => 12
  | .ramdiskSize => 16
  | .ramdiskAddr => 20
  | .secondSize => 24
  | .secondAddr => 28
  | .tagsAddr => 32
  | .pageSize => 36
  | .unused0 => 40
  | .unused1 => 44
  | .name => 48
  | .cmdline => 64
  | .id => 576
  | .extraCmdline => 608

/-- The offsets are those of a packed structure: the sizes of the fields before. -/
theorem offset_packed (field : HdrField) :
    field.offset = ((declared.takeWhile (fun before => before ≠ field)).map size).sum := by
  cases field <;> decide

end HdrField

def hdrSize : Nat := 1632

theorem hdrSize_packed : hdrSize = (HdrField.declared.map HdrField.size).sum := by
  decide

def hdrWord (image : List UInt8) (base : Nat) (field : HdrField) : Nat :=
  word image (base + field.offset) 4

theorem hdrWord_lt (image : List UInt8) (base : Nat) (field : HdrField) :
    hdrWord image base field < 4294967296 :=
  word_lt image _ 4

def setHdrWord (image : List UInt8) (field : HdrField) (value : Nat) : List UInt8 :=
  patch image field.offset (littleEndian 4 value)

def plainHeader (page kernelSize ramdiskSize secondSize dtSize : Nat) : List UInt8 :=
  let sized := [(HdrField.kernelSize, kernelSize), (.ramdiskSize, ramdiskSize),
    (.secondSize, secondSize), (.pageSize, page), (.unused0, dtSize)]
  sized.foldl (fun image entry => setHdrWord image entry.1 entry.2)
    (patch (resize [] page) 0 bootMagic)

/-- Both programs probe for the magic every 256 bytes below the file length. -/
def findHeader (image : List UInt8) : Option Nat :=
  firstMatch (fun base => matchesAt image base bootMagic) 256 image.length image.length 0

/-- Where the search stops: the first multiple of 256 that holds the magic. -/
def HeaderAt (image : List UInt8) (base : Nat) : Prop :=
  256 ∣ base ∧ matchesAt image base bootMagic = true ∧
    ∀ earlier, earlier < base → 256 ∣ earlier → matchesAt image earlier bootMagic = false

theorem bootMagic_solid : ∀ symbol, symbol ∈ bootMagic → symbol ≠ 0 := by
  have solid : bootMagic.all (fun symbol => symbol != 0) = true := by decide
  intro symbol member
  exact bne_iff_ne.mp (List.all_eq_true.mp solid symbol member)

theorem HeaderAt.bound {image : List UInt8} {base : Nat} (header : HeaderAt image base) :
    base + bootMagicSize ≤ image.length :=
  matchesAt_bound image bootMagic base bootMagic_solid (by decide) header.2.1

theorem findHeader_eq_some_iff (image : List UInt8) (base : Nat) :
    findHeader image = some base ↔ HeaderAt image base := by
  unfold findHeader
  rw [firstMatch_eq_some_iff _ _ _ _ _ _ (by omega)]
  constructor
  · intro given
    obtain ⟨steps, rfl, _, found, first⟩ := given
    rw [Nat.zero_add] at found ⊢
    refine ⟨Nat.dvd_mul_right _ _, found, ?_⟩
    intro earlier before aligned
    obtain ⟨count, rfl⟩ := aligned
    have missed := first count (by omega)
    rwa [Nat.zero_add] at missed
  · intro header
    have bound := header.bound
    obtain ⟨aligned, found, first⟩ := header
    obtain ⟨steps, rfl⟩ := aligned
    unfold bootMagicSize at bound
    refine ⟨steps, (Nat.zero_add _).symm, by omega, found, ?_⟩
    intro earlier before
    rw [Nat.zero_add]
    exact first _ (by omega) (Nat.dvd_mul_right _ _)

theorem HeaderAt.unique {image : List UInt8} {base other : Nat}
    (left : HeaderAt image base) (right : HeaderAt image other) : base = other :=
  Option.some.inj (((findHeader_eq_some_iff image base).mpr left).symm.trans
    ((findHeader_eq_some_iff image other).mpr right))

end SuperBootimg.Concrete
