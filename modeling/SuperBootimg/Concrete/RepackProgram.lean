/-
repack.c, statement by statement. The state is the open output file with its
offset; the header fields are stored through a shared mapping, so each store is
a patch of that file.
-/

import SuperBootimg.Concrete.BootImgHeader
import SuperBootimg.Concrete.SystemCalls
import SuperBootimg.EarlyStop

namespace SuperBootimg.Concrete.Repack

open ByteImage

structure Build where
  out : List UInt8
  offset : Nat
  deriving DecidableEq, Repr

abbrev Process := EStateM Stop Build

variable {abi : Abi} (platform : Platform abi) (dir : Directory)

/-! ### Calls on the output file -/

/-- `lseek(ofd, pos, SEEK_SET)`, which fails and moves nothing for a negative position. -/
def lseek (pos : Int) : Process Unit :=
  modify fun build => if 0 ≤ pos then { build with offset := pos.toNat } else build

def pwrite (bytes : List UInt8) (pos : Int) : Process Unit :=
  modify fun build =>
    if 0 ≤ pos then
      let moved := (platform.write .newBoot bytes.length bytes.length).getD 0
      { build with out := patch build.out pos.toNat (bytes.take moved) }
    else build

def ftruncate (pos : Int) : Process Unit :=
  modify fun build => if 0 ≤ pos then { build with out := resize build.out pos.toNat } else build

/-- `sendfile(ofd, fd, NULL, size)` with `int size`; a negative count transfers nothing. -/
def sendfile (name : FileName) (bytes : List UInt8) (size : Int) : Process Unit :=
  modify fun build =>
    if abi.sizeOf size < abi.signBit then
      let moved := platform.sendfile name bytes.length (abi.sizeOf size)
      { out := patch build.out build.offset (bytes.take moved), offset := build.offset + moved }
    else build

/-- `hdr->field = value` for an `int` value. -/
def storeField (field : HdrField) (value : Int) : Process Unit :=
  modify fun build => { build with out := setHdrWord build.out field (uint32Of value) }

def clearId : Process Unit :=
  modify fun build =>
    { build with out := patch build.out HdrField.id.offset (List.replicate HdrField.id.size 0) }

def loadPageSize : Process Nat := do
  let build ← get
  pure (hdrWord build.out 0 .pageSize)

/-! ### Functions of repack.c -/

variable (abi) in
/-- `stat`, which needs no permission on the file itself. -/
def fileSize (name : FileName) : Process Nat :=
  match dir name with
  | some file => if file.bytes.length < abi.signBit then pure file.bytes.length else throw .exitOne
  | none => throw .exitOne

/-- `int size = lseek(fd, 0, SEEK_END)`. -/
def seekEnd (abi : Abi) (length : Nat) : Int :=
  if length < abi.signBit then intOf length else -1

/-- A failed `open` is not noticed: every later call fails on descriptor -1. -/
def appendFile (name : FileName) (pos : Int) : Process Int := do
  lseek pos
  match dir.openRead name with
  | some bytes => do
      let size := seekEnd abi bytes.length
      sendfile platform name bytes size
      pure size
  | none => pure (-1)

def mtkMagic : List UInt8 := [0x88, 0x16, 0x88, 0x58]
def rootfsName : List UInt8 := [0x52, 0x4f, 0x4f, 0x54, 0x46, 0x53]
def recoveryName : List UInt8 := [0x52, 0x45, 0x43, 0x4f, 0x56, 0x45, 0x52, 0x59]

def mtkName : Process (List UInt8) :=
  if dir.access .ramdiskMtkBoot then pure (resize rootfsName 32)
  else if dir.access .ramdiskMtkRecovery then pure (resize recoveryName 32)
  else throw .exitOne

def mtkHeader (size : Nat) (name : List UInt8) : List UInt8 :=
  mtkMagic ++ littleEndian 4 (uint32Of size) ++ name ++ List.replicate (512 - 8 - 32) 0xff

def appendRamdisk (pos : Int) : Process Int :=
  if dir.access .ramdiskMtk then do
    let size ← fileSize abi dir .ramdiskGz
    let name ← mtkName dir
    pwrite platform (mtkHeader size name) pos
    let appended ← appendFile platform dir .ramdiskGz (abi.longOf (pos + 512))
    pure (intOf (appended + 512))
  else if dir.access .ramdiskGz then appendFile platform dir .ramdiskGz pos
  else appendFile platform dir .ramdisk pos

def postProcess (pos : Int) : Process Unit :=
  if dir.access .rkcrc then throw .exitOne else ftruncate pos

def addPart (append : Int → Process Int) (field : HdrField) (pos : Int) : Process Int := do
  let size ← append pos
  let page ← loadPageSize
  storeField field size
  pure (advanceInt page pos size)

def addOptional (name : FileName) (field : HdrField) (pos : Int) : Process Int :=
  if dir.access name then addPart (appendFile platform dir name) field pos else pure pos

/-- The output file up to the first `append_file`: the original header with the
fields cleared that are filled in again. -/
def startImage (orig : List UInt8) (base : Nat) : Build :=
  let header := window orig base hdrSize
  let moved := (platform.write .newBoot (mappedLength orig - base) hdrSize).getD 0
  { out := patch (resize [] (hdrWord orig base .pageSize)) 0 (header.take moved), offset := moved }

def clearFields : Process Unit := do
  storeField .kernelSize 0
  storeField .ramdiskSize 0
  storeField .secondSize 0
  storeField .unused0 0
  clearId

def build (orig : List UInt8) (base : Nat) : Process Unit := do
  set (startImage platform orig base)
  clearFields
  let page ← loadPageSize
  let pos ← addPart (appendFile platform dir .kernel) .kernelSize (intOf page)
  let pos ← addPart (appendRamdisk platform dir) .ramdiskSize pos
  let pos ← addOptional platform dir .second .secondSize pos
  let pos ← addOptional platform dir .dt .unused0 pos
  postProcess dir pos

/-- The original that `main` accepts: it can be mapped, the search succeeds and the
page size passes the assertion. Behind `MAP_FAILED` the loop is skipped, and the assertion
after it fails. -/
def accepted (abi : Abi) (orig : List UInt8) : Except Stop Nat :=
  if orig.length = 0 ∨ abi.signBit ≤ orig.length then .error .abort
  else
    match findHeader orig with
    | none => .error .abort
    | some base => if PageSize (hdrWord orig base .pageSize) then .ok base else .error .abort

end Repack

/-- `bootimg-repack` on an original, run in a directory. Once the output file has
been created it stays, however the run ends. -/
def repack {abi : Abi} (platform : Platform abi) (orig : List UInt8) (dir : Directory) : Outcome :=
  match Repack.accepted abi orig with
  | .error stop => { stop := some stop, dir := dir }
  | .ok base =>
      match Repack.build platform dir orig base { out := [], offset := 0 } with
      | .ok _ built => { stop := none, dir := dir.store .newBoot built.out }
      | .error stop built => { stop := some stop, dir := dir.store .newBoot built.out }

end SuperBootimg.Concrete
