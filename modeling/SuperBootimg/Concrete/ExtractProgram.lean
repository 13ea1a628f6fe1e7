/-
extract.c, statement by statement. Addresses are offsets from the start of the
mapping; `long pos` is its two's complement pattern. The host state records the
working directory and the calls made, in order.
-/

import SuperBootimg.Concrete.BootImgHeader
import SuperBootimg.Concrete.SystemCalls
import SuperBootimg.EarlyStop

namespace SuperBootimg.Concrete.Extract

open ByteImage

def gzipMagic : List UInt8 := [0x1f, 0x8b, 0x08, 0x00]
def lzmaMagic : List UInt8 := [0x5d, 0x00, 0x00]
def mtkMagic : List UInt8 := [0x88, 0x16, 0x88, 0x58]
def recoveryName : List UInt8 := [0x52, 0x45, 0x43, 0x4f, 0x56, 0x45, 0x52, 0x59]
def rootfsName : List UInt8 := [0x52, 0x4f, 0x4f, 0x54, 0x46, 0x53, 0x00, 0x00]
def chromeosMagic : List UInt8 := [0x43, 0x48, 0x52, 0x4f, 0x4d, 0x45, 0x4f, 0x53]
def signMagic : List UInt8 := [0x53, 0x49, 0x47, 0x4e]

/-- `QCDT`, `SPRD`, `DTBH` and the flattened device tree magic. -/
def dtMagics : List (List UInt8) :=
  [[0x51, 0x43, 0x44, 0x54], [0x53, 0x50, 0x52, 0x44], [0x44, 0x54, 0x42, 0x48],
    [0xd0, 0x0d, 0xfe, 0xed]]

/-- The calls that read the image: a dump of a range, or a look at a ramdisk range. -/
inductive Call
  | dump (name : FileName) (start size : Nat)
  | dumpRamdisk (start size : Nat)
  deriving DecidableEq, Repr

structure Host where
  dir : Directory
  calls : List Call

def Host.record (host : Host) (call : Call) : Host :=
  { host with calls := host.calls ++ [call] }

def Host.store (host : Host) (name : FileName) (bytes : List UInt8) : Host :=
  { host with dir := host.dir.store name bytes }

abbrev Process := EStateM Stop Host

variable {abi : Abi} (platform : Platform abi) (image : List UInt8)

def memcmp (start : Nat) (pattern : List UInt8) : Process Bool :=
  if start + pattern.length ≤ mappedLength image then pure (matchesAt image start pattern)
  else throw .fault

def memcmpAny (start : Nat) : List (List UInt8) → Process Bool
  | [] => pure false
  | pattern :: rest => do
      let found ← memcmp image start pattern
      if found then pure true else memcmpAny start rest

/-- The `int` in which `dump` keeps the result of `write`, compared as a `size_t`. -/
def returned (abi : Abi) : Option Nat → Nat
  | some moved => abi.sizeOf (intOf moved)
  | none => abi.sizeOf (intOf (-1))

def dump (start size : Nat) (name : FileName) : Process Unit := do
  modify (Host.record · (.dump name start size))
  let written := platform.write name (mappedLength image - start) size
  modify (Host.store · name (window image start (written.getD 0)))
  if returned abi written = size then pure () else throw .abort

def dumpMtkName (start : Nat) : Process Unit := do
  let recovery ← memcmp image (abi.pointer start 8) recoveryName
  if recovery then dump platform image start 0 .ramdiskMtkRecovery
  else do
    let rootfs ← memcmp image (abi.pointer start 8) rootfsName
    if rootfs then dump platform image start 0 .ramdiskMtkBoot else throw .exitOne

/-- Every level reads at its own address, 512 bytes further each time, so the walk
faults before the fuel given by `dumpRamdiskFuel` is spent. -/
def dumpRamdisk : Nat → Nat → Nat → Process Unit
  | 0, _, _ => throw .fault
  | fuel + 1, start, size => do
      modify (Host.record · (.dumpRamdisk start size))
      let gzip ← memcmp image start gzipMagic
      if gzip then dump platform image start size .ramdiskGz
      else do
        let lzma ← memcmp image start lzmaMagic
        if lzma then dump platform image start size .ramdiskLzma
        else do
          let mtk ← memcmp image start mtkMagic
          if mtk then do
            dumpMtkName platform image start
            dump platform image start 0 .ramdiskMtk
            dumpRamdisk fuel (abi.pointer start 512) (abi.sizeOf (size - 512))
          else do
            dump platform image start size .ramdisk
            throw .abort

def dumpRamdiskFuel : Nat :=
  mappedLength image / 512 + 2

def searchSecurityHdr (buf : Nat) : Process Unit := do
  let chromeos ← memcmp image buf chromeosMagic
  if chromeos then dump platform image buf 0 .chromeos else pure ()

/-- `int pos` is compared with a `size_t`. -/
def searchSecurity (buf : Nat) (pos : Int) : Process Bool := do
  let sign ← memcmp image (abi.pointer buf 1024) signMagic
  if sign then do
    dump platform image buf 0 .rkcrc
    pure true
  else pure (decide (abi.sizeOf pos < image.length))

variable (abi) in
/-- A file that cannot be mapped whole leaves `MAP_FAILED`, which is not null. -/
def mapFile : Process Unit :=
  if image.length = 0 ∨ abi.signBit ≤ image.length then throw .fault else pure ()

def dumpSecond (base page pos : Nat) : Process Nat :=
  let secondSize := hdrWord image base .secondSize
  if secondSize = 0 then pure pos
  else do
    if abi.sumWithin pos secondSize image.length then pure () else throw .abort
    dump platform image (abi.pointer base pos) secondSize .second
    pure (abi.advance page pos secondSize)

def dumpDt (base page pos : Nat) : Process Nat :=
  let dtSize := hdrWord image base .unused0
  if dtSize ≠ 0 ∧ abi.longOf pos < image.length ∧ abi.sumWithin pos dtSize image.length then do
    let recognised ← memcmpAny image (abi.pointer base pos) dtMagics
    if recognised then do
      dump platform image (abi.pointer base pos) dtSize .dt
      pure (abi.advance page pos dtSize)
    else pure pos
  else pure pos

def dumpSections (base : Nat) : Process Unit := do
  let page := hdrWord image base .pageSize
  let kernelSize := hdrWord image base .kernelSize
  let ramdiskSize := hdrWord image base .ramdiskSize
  dump platform image (abi.pointer base page) kernelSize .kernel
  let pos := abi.advance page page kernelSize
  dumpRamdisk platform image (dumpRamdiskFuel image) (abi.pointer base pos) ramdiskSize
  let pos := abi.advance page pos ramdiskSize
  let pos ← dumpSecond platform image base page pos
  let pos ← dumpDt platform image base page pos
  let secure ← searchSecurity platform image base (intOf (abi.longOf pos))
  if secure then dump platform image base 0 .secure else pure ()

def main : Process Unit := do
  mapFile abi image
  searchSecurityHdr platform image 0
  match findHeader image with
  | none => throw .abort
  | some base =>
      if PageSize (hdrWord image base .pageSize) then dumpSections platform image base
      else throw .abort

end Extract

def extract {abi : Abi} (platform : Platform abi) (image : List UInt8) (dir : Directory) :
    Outcome :=
  match Extract.main platform image { dir := dir, calls := [] } with
  | .ok _ host => { stop := none, dir := host.dir }
  | .error stop host => { stop := some stop, dir := host.dir }

def extractCalls {abi : Abi} (platform : Platform abi) (image : List UInt8)
    (dir : Directory) : List Extract.Call :=
  match Extract.main platform image { dir := dir, calls := [] } with
  | .ok _ host => host.calls
  | .error _ host => host.calls

theorem extract_stop_none_iff {abi : Abi} (platform : Platform abi) (image : List UInt8)
    (dir : Directory) :
    (extract platform image dir).stop = none ↔
      ∃ host, StoppableRun.Finishes (Extract.main platform image)
        { dir := dir, calls := [] } () host := by
  unfold extract StoppableRun.Finishes
  constructor
  · intro success
    cases outcome : Extract.main platform image { dir := dir, calls := [] } with
    | ok value host => exact ⟨host, rfl⟩
    | error stop host =>
        rw [outcome] at success
        cases success
  · intro given
    obtain ⟨host, finished⟩ := given
    rw [finished]

theorem extract_of_finishes {abi : Abi} {platform : Platform abi} {image : List UInt8}
    {dir : Directory} {host : Extract.Host}
    (finished : StoppableRun.Finishes (Extract.main platform image)
      { dir := dir, calls := [] } () host) :
    extract platform image dir = { stop := none, dir := host.dir } ∧
      extractCalls platform image dir = host.calls := by
  unfold StoppableRun.Finishes at finished
  unfold extract extractCalls
  rw [finished]
  exact ⟨rfl, rfl⟩

end SuperBootimg.Concrete
