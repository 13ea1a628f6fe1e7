/-
The files that an installation works on: the partition, what bootimg-extract has made of
it, and new-boot.img. The two tools are those of extract.c and repack.c; the ramdisk and
all other programs are arbitrary.
-/

import SuperBootimg.ScriptTriples
import SuperBootimg.Concrete.BootimgScript
import SuperBootimg.Concrete.RoundTrip

namespace SuperBootimg.Concrete.Scripts

open ExitOnError
open Sepolicy (Text)

/-- The other programs. Their state is that of the ramdisk's directory and of everything
else that they depend on. -/
structure Programs (ρ : Type) where
  act : Action → ρ → Bool × ρ
  /-- commands that read the compressed ramdisk -/
  readRamdisk : Action → List UInt8 → ρ → Bool × ρ
  compress : Compression → ρ → Bool × List UInt8
  customPatch : List UInt8 → ρ → Bool × List UInt8
  /-- how much dd writes before it is interrupted -/
  written : ρ → Nat

structure Machine (ρ : Type) where
  /-- `$f` and `$bootimg` -/
  partition : List UInt8
  /-- `$bootimg_extract` -/
  extracted : Directory
  /-- new-boot.img of `$homedir` -/
  newBoot : Option (List UInt8)
  other : ρ

def Compression.fileName : Compression → FileName
  | .gz => .ramdiskGz
  | .lzma => .ramdiskLzma

def samsungTrailer : List UInt8 :=
  [0x53, 0x45, 0x41, 0x4e, 0x44, 0x52, 0x4f, 0x49, 0x44, 0x45, 0x4e, 0x46, 0x4f, 0x52, 0x43, 0x45,
    0x0a]

/-- The bytes at the front are replaced; a device does not grow. -/
def overwritten (old new : List UInt8) (count : Nat) : List UInt8 :=
  let moved := min count (min new.length old.length)
  new.take moved ++ old.drop moved

namespace Machine

variable {ρ : Type} {abi : Abi} (platform : Platform abi) (programs : Programs ρ)

def elsewhere (action : Action) (machine : Machine ρ) : Bool × Machine ρ :=
  ((programs.act action machine.other).1,
    { machine with other := (programs.act action machine.other).2 })

def readRamdisk (action : Action) (compression : Compression) (machine : Machine ρ) :
    Bool × Machine ρ :=
  match machine.extracted.openRead compression.fileName with
  | none => (false, machine)
  | some bytes =>
      ((programs.readRamdisk action bytes machine.other).1,
        { machine with other := (programs.readRamdisk action bytes machine.other).2 })

def act (action : Action) (machine : Machine ρ) : Bool × Machine ρ :=
  match action with
  | .enterExtracted => (true, { machine with extracted := .empty })
  | .leaveExtracted => (true, { machine with extracted := .empty })
  | .extract =>
      ((extract platform machine.partition machine.extracted).stop.isNone,
        { machine with
          extracted := (extract platform machine.partition machine.extracted).dir })
  | .isExtracted name => ((machine.extracted name).isSome, machine)
  | .unpack compression => readRamdisk programs action compression machine
  | .decompress compression => readRamdisk programs action compression machine
  | .compress compression =>
      ((programs.compress compression machine.other).1,
        { machine with
          extracted := machine.extracted.store .ramdiskGz
            (programs.compress compression machine.other).2 })
  | .repack =>
      ((repack platform machine.partition machine.extracted).stop.isNone,
        { machine with
          extracted := (repack platform machine.partition machine.extracted).dir })
  | .copyHome =>
      match machine.extracted.openRead .newBoot with
      | none => (false, machine)
      | some bytes => (true, { machine with newBoot := some bytes })
  | .customPatch =>
      match machine.newBoot with
      | none => (false, machine)
      | some bytes =>
          ((programs.customPatch bytes machine.other).1,
            { machine with newBoot := some (programs.customPatch bytes machine.other).2 })
  | .appendTrailer =>
      (true, { machine with newBoot := some (machine.newBoot.getD [] ++ samsungTrailer) })
  | .removeInstaller =>
      ((programs.act action machine.other).1,
        { machine with
          newBoot := if (programs.act action machine.other).1 then none else machine.newBoot
          other := (programs.act action machine.other).2 })
  | .flash devices =>
      match machine.newBoot, devices with
      | some bytes, [_] =>
          (decide (bytes.length ≤ min (programs.written machine.other) machine.partition.length),
            { machine with
              partition := overwritten machine.partition bytes
                (programs.written machine.other) })
      | _, _ => (false, machine)
  | _ => elsewhere programs action machine

end Machine

end SuperBootimg.Concrete.Scripts
