/-
The files the tools read and write in their working directory, and how a run
of one of them ends.
-/

import SuperBootimg.ByteImage

namespace SuperBootimg.Concrete

/-- Every name the two tools open, create or test for. -/
inductive FileName
  | kernel
  | ramdiskGz
  | ramdiskLzma
  | ramdisk
  | ramdiskMtk
  | ramdiskMtkBoot
  | ramdiskMtkRecovery
  | second
  | dt
  | rkcrc
  | secure
  | chromeos
  | newBoot
  deriving DecidableEq, Repr

def FileName.path : FileName → String
  | .kernel => "kernel"
  | .ramdiskGz => "ramdisk.gz"
  | .ramdiskLzma => "ramdisk.lzma"
  | .ramdisk => "ramdisk"
  | .ramdiskMtk => "ramdisk-mtk"
  | .ramdiskMtkBoot => "ramdisk-mtk-boot"
  | .ramdiskMtkRecovery => "ramdisk-mtk-recovery"
  | .second => "second"
  | .dt => "dt"
  | .rkcrc => "rkcrc"
  | .secure => "secure"
  | .chromeos => "chromeos"
  | .newBoot => "new-boot.img"

theorem FileName.path_injective : Function.Injective FileName.path := by
  intro left right same
  cases left <;> cases right <;> first | rfl | (revert same; decide)

structure File where
  bytes : List UInt8
  readable : Bool
  deriving DecidableEq, Repr

/-- Regular files by name; the tools own the directory and may replace any of them. -/
abbrev Directory := FileName → Option File

namespace Directory

def empty : Directory :=
  fun _ => none

def store (dir : Directory) (name : FileName) (bytes : List UInt8) : Directory :=
  Function.update dir name (some { bytes := bytes, readable := true })

def openRead (dir : Directory) (name : FileName) : Option (List UInt8) :=
  (dir name).bind fun file => if file.readable then some file.bytes else none

def access (dir : Directory) (name : FileName) : Bool :=
  (dir.openRead name).isSome

@[simp] theorem store_same (dir : Directory) (name : FileName) (bytes : List UInt8) :
    dir.store name bytes name = some { bytes := bytes, readable := true } :=
  Function.update_self _ _ _

theorem store_other (dir : Directory) (name other : FileName) (bytes : List UInt8)
    (different : other ≠ name) : dir.store name bytes other = dir other :=
  Function.update_of_ne different _ _

@[simp] theorem openRead_store_same (dir : Directory) (name : FileName) (bytes : List UInt8) :
    (dir.store name bytes).openRead name = some bytes := by
  simp [openRead]

theorem openRead_of_file {dir : Directory} {name : FileName} {bytes : List UInt8}
    (found : dir name = some { bytes := bytes, readable := true }) :
    dir.openRead name = some bytes := by
  unfold openRead
  rw [found]
  rfl

theorem openRead_of_missing {dir : Directory} {name : FileName} (missing : dir name = none) :
    dir.openRead name = none := by
  unfold openRead
  rw [missing]
  rfl

def atop (top bottom : Directory) : Directory :=
  fun name => (top name).or (bottom name)

theorem atop_some {top : Directory} {name : FileName} {file : File} (found : top name = some file)
    (bottom : Directory) : top.atop bottom name = top name := by
  unfold atop
  rw [found, Option.some_or]

theorem atop_none {top : Directory} {name : FileName} (missing : top name = none)
    (bottom : Directory) : top.atop bottom name = bottom name := by
  unfold atop
  rw [missing, Option.none_or]

theorem store_atop (top bottom : Directory) (name : FileName) (bytes : List UInt8) :
    (top.atop bottom).store name bytes = (top.store name bytes).atop bottom := by
  funext other
  by_cases same : other = name
  · subst same
    unfold atop
    rw [store_same, store_same, Option.some_or]
  · unfold atop
    rw [store_other _ _ _ _ same, store_other _ _ _ _ same]

end Directory

/-- Ways to end other than returning 0 from `main`: `exit(1)`, a failed assertion
or `abort()`, an access outside the mapping. -/
inductive Stop
  | exitOne
  | abort
  | fault
  deriving DecidableEq, Repr

/-- The result of a tool; `stop` is `none` for exit status 0. -/
structure Outcome where
  stop : Option Stop
  dir : Directory

end SuperBootimg.Concrete
