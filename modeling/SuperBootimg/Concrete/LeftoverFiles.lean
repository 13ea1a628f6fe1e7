/-
Files left over in the working directory. bootimg-extract takes the same way in
every directory and only adds its own files; bootimg-repack depends on nothing but
the files it looks at. What it looks at and extract does not write is what a former
image can leak into the next one.
-/

import SuperBootimg.Concrete.DecodedLayout
import SuperBootimg.Concrete.RepackRuns

namespace SuperBootimg.Concrete

open ByteImage StoppableRun

variable {abi : Abi}

/-! ### Extract over the files of a former run -/

namespace Extract

/-- Two runs that differ only in the files the directory held before. -/
def Overlaid (bottom : Directory) (left right : Host) : Prop :=
  right = { left with dir := left.dir.atop bottom }

variable {bottom : Directory}

private theorem Overlaid.record (call : Call) (left right : Host)
    (states : Overlaid bottom left right) :
    Overlaid bottom (left.record call) (right.record call) := by
  unfold Overlaid at states ⊢
  rw [states]
  rfl

private theorem Overlaid.store (name : FileName) (bytes : List UInt8) (left right : Host)
    (states : Overlaid bottom left right) :
    Overlaid bottom (left.store name bytes) (right.store name bytes) := by
  unfold Overlaid at states ⊢
  rw [states]
  unfold Host.store
  rw [Directory.store_atop]

private theorem memcmp_lockstep (image : List UInt8) (start : Nat) (pattern : List UInt8) :
    Lockstep (Overlaid bottom) (memcmp image start pattern) := by
  unfold memcmp
  exact Lockstep.ite _ (Lockstep.pure _) (Lockstep.throw _)

private theorem memcmpAny_lockstep (image : List UInt8) (start : Nat)
    (patterns : List (List UInt8)) :
    Lockstep (Overlaid bottom) (memcmpAny image start patterns) := by
  induction patterns with
  | nil => exact Lockstep.pure _
  | cons pattern rest ih =>
      unfold memcmpAny
      apply Lockstep.bind (memcmp_lockstep _ _ _)
      intro found
      exact Lockstep.ite _ (Lockstep.pure _) ih

variable (platform : Platform abi) (image : List UInt8)

private theorem dump_lockstep (start size : Nat) (name : FileName) :
    Lockstep (Overlaid bottom) (dump platform image start size name) := by
  unfold dump
  apply Lockstep.bind (Lockstep.modify (Overlaid.record _))
  intro _
  apply Lockstep.bind (Lockstep.modify (Overlaid.store _ _))
  intro _
  exact Lockstep.ite _ (Lockstep.pure _) (Lockstep.throw _)

private theorem dumpMtkName_lockstep (start : Nat) :
    Lockstep (Overlaid bottom) (dumpMtkName platform image start) := by
  unfold dumpMtkName
  apply Lockstep.bind (memcmp_lockstep _ _ _)
  intro recovery
  apply Lockstep.ite _ (dump_lockstep platform image _ _ _)
  apply Lockstep.bind (memcmp_lockstep _ _ _)
  intro rootfs
  exact Lockstep.ite _ (dump_lockstep platform image _ _ _) (Lockstep.throw _)

private theorem dumpRamdisk_lockstep (fuel start size : Nat) :
    Lockstep (Overlaid bottom) (dumpRamdisk platform image fuel start size) := by
  induction fuel generalizing start size with
  | zero => exact Lockstep.throw _
  | succ fuel ih =>
      unfold dumpRamdisk
      apply Lockstep.bind (Lockstep.modify (Overlaid.record _))
      intro _
      apply Lockstep.bind (memcmp_lockstep _ _ _)
      intro gzip
      apply Lockstep.ite _ (dump_lockstep platform image _ _ _)
      apply Lockstep.bind (memcmp_lockstep _ _ _)
      intro lzma
      apply Lockstep.ite _ (dump_lockstep platform image _ _ _)
      apply Lockstep.bind (memcmp_lockstep _ _ _)
      intro mtk
      apply Lockstep.ite
      · apply Lockstep.bind (dumpMtkName_lockstep platform image _)
        intro _
        apply Lockstep.bind (dump_lockstep platform image _ _ _)
        intro _
        exact ih _ _
      · apply Lockstep.bind (dump_lockstep platform image _ _ _)
        intro _
        exact Lockstep.throw _

private theorem dumpSecond_lockstep (base page pos : Nat) :
    Lockstep (Overlaid bottom) (dumpSecond platform image base page pos) := by
  have dumped : ∀ next : Nat, Lockstep (Overlaid bottom)
      (dump platform image (abi.pointer base pos) (hdrWord image base .secondSize) .second >>=
        fun _ => pure next) := by
    intro next
    apply Lockstep.bind (dump_lockstep platform image _ _ _)
    intro _
    exact Lockstep.pure _
  unfold dumpSecond
  apply Lockstep.ite _ (Lockstep.pure _)
  apply Lockstep.ite _ (dumped _)
  exact Lockstep.bind (Lockstep.throw _) (fun _ => dumped _)

private theorem dumpDt_lockstep (base page pos : Nat) :
    Lockstep (Overlaid bottom) (dumpDt platform image base page pos) := by
  unfold dumpDt
  apply Lockstep.ite _ _ (Lockstep.pure _)
  apply Lockstep.bind (memcmpAny_lockstep _ _ _)
  intro recognised
  apply Lockstep.ite _ _ (Lockstep.pure _)
  apply Lockstep.bind (dump_lockstep platform image _ _ _)
  intro _
  exact Lockstep.pure _

private theorem searchSecurityHdr_lockstep (buf : Nat) :
    Lockstep (Overlaid bottom) (searchSecurityHdr platform image buf) := by
  unfold searchSecurityHdr
  apply Lockstep.bind (memcmp_lockstep _ _ _)
  intro chromeos
  exact Lockstep.ite _ (dump_lockstep platform image _ _ _) (Lockstep.pure _)

private theorem searchSecurity_lockstep (buf : Nat) (pos : Int) :
    Lockstep (Overlaid bottom) (searchSecurity platform image buf pos) := by
  unfold searchSecurity
  apply Lockstep.bind (memcmp_lockstep _ _ _)
  intro sign
  apply Lockstep.ite _ _ (Lockstep.pure _)
  apply Lockstep.bind (dump_lockstep platform image _ _ _)
  intro _
  exact Lockstep.pure _

private theorem dumpSections_lockstep (base : Nat) :
    Lockstep (Overlaid bottom) (dumpSections platform image base) := by
  unfold dumpSections
  apply Lockstep.bind (dump_lockstep platform image _ _ _)
  intro _
  apply Lockstep.bind (dumpRamdisk_lockstep platform image _ _ _)
  intro _
  apply Lockstep.bind (dumpSecond_lockstep platform image _ _ _)
  intro _
  apply Lockstep.bind (dumpDt_lockstep platform image _ _ _)
  intro _
  apply Lockstep.bind (searchSecurity_lockstep platform image _ _)
  intro secure
  exact Lockstep.ite _ (dump_lockstep platform image _ _ _) (Lockstep.pure _)

variable (bottom) in
private theorem main_lockstep : Lockstep (Overlaid bottom) (main platform image) := by
  unfold main mapFile
  apply Lockstep.bind
  · exact Lockstep.ite _ (Lockstep.throw _) (Lockstep.pure _)
  · intro _
    apply Lockstep.bind (searchSecurityHdr_lockstep platform image _)
    intro _
    cases findHeader image with
    | none => exact Lockstep.throw _
    | some base =>
        exact Lockstep.ite _ (dumpSections_lockstep platform image base) (Lockstep.throw _)

end Extract

/-- Extract ends the same way in every directory and puts its files over the old ones. -/
theorem extract_over (platform : Platform abi) (image : List UInt8) (dir : Directory) :
    extract platform image dir =
      { stop := (extract platform image .empty).stop
        dir := (extract platform image .empty).dir.atop dir } := by
  have agreed := Extract.main_lockstep dir platform image
    { dir := .empty, calls := [] } { dir := dir, calls := [] } rfl
  unfold extract
  generalize Extract.main platform image { dir := .empty, calls := [] } = left at agreed
  generalize Extract.main platform image { dir := dir, calls := [] } = right at agreed
  cases agreed with
  | ok value states =>
      unfold Extract.Overlaid at states
      rw [states]
  | error stop states =>
      unfold Extract.Overlaid at states
      rw [states]

namespace Repack

/-! ### What repack looks at -/

def ramdiskInputs (dir : Directory) : List FileName :=
  if dir.access .ramdiskMtk then
    if dir.access .ramdiskMtkBoot then [.ramdiskMtk, .ramdiskGz, .ramdiskMtkBoot]
    else [.ramdiskMtk, .ramdiskGz, .ramdiskMtkBoot, .ramdiskMtkRecovery]
  else if dir.access .ramdiskGz then [.ramdiskMtk, .ramdiskGz]
  else [.ramdiskMtk, .ramdiskGz, .ramdisk]

def inputs (dir : Directory) : List FileName :=
  .kernel :: .second :: .dt :: .rkcrc :: ramdiskInputs dir

/-- What repack can learn of a file: the bytes it may read, and whatever its mode is the
size of `ramdisk.gz`. -/
def observed (dir : Directory) (name : FileName) : Option (List UInt8) × Option Nat :=
  (dir.openRead name, if name = .ramdiskGz then (dir name).map (·.bytes.length) else none)

variable (platform : Platform abi) {left right : Directory}

theorem observed_congr {name : FileName} (same : left name = right name) :
    observed left name = observed right name := by
  unfold observed Directory.openRead
  rw [same]

private theorem fileSize_congr (same : observed left .ramdiskGz = observed right .ramdiskGz) :
    fileSize abi left .ramdiskGz = fileSize abi right .ramdiskGz := by
  have sizes : (left .ramdiskGz).map (·.bytes.length) = (right .ramdiskGz).map (·.bytes.length) :=
    congrArg Prod.snd same
  unfold fileSize
  cases leftFile : left .ramdiskGz with
  | none =>
      cases rightFile : right .ramdiskGz with
      | none => rfl
      | some file =>
          rw [leftFile, rightFile] at sizes
          cases sizes
  | some file =>
      cases rightFile : right .ramdiskGz with
      | none =>
          rw [leftFile, rightFile] at sizes
          cases sizes
      | some other =>
          rw [leftFile, rightFile] at sizes
          have lengths : file.bytes.length = other.bytes.length := Option.some.inj sizes
          simp only [lengths]

private theorem openRead_of_observed {name : FileName}
    (same : observed left name = observed right name) : left.openRead name = right.openRead name :=
  congrArg Prod.fst same

private theorem access_of_observed {name : FileName}
    (same : observed left name = observed right name) : left.access name = right.access name :=
  congrArg Option.isSome (openRead_of_observed same)

private theorem appendFile_congr {name : FileName}
    (same : observed left name = observed right name) :
    appendFile platform left name = appendFile platform right name := by
  funext pos
  unfold appendFile
  rw [openRead_of_observed same]

private theorem addOptional_congr {name : FileName}
    (same : observed left name = observed right name) (field : HdrField) (pos : Int) :
    addOptional platform left name field pos = addOptional platform right name field pos := by
  unfold addOptional
  rw [access_of_observed same, appendFile_congr platform same]

private theorem appendRamdisk_congr
    (same : ∀ name, name ∈ ramdiskInputs left → observed left name = observed right name) :
    appendRamdisk platform left = appendRamdisk platform right := by
  have mtkSame : observed left .ramdiskMtk = observed right .ramdiskMtk := by
    apply same
    unfold ramdiskInputs
    split <;> split <;> exact List.mem_cons_self
  have gzipSame : observed left .ramdiskGz = observed right .ramdiskGz := by
    apply same
    unfold ramdiskInputs
    split <;> split <;> exact List.mem_cons_of_mem _ List.mem_cons_self
  funext pos
  unfold ramdiskInputs at same
  unfold appendRamdisk
  rw [← access_of_observed mtkSame, ← access_of_observed gzipSame,
    ← appendFile_congr platform gzipSame,
    ← fileSize_congr gzipSame]
  cases mtk : left.access .ramdiskMtk with
  | true =>
      rw [if_pos mtk] at same
      have bootSame : left.access .ramdiskMtkBoot = right.access .ramdiskMtkBoot := by
        apply access_of_observed
        apply same
        split <;> simp
      have named : mtkName left = mtkName right := by
        unfold mtkName
        rw [← bootSame]
        cases boot : left.access .ramdiskMtkBoot with
        | true => rfl
        | false =>
            rw [if_neg (by rw [boot]; exact Bool.false_ne_true)] at same
            rw [access_of_observed (same .ramdiskMtkRecovery (by decide))]
      rw [named]
      rfl
  | false =>
      rw [if_neg (by rw [mtk]; exact Bool.false_ne_true)] at same
      cases gzip : left.access .ramdiskGz with
      | true => rfl
      | false =>
          rw [if_neg (by rw [gzip]; exact Bool.false_ne_true)] at same
          rw [appendFile_congr platform (same .ramdisk (by decide))]
          rfl

/-- Repack depends on nothing but the files it looks at. -/
theorem build_congr (same : ∀ name, name ∈ inputs left → observed left name = observed right name)
    (orig : List UInt8) (base : Nat) :
    build platform left orig base = build platform right orig base := by
  have kernel := same .kernel List.mem_cons_self
  have second := same .second (List.mem_cons_of_mem _ List.mem_cons_self)
  have dt := same .dt (List.mem_cons_of_mem _ (List.mem_cons_of_mem _ List.mem_cons_self))
  have rkcrc : observed left .rkcrc = observed right .rkcrc := by
    apply same
    simp [inputs]
  have ramdisk := appendRamdisk_congr platform fun name member =>
    same name (by simp [inputs, member])
  have checked : postProcess left = postProcess right := by
    funext pos
    unfold postProcess
    rw [access_of_observed rkcrc]
  unfold build
  simp only [appendFile_congr platform kernel, ramdisk, addOptional_congr platform second,
    addOptional_congr platform dt, checked]

end Repack

theorem repack_congr (platform : Platform abi) {orig : List UInt8} {base : Nat}
    (accepted : Repack.accepted abi orig = .ok base) {left right : Directory}
    (same : ∀ name, name ∈ Repack.inputs left →
      Repack.observed left name = Repack.observed right name) :
    (repack platform orig left).stop = (repack platform orig right).stop ∧
      (repack platform orig left).dir .newBoot = (repack platform orig right).dir .newBoot := by
  have built := Repack.build_congr platform same orig base
  have stored (bytes : List UInt8) :
      left.store .newBoot bytes .newBoot = right.store .newBoot bytes .newBoot := by
    rw [Directory.store_same, Directory.store_same]
  unfold repack
  simp only [accepted, ← built]
  cases Repack.build platform left orig base { out := [], offset := 0 } with
  | ok value done => exact ⟨rfl, stored _⟩
  | error stop done => exact ⟨rfl, stored _⟩

/-! ### Leaks -/

def rebuilt (platform : Platform abi) (image : List UInt8) (dir : Directory) : Outcome :=
  repack platform image (extract platform image dir).dir

/-- Files left over in a directory do not reach the image, unless repack looks at one of
them that extract does not write itself. -/
theorem leftovers_do_not_leak (platform : Platform abi) (image : List UInt8) (dir : Directory)
    (accepted : (extract platform image .empty).stop = none)
    (clean : ∀ name, name ∈ Repack.inputs (extract platform image .empty).dir →
      (extract platform image .empty).dir name = none →
      Repack.observed dir name = Repack.observed .empty name) :
    (extract platform image dir).stop = none ∧
      (rebuilt platform image dir).stop = (rebuilt platform image .empty).stop ∧
      (rebuilt platform image dir).dir .newBoot = (rebuilt platform image .empty).dir .newBoot := by
  obtain ⟨base, _, located, _⟩ := Extract.accepted_run accepted
  have original := (Repack.accepted_iff abi image base).mpr
    ⟨located.representable, located.header, located.pageSize⟩
  have merged := extract_over platform image dir
  have same : ∀ name, name ∈ Repack.inputs (extract platform image .empty).dir →
      Repack.observed (extract platform image .empty).dir name =
        Repack.observed ((extract platform image .empty).dir.atop dir) name := by
    intro name member
    cases found : (extract platform image .empty).dir name with
    | some file => exact Repack.observed_congr (Directory.atop_some found dir).symm
    | none =>
        have missing : (extract platform image .empty).dir name = Directory.empty name := found
        rw [Repack.observed_congr missing, ← clean name member found]
        exact Repack.observed_congr (Directory.atop_none found dir).symm
  have results := repack_congr platform original same
  unfold rebuilt
  rw [merged]
  exact ⟨accepted, results.1.symm, results.2.symm⟩

def formerDirectory : Directory :=
  (Directory.empty.store .kernel [0x2a]).store .ramdiskMtkRecovery []

theorem formerDirectory_does_not_leak :
    (extract (Platform.greedy .lp64) Extract.smallImage formerDirectory).stop = none ∧
      (rebuilt (Platform.greedy .lp64) Extract.smallImage formerDirectory).stop =
        (rebuilt (Platform.greedy .lp64) Extract.smallImage .empty).stop ∧
      (rebuilt (Platform.greedy .lp64) Extract.smallImage formerDirectory).dir .newBoot =
        (rebuilt (Platform.greedy .lp64) Extract.smallImage .empty).dir .newBoot :=
  leftovers_do_not_leak (Platform.greedy .lp64) Extract.smallImage formerDirectory
    (by decide +kernel) (by decide +kernel)

def bareImage : List UInt8 :=
  plainHeader 2048 1 4 0 0 ++ PagedLayout.compose 2048 [[7], Extract.gzipMagic]

def staleSecond : Directory :=
  Directory.empty.store .second [0x2a]

/-- The second stage of another image ends up in an image that has none. -/
theorem staleSecond_leaks :
    (extract (Platform.greedy .lp64) bareImage .empty).stop = none ∧
      (rebuilt (Platform.greedy .lp64) bareImage staleSecond).dir .newBoot ≠
        (rebuilt (Platform.greedy .lp64) bareImage .empty).dir .newBoot := by
  have stale : ((rebuilt (Platform.greedy .lp64) bareImage staleSecond).dir .newBoot).map
      (fun file => file.bytes.length) = some 8192 := by decide +kernel
  have fresh : ((rebuilt (Platform.greedy .lp64) bareImage .empty).dir .newBoot).map
      (fun file => file.bytes.length) = some 6144 := by decide +kernel
  refine ⟨by decide +kernel, ?_⟩
  intro same
  rw [same, fresh] at stale
  cases stale

end SuperBootimg.Concrete
