/-
The calls of an accepted run of extract.c, and the files they leave behind.
-/

import SuperBootimg.Concrete.ExtractRuns

namespace SuperBootimg.Concrete.Extract

open ByteImage StoppableRun

variable {abi : Abi} {platform : Platform abi} {image : List UInt8}

/-! ### Names written by each part of the program -/

def ramdiskNames : List FileName :=
  [.ramdiskGz, .ramdiskLzma, .ramdiskMtk, .ramdiskMtkBoot, .ramdiskMtkRecovery]

theorem mtkFlag_names {start : Nat} {flag : FileName} (named : mtkFlag image start = some flag) :
    flag = .ramdiskMtkRecovery ∨ flag = .ramdiskMtkBoot := by
  unfold mtkFlag at named
  split at named
  · exact .inl (Option.some.inj named).symm
  · split at named
    · exact .inr (Option.some.inj named).symm
    · cases named

theorem ramdiskKind_names {start : Nat} {name : FileName}
    (kind : ramdiskKind image start = some name) : name = .ramdiskGz ∨ name = .ramdiskLzma := by
  unfold ramdiskKind at kind
  split at kind
  · exact .inl (Option.some.inj kind).symm
  · split at kind
    · exact .inr (Option.some.inj kind).symm
    · cases kind

/-- The calls made below `dump_ramdisk` start with its own and write ramdisk files only. -/
theorem Peels.calls {start size : Nat} {host after : Host}
    (peels : Peels platform image start size host after) :
    ∃ inner, after.calls = host.calls ++ .dumpRamdisk start size :: inner ∧
      ∀ name from_ length, Call.dump name from_ length ∈ inner → name ∈ ramdiskNames := by
  induction peels with
  | @found start size host name readable kind passes =>
      refine ⟨[.dump name start size], by simp [Host.dumped, Host.record, Host.store], ?_⟩
      intro other from_ length member
      rw [List.mem_singleton] at member
      cases member
      rcases ramdiskKind_names kind with rfl | rfl <;> decide
  | @peel start size host after flag readable unknown mtk named flagPasses mtkPasses rest ih =>
      obtain ⟨inner, afterCalls, names⟩ := ih
      refine ⟨.dump flag start 0 :: .dump .ramdiskMtk start 0 ::
        .dumpRamdisk (start + 512) (abi.sizeOf (size - 512)) :: inner, ?_, ?_⟩
      · rw [afterCalls]
        simp [Host.peeled, Host.dumped, Host.record, Host.store]
      · intro other from_ length member
        simp only [List.mem_cons, Call.dump.injEq, reduceCtorEq, false_or] at member
        rcases member with ⟨rfl, _, _⟩ | ⟨rfl, _, _⟩ | deeper
        · rcases mtkFlag_names named with rfl | rfl <;> decide
        · decide
        · exact names _ _ _ deeper

theorem Peels.dir_other {start size : Nat} {host after : Host}
    (peels : Peels platform image start size host after) (name : FileName)
    (different : name ∉ ramdiskNames) : after.dir name = host.dir name := by
  have apart : ∀ other, other ∈ ramdiskNames → name ≠ other := by
    rintro other member rfl
    exact different member
  induction peels with
  | @found start size host kind readable isKind passes =>
      rw [Host.dumped_dir_other _ _ _ _ _ (apart kind ?_)]
      · rfl
      · rcases ramdiskKind_names isKind with rfl | rfl <;> decide
  | @peel start size host after flag readable unknown mtk named flagPasses mtkPasses rest ih =>
      rw [ih]
      unfold Host.peeled
      rw [Host.dumped_dir_other _ _ _ _ _ (apart _ (by decide)),
        Host.dumped_dir_other _ _ _ _ _ (apart flag ?_)]
      · rfl
      · rcases mtkFlag_names named with rfl | rfl <;> decide

/-! ### The payload behind the MTK headers -/

/-- `count` MTK headers stand in a row, and a known kind of ramdisk behind them. -/
def MtkHeaders (image : List UInt8) (start count : Nat) (name : FileName) : Prop :=
  (∀ index, index < count → ramdiskKind image (start + 512 * index) = none ∧
    matchesAt image (start + 512 * index) mtkMagic = true) ∧
  ramdiskKind image (start + 512 * count) = some name

theorem MtkHeaders.cons {start count : Nat} {name : FileName}
    (unknown : ramdiskKind image start = none) (mtk : matchesAt image start mtkMagic = true)
    (rest : MtkHeaders image (start + 512) count name) :
    MtkHeaders image start (count + 1) name := by
  obtain ⟨headers, kind⟩ := rest
  have shift : ∀ index, start + 512 * (index + 1) = start + 512 + 512 * index := by
    intro index
    omega
  constructor
  · intro index below
    cases index with
    | zero => exact ⟨unknown, mtk⟩
    | succ index =>
        rw [shift]
        exact headers index (by omega)
  · rw [shift]
    exact kind

/-- The headers and the payload behind them are determined by the image. -/
theorem MtkHeaders.unique {start count other : Nat} {name otherName : FileName}
    (headers : MtkHeaders image start count name)
    (others : MtkHeaders image start other otherName) : count = other ∧ name = otherName := by
  rcases Nat.lt_trichotomy count other with less | same | more
  · have kind := headers.2
    rw [(others.1 count less).1] at kind
    cases kind
  · subst same
    have kind := headers.2
    rw [others.2] at kind
    cases kind
    exact ⟨rfl, rfl⟩
  · have kind := others.2
    rw [(headers.1 other more).1] at kind
    cases kind

private theorem sizeOf_sub (abi : Abi) (size offset : Int) :
    abi.sizeOf ((abi.sizeOf (size - 512) : Int) - offset) = abi.sizeOf (size - (512 + offset)) := by
  unfold Abi.sizeOf
  rcases abi.bits_cases with same | same <;> (rw [same]; omega)

/-- What `dump_ramdisk` does besides its flags: one payload behind the headers is dumped. -/
structure Unpacks (platform : Platform abi) (image : List UInt8) (start size : Nat)
    (before after : Directory) (count : Nat) (name : FileName) : Prop where
  headers : MtkHeaders image start count name
  readable : start + 512 * count + 4 ≤ mappedLength image
  passes : Passes platform image name (start + 512 * count) (abi.sizeOf (size - 512 * count))
  stored : after name = some
    { bytes := dumpedBytes platform image name (start + 512 * count)
        (abi.sizeOf (size - 512 * count))
      readable := true }
  others : ∀ other, (other = .ramdiskGz ∨ other = .ramdiskLzma) → other ≠ name →
    after other = before other

theorem Peels.unpacks {start size : Nat} {host after : Host}
    (peels : Peels platform image start size host after) (small : size < 2 ^ abi.bits) :
    ∃ count name, (name = .ramdiskGz ∨ name = .ramdiskLzma) ∧
      Unpacks platform image start size host.dir after.dir count name := by
  induction peels with
  | @found start size host kind readable isKind passes =>
      have whole : abi.sizeOf ((size : Int) - 512 * (0 : Nat)) = size := by
        unfold Abi.sizeOf
        rcases abi.bits_cases with same | same <;> (rw [same] at small ⊢; omega)
      refine ⟨0, kind, ramdiskKind_names isKind, ?_⟩
      constructor
      case headers => exact ⟨fun index below => absurd below (Nat.not_lt_zero index), isKind⟩
      case readable => exact readable
      case passes =>
        rw [whole]
        exact passes
      case stored =>
        rw [whole]
        exact Host.dumped_dir_same _ _ _ _
      case others =>
        intro other _ different
        rw [Host.dumped_dir_other _ _ _ _ _ different]
        rfl
  | @peel start size host after flag readable unknown mtk named flagPasses mtkPasses rest ih =>
      have below : abi.sizeOf ((size : Int) - 512) < 2 ^ abi.bits := by
        unfold Abi.sizeOf
        rcases abi.bits_cases with same | same <;> (rw [same]; omega)
      obtain ⟨count, name, member, inner⟩ := ih below
      have address : start + 512 + 512 * count = start + 512 * (count + 1) := by omega
      have left : abi.sizeOf ((abi.sizeOf ((size : Int) - 512) : Int) - 512 * (count : Int)) =
          abi.sizeOf ((size : Int) - 512 * ((count + 1 : Nat) : Int)) := by
        rw [sizeOf_sub]
        congr 1
        omega
      have passes := inner.passes
      have stored := inner.stored
      rw [address, left] at passes stored
      refine ⟨count + 1, name, member, ?_⟩
      constructor
      case headers => exact inner.headers.cons unknown mtk
      case readable =>
        have inside := inner.readable
        omega
      case passes => exact passes
      case stored => exact stored
      case others =>
        intro other otherMember different
        have apart : other ≠ .ramdiskMtk ∧ other ≠ flag := by
          rcases mtkFlag_names named with rfl | rfl <;> rcases otherMember with rfl | rfl <;> decide
        rw [inner.others other otherMember different]
        unfold Host.peeled
        rw [Host.dumped_dir_other _ _ _ _ _ apart.1, Host.dumped_dir_other _ _ _ _ _ apart.2]
        rfl

/-! ### Conditional dumps -/

theorem Host.dumpedIf_calls (host : Host) (condition : Bool) (name : FileName)
    (start size : Nat) :
    (host.dumpedIf platform image condition name start size).calls =
      host.calls ++ if condition then [.dump name start size] else [] := by
  unfold dumpedIf
  cases condition with
  | true => rfl
  | false => exact (List.append_nil _).symm

theorem Host.dumpedIf_dir_same (host : Host) (condition : Bool) (name : FileName)
    (start size : Nat) :
    (host.dumpedIf platform image condition name start size).dir name =
      if condition then
        some { bytes := dumpedBytes platform image name start size, readable := true }
      else host.dir name := by
  unfold dumpedIf
  cases condition with
  | true => exact Host.dumped_dir_same _ _ _ _
  | false => rfl

theorem Host.dumpedIf_dir_other (host : Host) (condition : Bool) (name other : FileName)
    (start size : Nat) (different : other ≠ name) :
    (host.dumpedIf platform image condition name start size).dir other = host.dir other := by
  unfold dumpedIf
  cases condition with
  | true => exact Host.dumped_dir_other _ _ _ _ _ different
  | false => rfl

/-! ### The calls of a whole run -/

/-- All calls of an accepted run, in order, with those below `dump_ramdisk` left open. -/
theorem Sections.completed_calls {base : Nat} {host mid : Host}
    (sections : Sections platform image base (host.searched platform image) mid) :
    ∃ inner, (Host.completed platform image base mid).calls =
        host.calls ++
        (if matchesAt image 0 chromeosMagic then [Call.dump .chromeos 0 0] else []) ++
        [.dump .kernel (base + pageOf image base) (kernelSizeOf image base),
          .dumpRamdisk (base + ramdiskPos image base) (ramdiskSizeOf image base)] ++ inner ++
        (if secondSizeOf image base ≠ 0 then
          [.dump .second (base + secondPos image base) (secondSizeOf image base)] else []) ++
        (if dtDumped image base abi then
          [.dump .dt (base + dtPos image base) (dtSizeOf image base)] else []) ++
        (if signed image base then [.dump .rkcrc base 0] else []) ++
        (if secured image base abi then [.dump .secure base 0] else []) ∧
      ∀ name from_ length, Call.dump name from_ length ∈ inner → name ∈ ramdiskNames := by
  obtain ⟨inner, midCalls, names⟩ := sections.ramdiskPeels.calls
  refine ⟨inner, ?_, names⟩
  unfold Host.searched at midCalls
  unfold Host.completed
  simp only [Host.dumpedIf_calls, midCalls, Host.dumped_calls, decide_eq_true_eq]
  simp only [List.append_assoc, List.cons_append, List.nil_append]

def Call.dumpRange (name : FileName) : Call → Option (Nat × Nat)
  | .dump other start size => if other = name then some (start, size) else none
  | .dumpRamdisk _ _ => none

def Call.ramdiskRange : Call → Option (Nat × Nat)
  | .dump _ _ _ => none
  | .dumpRamdisk start size => some (start, size)

theorem filterMap_ramdisk_calls {inner : List Call}
    (names : ∀ name start size, Call.dump name start size ∈ inner → name ∈ ramdiskNames)
    (name : FileName) (different : name ∉ ramdiskNames) :
    inner.filterMap (Call.dumpRange name) = [] := by
  rw [List.filterMap_eq_nil_iff]
  intro call member
  cases call with
  | dump other start size =>
      have apart : other ≠ name := by
        intro same
        subst same
        exact different (names _ _ _ member)
      exact if_neg apart
  | dumpRamdisk start size => rfl

theorem filterMap_optional (name other : FileName) (start size : Nat) (condition : Prop)
    [Decidable condition] :
    (if condition then [Call.dump other start size] else []).filterMap (Call.dumpRange name) =
      if condition ∧ other = name then [(start, size)] else [] := by
  by_cases holds : condition
  · by_cases same : other = name
    · simp [holds, same, Call.dumpRange]
    · simp [holds, same, Call.dumpRange]
  · simp [holds]

theorem Sections.ranges {base : Nat} {dir : Directory} {mid : Host}
    (sections : Sections platform image base
      (Host.searched platform image { dir := dir, calls := [] }) mid) :
    (Host.completed platform image base mid).calls.filterMap (Call.dumpRange .kernel) =
        [(base + pageOf image base, kernelSizeOf image base)] ∧
      (Host.completed platform image base mid).calls.findSome? Call.ramdiskRange =
        some (base + ramdiskPos image base, ramdiskSizeOf image base) ∧
      (Host.completed platform image base mid).calls.filterMap (Call.dumpRange .second) =
        (if secondSizeOf image base ≠ 0 then
          [(base + secondPos image base, secondSizeOf image base)] else []) ∧
      (Host.completed platform image base mid).calls.filterMap (Call.dumpRange .dt) =
        (if dtDumped image base abi then
          [(base + dtPos image base, dtSizeOf image base)] else []) := by
  obtain ⟨inner, calls, names⟩ := sections.completed_calls
  have noKernel := filterMap_ramdisk_calls names .kernel (by decide)
  have noSecond := filterMap_ramdisk_calls names .second (by decide)
  have noDt := filterMap_ramdisk_calls names .dt (by decide)
  rw [calls]
  refine ⟨?_, ?_, ?_, ?_⟩
  · simp only [List.filterMap_append, noKernel, filterMap_optional, List.filterMap_cons,
      List.filterMap_nil, Call.dumpRange]
    simp
  · by_cases chromeos : matchesAt image 0 chromeosMagic = true
    · simp [chromeos, Call.ramdiskRange, List.findSome?_cons]
    · simp [chromeos, Call.ramdiskRange, List.findSome?_cons]
  · simp only [List.filterMap_append, noSecond, filterMap_optional, List.filterMap_cons,
      List.filterMap_nil, Call.dumpRange]
    simp
  · simp only [List.filterMap_append, noDt, filterMap_optional, List.filterMap_cons,
      List.filterMap_nil, Call.dumpRange]
    simp

/-! ### The files of a whole run -/

theorem before_kernel_none {base : Nat} {file : FileName} (member : file ∈ ramdiskNames) :
    ((Host.searched platform image { dir := Directory.empty, calls := [] }).dumped platform image
      .kernel (base + pageOf image base) (kernelSizeOf image base)).dir file = none := by
  have apart : file ≠ .kernel ∧ file ≠ .chromeos := by
    revert member
    cases file <;> decide
  rw [Host.dumped_dir_other _ _ _ _ _ apart.1]
  unfold Host.searched
  rw [Host.dumpedIf_dir_other _ _ _ _ _ _ apart.2]
  rfl

def fileIf (platform : Platform abi) (image : List UInt8) (before : Directory) (condition : Bool)
    (name : FileName) (start size : Nat) : Option File :=
  if condition then some { bytes := dumpedBytes platform image name start size, readable := true }
  else before name

/-- The directory behind an accepted run, the files of the ramdisk apart. -/
structure Files (platform : Platform abi) (image : List UInt8) (base : Nat)
    (before mid after : Directory) : Prop where
  kernel : after .kernel = fileIf platform image before true .kernel
    (base + pageOf image base) (kernelSizeOf image base)
  second : after .second = fileIf platform image before (decide (secondSizeOf image base ≠ 0))
    .second (base + secondPos image base) (secondSizeOf image base)
  dt : after .dt = fileIf platform image before (dtDumped image base abi) .dt
    (base + dtPos image base) (dtSizeOf image base)
  rkcrc : after .rkcrc = fileIf platform image before (signed image base) .rkcrc base 0
  secure : after .secure = fileIf platform image before (secured image base abi) .secure base 0
  chromeos : after .chromeos =
    fileIf platform image before (matchesAt image 0 chromeosMagic) .chromeos 0 0
  ramdisk : after .ramdisk = before .ramdisk
  newBoot : after .newBoot = before .newBoot
  peeled : ∀ name, name ∈ ramdiskNames → after name = mid name

theorem Sections.files {base : Nat} {host mid : Host}
    (sections : Sections platform image base (host.searched platform image) mid) :
    Files platform image base host.dir mid.dir (Host.completed platform image base mid).dir := by
  have peels := sections.ramdiskPeels
  have searchedKept : ∀ name, name ∉ ramdiskNames → name ≠ .kernel →
      mid.dir name = (host.searched platform image).dir name := by
    intro name different notKernel
    rw [peels.dir_other name different, Host.dumped_dir_other _ _ _ _ _ notKernel]
  have kept : ∀ name, name ∉ ramdiskNames → name ≠ .kernel → name ≠ .chromeos →
      mid.dir name = host.dir name := by
    intro name different notKernel notChromeos
    rw [searchedKept name different notKernel]
    exact Host.dumpedIf_dir_other _ _ _ _ _ _ notChromeos
  unfold Host.completed
  constructor
  case kernel =>
    simp only [Host.dumpedIf_dir_other, ne_eq, reduceCtorEq, not_false_eq_true]
    rw [peels.dir_other _ (by decide), Host.dumped_dir_same]
    rfl
  case chromeos =>
    simp only [Host.dumpedIf_dir_other, ne_eq, reduceCtorEq, not_false_eq_true]
    rw [searchedKept _ (by decide) (by decide)]
    exact Host.dumpedIf_dir_same _ _ _ _ _
  case peeled =>
    intro name member
    have apart : name ≠ .second ∧ name ≠ .dt ∧ name ≠ .rkcrc ∧ name ≠ .secure := by
      revert member
      cases name <;> decide
    obtain ⟨notSecond, notDt, notRkcrc, notSecure⟩ := apart
    rw [Host.dumpedIf_dir_other _ _ _ _ _ _ notSecure,
      Host.dumpedIf_dir_other _ _ _ _ _ _ notRkcrc, Host.dumpedIf_dir_other _ _ _ _ _ _ notDt,
      Host.dumpedIf_dir_other _ _ _ _ _ _ notSecond]
  all_goals
    simp only [fileIf, Host.dumpedIf_dir_other, Host.dumpedIf_dir_same, ne_eq, reduceCtorEq,
      not_false_eq_true]
    rw [kept _ (by decide) (by decide) (by decide)]

end SuperBootimg.Concrete.Extract
