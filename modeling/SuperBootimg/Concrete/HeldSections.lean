/-
Extracting an image that holds given sections at the positions of bootimg.h: the
run is accepted and the directory it leaves is known file by file.
-/

import SuperBootimg.Concrete.ExtractCalls
import SuperBootimg.Concrete.RepackRuns

namespace SuperBootimg.Concrete

open ByteImage PagedLayout Extract

/-! ### Ramdisk sections -/

/-- What stands in front of the payload of a ramdisk section. -/
inductive MtkWrapper
  | none
  | boot
  | recovery
  deriving DecidableEq, Repr

namespace MtkWrapper

def name : MtkWrapper → List UInt8
  | .none => []
  | .boot => resize Repack.rootfsName 32
  | .recovery => resize Repack.recoveryName 32

def wrap (wrapper : MtkWrapper) (payload : List UInt8) : List UInt8 :=
  match wrapper with
  | .none => payload
  | _ => Repack.mtkHeader payload.length wrapper.name ++ payload

def extra : MtkWrapper → Nat
  | .none => 0
  | _ => 512

def flags : MtkWrapper → List FileName
  | .none => []
  | .boot => [.ramdiskMtk, .ramdiskMtkBoot]
  | .recovery => [.ramdiskMtk, .ramdiskMtkRecovery]

end MtkWrapper

inductive PayloadName : List UInt8 → FileName → Prop
  | gzip {payload : List UInt8} (front : gzipMagic <+: payload) : PayloadName payload .ramdiskGz
  | lzma {payload : List UInt8} (front : lzmaMagic <+: payload) : PayloadName payload .ramdiskLzma

theorem PayloadName.length_pos {payload : List UInt8} {name : FileName}
    (named : PayloadName payload name) : 3 ≤ payload.length := by
  cases named with
  | gzip front => exact Nat.le_trans (by decide) front.length_le
  | lzma front => exact Nat.le_trans (by decide) front.length_le

theorem PayloadName.kind {payload image : List UInt8} {name : FileName} {start : Nat}
    (named : PayloadName payload name) (seen : window image start payload.length = payload) :
    ramdiskKind image start = some name := by
  unfold ramdiskKind
  cases named with
  | gzip front => rw [if_pos (matchesAt_of_front seen front)]
  | lzma front =>
      have first : read image start = 0x5d := by
        have head := read_of_window ((matchesAt_iff image lzmaMagic start).mp
          (matchesAt_of_front seen front)) 0 (by decide)
        exact head
      have noGzip : matchesAt image start gzipMagic = false :=
        matchesAt_of_head_ne _ (by decide) (by rw [first]; decide)
      rw [noGzip, if_neg Bool.false_ne_true, if_pos (matchesAt_of_front seen front)]

theorem MtkWrapper.length_name (wrapper : MtkWrapper) (wrapped : wrapper ≠ .none) :
    wrapper.name.length = 32 := by
  cases wrapper with
  | none => exact absurd rfl wrapped
  | boot => exact length_resize _ _
  | recovery => exact length_resize _ _

theorem MtkWrapper.length_wrap (wrapper : MtkWrapper) (payload : List UInt8) :
    (wrapper.wrap payload).length = wrapper.extra + payload.length := by
  cases wrapper with
  | none => exact (Nat.zero_add _).symm
  | boot =>
      have header := Repack.length_mtkHeader payload.length _
        (MtkWrapper.length_name .boot (by decide))
      simp only [wrap, extra, List.length_append, header]
  | recovery =>
      have header := Repack.length_mtkHeader payload.length _
        (MtkWrapper.length_name .recovery (by decide))
      simp only [wrap, extra, List.length_append, header]

theorem MtkWrapper.wrap_eq {wrapper : MtkWrapper} (wrapped : wrapper ≠ .none)
    (payload : List UInt8) :
    wrapper.wrap payload = Repack.mtkHeader payload.length wrapper.name ++ payload := by
  cases wrapper with
  | none => exact absurd rfl wrapped
  | boot => rfl
  | recovery => rfl

theorem MtkWrapper.seen {wrapper : MtkWrapper} (wrapped : wrapper ≠ .none)
    {payload image : List UInt8} {start : Nat}
    (seen : window image start (wrapper.wrap payload).length = wrapper.wrap payload) :
    matchesAt image start mtkMagic = true ∧ window image (start + 8) 32 = wrapper.name ∧
      window image (start + 512) payload.length = payload := by
  have nameLength := wrapper.length_name wrapped
  have headerLength := Repack.length_mtkHeader payload.length wrapper.name nameLength
  have form := MtkWrapper.wrap_eq wrapped payload
  have fields : wrapper.wrap payload =
      (Repack.mtkMagic ++ littleEndian 4 (uint32Of payload.length)) ++
        (wrapper.name ++ (List.replicate (512 - 8 - 32) 0xff ++ payload)) := by
    rw [form]
    simp only [Repack.mtkHeader, List.append_assoc]
  have total : (wrapper.wrap payload).length = 512 + payload.length := by
    rw [form, List.length_append, headerLength]
  refine ⟨matchesAt_of_front seen ⟨_, (List.append_assoc _ _ _ ▸ fields).symm⟩, ?_, ?_⟩
  · have fieldsLength :
        (Repack.mtkMagic ++ littleEndian 4 (uint32Of payload.length)).length = 8 := by
      rw [List.length_append, length_littleEndian]
      rfl
    have inner := window_append_right
      (Repack.mtkMagic ++ littleEndian 4 (uint32Of payload.length))
      (wrapper.name ++ (List.replicate (512 - 8 - 32) 0xff ++ payload)) 0 32
    rw [fieldsLength, window_append_left wrapper.name _ 0 32 (by omega), ← fields] at inner
    rw [window_of_window seen 8 32 (by omega), inner, ← nameLength, window_all]
  · have inner := window_append_right (Repack.mtkHeader payload.length wrapper.name) payload 0
      payload.length
    rw [headerLength, window_all, ← form] at inner
    rw [window_of_window seen 512 payload.length (by omega), inner]

theorem MtkWrapper.flag {wrapper : MtkWrapper} (wrapped : wrapper ≠ .none) {image : List UInt8}
    {start : Nat} (seen : window image (start + 8) 32 = wrapper.name) :
    ∃ flag, mtkFlag image start = some flag ∧ wrapper.flags = [.ramdiskMtk, flag] := by
  have nameLength := wrapper.length_name wrapped
  rw [← nameLength] at seen
  unfold mtkFlag
  cases wrapper with
  | none => exact absurd rfl wrapped
  | boot =>
      have rootfs : matchesAt image (start + 8) Extract.rootfsName = true :=
        matchesAt_of_front seen (by decide)
      have noRecovery : matchesAt image (start + 8) Extract.recoveryName = false := by
        -- the names differ in their second letter
        cases found : matchesAt image (start + 8) Extract.recoveryName with
        | false => rfl
        | true =>
            have letter := read_of_window ((matchesAt_iff _ _ _).mp found) 1 (by decide)
            rw [read_of_window seen 1 (by decide)] at letter
            exact absurd letter (by decide)
      exact ⟨_, by rw [noRecovery, if_neg Bool.false_ne_true, if_pos rootfs], rfl⟩
  | recovery =>
      have recovery : matchesAt image (start + 8) recoveryName = true :=
        matchesAt_of_front seen (by decide)
      exact ⟨_, if_pos recovery, rfl⟩

section Ramdisk

variable {abi : Abi} {platform : Platform abi} {image : List UInt8}

theorem dumpedBytes_of_complete (complete : platform.Complete) (name : FileName)
    (start size : Nat) (small : size ≤ maxTransfer) (inside : start + size ≤ mappedLength image) :
    dumpedBytes platform image name start size = window image start size := by
  unfold dumpedBytes
  rw [complete.write_all name _ size small (by omega), Option.getD_some]

theorem dumpedBytes_flag (complete : platform.Complete) (name : FileName) (start : Nat) :
    dumpedBytes platform image name start 0 = [] := by
  unfold dumpedBytes
  rw [complete.write_all name _ 0 (Nat.zero_le _) (Nat.zero_le _)]
  exact List.eq_nil_of_length_eq_zero (length_window _ _ _)

/-- The files `dump_ramdisk` leaves for a wrapped payload. -/
structure Unwrapped (wrapper : MtkWrapper) (payload : List UInt8) (name : FileName)
    (before after : Directory) : Prop where
  payload : after name = some { bytes := payload, readable := true }
  flags : ∀ flag, flag ∈ wrapper.flags → after flag = some { bytes := [], readable := true }
  others : ∀ other, other ≠ name → other ∉ wrapper.flags → after other = before other

private theorem peeled_dir_flag (complete : platform.Complete) (host : Host) {flag other : FileName}
    (start size : Nat) (member : other ∈ [FileName.ramdiskMtk, flag]) :
    (host.peeled platform image flag start size).dir other =
      some { bytes := [], readable := true } := by
  unfold Host.peeled
  by_cases same : other = .ramdiskMtk
  · subst same
    rw [Host.dumped_dir_same, dumpedBytes_flag complete]
  · simp only [List.mem_cons, List.not_mem_nil, or_false, same, false_or] at member
    subst member
    rw [Host.dumped_dir_other _ _ _ _ _ same, Host.dumped_dir_same, dumpedBytes_flag complete]

private theorem peeled_dir_other (host : Host) {flag other : FileName} (start size : Nat)
    (apart : other ∉ [FileName.ramdiskMtk, flag]) :
    (host.peeled platform image flag start size).dir other = host.dir other := by
  simp only [List.mem_cons, List.not_mem_nil, or_false, not_or] at apart
  unfold Host.peeled
  rw [Host.dumped_dir_other _ _ _ _ _ apart.1, Host.dumped_dir_other _ _ _ _ _ apart.2]
  rfl

private theorem PayloadName.not_flag {payload : List UInt8} {name flag other : FileName}
    {start : Nat} (named : PayloadName payload name) (flagged : mtkFlag image start = some flag)
    (member : other ∈ [FileName.ramdiskMtk, flag]) : other ≠ name := by
  simp only [List.mem_cons, List.not_mem_nil, or_false] at member
  rcases mtkFlag_names flagged with rfl | rfl <;> rcases member with rfl | rfl <;>
    cases named <;> decide

variable (platform) in
private theorem found_unwrapped (complete : platform.Complete) {payload : List UInt8}
    {name : FileName} {start : Nat} (named : PayloadName payload name)
    (seen : window image start payload.length = payload) (small : payload.length ≤ maxTransfer)
    (inside : start + payload.length ≤ mappedLength image)
    (room : start + 4 ≤ mappedLength image) (host : Host) :
    ∃ after, Peels platform image start payload.length host after ∧
      Unwrapped .none payload name host.dir after.dir := by
  refine ⟨_, .found name room (named.kind seen)
    (passes_of_complete complete name start _ small inside), ?_, nofun, ?_⟩
  · rw [Host.dumped_dir_same, dumpedBytes_of_complete complete name start _ small inside, seen]
  · intro other different _
    rw [Host.dumped_dir_other _ _ _ _ _ different]
    rfl

variable (platform) in
/-- Extract takes a wrapped payload apart into the payload and its flags. -/
theorem peels_unwrapped (complete : platform.Complete) {wrapper : MtkWrapper}
    {payload : List UInt8} {name : FileName} (start : Nat) (named : PayloadName payload name)
    (seen : window image start (wrapper.wrap payload).length = wrapper.wrap payload)
    (small : payload.length ≤ maxTransfer)
    (inside : start + (wrapper.wrap payload).length ≤ mappedLength image)
    (room : start + wrapper.extra + 4 ≤ mappedLength image) (host : Host) :
    ∃ after, Peels platform image start (wrapper.wrap payload).length host after ∧
      Unwrapped wrapper payload name host.dir after.dir := by
  by_cases plain : wrapper = .none
  · subst plain
    exact found_unwrapped platform complete named seen small inside room host
  · obtain ⟨mtk, nameSeen, payloadSeen⟩ := MtkWrapper.seen plain seen
    obtain ⟨flag, flagged, flags⟩ := MtkWrapper.flag plain nameSeen
    have limits := abi.modulus_signBit
    have length := wrapper.length_wrap payload
    have extra : wrapper.extra = 512 := by
      cases wrapper with
      | none => exact absurd rfl plain
      | boot => rfl
      | recovery => rfl
    have unknown : ramdiskKind image start = none := by
      have first : read image start = 0x88 :=
        read_of_window ((matchesAt_iff _ _ _).mp mtk) 0 (by decide)
      unfold ramdiskKind
      rw [matchesAt_of_head_ne gzipMagic (by decide) (by rw [first]; decide),
        matchesAt_of_head_ne lzmaMagic (by decide) (by rw [first]; decide)]
      rfl
    have left : abi.sizeOf (((wrapper.wrap payload).length : Int) - 512) = payload.length := by
      unfold maxTransfer at small
      unfold Abi.sizeOf
      rcases abi.bits_cases with width | width <;> (rw [width]; omega)
    rw [length, extra] at inside
    rw [extra] at room
    obtain ⟨after, peels, unwrapped⟩ := found_unwrapped platform complete named
      payloadSeen small (by omega) (by omega)
      (host.peeled platform image flag start (wrapper.wrap payload).length)
    rw [← left] at peels
    refine ⟨after, .peel flag (by omega) unknown mtk flagged (passes_flag complete _ _)
      (passes_flag complete _ _) peels, unwrapped.payload, ?_, ?_⟩
    · intro other member
      rw [flags] at member
      have kept : after.dir other = _ :=
        unwrapped.others other (named.not_flag flagged member) nofun
      rw [kept]
      exact peeled_dir_flag complete host start _ member
    · intro other different notFlag
      rw [flags] at notFlag
      rw [unwrapped.others other different nofun]
      exact peeled_dir_other host start _ notFlag

end Ramdisk

/-! ### Whole images -/

/-- The header at `base` declares these sections, and they stand behind it. -/
structure Holds (image : List UInt8) (base : Nat) (kernel ramdisk second dt : List UInt8) :
    Prop where
  kernelSize : kernelSizeOf image base = kernel.length
  ramdiskSize : ramdiskSizeOf image base = ramdisk.length
  secondSize : secondSizeOf image base = second.length
  dtSize : dtSizeOf image base = dt.length
  kernelAt : window image (base + pageOf image base) kernel.length = kernel
  ramdiskAt : window image (base + (pageOf image base +
    roundUp (pageOf image base) kernel.length)) ramdisk.length = ramdisk
  secondAt : window image (base + (pageOf image base +
    roundUp (pageOf image base) kernel.length +
    roundUp (pageOf image base) ramdisk.length)) second.length = second
  dtAt : window image (base + (pageOf image base +
    roundUp (pageOf image base) kernel.length + roundUp (pageOf image base) ramdisk.length +
    roundUp (pageOf image base) second.length)) dt.length = dt
  total : Repack.builtLength (pageOf image base) kernel.length ramdisk.length second.length
    dt.length < 2147483648
  fits : base + Repack.builtLength (pageOf image base) kernel.length ramdisk.length second.length
    dt.length ≤ image.length

def restored (kernel payload second dt : List UInt8) (wrapper : MtkWrapper) (name : FileName)
    (secure chromeos : Bool) : Directory := fun file =>
  if file = .kernel then some { bytes := kernel, readable := true }
  else if file = name then some { bytes := payload, readable := true }
  else if file ∈ wrapper.flags then some { bytes := [], readable := true }
  else if file = .second ∧ second ≠ [] then some { bytes := second, readable := true }
  else if file = .dt ∧ dt ≠ [] then some { bytes := dt, readable := true }
  else if file = .secure ∧ secure then some { bytes := [], readable := true }
  else if file = .chromeos ∧ chromeos then some { bytes := [], readable := true }
  else none

theorem PayloadName.member {payload : List UInt8} {name : FileName}
    (named : PayloadName payload name) : name ∈ ramdiskNames := by
  cases named <;> decide

theorem MtkWrapper.flags_member (wrapper : MtkWrapper) {flag : FileName}
    (member : flag ∈ wrapper.flags) : flag ∈ ramdiskNames := by
  revert member
  cases wrapper <;> cases flag <;> decide

theorem Unwrapped.file_eq {wrapper : MtkWrapper} {payload : List UInt8} {name file : FileName}
    {before after : Directory} (unwrapped : Unwrapped wrapper payload name before after)
    (absent : before file = none) :
    after file =
      if file = name then some { bytes := payload, readable := true }
      else if file ∈ wrapper.flags then some { bytes := [], readable := true }
      else none := by
  by_cases same : file = name
  · rw [if_pos same, same]
    exact unwrapped.payload
  · rw [if_neg same]
    by_cases flag : file ∈ wrapper.flags
    · rw [if_pos flag]
      exact unwrapped.flags file flag
    · rw [if_neg flag, unwrapped.others file same flag, absent]

theorem restored_ramdisk {kernel payload second dt : List UInt8} {wrapper : MtkWrapper}
    {name file : FileName} {secure chromeos : Bool} (member : file ∈ ramdiskNames) :
    restored kernel payload second dt wrapper name secure chromeos file =
      if file = name then some { bytes := payload, readable := true }
      else if file ∈ wrapper.flags then some { bytes := [], readable := true }
      else none := by
  unfold restored
  revert member
  cases file <;> simp [ramdiskNames]

section Images

variable {abi : Abi} {platform : Platform abi} {image : List UInt8} {base : Nat}
  {kernel ramdisk second dt : List UInt8}

theorem Holds.positions (valid : PageSize (pageOf image base))
    (holds : Holds image base kernel ramdisk second dt) :
    ramdiskPos image base = pageOf image base + roundUp (pageOf image base) kernel.length ∧
      secondPos image base = pageOf image base + roundUp (pageOf image base) kernel.length +
        roundUp (pageOf image base) ramdisk.length ∧
      dtPos image base = pageOf image base + roundUp (pageOf image base) kernel.length +
        roundUp (pageOf image base) ramdisk.length +
        roundUp (pageOf image base) second.length := by
  have bounds := valid.bounds
  have kernelFits := le_roundUp valid.positive kernel.length
  have ramdiskFits := le_roundUp valid.positive ramdisk.length
  have secondFits := le_roundUp valid.positive second.length
  have total := holds.total
  simp only [Repack.builtLength, span] at total
  unfold dtPos secondPos ramdiskPos
  rw [holds.kernelSize, holds.ramdiskSize, holds.secondSize, roundUp32_eq _ _ (by omega),
    roundUp32_eq _ _ (by omega), roundUp32_eq _ _ (by omega)]
  exact ⟨rfl, rfl, rfl⟩

theorem page_le_roundUp {page : Nat} (positive : 0 < page) (size : Nat) (nonempty : 0 < size) :
    page ≤ roundUp page size :=
  Nat.le_of_dvd (Nat.lt_of_lt_of_le nonempty (le_roundUp positive size)) (dvd_roundUp size)

theorem Holds.dtDumped_eq (valid : PageSize (pageOf image base))
    (holds : Holds image base kernel ramdisk second dt)
    (recognised : dt = [] ∨ ∃ magic, magic ∈ dtMagics ∧ magic <+: dt) :
    dtDumped image base abi = decide (dt ≠ []) := by
  have limits := abi.modulus_signBit
  by_cases absent : dt = []
  · have zero : dtSizeOf image base = 0 := by
      rw [holds.dtSize, absent]
      rfl
    unfold dtDumped dtTested
    rw [zero]
    simp [absent]
  · have nonempty := List.length_pos_iff.mpr absent
    obtain ⟨_, _, dtAt⟩ := holds.positions valid
    have dtFits := le_roundUp valid.positive dt.length
    have total := holds.total
    have fits := holds.fits
    simp only [Repack.builtLength, span] at total fits
    obtain ⟨magic, member, front⟩ := recognised.resolve_left absent
    rw [decide_eq_true absent, Extract.dtDumped_iff _ _ _ (by rw [holds.dtSize, dtAt]; omega),
      holds.dtSize, dtAt]
    exact ⟨by omega, by omega, by omega, magic, member, matchesAt_of_front holds.dtAt front⟩

theorem Holds.endPos_eq (valid : PageSize (pageOf image base))
    (holds : Holds image base kernel ramdisk second dt)
    (recognised : dt = [] ∨ ∃ magic, magic ∈ dtMagics ∧ magic <+: dt) :
    endPos image base abi = Repack.builtLength (pageOf image base) kernel.length ramdisk.length
      second.length dt.length := by
  have bounds := valid.bounds
  have dtFits := le_roundUp valid.positive dt.length
  have total := holds.total
  obtain ⟨_, _, dtAt⟩ := holds.positions valid
  simp only [Repack.builtLength, span] at total ⊢
  unfold endPos
  rw [dtAt, holds.dtDumped_eq valid recognised, holds.dtSize]
  by_cases absent : dt = []
  · simp only [absent, ne_eq, not_true_eq_false, decide_false, Bool.false_eq_true, if_false,
      List.length_nil, roundUp_zero]
    omega
  · rw [if_pos (decide_eq_true absent), roundUp32_eq _ _ (by omega)]
    omega

theorem Holds.secured_eq (located : Located abi image base)
    (holds : Holds image base kernel ramdisk second dt)
    (recognised : dt = [] ∨ ∃ magic, magic ∈ dtMagics ∧ magic <+: dt)
    (unsigned : signed image base = false) :
    secured image base abi = decide (Repack.builtLength (pageOf image base) kernel.length
      ramdisk.length second.length dt.length < image.length) := by
  have short := located.representable
  have total := holds.total
  have flag := Abi.truncated_lt_iff abi (endPos image base abi) image.length short
  rw [holds.endPos_eq located.pageSize recognised] at flag
  unfold secured
  rw [unsigned, Bool.false_or, holds.endPos_eq located.pageSize recognised]
  apply decide_eq_decide.mpr
  omega

private theorem transfer_le {page size pos : Nat} (valid : PageSize page) (aligned : page ∣ pos)
    (behind : page ≤ pos) (total : pos + roundUp page size < 2147483648) : size ≤ maxTransfer := by
  have fits := le_roundUp valid.positive size
  have rounded : page ∣ roundUp page size := dvd_roundUp size
  unfold maxTransfer
  rcases valid with rfl | rfl | rfl <;> omega

theorem Holds.transfers (valid : PageSize (pageOf image base))
    (holds : Holds image base kernel ramdisk second dt) :
    (kernel.length ≤ maxTransfer ∧
        base + pageOf image base + kernel.length ≤ image.length) ∧
      (ramdisk.length ≤ maxTransfer ∧
        base + ramdiskPos image base + roundUp (pageOf image base) ramdisk.length ≤
          image.length) ∧
      (second.length ≤ maxTransfer ∧
        base + secondPos image base + second.length ≤ image.length) ∧
      dt.length ≤ maxTransfer ∧
        base + dtPos image base + roundUp (pageOf image base) dt.length ≤ image.length := by
  obtain ⟨ramdiskAt, secondAt, dtAt⟩ := holds.positions valid
  obtain ⟨ramdiskAligned, secondAligned, dtAligned⟩ := dvd_positions image base
  have kernelFits := le_roundUp valid.positive kernel.length
  have secondFits := le_roundUp valid.positive second.length
  have total := holds.total
  have fits := holds.fits
  simp only [Repack.builtLength, span] at total fits
  exact ⟨⟨transfer_le valid (Nat.dvd_refl _) (Nat.le_refl _) (by omega), by omega⟩,
    ⟨transfer_le valid ramdiskAligned (by omega) (by omega), by omega⟩,
    ⟨transfer_le valid secondAligned (by omega) (by omega), by omega⟩,
    transfer_le valid dtAligned (by omega) (by omega), by omega⟩

theorem Holds.sections (complete : platform.Complete) (located : Located abi image base)
    {payload : List UInt8} {wrapper : MtkWrapper} {name : FileName}
    (holds : Holds image base kernel (wrapper.wrap payload) second dt)
    (named : PayloadName payload name) (host : Host) :
    ∃ mid, Sections platform image base host mid ∧
      Unwrapped wrapper payload name (host.dumped platform image .kernel
        (base + pageOf image base) (kernelSizeOf image base)).dir mid.dir := by
  have valid := located.pageSize
  have bounds := valid.bounds
  have limits := abi.modulus_signBit
  have mapped := length_le_mappedLength image
  obtain ⟨ramdiskAt, secondAt, dtAt⟩ := holds.positions valid
  obtain ⟨⟨kernelSmall, kernelInside⟩, ⟨ramdiskSmall, ramdiskInside⟩,
    ⟨secondSmall, secondInside⟩, dtSmall, dtInside⟩ := holds.transfers valid
  have payloadLength := wrapper.length_wrap payload
  have nonempty := named.length_pos
  have ramdiskFits := le_roundUp valid.positive (wrapper.wrap payload).length
  have ramdiskPage := page_le_roundUp valid.positive (wrapper.wrap payload).length
    (by omega)
  have dtFits := le_roundUp valid.positive dt.length
  have extra : wrapper.extra ≤ 512 := by
    cases wrapper <;> decide
  have total := holds.total
  simp only [Repack.builtLength, span] at total
  obtain ⟨mid, peels, unwrapped⟩ := peels_unwrapped platform complete
    (base + ramdiskPos image base) named (by rw [ramdiskAt]; exact holds.ramdiskAt)
    (by omega) (by omega) (by omega)
    (host.dumped platform image .kernel (base + pageOf image base) (kernelSizeOf image base))
  rw [← holds.ramdiskSize] at peels
  refine ⟨mid, ?_, unwrapped⟩
  constructor
  case kernelPasses =>
    rw [holds.kernelSize]
    exact passes_of_complete complete _ _ _ kernelSmall (by omega)
  case ramdiskPeels => exact peels
  case secondWithin =>
    intro _
    have fits := le_roundUp valid.positive second.length
    rw [Abi.sumWithin_iff _ _ _ _ (by rw [holds.secondSize]; omega), holds.secondSize]
    omega
  case secondPasses =>
    intro _
    rw [holds.secondSize]
    exact passes_of_complete complete _ _ _ secondSmall (by omega)
  case dtReadable =>
    intro tested
    unfold dtTested at tested
    have present := (decide_eq_true_iff.mp tested).1
    rw [holds.dtSize] at present
    have dtPage := page_le_roundUp valid.positive dt.length (by omega)
    omega
  case dtPasses =>
    intro _
    rw [holds.dtSize]
    exact passes_of_complete complete _ _ _ dtSmall (by omega)
  case signReadable => omega
  case signPasses => exact fun _ => passes_flag complete _ _
  case securePasses => exact fun _ => passes_flag complete _ _

private theorem fileIf_held (complete : platform.Complete) {part : List UInt8} {start : Nat}
    (seen : window image start part.length = part) (small : part.length ≤ maxTransfer)
    (inside : start + part.length ≤ image.length) (condition : Bool) (name : FileName) :
    fileIf platform image .empty condition name start part.length =
      if condition then some { bytes := part, readable := true } else none := by
  have mapped := length_le_mappedLength image
  unfold fileIf
  rw [dumpedBytes_of_complete complete name start _ small (by omega), seen]
  rfl

private theorem fileIf_flag (complete : platform.Complete) (condition : Bool) (name : FileName)
    (start : Nat) :
    fileIf platform image .empty condition name start 0 =
      if condition then some { bytes := [], readable := true } else none := by
  unfold fileIf
  rw [dumpedBytes_flag complete]
  rfl

/-- Extracting an image that holds its sections restores them, with the flags for the
wrapper, for bytes outside the sections and for a prefix that says CHROMEOS. -/
theorem extract_of_holds (complete : platform.Complete) (located : Located abi image base)
    {payload : List UInt8} {wrapper : MtkWrapper} {name : FileName}
    (holds : Holds image base kernel (wrapper.wrap payload) second dt)
    (named : PayloadName payload name)
    (recognised : dt = [] ∨ ∃ magic, magic ∈ dtMagics ∧ magic <+: dt)
    (unsigned : signed image base = false) :
    extract platform image .empty =
      { stop := none
        dir := restored kernel payload second dt wrapper name
          (decide (Repack.builtLength (pageOf image base) kernel.length
            (wrapper.wrap payload).length second.length dt.length < image.length))
          (matchesAt image 0 chromeosMagic) } := by
  have valid := located.pageSize
  obtain ⟨ramdiskAt, secondAt, dtAt⟩ := holds.positions valid
  obtain ⟨⟨kernelSmall, kernelInside⟩, _, ⟨secondSmall, secondInside⟩, dtSmall, dtInside⟩ :=
    holds.transfers valid
  have dtFits := le_roundUp valid.positive dt.length
  obtain ⟨mid, sections, unwrapped⟩ := holds.sections complete located named
    (Host.searched platform image { dir := Directory.empty, calls := [] })
  have finished := (main_finishes platform image
    { dir := Directory.empty, calls := [] } _).mpr
    ⟨fun _ => passes_flag complete _ _, base, mid, located, sections, rfl⟩
  have files := sections.files
  have kernelFile := files.kernel
  rw [holds.kernelSize, fileIf_held complete holds.kernelAt kernelSmall (by omega)] at kernelFile
  have secondFile := files.second
  rw [holds.secondSize, secondAt, fileIf_held complete holds.secondAt secondSmall (by omega)]
    at secondFile
  have dtFile := files.dt
  rw [holds.dtSize, dtAt, fileIf_held complete holds.dtAt dtSmall (by omega),
    holds.dtDumped_eq valid recognised] at dtFile
  have rkcrcFile := files.rkcrc
  rw [unsigned, fileIf_flag complete] at rkcrcFile
  have secureFile := files.secure
  rw [holds.secured_eq located recognised unsigned, fileIf_flag complete] at secureFile
  have chromeosFile := files.chromeos
  rw [fileIf_flag complete] at chromeosFile
  rw [(extract_of_finishes finished).1]
  congr 1
  funext file
  by_cases member : file ∈ ramdiskNames
  · rw [files.peeled file member, unwrapped.file_eq (before_kernel_none member)]
    exact (restored_ramdisk member).symm
  · have different : file ≠ name := by
      intro same
      subst same
      exact member named.member
    have noFlag : file ∉ wrapper.flags := fun flag => member (wrapper.flags_member flag)
    unfold restored
    rw [if_neg different, if_neg noFlag]
    cases file with
    | kernel =>
        rw [kernelFile]
        rfl
    | second =>
        rw [secondFile]
        simp
    | dt =>
        rw [dtFile]
        simp
    | rkcrc =>
        rw [rkcrcFile]
        rfl
    | secure =>
        rw [secureFile]
        simp
    | chromeos =>
        rw [chromeosFile]
        simp
    | ramdisk =>
        rw [files.ramdisk]
        rfl
    | newBoot =>
        rw [files.newBoot]
        rfl
    | ramdiskGz | ramdiskLzma | ramdiskMtk | ramdiskMtkBoot | ramdiskMtkRecovery =>
        exact absurd (by decide) member

end Images

end SuperBootimg.Concrete
