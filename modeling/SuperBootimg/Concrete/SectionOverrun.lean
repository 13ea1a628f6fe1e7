/-
Whether peeling MTK headers stays inside the ramdisk section. The remaining size is not
tested before 512 is taken off, and the comparisons do not look at it at all.
-/

import SuperBootimg.Concrete.DecodedLayout
import SuperBootimg.Concrete.PeeledSection

namespace SuperBootimg.Concrete.Extract

open ByteImage StoppableRun

def ramdiskSizes (calls : List Call) : List Nat :=
  calls.filterMap fun call => call.ramdiskRange.map Prod.snd

def ramdiskRun {abi : Abi} (platform : Platform abi) (image : List UInt8) (start size : Nat)
    (host : Host) : EStateM.Result Stop Host Unit :=
  dumpRamdisk platform image (dumpRamdiskFuel image) start size host

structure Descending (size : Nat) (sizes : List Nat) : Prop where
  few : sizes.length ≤ size / 512 + 1
  bounded : ∀ handed, handed ∈ sizes → handed ≤ size
  sorted : sizes.Pairwise fun received handed => handed ≤ received

structure Written (bytes : List UInt8) (count : Nat) (name : FileName) (dir : Directory) :
    Prop where
  inside : 512 * count ≤ bytes.length
  headers : ∀ index, index < count → mtkMagic <+: bytes.drop (512 * index)
  kind : sectionKind (bytes.drop (512 * count)) = some name
  stored : dir name = some { bytes := bytes.drop (512 * count), readable := true }

/-- `dump_ramdisk` keeps to a section at an address, whatever is before and behind it. -/
structure StaysInside (abi : Abi) (start : Nat) (bytes : List UInt8) : Prop where
  sizes : ∀ (platform : Platform abi), platform.Steady → ∀ image host,
    SectionAt abi image start bytes →
      ∃ calls, (reached (ramdiskRun platform image start bytes.length host)).calls =
        host.calls ++ calls ∧ Descending bytes.length (ramdiskSizes calls)
  decided : ∀ (platform : Platform abi), platform.Steady → ∀ image other host,
    SectionAt abi image start bytes → SectionAt abi other start bytes →
      ramdiskRun platform image start bytes.length host =
        ramdiskRun platform other start bytes.length host
  written : ∀ (platform : Platform abi), platform.Steady → ∀ image host after,
    SectionAt abi image start bytes →
      ramdiskRun platform image start bytes.length host = .ok () after →
        ∃ calls count name, after.calls = host.calls ++ calls ∧
          (ramdiskSizes calls).length = count + 1 ∧ Written bytes count name after.dir

/-! ### Peeled sections -/

section Peeled

variable {abi : Abi} {platform : Platform abi} {bytes : List UInt8}

def Host.kept (platform : Platform abi) (host : Host) (bytes : List UInt8) (start : Nat)
    (name : FileName) : Host :=
  (host.record (.dump name start bytes.length)).store name
    (bytes.take ((platform.write name bytes.length bytes.length).getD 0))

theorem dumpSection_eq (bytes : List UInt8) (start : Nat) (name : FileName) (host : Host) :
    dumpSection platform bytes start name host =
      if returned abi (platform.write name bytes.length bytes.length) = bytes.length
      then .ok () (host.kept platform bytes start name)
      else .error .abort (host.kept platform bytes start name) := by
  change (if returned abi (platform.write name bytes.length bytes.length) = bytes.length
    then pure () else throw Stop.abort : Process Unit) (host.kept platform bytes start name) = _
  split
  · rfl
  · rfl

theorem dumpSection_finishes {start : Nat} {name : FileName} {host after : Host} {result : Unit}
    (finished : Finishes (dumpSection platform bytes start name) host result after)
    (short : bytes.length < abi.signBit) :
    after = (host.record (.dump name start bytes.length)).store name bytes := by
  unfold Finishes at finished
  rw [dumpSection_eq] at finished
  split at finished
  · rename_i passes
    cases finished
    unfold Host.kept
    cases outcome : platform.write name bytes.length bytes.length with
    | none =>
        have limits := abi.modulus_signBit
        rw [outcome, returned_none] at passes
        omega
    | some moved =>
        rw [outcome, returned_some moved (platform.write_le _ _ _ _ outcome).2.2] at passes
        rw [Option.getD_some, passes, List.take_length]
  · cases finished

/-- However the program ends, the sizes it has handed to `dump_ramdisk` are like that. -/
def Hands (program : Process Unit) (sizes : List Nat → Prop) : Prop :=
  ∀ host, ∃ calls, (reached (program host)).calls = host.calls ++ calls ∧
    sizes (ramdiskSizes calls)

theorem Hands.imp {program : Process Unit} {sizes other : List Nat → Prop}
    (hands : Hands program sizes) (weaker : ∀ handed, sizes handed → other handed) :
    Hands program other := by
  intro host
  obtain ⟨calls, same, holds⟩ := hands host
  exact ⟨calls, same, weaker _ holds⟩

theorem Hands.throw {sizes : List Nat → Prop} (none : sizes []) (stop : Stop) :
    Hands (throw stop) sizes :=
  fun _ => ⟨[], (List.append_nil _).symm, none⟩

theorem Hands.entered {sizes : List Nat → Prop} {next : Process Unit} {size : Nat}
    (rest : Hands next fun handed => sizes (size :: handed)) (start : Nat) :
    Hands (do modify (Host.record · (.dumpRamdisk start size)); next) sizes := by
  intro host
  obtain ⟨calls, same, holds⟩ := rest (host.record (.dumpRamdisk start size))
  refine ⟨.dumpRamdisk start size :: calls, ?_, holds⟩
  exact same.trans (List.append_assoc _ _ _)

theorem Hands.dumped {sizes : List Nat → Prop} {next : Process Unit} (rest : Hands next sizes)
    (none : sizes []) (start : Nat) (name : FileName) :
    Hands (do dumpSection platform bytes start name; next) sizes := by
  intro host
  have outcome := @dumpSection_eq abi platform bytes start name host
  split at outcome
  · obtain ⟨calls, same, holds⟩ := rest (host.kept platform bytes start name)
    refine ⟨.dump name start bytes.length :: calls, ?_, holds⟩
    rw [bind_ok outcome]
    exact same.trans (List.append_assoc _ _ _)
  · refine ⟨[.dump name start bytes.length], ?_, none⟩
    rw [bind_error outcome]
    rfl

theorem Hands.dumpSection {sizes : List Nat → Prop} (none : sizes []) (start : Nat)
    (name : FileName) : Hands (dumpSection platform bytes start name) sizes := by
  intro host
  refine ⟨[.dump name start bytes.length], ?_, none⟩
  rw [dumpSection_eq]
  split
  · rfl
  · rfl

theorem Descending.single (size : Nat) : Descending size [size] := by
  constructor
  case few => exact Nat.succ_le_succ (Nat.zero_le _)
  case bounded =>
    intro handed member
    exact Nat.le_of_eq (List.mem_singleton.mp member)
  case sorted => exact List.pairwise_singleton _ _

theorem Descending.cons {size : Nat} {sizes : List Nat} (descending : Descending (size - 512) sizes)
    (whole : 512 ≤ size) : Descending size (size :: sizes) := by
  have bounded : ∀ handed, handed ∈ sizes → handed ≤ size :=
    fun handed member => Nat.le_trans (descending.bounded handed member) (Nat.sub_le _ _)
  constructor
  case few =>
    have few := descending.few
    rw [List.length_cons]
    omega
  case bounded =>
    intro handed member
    rcases List.mem_cons.mp member with rfl | member
    · exact Nat.le_refl _
    · exact bounded handed member
  case sorted => exact List.pairwise_cons.mpr ⟨bounded, descending.sorted⟩

theorem SelfContained.descending (contained : SelfContained bytes) (start : Nat) :
    Hands (peelSection platform (bytes.length / 512 + 1) bytes start)
      (Descending bytes.length) := by
  induction contained generalizing start with
  | @plain bytes gzip lzma mtk unheaded =>
      rw [peelSection]
      apply Hands.entered
      cases kind : sectionKind bytes with
      | some name => exact Hands.dumpSection (Descending.single _) start name
      | none =>
          simp only [if_neg (unheaded kind)]
          exact (Hands.throw (Descending.single _) .abort).dumped (Descending.single _) start _
  | @unnamed bytes unknown mtk recovery rootfs flag =>
      rw [peelSection, unknown, flag]
      simp only [if_pos mtk]
      exact (Hands.throw (Descending.single _) .exitOne).entered start
  | @peeled bytes flag unknown mtk named whole rest ih =>
      have fuels : bytes.length / 512 = (bytes.drop 512).length / 512 + 1 := by
        rw [List.length_drop]
        omega
      rw [peelSection, unknown, named, fuels]
      simp only [if_pos mtk]
      apply Hands.entered
      have inner : Hands (peelSection platform ((bytes.drop 512).length / 512 + 1)
          (bytes.drop 512) (start + 512))
          (fun handed => Descending bytes.length (bytes.length :: handed)) := by
        apply (ih (start + 512)).imp
        intro handed descending
        rw [List.length_drop] at descending
        exact descending.cons whole
      exact (inner.dumped (Descending.single _) start .ramdiskMtk).dumped
        (Descending.single _) start flag

theorem Written.peeled {count : Nat} {name : FileName} {dir : Directory}
    (written : Written (bytes.drop 512) count name dir) (mtk : mtkMagic <+: bytes)
    (whole : 512 ≤ bytes.length) : Written bytes (count + 1) name dir := by
  have shift : ∀ index, (bytes.drop 512).drop (512 * index) = bytes.drop (512 * (index + 1)) := by
    intro index
    rw [List.drop_drop, Nat.mul_succ, Nat.add_comm]
  have inside := written.inside
  rw [List.length_drop] at inside
  constructor
  case inside => omega
  case headers =>
    intro index below
    cases index with
    | zero => exact mtk
    | succ index =>
        rw [← shift]
        exact written.headers index (Nat.lt_of_succ_lt_succ below)
  case kind =>
    rw [← shift]
    exact written.kind
  case stored =>
    rw [← shift]
    exact written.stored

theorem SelfContained.written (contained : SelfContained bytes)
    (short : bytes.length < abi.signBit) {start : Nat} {host after : Host}
    (finished : Finishes (peelSection platform (bytes.length / 512 + 1) bytes start) host ()
      after) :
    ∃ calls count name, after.calls = host.calls ++ calls ∧
      (ramdiskSizes calls).length = count + 1 ∧ Written bytes count name after.dir := by
  induction contained generalizing start host with
  | @plain bytes gzip lzma mtk unheaded =>
      rw [peelSection, modify_bind_finishes] at finished
      cases kind : sectionKind bytes with
      | some name =>
          simp only [kind] at finished
          have same := dumpSection_finishes finished short
          subst same
          refine ⟨[.dumpRamdisk start bytes.length, .dump name start bytes.length], 0, name,
            List.append_assoc _ _ _, rfl, Nat.zero_le _, ?_, kind, Directory.store_same _ _ _⟩
          intro index impossible
          exact absurd impossible (Nat.not_lt_zero _)
      | none =>
          simp only [kind, if_neg (unheaded kind)] at finished
          obtain ⟨_, _, _, impossible⟩ := (bind_finishes _ _ _ _ _).mp finished
          exact absurd impossible (throw_not_finishes _ _ _ _)
  | @unnamed bytes unknown mtk recovery rootfs flag =>
      rw [peelSection, modify_bind_finishes, unknown, flag] at finished
      simp only [if_pos mtk] at finished
      exact absurd finished (throw_not_finishes _ _ _ _)
  | @peeled bytes flag unknown mtk named whole rest ih =>
      have fuels : bytes.length / 512 = (bytes.drop 512).length / 512 + 1 := by
        rw [List.length_drop]
        omega
      have positive : 0 < abi.signBit := Nat.lt_of_le_of_lt (Nat.zero_le _) short
      rw [peelSection, modify_bind_finishes, unknown, named, fuels] at finished
      simp only [if_pos mtk] at finished
      obtain ⟨_, flagged, flagRun, finished⟩ := (bind_finishes _ _ _ _ _).mp finished
      obtain ⟨_, marked, markRun, finished⟩ := (bind_finishes _ _ _ _ _).mp finished
      have flagHost := dumpSection_finishes flagRun positive
      have markHost := dumpSection_finishes markRun positive
      obtain ⟨calls, count, name, same, sizes, written⟩ := ih (by
        rw [List.length_drop]
        omega) finished
      refine ⟨.dumpRamdisk start bytes.length :: .dump flag start 0 ::
        .dump .ramdiskMtk start 0 :: calls, count + 1, name, ?_, ?_, written.peeled mtk whole⟩
      · rw [same, markHost, flagHost]
        simp only [Host.record, Host.store, List.append_assoc, List.cons_append, List.nil_append,
          List.length_nil]
      · change (ramdiskSizes calls).length + 1 = _
        rw [sizes]

theorem SelfContained.ramdiskRun_eq {image : List UInt8} {start : Nat}
    (contained : SelfContained bytes) (holds : SectionAt abi image start bytes)
    (steady : platform.Steady) (host : Host) :
    ramdiskRun platform image start bytes.length host =
      peelSection platform (bytes.length / 512 + 1) bytes start host := by
  have inside := holds.length_le
  have mapped := length_le_mappedLength image
  unfold ramdiskRun
  rw [contained.dumpRamdisk_eq holds steady (by unfold dumpRamdiskFuel; omega)]

theorem SelfContained.staysInside (contained : SelfContained bytes) (abi : Abi) (start : Nat) :
    StaysInside abi start bytes := by
  constructor
  case sizes =>
    intro platform steady image host holds
    rw [contained.ramdiskRun_eq holds steady]
    exact contained.descending start host
  case decided =>
    intro platform steady image other host holds otherHolds
    rw [contained.ramdiskRun_eq holds steady, contained.ramdiskRun_eq otherHolds steady]
  case written =>
    intro platform steady image host after holds finished
    rw [contained.ramdiskRun_eq holds steady] at finished
    have inside := holds.length_le
    have mappable := holds.mappable
    exact contained.written (by omega) finished

end Peeled

/-! ### What follows a section -/

section Stopped

variable {abi : Abi} {image text : List UInt8} {start : Nat} (host : Host)

/-- A long enough text decides all comparisons of one call. -/
theorem called_on (begins : image.drop start = text) (long : 16 ≤ text.length) :
    start + 16 ≤ mappedLength image ∧ ramdiskKind image start = sectionKind text ∧
      matchesAt image start mtkMagic = decide (mtkMagic <+: text) ∧
      mtkFlag image start = sectionFlag text := by
  have whole : image.drop start = text ++ [] := begins.trans (List.append_nil text).symm
  have length := congrArg List.length begins
  rw [List.length_drop] at length
  have below := length_le_mappedLength image
  obtain ⟨gzip, lzma, mtk⟩ := kinds_decided (Nat.le_trans (by decide) long)
  have named : 8 ≤ (text.drop 8).length := by
    rw [List.length_drop]
    omega
  exact ⟨by omega, ramdiskKind_of_begins whole gzip lzma, matchesAt_of_begins whole mtk,
    mtkFlag_of_begins whole (not_endsInside named) (not_endsInside named)⟩

theorem greedy_passes (name : FileName) (size : Nat) (small : size ≤ maxTransfer)
    (inside : start + size ≤ mappedLength image) :
    Passes (Platform.greedy abi) image name start size :=
  passes_of_complete (Platform.greedy_complete abi) name start size small inside

theorem dump_outcome (platform : Platform abi) (image : List UInt8) (name : FileName)
    (start size : Nat) (host : Host) :
    dump platform image start size name host =
        .ok () (host.dumped platform image name start size) ∨
      dump platform image start size name host =
        .error .abort (host.dumped platform image name start size) := by
  change (if returned abi (platform.write name (mappedLength image - start) size) = size
    then pure () else throw Stop.abort : Process Unit)
      (host.dumped platform image name start size) = _ ∨
    (if returned abi (platform.write name (mappedLength image - start) size) = size
      then pure () else throw Stop.abort : Process Unit)
        (host.dumped platform image name start size) = _
  split
  · exact .inl rfl
  · exact .inr rfl

/-- The run of a call on a text behind which nothing is compared. -/
theorem stopped_known (begins : image.drop start = text) (long : 16 ≤ text.length)
    (near : start + 512 < 2 ^ abi.bits) {name : FileName} (kind : sectionKind text = some name)
    (fuel size : Nat) (small : size ≤ 16) :
    stopped (dumpRamdisk (Platform.greedy abi) image (fuel + 1) start size host) = none := by
  obtain ⟨mapped, same, _, _⟩ := called_on begins long
  have passes := @greedy_passes abi image start name size (Nat.le_trans small (by decide))
    (by omega)
  rw [dumpRamdisk_succ fuel size mapped near, same, kind]
  have finished := (dump_finishes name start size () (host.record (.dumpRamdisk start size))
    _).mpr ⟨passes, rfl⟩
  exact congrArg stopped finished

theorem stopped_unknown (begins : image.drop start = text) (long : 16 ≤ text.length)
    (near : start + 512 < 2 ^ abi.bits) (unknown : sectionKind text = none)
    (other : ¬ mtkMagic <+: text) (fuel size : Nat) :
    stopped (dumpRamdisk (Platform.greedy abi) image (fuel + 1) start size host) =
      some .abort := by
  obtain ⟨mapped, kind, mtk, _⟩ := called_on begins long
  rw [dumpRamdisk_succ fuel size mapped near, kind, unknown, mtk]
  simp only [decide_eq_true_eq, if_neg other]
  change stopped ((dump (Platform.greedy abi) image start size .ramdisk >>= fun _ =>
    throw Stop.abort : Process Unit) (host.record (.dumpRamdisk start size))) = _
  rcases dump_outcome (Platform.greedy abi) image .ramdisk start size
    (host.record (.dumpRamdisk start size)) with outcome | outcome
  · rw [bind_ok outcome]
    rfl
  · rw [bind_error outcome]
    rfl

theorem stopped_unnamed (begins : image.drop start = text) (long : 16 ≤ text.length)
    (near : start + 512 < 2 ^ abi.bits) (unknown : sectionKind text = none)
    (mtk : mtkMagic <+: text) (flag : sectionFlag text = none) (fuel size : Nat) :
    stopped (dumpRamdisk (Platform.greedy abi) image (fuel + 1) start size host) =
      some .exitOne := by
  obtain ⟨mapped, kind, matched, name⟩ := called_on begins long
  rw [dumpRamdisk_succ fuel size mapped near, kind, unknown, matched, name, flag]
  simp only [decide_eq_true_eq, if_pos mtk]
  rfl

theorem stopped_named (begins : image.drop start = text) (long : 16 ≤ text.length)
    (near : start + 512 < 2 ^ abi.bits) (unknown : sectionKind text = none)
    (mtk : mtkMagic <+: text) {flag : FileName} (named : sectionFlag text = some flag)
    (fuel size : Nat) :
    ∃ next, stopped (dumpRamdisk (Platform.greedy abi) image (fuel + 1) start size host) =
      stopped (dumpRamdisk (Platform.greedy abi) image fuel (start + 512) (abi.sizeOf (size - 512))
        next) := by
  obtain ⟨mapped, kind, matched, name⟩ := called_on begins long
  have flagged : ∀ file, Passes (Platform.greedy abi) image file start 0 :=
    fun file => greedy_passes file 0 (Nat.zero_le _) (by omega)
  refine ⟨host.peeled (Platform.greedy abi) image flag start size, ?_⟩
  rw [dumpRamdisk_succ fuel size mapped near, kind, unknown, matched, name, named]
  simp only [decide_eq_true_eq, if_pos mtk]
  have first := (dump_finishes flag start 0 () (host.record (.dumpRamdisk start size)) _).mpr
    ⟨flagged flag, rfl⟩
  have second := (dump_finishes .ramdiskMtk start 0 ()
    ((host.record (.dumpRamdisk start size)).dumped (Platform.greedy abi) image flag start 0)
    _).mpr ⟨flagged .ramdiskMtk, rfl⟩
  exact congrArg stopped ((bind_ok first _).trans (bind_ok second _))

end Stopped

/-! ### Sections that leave a comparison open -/

/-- Bytes that no magic number or name goes on with. -/
def filler : List UInt8 :=
  List.replicate 1024 0xff

def magics : List (List UInt8) :=
  [gzipMagic, lzmaMagic, mtkMagic]

def names : List (List UInt8) :=
  [recoveryName, rootfsName]

theorem not_prefix_filler {word pattern : List UInt8} (short : word.length < pattern.length)
    (solid : 0xff ∉ pattern) (behind : List UInt8) : ¬ pattern <+: word ++ 0xff :: behind := by
  intro front
  apply solid
  obtain ⟨rest, same⟩ := front
  have seen : (pattern ++ rest)[word.length]? = (word ++ 0xff :: behind)[word.length]? := by
    rw [same]
  rw [List.getElem?_append_left short, List.getElem?_append_right (Nat.le_refl _), Nat.sub_self,
    List.getElem?_cons_zero] at seen
  exact List.mem_of_getElem? seen

/-- A magic number that is longer than the word does not stand where filler follows it. -/
theorem not_magic_filler {word pattern magic : List UInt8} (member : pattern ∈ magics)
    (ends : EndsInside word pattern) (other : magic ∈ magics) (behind : List UInt8) :
    ¬ magic <+: word ++ 0xff :: behind := by
  have solid : ∀ magic, magic ∈ magics → 0xff ∉ magic := by decide
  have apart : ∀ pattern, pattern ∈ magics → ∀ magic, magic ∈ magics →
      magic.length < pattern.length → ¬ magic <+: pattern := by
    decide
  by_cases short : word.length < magic.length
  · exact not_prefix_filler short (solid magic other) behind
  · intro front
    have decided := not_endsInside (Nat.le_of_not_lt short)
    have inside := (prefix_append_iff decided _).mp front
    exact apart pattern member magic other (Nat.lt_of_le_of_lt inside.length_le ends.2)
      (inside.trans ends.1)

theorem sectionKind_eq_none {text : List UInt8} (gzip : ¬ gzipMagic <+: text)
    (lzma : ¬ lzmaMagic <+: text) : sectionKind text = none := by
  unfold sectionKind
  rw [if_neg gzip, if_neg lzma]

theorem sectionFlag_eq_none {text : List UInt8} (recovery : ¬ recoveryName <+: text.drop 8)
    (rootfs : ¬ rootfsName <+: text.drop 8) : sectionFlag text = none := by
  unfold sectionFlag
  rw [if_neg recovery, if_neg rootfs]

section Diverges

variable {abi : Abi} {front bytes behind : List UInt8}

/-- How the run on a section stops, given what follows it. -/
def StopsWith (abi : Abi) (front bytes behind : List UInt8) (stop : Option Stop) : Prop :=
  ∀ fuel host, bytes.length / 512 + 2 ≤ fuel →
    stopped (dumpRamdisk (Platform.greedy abi) (front ++ (bytes ++ behind)) fuel front.length
      bytes.length host) = stop

/-- What follows the section decides how the run on it stops. -/
def Diverges (abi : Abi) (front bytes : List UInt8) : Prop :=
  ∃ behind other stop different, behind.length < 2048 ∧ other.length < 2048 ∧ stop ≠ different ∧
    StopsWith abi front bytes behind stop ∧ StopsWith abi front bytes other different

theorem StopsWith.known (long : 16 ≤ (bytes ++ behind).length)
    (near : front.length + 512 < 2 ^ abi.bits) {name : FileName}
    (kind : sectionKind (bytes ++ behind) = some name) (small : bytes.length ≤ 16) :
    StopsWith abi front bytes behind none := by
  intro fuel host enough
  obtain ⟨fuel, rfl⟩ : ∃ less, fuel = less + 1 := ⟨fuel - 1, by omega⟩
  exact stopped_known host List.drop_left long near kind fuel _ small

theorem StopsWith.unknown (long : 16 ≤ (bytes ++ behind).length)
    (near : front.length + 512 < 2 ^ abi.bits) (unknown : sectionKind (bytes ++ behind) = none)
    (other : ¬ mtkMagic <+: bytes ++ behind) :
    StopsWith abi front bytes behind (some .abort) := by
  intro fuel host enough
  obtain ⟨fuel, rfl⟩ : ∃ less, fuel = less + 1 := ⟨fuel - 1, by omega⟩
  exact stopped_unknown host List.drop_left long near unknown other fuel _

theorem StopsWith.unnamed (long : 16 ≤ (bytes ++ behind).length)
    (near : front.length + 512 < 2 ^ abi.bits) (unknown : sectionKind (bytes ++ behind) = none)
    (mtk : mtkMagic <+: bytes ++ behind) (flag : sectionFlag (bytes ++ behind) = none) :
    StopsWith abi front bytes behind (some .exitOne) := by
  intro fuel host enough
  obtain ⟨fuel, rfl⟩ : ∃ less, fuel = less + 1 := ⟨fuel - 1, by omega⟩
  exact stopped_unnamed host List.drop_left long near unknown mtk flag fuel _

/-- Behind a header that is not whole the call goes on with what follows the section. -/
theorem StopsWith.overrun {text : List UInt8} (next : (bytes ++ behind).drop 512 = text)
    (long : 16 ≤ text.length) (near : front.length + 1024 < 2 ^ abi.bits)
    (unknown : sectionKind (bytes ++ behind) = none) (mtk : mtkMagic <+: bytes ++ behind)
    {flag : FileName} (named : sectionFlag (bytes ++ behind) = some flag)
    (nextUnknown : sectionKind text = none) :
    (¬ mtkMagic <+: text → StopsWith abi front bytes behind (some .abort)) ∧
      (mtkMagic <+: text → sectionFlag text = none →
        StopsWith abi front bytes behind (some .exitOne)) := by
  have whole : 16 ≤ (bytes ++ behind).length := by
    have length := congrArg List.length next
    rw [List.length_drop] at length
    omega
  have begins : (front ++ (bytes ++ behind)).drop (front.length + 512) = text := by
    rw [List.drop_length_add_append, next]
  have here : (front ++ (bytes ++ behind)).drop front.length = bytes ++ behind := List.drop_left
  have nearer : front.length + 512 < 2 ^ abi.bits := by omega
  constructor
  · intro other fuel host enough
    obtain ⟨fuel, rfl⟩ : ∃ less, fuel = less + 2 := ⟨fuel - 2, by omega⟩
    obtain ⟨after, same⟩ := stopped_named host here whole nearer unknown mtk named (fuel + 1)
      bytes.length
    rw [same]
    exact stopped_unknown after begins long (by omega) nextUnknown other fuel _
  · intro headed unnamed fuel host enough
    obtain ⟨fuel, rfl⟩ : ∃ less, fuel = less + 2 := ⟨fuel - 2, by omega⟩
    obtain ⟨after, same⟩ := stopped_named host here whole nearer unknown mtk named (fuel + 1)
      bytes.length
    rw [same]
    exact stopped_unnamed after begins long (by omega) nextUnknown headed unnamed fuel _

/-- Behind a whole header the call goes on with the rest of the section. -/
theorem StopsWith.peeled {stop : Option Stop}
    (rest : StopsWith abi (front ++ bytes.take 512) (bytes.drop 512) behind stop)
    (whole : 512 ≤ bytes.length) (small : front.length + bytes.length < abi.signBit)
    (unknown : sectionKind (bytes ++ behind) = none) (mtk : mtkMagic <+: bytes ++ behind)
    {flag : FileName} (named : sectionFlag (bytes ++ behind) = some flag) :
    StopsWith abi front bytes behind stop := by
  have limits := abi.modulus_signBit
  have long : 16 ≤ (bytes ++ behind).length := by
    rw [List.length_append]
    omega
  have place : (front ++ bytes.take 512).length = front.length + 512 := by
    rw [List.length_append, List.length_take, Nat.min_eq_left whole]
  have same : front ++ bytes.take 512 ++ (bytes.drop 512 ++ behind) =
      front ++ (bytes ++ behind) := by
    rw [List.append_assoc, ← List.append_assoc (bytes.take 512), List.take_append_drop]
  have remaining : abi.sizeOf ((bytes.length : Int) - 512) = (bytes.drop 512).length := by
    rw [List.length_drop]
    unfold Abi.sizeOf
    rcases abi.bits_cases with same | same <;> (rw [same] at limits ⊢; omega)
  intro fuel host enough
  obtain ⟨fuel, rfl⟩ : ∃ less, fuel = less + 1 := ⟨fuel - 1, by omega⟩
  have here : (front ++ (bytes ++ behind)).drop front.length = bytes ++ behind := List.drop_left
  have near : front.length + 512 < 2 ^ abi.bits := by omega
  obtain ⟨after, outcome⟩ := stopped_named host here long near unknown mtk named fuel bytes.length
  have inner := rest fuel after (by rw [List.length_drop]; omega)
  rw [place, same] at inner
  rw [outcome, remaining, inner]

theorem length_filler : filler.length = 1024 :=
  List.length_replicate

theorem filler_small : filler.length < 2048 := by
  rw [length_filler]
  omega

theorem drop_filler {count : Nat} (few : count < 1024) :
    ∃ rest, filler.drop count = 0xff :: rest ∧ rest.length = 1023 - count := by
  refine ⟨List.replicate (1023 - count) 0xff, ?_, List.length_replicate⟩
  unfold filler
  rw [List.drop_replicate, ← List.replicate_succ]
  congr 1
  omega

theorem length_of_magic {magic : List UInt8} (member : magic ∈ magics) : magic.length ≤ 4 := by
  have lengths : ∀ magic, magic ∈ magics → magic.length ≤ 4 := by decide
  exact lengths magic member

theorem length_of_name {name : List UInt8} (member : name ∈ names) : name.length = 8 := by
  have lengths : ∀ name, name ∈ names → name.length = 8 := by decide
  exact lengths name member

theorem magic_append {magic : List UInt8} (member : magic ∈ magics) (long : 4 ≤ bytes.length)
    (behind : List UInt8) : magic <+: bytes ++ behind ↔ magic <+: bytes := by
  exact prefix_append_iff (not_endsInside (Nat.le_trans (length_of_magic member) long)) behind

theorem sectionKind_append (long : 4 ≤ bytes.length) (behind : List UInt8) :
    sectionKind (bytes ++ behind) = sectionKind bytes := by
  unfold sectionKind
  simp only [magic_append (by decide : gzipMagic ∈ magics) long,
    magic_append (by decide : lzmaMagic ∈ magics) long]

theorem sectionFlag_append {flag : FileName} (named : sectionFlag bytes = some flag)
    (behind : List UInt8) : sectionFlag (bytes ++ behind) = sectionFlag bytes := by
  have long : 8 ≤ (bytes.drop 8).length := by
    unfold sectionFlag at named
    split at named
    · rename_i recovery
      exact recovery.length_le
    · split at named
      · rename_i rootfs
        exact rootfs.length_le
      · cases named
  have enough : 8 ≤ bytes.length := by
    rw [List.length_drop] at long
    omega
  unfold sectionFlag
  rw [List.drop_append_of_le_length enough]
  simp only [prefix_append_iff (@not_endsInside _ recoveryName long),
    prefix_append_iff (@not_endsInside _ rootfsName long)]

/-- What follows may complete the magic number. -/
theorem stops_completed {pattern more : List UInt8} (member : pattern ∈ magics)
    (whole : bytes ++ more = pattern) (near : front.length + 512 < 2 ^ abi.bits)
    (short : bytes.length < 4) :
    ∃ stop, stop ≠ some .abort ∧ StopsWith abi front bytes (more ++ filler) stop := by
  have limits := abi.modulus_signBit
  have text : bytes ++ (more ++ filler) = pattern ++ filler := by
    rw [← List.append_assoc, whole]
  have long : 16 ≤ (bytes ++ (more ++ filler)).length := by
    rw [text, List.length_append, length_filler]
    omega
  rcases List.mem_cons.mp member with rfl | member
  · have kind : sectionKind (bytes ++ (more ++ filler)) = some .ramdiskGz := by
      rw [text]
      decide +kernel
    exact ⟨none, by decide, StopsWith.known long near kind (by omega)⟩
  · rcases List.mem_pair.mp member with rfl | rfl
    · have kind : sectionKind (bytes ++ (more ++ filler)) = some .ramdiskLzma := by
        rw [text]
        decide +kernel
      exact ⟨none, by decide, StopsWith.known long near kind (by omega)⟩
    · refine ⟨some .exitOne, by decide, StopsWith.unnamed long near ?_ ?_ ?_⟩
      · rw [text]
        decide +kernel
      · rw [text]
        exact List.prefix_append _ _
      · rw [text]
        decide +kernel

/-- A section that ends inside a magic number. -/
theorem diverges_of_magic {pattern : List UInt8} (member : pattern ∈ magics)
    (ends : EndsInside bytes pattern)
    (room : front.length + bytes.length + 2048 ≤ abi.signBit) : Diverges abi front bytes := by
  have limits := abi.modulus_signBit
  have short : bytes.length < 4 := Nat.lt_of_lt_of_le ends.2 (length_of_magic member)
  have near : front.length + 512 < 2 ^ abi.bits := by omega
  obtain ⟨rest, shape, count⟩ := @drop_filler 0 (by decide)
  rw [List.drop_zero] at shape
  have absent : ∀ magic, magic ∈ magics → ¬ magic <+: bytes ++ filler := by
    intro magic other
    rw [shape]
    exact not_magic_filler member ends other rest
  have unknown : StopsWith abi front bytes filler (some .abort) :=
    StopsWith.unknown (by rw [List.length_append, length_filler]; omega) near
      (sectionKind_eq_none (absent _ (by decide)) (absent _ (by decide))) (absent _ (by decide))
  obtain ⟨more, whole⟩ := ends.1
  have moreLength := congrArg List.length whole
  rw [List.length_append] at moreLength
  obtain ⟨stop, different, stops⟩ := stops_completed member whole near short
  refine ⟨more ++ filler, filler, stop, some .abort, ?_, ?_, different, stops, unknown⟩
  · have patternLength := length_of_magic member
    rw [List.length_append, length_filler]
    omega
  · exact filler_small

theorem filler_unknown (rest : List UInt8) :
    sectionKind (0xff :: rest) = none ∧ ¬ mtkMagic <+: 0xff :: rest := by
  have solid : ∀ magic, magic ∈ magics → 0xff ∉ magic := by decide
  have positive : ∀ magic, magic ∈ magics → 0 < magic.length := by decide
  have absent : ∀ magic, magic ∈ magics → ¬ magic <+: 0xff :: rest :=
    fun magic member => @not_prefix_filler [] _ (positive magic member) (solid magic member) rest
  exact ⟨sectionKind_eq_none (absent _ (by decide)) (absent _ (by decide)),
    absent _ (by decide)⟩

/-- A section that begins a header which what follows cannot change. -/
theorem header_append (unknown : sectionKind bytes = none) (mtk : mtkMagic <+: bytes)
    (behind : List UInt8) :
    sectionKind (bytes ++ behind) = none ∧ mtkMagic <+: bytes ++ behind :=
  ⟨(sectionKind_append mtk.length_le behind).trans unknown, mtk.trans (List.prefix_append _ _)⟩

/-- What follows may complete the name. -/
theorem flag_completed {name text : List UInt8} (member : name ∈ names)
    (named : text.drop 8 = name ++ filler) :
    (∃ flag, sectionFlag text = some flag) ∧
      ∃ rest, text.drop 512 = 0xff :: rest ∧ rest.length = 527 := by
  constructor
  · unfold sectionFlag
    rw [named]
    rcases List.mem_pair.mp member with rfl | rfl
    · exact ⟨.ramdiskMtkRecovery, by decide +kernel⟩
    · exact ⟨.ramdiskMtkBoot, by decide +kernel⟩
  · obtain ⟨rest, shape, restLength⟩ := @drop_filler 496 (by decide)
    have skipped : text.drop 512 = (text.drop 8).drop 504 := by
      rw [List.drop_drop]
    refine ⟨rest, ?_, restLength⟩
    rw [skipped, named, List.drop_append, List.drop_eq_nil_of_le, length_of_name member,
      List.nil_append, shape]
    rw [length_of_name member]
    omega

/-- A header whose name the section cuts off. -/
theorem diverges_of_name {name : List UInt8} (member : name ∈ names)
    (ends : EndsInside (bytes.drop 8) name) (unknown : sectionKind bytes = none)
    (mtk : mtkMagic <+: bytes) (room : front.length + bytes.length + 2048 ≤ abi.signBit) :
    Diverges abi front bytes := by
  have limits := abi.modulus_signBit
  have solid : ∀ name, name ∈ names → 0xff ∉ name := by decide
  have near : front.length + 1024 < 2 ^ abi.bits := by omega
  have least : 4 ≤ bytes.length := mtk.length_le
  have short := ends.2
  rw [length_of_name member, List.length_drop] at short
  have unnamed : StopsWith abi front bytes filler (some .exitOne) := by
    obtain ⟨unknown, mtk⟩ := header_append unknown mtk filler
    refine StopsWith.unnamed ?_ (by omega) unknown mtk ?_
    · rw [List.length_append, length_filler]
      omega
    · obtain ⟨rest, shape, _⟩ := @drop_filler (8 - bytes.length) (by omega)
      have absent : ∀ other, other ∈ names → ¬ other <+: (bytes ++ filler).drop 8 := by
        intro other listed
        rw [List.drop_append, shape]
        apply not_prefix_filler _ (solid other listed)
        rw [length_of_name listed, List.length_drop]
        exact short
      exact sectionFlag_eq_none (absent _ (by decide)) (absent _ (by decide))
  obtain ⟨more, whole⟩ := ends.1
  have moreLength := congrArg List.length whole
  rw [List.length_append, length_of_name member] at moreLength
  generalize same : List.replicate (8 - bytes.length) 0xff ++ (more ++ filler) = behind
  have named : (bytes ++ behind).drop 8 = name ++ filler := by
    have padded : behind.drop (8 - bytes.length) = more ++ filler := by
      rw [← same]
      exact List.drop_left' List.length_replicate
    rw [List.drop_append, padded, ← List.append_assoc, whole]
  obtain ⟨⟨flag, flagged⟩, rest, next, restLength⟩ := flag_completed member named
  obtain ⟨unknown, mtk⟩ := header_append unknown mtk behind
  obtain ⟨nextUnknown, other⟩ := filler_unknown rest
  have named : StopsWith abi front bytes behind (some .abort) :=
    (StopsWith.overrun next (by rw [List.length_cons, restLength]; omega) near unknown mtk
      flagged nextUnknown).1 other
  refine ⟨behind, filler, _, _, ?_, ?_, (by decide), named, unnamed⟩
  · have total := congrArg List.length same
    rw [List.length_append, List.length_append, List.length_replicate, length_filler] at total
    omega
  · exact filler_small

/-- A header with a name that is not whole. -/
theorem diverges_of_short {flag : FileName} (unknown : sectionKind bytes = none)
    (mtk : mtkMagic <+: bytes) (named : sectionFlag bytes = some flag)
    (short : bytes.length < 512) (room : front.length + bytes.length + 2048 ≤ abi.signBit) :
    Diverges abi front bytes := by
  have limits := abi.modulus_signBit
  have near : front.length + 1024 < 2 ^ abi.bits := by omega
  have headerOf := header_append unknown mtk
  have namedOf : ∀ behind, sectionFlag (bytes ++ behind) = some flag :=
    fun behind => (sectionFlag_append named behind).trans named
  obtain ⟨rest, shape, restLength⟩ := @drop_filler (512 - bytes.length) (by omega)
  obtain ⟨nextUnknown, other⟩ := filler_unknown rest
  have aborted : StopsWith abi front bytes filler (some .abort) := by
    have next : (bytes ++ filler).drop 512 = 0xff :: rest := by
      rw [List.drop_append, List.drop_eq_nil_of_le (Nat.le_of_lt short), List.nil_append, shape]
    exact (StopsWith.overrun next (by rw [List.length_cons, restLength]; omega) near
      (headerOf _).1 (headerOf _).2 (namedOf _) nextUnknown).1 other
  have exited : StopsWith abi front bytes
      (List.replicate (512 - bytes.length) 0xff ++ (mtkMagic ++ filler)) (some .exitOne) := by
    have next : (bytes ++ (List.replicate (512 - bytes.length) 0xff ++
        (mtkMagic ++ filler))).drop 512 = mtkMagic ++ filler := by
      rw [List.drop_append, List.drop_eq_nil_of_le (Nat.le_of_lt short), List.nil_append]
      exact List.drop_left' List.length_replicate
    exact (StopsWith.overrun next (by decide +kernel) near (headerOf _).1 (headerOf _).2
      (namedOf _) (by decide +kernel)).2 (List.prefix_append _ _) (by decide +kernel)
  refine ⟨_, _, _, _, ?_, ?_, (by decide), aborted, exited⟩
  · exact filler_small
  · rw [List.length_append, List.length_append, List.length_replicate, length_filler]
    change 512 - bytes.length + (4 + 1024) < 2048
    omega

/-- Unless a section decides every comparison, what follows it does. -/
theorem diverges_of_open (undecided : ¬ SelfContained bytes)
    (room : front.length + bytes.length + 2048 ≤ abi.signBit) : Diverges abi front bytes := by
  induction length : bytes.length using Nat.strong_induction_on generalizing front bytes with
  | _ size ih =>
      by_cases magicEnds : ∃ magic, magic ∈ magics ∧ EndsInside bytes magic
      · obtain ⟨magic, member, ends⟩ := magicEnds
        exact diverges_of_magic member ends room
      have decided : ∀ magic, magic ∈ magics → ¬ EndsInside bytes magic :=
        fun magic member ends => magicEnds ⟨magic, member, ends⟩
      by_cases headed : sectionKind bytes = none ∧ mtkMagic <+: bytes
      · obtain ⟨unknown, mtk⟩ := headed
        by_cases nameEnds : ∃ name, name ∈ names ∧ EndsInside (bytes.drop 8) name
        · obtain ⟨name, member, ends⟩ := nameEnds
          exact diverges_of_name member ends unknown mtk room
        cases flag : sectionFlag bytes with
        | none =>
            exact absurd (.unnamed unknown mtk
              (fun ends => nameEnds ⟨_, by decide, ends⟩)
              (fun ends => nameEnds ⟨_, by decide, ends⟩) flag) undecided
        | some name =>
            by_cases whole : 512 ≤ bytes.length
            · have rest : ¬ SelfContained (bytes.drop 512) :=
                fun rest => undecided (.peeled unknown mtk flag whole rest)
              have least : 4 ≤ bytes.length := mtk.length_le
              have place : (front ++ bytes.take 512).length = front.length + 512 := by
                rw [List.length_append, List.length_take, Nat.min_eq_left whole]
              have remaining : (bytes.drop 512).length + 512 = bytes.length := by
                rw [List.length_drop]
                omega
              obtain ⟨behind, other, stop, different, few, fewOther, apart, left, right⟩ :=
                ih _ (by omega) rest (by omega : (front ++ bytes.take 512).length +
                  (bytes.drop 512).length + 2048 ≤ abi.signBit) rfl
              have lift : ∀ {behind stop},
                  StopsWith abi (front ++ bytes.take 512) (bytes.drop 512) behind stop →
                    StopsWith abi front bytes behind stop := by
                intro behind stop stops
                exact stops.peeled whole (by omega)
                  ((sectionKind_append least behind).trans unknown)
                  (mtk.trans (List.prefix_append _ _))
                  ((sectionFlag_append flag behind).trans flag)
              exact ⟨behind, other, stop, different, few, fewOther, apart, lift left, lift right⟩
            · exact diverges_of_short unknown mtk flag (Nat.lt_of_not_le whole) room
      · exact absurd (.plain (decided _ (by decide)) (decided _ (by decide))
          (decided _ (by decide)) fun unknown mtk => headed ⟨unknown, mtk⟩) undecided

end Diverges

/-- On a section the peeling stays inside if it decides every comparison, and only then
where there is room for something behind it. -/
theorem stays_inside_iff (abi : Abi) (start : Nat) (bytes : List UInt8) (aligned : 256 ∣ start) :
    (SelfContained bytes → StaysInside abi start bytes) ∧
      (start + bytes.length + 2048 ≤ abi.signBit → StaysInside abi start bytes →
        SelfContained bytes) := by
  constructor
  · intro contained
    exact contained.staysInside abi start
  · intro room stays
    by_contra undecided
    have front : (List.replicate start (0 : UInt8)).length = start := List.length_replicate
    obtain ⟨behind, other, stop, different, few, fewOther, apart, left, right⟩ :=
      @diverges_of_open abi (List.replicate start 0) bytes undecided (by rw [front]; exact room)
    have holds : ∀ behind : List UInt8, behind.length < 2048 →
        SectionAt abi (List.replicate start 0 ++ (bytes ++ behind)) start bytes := by
      intro behind few
      refine ⟨aligned, ?_, List.replicate start 0, behind, (List.append_assoc _ _ _).symm, front⟩
      rw [List.length_append, List.length_append, front]
      omega
    have enough : ∀ behind, bytes.length / 512 + 2 ≤
        dumpRamdiskFuel (List.replicate start 0 ++ (bytes ++ behind)) := by
      intro behind
      have mapped := length_le_mappedLength (List.replicate start 0 ++ (bytes ++ behind))
      rw [List.length_append, List.length_append] at mapped
      unfold dumpRamdiskFuel
      omega
    apply apart
    rw [← left _ ⟨.empty, []⟩ (enough behind), ← right _ ⟨.empty, []⟩ (enough other), front]
    exact congrArg stopped (stays.decided (Platform.greedy abi) (Platform.greedy_steady abi)
      _ _ ⟨.empty, []⟩ (holds behind few) (holds other fewOther))

def mtkHeader : List UInt8 :=
  resize (mtkMagic ++ resize [] 4 ++ rootfsName) 512

theorem mtkSection_stays_inside : StaysInside .ilp32 2048 (mtkHeader ++ gzipMagic) := by
  refine (stays_inside_iff .ilp32 2048 _ (by decide)).1 ?_
  have payload : (mtkHeader ++ gzipMagic).drop 512 = gzipMagic :=
    List.drop_left' (length_resize _ _)
  have rest : SelfContained gzipMagic := by
    refine .plain (by decide) (by decide) (by decide) fun unknown => ?_
    cases unknown
  refine @SelfContained.peeled _ .ramdiskMtkBoot (by decide +kernel) (by decide +kernel)
    (by decide +kernel) (by decide +kernel) ?_
  rw [payload]
  exact rest

def shortSection : List UInt8 :=
  resize (mtkMagic ++ resize [] 4 ++ recoveryName) 511

def shortImage : List UInt8 :=
  plainHeader 2048 0 511 0 0 ++ shortSection ++ 0 :: gzipMagic

/-- The type comes from behind the section, and a ramdisk of no bytes is accepted. -/
theorem shortSection_overruns :
    (extract (Platform.greedy .ilp32) shortImage .empty).stop = none ∧
      (extract (Platform.greedy .ilp32) shortImage .empty).dir .ramdiskGz =
        some { bytes := [], readable := true } ∧
      ¬ StaysInside .ilp32 2048 shortSection := by
  refine ⟨by decide +kernel, by decide +kernel, ?_⟩
  intro stays
  have holds : SectionAt .ilp32 shortImage 2048 shortSection :=
    ⟨by decide, by decide +kernel, plainHeader 2048 0 511 0 0, 0 :: gzipMagic, rfl,
      by decide +kernel⟩
  obtain ⟨calls, same, descending⟩ := stays.sizes (Platform.greedy .ilp32)
    (Platform.greedy_steady .ilp32) shortImage ⟨.empty, []⟩ holds
  rw [List.nil_append] at same
  have wrapped : 4294967295 ∈ ramdiskSizes (reached (ramdiskRun (Platform.greedy .ilp32)
      shortImage 2048 shortSection.length ⟨.empty, []⟩)).calls := by
    decide +kernel
  rw [same] at wrapped
  have bounded := descending.bounded _ wrapped
  have length : shortSection.length = 511 := by decide +kernel
  omega

end SuperBootimg.Concrete.Extract
