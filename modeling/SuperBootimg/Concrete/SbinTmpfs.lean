/-
`makeSbinTmpfs` of hidesu.c: /sbin is copied into a tmpfs that is then mounted over it.
The copy is made on a staging mount, which every way out takes away again.
-/

import SuperBootimg.Concrete.MachineWords
import SuperBootimg.Concrete.MountTree
import SuperBootimg.Concrete.HidesuEvents

namespace SuperBootimg.Concrete.Hidesu

/-- How the calls of `makeSbinTmpfs` end where the file systems do not decide it; files
are told apart by their paths. -/
structure SbinCalls where
  /-- Of the tmpfs that `mount` makes. -/
  device : Nat
  mountTmpfs : Bool
  opendir : Bool
  openRead : Text → Bool
  fstat : Text → Bool
  openNew : Text → Bool
  /-- How much one more call sends of what it may send. -/
  sendfile : Text → Nat → Nat → Nat
  readlink : Text → Bool
  symlink : Text → Bool
  bindMount : Bool

/-- `while((bytes = sendfile(..)) > 0)`; returns how many bytes have been sent. -/
def sendAll (sendfile : Nat → Nat → Nat) (count size : Nat) : Nat → Nat → Nat → Nat
  | 0, _, sent => sent
  | fuel + 1, attempt, sent =>
      let most := min count (size - sent)
      let bytes := min (sendfile attempt most) most
      if 0 < bytes then sendAll sendfile count size fuel (attempt + 1) (sent + bytes) else sent

def strncpy (buffer : Text) (start : Nat) (source : Text) (size : Nat) : Text :=
  buffer.take start ++ (source.take size ++ List.replicate (size - source.length) '\x00')

structure PathBuffers where
  sfile : Text
  dfile : Text

namespace PathBuffers

def start : PathBuffers :=
  { sfile := strncpy [] 0 (sbinPoint ++ ['/']) 256
    dfile := strncpy [] 0 (stagingPoint ++ ['/']) 256 }

def enter (buffers : PathBuffers) (name : Text) : PathBuffers :=
  { sfile := strncpy buffers.sfile 6 name 250
    dfile := strncpy buffers.dfile 14 name 242 }

end PathBuffers

section Program

variable (abi : Abi) (calls : SbinCalls)

def sentOf (sfile : Text) (bytes : List UInt8) : Nat :=
  sendAll (calls.sendfile sfile) (abi.sizeOf bytes.length) bytes.length (bytes.length + 1) 0 0

def copyRegular (sfile dfile : Text) (ns : MountNamespace) : Bool × MountNamespace :=
  match ns.openSbin sfile with
  | some (.regular bytes) =>
      if calls.openRead sfile && calls.fstat sfile && calls.openNew dfile then
        let sent := sentOf abi calls sfile bytes
        match ns.create dfile .reg (.regular (bytes.take sent)) with
        | some next => (abi.sizeOf sent == abi.sizeOf bytes.length, next)
        | none => (false, ns)
      else (false, ns)
  | _ => (false, ns)

def copyLink (sfile dfile : Text) (ns : MountNamespace) : Bool × MountNamespace :=
  match ns.openSbin sfile with
  | some (.symlink target) =>
      if calls.readlink sfile && calls.symlink dfile then
        match ns.create dfile .lnk (.symlink (cString (target.take 255))) with
        | some next => (true, next)
        | none => (false, ns)
      else (false, ns)
  | _ => (false, ns)

def copyEntry (dType : DType) (buffers : PathBuffers) (ns : MountNamespace) :
    Bool × MountNamespace :=
  match dType with
  | .reg => copyRegular abi calls (cString buffers.sfile) (cString buffers.dfile) ns
  | .lnk => copyLink calls (cString buffers.sfile) (cString buffers.dfile) ns
  | _ => (true, ns)

def copyEntries : List DirEntry → PathBuffers → MountNamespace → Bool × MountNamespace
  | [], _, ns => (true, ns)
  | dir :: rest, buffers, ns =>
      let buffers := buffers.enter dir.name
      let (done, next) := copyEntry abi calls dir.dType buffers ns
      if done then copyEntries rest buffers next else (false, next)

def makeSbinTmpfs (ns : MountNamespace) : Nat × MountNamespace :=
  if ns.rootDevice ≠ ns.sbinDevice then (0, ns)
  else if calls.mountTmpfs then
    let mounted := ns.staged calls.device .empty
    if calls.opendir then
      let (done, copied) := copyEntries abi calls mounted.sbinTree.entries .start mounted
      if done then
        if calls.bindMount then
          match copied.top stagingPoint with
          | some staging =>
              (0, (copied.mount { staging with point := sbinPoint }).umount2 stagingPoint)
          | none => (4, copied.umount2 stagingPoint)
        else (4, copied.umount2 stagingPoint)
      -- all the early exits of the loop
      else (3, copied.umount2 stagingPoint)
    else (2, mounted.umount2 stagingPoint)
  else (1, ns)

end Program

/-! ### Buffers -/

private theorem all_before_nul {text : Text} (plain : '\x00' ∉ text) :
    ∀ symbol, symbol ∈ text → (symbol != '\x00') = true := by
  intro symbol member
  apply bne_iff_ne.mpr
  intro same
  rw [same] at member
  exact plain member

theorem cString_plain {text : Text} (plain : '\x00' ∉ text) : cString text = text :=
  List.takeWhile_eq_self_iff.mpr (all_before_nul plain)

theorem cString_terminated {text : Text} (plain : '\x00' ∉ text) (rest : Text) :
    cString (text ++ '\x00' :: rest) = text := by
  unfold cString
  rw [List.takeWhile_append_of_pos (all_before_nul plain)]
  exact List.append_nil text

theorem strncpy_short {buffer name : Text} {start size : Nat} (short : name.length < size) :
    ∃ rest, strncpy buffer start name size = buffer.take start ++ name ++ '\x00' :: rest := by
  obtain ⟨more, count⟩ : ∃ more, size - name.length = more + 1 :=
    ⟨size - name.length - 1, by omega⟩
  refine ⟨List.replicate more '\x00', ?_⟩
  unfold strncpy
  rw [List.take_of_length_le (Nat.le_of_lt short), count, List.replicate_succ, List.append_assoc]

/-- Both buffers begin with their directories, whatever was entered before. -/
structure PathBuffers.Ready (buffers : PathBuffers) : Prop where
  sfile : buffers.sfile.take 6 = sbinPoint ++ ['/']
  dfile : buffers.dfile.take 14 = stagingPoint ++ ['/']

theorem PathBuffers.start_ready : PathBuffers.start.Ready :=
  ⟨rfl, rfl⟩

/-- The paths of a file in /sbin and of its copy. -/
theorem PathBuffers.Ready.enter {buffers : PathBuffers} (ready : buffers.Ready) {name : Text}
    (short : name.length < 242) (plain : '\x00' ∉ name) :
    (buffers.enter name).Ready ∧
      cString (buffers.enter name).sfile = sbinPoint ++ ['/'] ++ name ∧
      cString (buffers.enter name).dfile = stagingPoint ++ ['/'] ++ name := by
  obtain ⟨restOld, old⟩ := @strncpy_short buffers.sfile name 6 250 (by omega)
  obtain ⟨restNew, new⟩ := @strncpy_short buffers.dfile name 14 242 short
  have oldPlain : '\x00' ∉ sbinPoint ++ ['/'] ++ name := by
    rw [List.mem_append, not_or]
    exact ⟨by decide, plain⟩
  have newPlain : '\x00' ∉ stagingPoint ++ ['/'] ++ name := by
    rw [List.mem_append, not_or]
    exact ⟨by decide, plain⟩
  rw [ready.sfile] at old
  rw [ready.dfile] at new
  unfold PathBuffers.enter
  simp only [old, new]
  refine ⟨⟨?_, ?_⟩, cString_terminated oldPlain _, cString_terminated newPlain _⟩
  · rfl
  · rfl

/-! ### Sent bytes -/

section Sent

variable {sendfile : Nat → Nat → Nat} {count size : Nat}

theorem sendAll_le (fuel attempt : Nat) {sent : Nat} (inside : sent ≤ size) :
    sendAll sendfile count size fuel attempt sent ≤ size := by
  induction fuel generalizing attempt sent with
  | zero => exact inside
  | succ fuel ih =>
      rw [sendAll]
      split
      · exact ih (attempt + 1) (by omega)
      · exact inside

/-- The fuel is enough: with more of it nothing more is sent. -/
theorem sendAll_enough {sent fuel : Nat} (inside : sent ≤ size) (enough : size - sent < fuel)
    (attempt : Nat) :
    sendAll sendfile count size (fuel + 1) attempt sent =
      sendAll sendfile count size fuel attempt sent := by
  induction fuel generalizing attempt sent with
  | zero => exact absurd enough (Nat.not_lt_zero _)
  | succ fuel ih =>
      rw [sendAll]
      conv_rhs => rw [sendAll]
      split
      · exact ih (by omega) (by omega) (attempt + 1)
      · rfl

/-- A first call that sends all it may, and a second that sends nothing. -/
theorem sendAll_once {sendfile : Nat → Nat → Nat} (first : ∀ most, sendfile 0 most = most)
    (second : ∀ most, sendfile 1 most = 0) (count size fuel : Nat) :
    sendAll sendfile count size (fuel + 2) 0 0 = min count size := by
  rw [sendAll, sendAll]
  simp only [first, second, Nat.sub_zero, Nat.min_self, Nat.zero_add, Nat.zero_min, Nat.lt_irrefl,
    if_false]
  split
  · rfl
  · omega

end Sent

theorem sizeOf_natCast (abi : Abi) (size : Nat) : abi.sizeOf size = size % 2 ^ abi.bits := by
  have modulus : (2 : Int) ^ abi.bits = ((2 ^ abi.bits : Nat) : Int) :=
    (Int.natCast_pow 2 abi.bits).symm
  unfold Abi.sizeOf
  rw [modulus, ← Int.natCast_emod, Int.toNat_natCast]

variable {abi : Abi} {calls : SbinCalls}

/-- A file smaller than what `size_t` can count is sent whole if the check says so. -/
theorem sentOf_whole {sfile : Text} {bytes : List UInt8} (small : bytes.length < 2 ^ abi.bits)
    (checked : (abi.sizeOf (sentOf abi calls sfile bytes) == abi.sizeOf bytes.length) = true) :
    bytes.take (sentOf abi calls sfile bytes) = bytes := by
  have inside : sentOf abi calls sfile bytes ≤ bytes.length := sendAll_le _ _ (Nat.zero_le _)
  have same := beq_iff_eq.mp checked
  rw [sizeOf_natCast, sizeOf_natCast, Nat.mod_eq_of_lt small,
    Nat.mod_eq_of_lt (Nat.lt_of_le_of_lt inside small)] at same
  rw [same]
  exact List.take_length

/-! ### One entry -/

/-- A listing of /sbin as the file system may give it. -/
structure Listed (tree : DirTree) : Prop where
  short : ∀ entry, entry ∈ tree.entries → entry.name.length < 242
  plain : ∀ entry, entry ∈ tree.entries → '\x00' ∉ entry.name
  typed : ∀ entry, entry ∈ tree.entries → entry.dType.describes entry.node = true
  linkPlain : ∀ entry, entry ∈ tree.entries → '\x00' ∉ entry.node.link

def oldPath (name : Text) : Text :=
  sbinPoint ++ ['/'] ++ name

def newPath (name : Text) : Text :=
  stagingPoint ++ ['/'] ++ name

def goesOn (abi : Abi) (calls : SbinCalls) (entry : DirEntry) : Bool :=
  match entry.dType, entry.node with
  | .reg, .regular bytes =>
      calls.openRead (oldPath entry.name) && calls.fstat (oldPath entry.name) &&
        calls.openNew (newPath entry.name) &&
        (abi.sizeOf (sentOf abi calls (oldPath entry.name) bytes) == abi.sizeOf bytes.length)
  | .lnk, .symlink _ =>
      calls.readlink (oldPath entry.name) && calls.symlink (newPath entry.name)
  | _, _ => true

def copyOf (abi : Abi) (calls : SbinCalls) (entry : DirEntry) : Option DirEntry :=
  match entry.dType, entry.node with
  | .reg, .regular bytes =>
      some ⟨entry.name, .reg, .regular (bytes.take (sentOf abi calls (oldPath entry.name) bytes))⟩
  | .lnk, .symlink target => some ⟨entry.name, .lnk, .symlink (target.take 255)⟩
  | _, _ => none

theorem copyOf_name {entry copy : DirEntry} (copied : copyOf abi calls entry = some copy) :
    copy.name = entry.name := by
  unfold copyOf at copied
  split at copied
  · cases copied
    rfl
  · cases copied
    rfl
  · cases copied

theorem copyOf_other {entry : DirEntry} (other : entry.node = .other) :
    copyOf abi calls entry = none := by
  unfold copyOf
  rw [other]
  cases entry.dType <;> rfl

theorem copyOf_regular {entry copy : DirEntry} {bytes : List UInt8}
    (regular : entry.node = .regular bytes) :
    copyOf abi calls entry = some copy ↔ entry.dType = .reg ∧
      copy = ⟨entry.name, .reg,
        .regular (bytes.take (sentOf abi calls (oldPath entry.name) bytes))⟩ := by
  unfold copyOf
  rw [regular]
  cases entry.dType with
  | reg => simp only [Option.some.injEq, true_and, eq_comm]
  | unknown | lnk | other => simp only [reduceCtorEq, false_and]

theorem copyOf_symlink {entry copy : DirEntry} {target : Text}
    (link : entry.node = .symlink target) :
    copyOf abi calls entry = some copy ↔ entry.dType = .lnk ∧
      copy = ⟨entry.name, .lnk, .symlink (target.take 255)⟩ := by
  unfold copyOf
  rw [link]
  cases entry.dType with
  | lnk => simp only [Option.some.injEq, true_and, eq_comm]
  | unknown | reg | other => simp only [reduceCtorEq, false_and]

variable {before : MountNamespace} {entry : DirEntry} {tree : DirTree}

theorem copyEntry_staged (listed : Listed before.sbinTree)
    (member : entry ∈ before.sbinTree.entries)
    (fresh : entry.name ∉ tree.entries.map DirEntry.name) {buffers : PathBuffers}
    (old : cString buffers.sfile = oldPath entry.name)
    (new : cString buffers.dfile = newPath entry.name) :
    ∃ next, copyEntry abi calls entry.dType buffers (before.staged calls.device tree) =
        (goesOn abi calls entry, before.staged calls.device next) ∧
      (goesOn abi calls entry = true →
        next.entries = tree.entries ++ (copyOf abi calls entry).toList) := by
  have opened : (before.staged calls.device tree).openSbin (oldPath entry.name) =
      some entry.node := MountNamespace.openSbin_entry member
  have typed := listed.typed entry member
  have linkPlain := listed.linkPlain entry member
  obtain ⟨name, dType, node⟩ := entry
  unfold copyEntry goesOn copyOf
  cases dType with
  | unknown => exact ⟨tree, rfl, fun _ => (List.append_nil _).symm⟩
  | other => exact ⟨tree, rfl, fun _ => (List.append_nil _).symm⟩
  | reg =>
      cases node with
      | symlink target => cases typed
      | other => cases typed
      | regular bytes =>
          obtain ⟨next, created, entries⟩ := @MountNamespace.create_staged before calls.device tree
            name .reg (.regular (bytes.take (sentOf abi calls (oldPath name) bytes))) fresh
          simp only [old, new, copyRegular, opened]
          cases calls.openRead (oldPath name) && calls.fstat (oldPath name) &&
              calls.openNew (newPath name) with
          | false => exact ⟨tree, rfl, fun impossible => by cases impossible⟩
          | true =>
              refine ⟨next, ?_, fun _ => entries⟩
              rw [if_pos rfl, Bool.true_and]
              unfold newPath
              rw [created]
  | lnk =>
      cases node with
      | regular bytes => cases typed
      | other => cases typed
      | symlink target =>
          have whole : cString (target.take 255) = target.take 255 :=
            cString_plain fun member => linkPlain (List.mem_of_mem_take member)
          obtain ⟨next, created, entries⟩ := @MountNamespace.create_staged before calls.device tree
            name .lnk (.symlink (target.take 255)) fresh
          simp only [old, new, copyLink, opened, whole]
          cases calls.readlink (oldPath name) && calls.symlink (newPath name) with
          | false => exact ⟨tree, rfl, fun impossible => by cases impossible⟩
          | true =>
              refine ⟨next, ?_, fun _ => entries⟩
              rw [if_pos rfl]
              unfold newPath
              rw [created]

/-! ### The loop -/

/-- As long as nothing fails, the staging mount has the copies of the entries read so
far, and nothing else. -/
theorem copyEntries_staged (listed : Listed before.sbinTree) {entries : List DirEntry}
    (members : ∀ entry, entry ∈ entries → entry ∈ before.sbinTree.entries)
    (distinct : (entries.map DirEntry.name).Nodup)
    (fresh : ∀ entry, entry ∈ entries → entry.name ∉ tree.entries.map DirEntry.name)
    {buffers : PathBuffers} (ready : buffers.Ready) :
    ∃ next, copyEntries abi calls entries buffers (before.staged calls.device tree) =
        (entries.all (goesOn abi calls), before.staged calls.device next) ∧
      (entries.all (goesOn abi calls) = true →
        next.entries = tree.entries ++ entries.filterMap (copyOf abi calls)) := by
  induction entries generalizing tree buffers with
  | nil => exact ⟨tree, rfl, fun _ => (List.append_nil _).symm⟩
  | cons dir rest ih =>
      have member := members dir List.mem_cons_self
      obtain ⟨stillReady, old, new⟩ :=
        ready.enter (listed.short dir member) (listed.plain dir member)
      obtain ⟨next, step, entries⟩ := @copyEntry_staged abi calls before dir tree listed member
        (fresh dir List.mem_cons_self) (buffers.enter dir.name) old new
      rw [List.map_cons, List.nodup_cons] at distinct
      rw [copyEntries, step, List.all_cons]
      cases on : goesOn abi calls dir with
      | false => exact ⟨next, rfl, fun impossible => by cases impossible⟩
      | true =>
          have extended := entries on
          have restFresh : ∀ entry, entry ∈ rest →
              entry.name ∉ next.entries.map DirEntry.name := by
            intro entry later
            rw [extended, List.map_append, List.mem_append, not_or]
            refine ⟨fresh entry (List.mem_cons_of_mem _ later), ?_⟩
            intro named
            obtain ⟨copy, copied, same⟩ := List.mem_map.mp named
            apply distinct.1
            rw [← copyOf_name (Option.mem_toList.mp copied), same]
            exact List.mem_map_of_mem later
          obtain ⟨final, run, finalEntries⟩ := ih
            (fun entry later => members entry (List.mem_cons_of_mem _ later)) distinct.2 restFresh
            stillReady
          refine ⟨final, ?_, ?_⟩
          · rw [Bool.true_and]
            exact run
          · intro allOn
            rw [finalEntries allOn, extended, List.append_assoc, List.filterMap_cons]
            cases copyOf abi calls dir with
            | none => rfl
            | some copy => rfl

/-! ### Mount points -/

theorem copyEntry_points (dType : DType) (buffers : PathBuffers) (ns : MountNamespace) :
    (copyEntry abi calls dType buffers ns).2.points = ns.points := by
  unfold copyEntry
  cases dType with
  | unknown => rfl
  | other => rfl
  | reg =>
      simp only [copyRegular]
      split
      · split
        · split
          · rename_i created
            exact MountNamespace.create_points created
          · rfl
        · rfl
      · rfl
  | lnk =>
      simp only [copyLink]
      split
      · split
        · split
          · rename_i created
            exact MountNamespace.create_points created
          · rfl
        · rfl
      · rfl

theorem copyEntries_points (entries : List DirEntry) (buffers : PathBuffers)
    (ns : MountNamespace) : (copyEntries abi calls entries buffers ns).2.points = ns.points := by
  induction entries generalizing buffers ns with
  | nil => rfl
  | cons dir rest ih =>
      have step := @copyEntry_points abi calls dir.dType (buffers.enter dir.name) ns
      rw [copyEntries]
      split
      rename_i done next same
      rw [same] at step
      split
      · exact (ih _ next).trans step
      · exact step

/-- The mount points are as before after a failure, and /sbin is one of them after a
success. -/
structure PointsAfter (ns : MountNamespace) (result : Nat × MountNamespace) : Prop where
  failed : result.1 ≠ 0 → result.2.points = ns.points
  succeeded : result.1 = 0 →
    (sbinPoint ∈ ns.points ∧ result.2 = ns) ∨ result.2.points = sbinPoint :: ns.points

theorem PointsAfter.of_failed {ns after : MountNamespace} {code : Nat} (failed : code ≠ 0)
    (same : after.points = ns.points) : PointsAfter ns (code, after) :=
  ⟨fun _ => same, fun impossible => absurd impossible failed⟩

/-- Whatever /sbin holds, no staging mount is left. -/
theorem makeSbinTmpfs_points (abi : Abi) (calls : SbinCalls) (ns : MountNamespace) :
    PointsAfter ns (makeSbinTmpfs abi calls ns) := by
  have copied := @copyEntries_points abi calls (ns.staged calls.device .empty).sbinTree.entries
    .start (ns.staged calls.device .empty)
  have staged : (ns.staged calls.device .empty).points = stagingPoint :: ns.points := rfl
  have removed := @MountNamespace.umount2_points (copyEntries abi calls
    (ns.staged calls.device .empty).sbinTree.entries .start (ns.staged calls.device .empty)).2
    stagingPoint
  rw [copied, staged, List.erase_cons_head] at removed
  unfold makeSbinTmpfs
  split
  · rename_i mounted
    refine ⟨fun impossible => absurd rfl impossible, fun _ => .inl ⟨?_, rfl⟩⟩
    apply MountNamespace.mem_points_iff.mpr
    intro none
    apply mounted
    unfold MountNamespace.sbinDevice
    rw [none]
  · split
    · simp only
      split
      · split
        · split
          · split
            · rename_i staging _
              have bound := @MountNamespace.umount2_points
                ((copyEntries abi calls (ns.staged calls.device .empty).sbinTree.entries .start
                  (ns.staged calls.device .empty)).2.mount { staging with point := sbinPoint })
                stagingPoint
              refine ⟨fun impossible => absurd rfl impossible, fun _ => .inr (bound.trans ?_)⟩
              change (sbinPoint :: MountNamespace.points _).erase stagingPoint = _
              rw [copied, staged, List.erase_cons_tail (by decide), List.erase_cons_head]
            · exact PointsAfter.of_failed (by decide) removed
          · exact PointsAfter.of_failed (by decide) removed
        · exact PointsAfter.of_failed (by decide) removed
      · exact PointsAfter.of_failed (by decide) rfl
    · exact PointsAfter.of_failed (by decide) rfl

theorem PointsAfter.kept {ns : MountNamespace} {result : Nat × MountNamespace}
    (after : PointsAfter ns result) (mounted : sbinPoint ∈ ns.points) :
    sbinPoint ∈ result.2.points := by
  by_cases success : result.1 = 0
  · rcases after.succeeded success with ⟨_, same⟩ | same
    · rw [same]
      exact mounted
    · rw [same]
      exact List.mem_cons_self
  · rw [after.failed success]
    exact mounted

theorem PointsAfter.mounted {ns : MountNamespace} {result : Nat × MountNamespace}
    (after : PointsAfter ns result) (success : result.1 = 0) : sbinPoint ∈ result.2.points := by
  rcases after.succeeded success with ⟨mounted, same⟩ | same
  · rw [same]
    exact mounted
  · rw [same]
    exact List.mem_cons_self

/-! ### The whole function -/

/-- The new tree has the regular files and the links of the old one. -/
structure Copies (old new : DirTree) : Prop where
  files : ∀ entry, entry ∈ old.entries → ∀ bytes, entry.node = .regular bytes →
    ∃ copy, copy ∈ new.entries ∧ copy.name = entry.name ∧ copy.node = .regular bytes
  links : ∀ entry, entry ∈ old.entries → ∀ target, entry.node = .symlink target →
    ∃ copy link, copy ∈ new.entries ∧ copy.name = entry.name ∧ copy.node = .symlink link ∧
      (target.length ≤ 254 → link = target)
  only : ∀ copy, copy ∈ new.entries →
    ∃ entry, entry ∈ old.entries ∧ entry.name = copy.name ∧ entry.node ≠ .other

/-- Nothing is left behind by a failure; a success finds something mounted on /sbin or
leaves exactly one more mount, with copies of the old files. -/
structure AllOrNothing (before : MountNamespace) (result : Nat × MountNamespace) : Prop where
  failed : result.1 ≠ 0 → result.2 = before
  succeeded : result.1 = 0 →
    (before.sbinDevice ≠ before.rootDevice ∧ result.2 = before) ∨
      ∃ mounted, mounted.point = sbinPoint ∧ result.2 = before.mount mounted ∧
        Copies before.sbinTree mounted.tree

/-- The entry comes with its type and a regular file has a size that `size_t` can hold. -/
def Copyable (abi : Abi) (entry : DirEntry) : Prop :=
  (∀ bytes, entry.node = .regular bytes → entry.dType = .reg ∧ bytes.length < 2 ^ abi.bits) ∧
    ∀ target, entry.node = .symlink target → entry.dType = .lnk

/-- The outcomes of the function, none of which leaves the staging mount behind. -/
theorem makeSbinTmpfs_outcomes (abi : Abi) (calls : SbinCalls) (listed : Listed before.sbinTree)
    (unmounted : before.sbinDevice = before.rootDevice) :
    ∃ tree : DirTree, makeSbinTmpfs abi calls before =
        (if calls.mountTmpfs then
          if calls.opendir then
            if before.sbinTree.entries.all (goesOn abi calls) then
              if calls.bindMount then (0, before.mount ⟨sbinPoint, calls.device, tree⟩)
              else (4, before)
            else (3, before)
          else (2, before)
        else (1, before)) ∧
      (before.sbinTree.entries.all (goesOn abi calls) = true →
        tree.entries = before.sbinTree.entries.filterMap (copyOf abi calls)) := by
  obtain ⟨tree, loop, entries⟩ := @copyEntries_staged abi calls before .empty listed
    before.sbinTree.entries (fun _ member => member) before.sbinTree.distinct
    (fun _ _ => List.not_mem_nil) _ PathBuffers.start_ready
  refine ⟨tree, ?_, entries⟩
  unfold makeSbinTmpfs
  rw [if_neg (not_not_intro unmounted.symm)]
  simp only [MountNamespace.sbinTree_staged, loop]
  cases before.sbinTree.entries.all (goesOn abi calls) with
  | true => rfl
  | false => rfl

/-- Something is mounted on /sbin already, or no call that the copy needs fails. -/
def SbinCalls.succeed (abi : Abi) (calls : SbinCalls) (ns : MountNamespace) : Bool :=
  ns.sbinDevice != ns.rootDevice ||
    (calls.mountTmpfs && calls.opendir && ns.sbinTree.entries.all (goesOn abi calls) &&
      calls.bindMount)

/-- The function succeeds exactly when its calls do. -/
theorem makeSbinTmpfs_zero_iff (abi : Abi) (calls : SbinCalls) (listed : Listed before.sbinTree) :
    (makeSbinTmpfs abi calls before).1 = 0 ↔ calls.succeed abi before = true := by
  unfold SbinCalls.succeed
  by_cases unmounted : before.sbinDevice = before.rootDevice
  · obtain ⟨tree, outcome, _⟩ := makeSbinTmpfs_outcomes abi calls listed unmounted
    rw [outcome, bne_eq_false_iff_eq.mpr unmounted, Bool.false_or]
    cases calls.mountTmpfs with
    | false => exact iff_of_false (Nat.succ_ne_zero _) Bool.false_ne_true
    | true =>
        cases calls.opendir with
        | false => exact iff_of_false (Nat.succ_ne_zero _) Bool.false_ne_true
        | true =>
            cases before.sbinTree.entries.all (goesOn abi calls) with
            | false => exact iff_of_false (Nat.succ_ne_zero _) Bool.false_ne_true
            | true =>
                cases calls.bindMount with
                | false => exact iff_of_false (Nat.succ_ne_zero _) Bool.false_ne_true
                | true => exact iff_of_true rfl rfl
  · rw [bne_iff_ne.mpr unmounted, Bool.true_or]
    unfold makeSbinTmpfs
    rw [if_pos (Ne.symm unmounted)]
    exact iff_of_true rfl rfl

theorem Listed.copies {old new : DirTree} (listed : Listed old)
    (entries : new.entries = old.entries.filterMap (copyOf abi calls)) : Listed new := by
  have origin : ∀ copy, copy ∈ new.entries → ∃ entry, entry ∈ old.entries ∧
      copyOf abi calls entry = some copy := by
    intro copy member
    rw [entries] at member
    exact List.mem_filterMap.mp member
  constructor
  case short =>
    intro copy member
    obtain ⟨entry, old, copied⟩ := origin copy member
    rw [copyOf_name copied]
    exact listed.short entry old
  case plain =>
    intro copy member
    obtain ⟨entry, old, copied⟩ := origin copy member
    rw [copyOf_name copied]
    exact listed.plain entry old
  case typed =>
    intro copy member
    obtain ⟨entry, _, copied⟩ := origin copy member
    unfold copyOf at copied
    split at copied
    · cases copied
      rfl
    · cases copied
      rfl
    · cases copied
  case linkPlain =>
    intro copy member
    obtain ⟨entry, old, copied⟩ := origin copy member
    have plain := listed.linkPlain entry old
    unfold copyOf at copied
    split at copied
    · cases copied
      exact List.not_mem_nil
    · rename_i target _ link
      rw [link] at plain
      cases copied
      exact fun inside => plain (List.mem_of_mem_take inside)
    · cases copied

/-- What is seen in /sbin then is a listing again. -/
theorem makeSbinTmpfs_listed (abi : Abi) (calls : SbinCalls) (listed : Listed before.sbinTree) :
    Listed (makeSbinTmpfs abi calls before).2.sbinTree := by
  by_cases unmounted : before.sbinDevice = before.rootDevice
  · obtain ⟨tree, outcome, entries⟩ := makeSbinTmpfs_outcomes abi calls listed unmounted
    rw [outcome]
    split
    · split
      · split
        · rename_i allOn
          split
          · exact listed.copies (entries allOn)
          · exact listed
        · exact listed
      · exact listed
    · exact listed
  · unfold makeSbinTmpfs
    rw [if_pos (Ne.symm unmounted)]
    exact listed

theorem mem_copies {tree : DirTree} {entries : List DirEntry}
    (copies : tree.entries = entries.filterMap (copyOf abi calls)) {entry copy : DirEntry}
    (member : entry ∈ entries) (copied : copyOf abi calls entry = some copy) :
    copy ∈ tree.entries := by
  rw [copies]
  exact List.mem_filterMap.mpr ⟨entry, member, copied⟩

/-- What the new tree has under the name of an entry comes from the entry. -/
theorem copyOf_of_mem {old new : DirTree}
    (copies : new.entries = old.entries.filterMap (copyOf abi calls)) {entry copy : DirEntry}
    (member : entry ∈ old.entries) (inside : copy ∈ new.entries) (named : copy.name = entry.name) :
    copyOf abi calls entry = some copy := by
  rw [copies] at inside
  obtain ⟨source, listed, copied⟩ := List.mem_filterMap.mp inside
  have same : source = entry := List.inj_on_of_nodup_map old.distinct listed member
    ((copyOf_name copied).symm.trans named)
  rw [← same]
  exact copied

theorem copies_of_copyable {old new : DirTree}
    (copyable : ∀ entry, entry ∈ old.entries → Copyable abi entry)
    (allOn : old.entries.all (goesOn abi calls) = true)
    (entries : new.entries = old.entries.filterMap (copyOf abi calls)) : Copies old new := by
  constructor
  case files =>
    intro entry member bytes regular
    obtain ⟨typed, small⟩ := (copyable entry member).1 bytes regular
    have on := List.all_eq_true.mp allOn entry member
    unfold goesOn at on
    simp only [typed, regular, Bool.and_eq_true] at on
    have copied : copyOf abi calls entry = some ⟨entry.name, .reg, .regular bytes⟩ := by
      apply (copyOf_regular regular).mpr
      rw [sentOf_whole small on.2]
      exact ⟨typed, rfl⟩
    exact ⟨_, mem_copies entries member copied, rfl, rfl⟩
  case links =>
    intro entry member target link
    have typed := (copyable entry member).2 target link
    have copied := (@copyOf_symlink abi calls _ _ _ link).mpr ⟨typed, rfl⟩
    refine ⟨_, _, mem_copies entries member copied, rfl, rfl, ?_⟩
    intro short
    exact List.take_of_length_le (by omega)
  case only =>
    intro copy member
    rw [entries] at member
    obtain ⟨entry, old, copied⟩ := List.mem_filterMap.mp member
    refine ⟨entry, old, (copyOf_name copied).symm, ?_⟩
    intro other
    rw [copyOf_other other] at copied
    cases copied

/-- Nothing fails, and the first call of `sendfile` sends all it may. -/
def succeeding : SbinCalls :=
  { device := 1
    mountTmpfs := true
    opendir := true
    openRead := fun _ => true
    fstat := fun _ => true
    openNew := fun _ => true
    sendfile := fun _ attempt most => if attempt = 0 then most else 0
    readlink := fun _ => true
    symlink := fun _ => true
    bindMount := true }

theorem sentOf_succeeding (abi : Abi) (sfile : Text) (bytes : List UInt8) :
    sentOf abi succeeding sfile bytes = bytes.length % 2 ^ abi.bits := by
  have once := @sendAll_once (succeeding.sendfile sfile) (fun _ => rfl) (fun _ => rfl)
    (abi.sizeOf bytes.length) bytes.length bytes.length
  have enough := @sendAll_enough (succeeding.sendfile sfile) (abi.sizeOf bytes.length)
    bytes.length 0 (bytes.length + 1) (Nat.zero_le _) (Nat.lt_succ_self _) 0
  unfold sentOf
  rw [← enough, once, sizeOf_natCast, Nat.min_eq_left (Nat.mod_le _ _)]

theorem goesOn_succeeding (abi : Abi) (entry : DirEntry) : goesOn abi succeeding entry = true := by
  unfold goesOn
  split
  · rename_i bytes _ _
    have counted : abi.sizeOf (sentOf abi succeeding (oldPath entry.name) bytes) =
        abi.sizeOf bytes.length := by
      rw [sentOf_succeeding, sizeOf_natCast, sizeOf_natCast, Nat.mod_mod]
    rw [counted, beq_self_eq_true]
    rfl
  · rfl
  · rfl

/-- An entry that is not copied as it should be is not noticed. -/
theorem not_allOrNothing {entry : DirEntry} (listed : Listed before.sbinTree)
    (unmounted : before.sbinDevice = before.rootDevice) (member : entry ∈ before.sbinTree.entries)
    (lost : ¬ Copyable abi entry) :
    ¬ AllOrNothing before (makeSbinTmpfs abi succeeding before) := by
  obtain ⟨tree, outcome, entries⟩ := makeSbinTmpfs_outcomes abi succeeding listed unmounted
  have allOn : before.sbinTree.entries.all (goesOn abi succeeding) = true :=
    List.all_eq_true.mpr fun entry _ => goesOn_succeeding abi entry
  have returned : makeSbinTmpfs abi succeeding before = (0, before.mount ⟨sbinPoint, 1, tree⟩) := by
    rw [outcome, allOn]
    rfl
  intro given
  rw [returned] at given
  rcases given.succeeded rfl with ⟨mounted, _⟩ | ⟨mounted, _, same, copies⟩
  · exact mounted unmounted
  · have trees : mounted.tree = tree := by
      have mounts := congrArg MountNamespace.mounts same
      rw [← (List.cons.inj mounts).1]
    rw [trees] at copies
    have origin : ∀ copy, copy ∈ tree.entries → copy.name = entry.name →
        copyOf abi succeeding entry = some copy := fun _ => copyOf_of_mem (entries allOn) member
    apply lost
    constructor
    · intro bytes regular
      obtain ⟨copy, inside, named, same⟩ := copies.files entry member bytes regular
      obtain ⟨typed, rfl⟩ := (copyOf_regular regular).mp (origin copy inside named)
      have lengths := congrArg List.length (Node.regular.inj same)
      rw [List.length_take, sentOf_succeeding, Nat.min_eq_left (Nat.mod_le _ _)] at lengths
      refine ⟨typed, ?_⟩
      rw [← lengths]
      exact Nat.mod_lt _ (Nat.two_pow_pos _)
    · intro target link
      obtain ⟨copy, _, inside, named, _⟩ := copies.links entry member target link
      exact ((copyOf_symlink link).mp (origin copy inside named)).1

theorem AllOrNothing.of_failed {code : Nat} (failed : code ≠ 0) :
    AllOrNothing before (code, before) :=
  ⟨fun _ => rfl, fun impossible => absurd impossible failed⟩

/-- However the calls end, the function does all or nothing exactly when there is nothing
to do or every entry can be copied. -/
theorem all_or_nothing_iff (abi : Abi) (before : MountNamespace) (listed : Listed before.sbinTree) :
    (∀ calls, AllOrNothing before (makeSbinTmpfs abi calls before)) ↔
      before.sbinDevice ≠ before.rootDevice ∨
        ∀ entry, entry ∈ before.sbinTree.entries → Copyable abi entry := by
  constructor
  · intro given
    by_contra neither
    rw [not_or, not_not] at neither
    obtain ⟨unmounted, some⟩ := neither
    rw [not_forall] at some
    obtain ⟨entry, some⟩ := some
    rw [Classical.not_imp] at some
    exact not_allOrNothing listed unmounted some.1 some.2 (given succeeding)
  · intro given calls
    by_cases mounted : before.sbinDevice = before.rootDevice
    · have copyable := given.resolve_left (not_not_intro mounted)
      obtain ⟨tree, outcome, entries⟩ := makeSbinTmpfs_outcomes abi calls listed mounted
      rw [outcome]
      split
      · split
        · split
          · rename_i allOn
            split
            · refine ⟨fun impossible => absurd rfl impossible, fun _ => .inr ⟨_, rfl, rfl, ?_⟩⟩
              exact copies_of_copyable copyable allOn (entries allOn)
            · exact AllOrNothing.of_failed (by decide)
          · exact AllOrNothing.of_failed (by decide)
        · exact AllOrNothing.of_failed (by decide)
      · exact AllOrNothing.of_failed (by decide)
    · have returned : makeSbinTmpfs abi calls before = (0, before) := by
        unfold makeSbinTmpfs
        rw [if_pos (Ne.symm mounted)]
      rw [returned]
      exact ⟨fun impossible => absurd rfl impossible, fun _ => .inl ⟨mounted, rfl⟩⟩

def rootfs : MountNamespace :=
  { rootDevice := 0
    sbin := ⟨[⟨".".toList, .other, .other⟩, ⟨"ueventd".toList, .lnk, .symlink "../init".toList⟩,
      ⟨"adbd".toList, .reg, .regular [0x7f, 0x45, 0x4c, 0x46]⟩], by decide⟩
    mounts := [] }

theorem rootfs_listed : Listed rootfs.sbinTree := by
  constructor
  all_goals decide

theorem rootfs_all_or_nothing :
    AllOrNothing rootfs (makeSbinTmpfs .ilp32 succeeding rootfs) := by
  refine (all_or_nothing_iff .ilp32 rootfs rootfs_listed).mpr ?_ succeeding
  right
  intro entry member
  constructor
  · intro bytes regular
    rcases List.mem_cons.mp member with rfl | member
    · cases regular
    rcases List.mem_pair.mp member with rfl | rfl
    · cases regular
    · cases regular
      exact ⟨rfl, by decide⟩
  · intro target link
    rcases List.mem_cons.mp member with rfl | member
    · cases link
    rcases List.mem_pair.mp member with rfl | rfl
    · rfl
    · cases link

def sparse : DirEntry :=
  ⟨"su".toList, .reg, .regular (List.replicate (2 ^ 32) 0)⟩

def sparsefs : MountNamespace :=
  { rootDevice := 0
    sbin := ⟨[sparse], List.nodup_singleton _⟩
    mounts := [] }

/-- The file is copied as an empty one. -/
theorem sparsefs_lost :
    ¬ AllOrNothing sparsefs (makeSbinTmpfs .ilp32 succeeding sparsefs) := by
  have single : ∀ entry, entry ∈ sparsefs.sbinTree.entries → entry = sparse :=
    fun entry member => List.mem_singleton.mp member
  apply not_allOrNothing _ rfl (List.mem_singleton_self sparse)
  · intro copyable
    have small := (copyable.1 _ rfl).2
    rw [List.length_replicate] at small
    exact absurd small (by decide)
  · constructor
    all_goals
      intro entry member
      rw [single entry member]
    case short => decide
    case plain => decide
    case typed => rfl
    case linkPlain => exact List.not_mem_nil

end SuperBootimg.Concrete.Hidesu
