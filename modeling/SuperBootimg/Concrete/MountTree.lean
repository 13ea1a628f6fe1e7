/-
What makeSbinTmpfs of hidesu.c sees of a mount namespace: the root file system with its
directory /sbin, and what is mounted over it. Modes, owners and labels are left out.
-/

import Mathlib.Data.List.Nodup
import SuperBootimg.Concrete.HidesuSystem

namespace SuperBootimg.Concrete.Hidesu

/-! ### Directories -/

inductive Node
  | regular (bytes : List UInt8)
  | symlink (target : Text)
  | other
  deriving DecidableEq

def Node.link : Node → Text
  | .symlink target => target
  | _ => []

/-- `d_type`, which a file system may leave unknown. -/
inductive DType
  | unknown
  | reg
  | lnk
  | other
  deriving DecidableEq

def DType.describes : DType → Node → Bool
  | .unknown, _ => true
  | .reg, .regular _ => true
  | .lnk, .symlink _ => true
  | .other, .other => true
  | _, _ => false

structure DirEntry where
  name : Text
  dType : DType
  node : Node
  deriving DecidableEq

structure DirTree where
  entries : List DirEntry
  distinct : (entries.map DirEntry.name).Nodup

namespace DirTree

def empty : DirTree :=
  ⟨[], List.nodup_nil⟩

theorem nodup_append {tree : DirTree} {entry : DirEntry}
    (fresh : (tree.entries.map DirEntry.name).contains entry.name = false) :
    ((tree.entries ++ [entry]).map DirEntry.name).Nodup := by
  have missing : entry.name ∉ tree.entries.map DirEntry.name := by
    intro member
    rw [List.contains_iff_mem.mpr member] at fresh
    cases fresh
  have longer := List.Nodup.concat missing tree.distinct
  rw [List.concat_eq_append] at longer
  rw [List.map_append]
  exact longer

/-- A name that is there already is refused. -/
def create (tree : DirTree) (entry : DirEntry) : Option DirTree :=
  if fresh : (tree.entries.map DirEntry.name).contains entry.name = false then
    some ⟨tree.entries ++ [entry], nodup_append fresh⟩
  else none

theorem create_fresh {tree : DirTree} {entry : DirEntry}
    (fresh : entry.name ∉ tree.entries.map DirEntry.name) :
    ∃ next, tree.create entry = some next ∧ next.entries = tree.entries ++ [entry] := by
  have missing : (tree.entries.map DirEntry.name).contains entry.name = false := by
    apply Bool.eq_false_iff.mpr
    intro inside
    exact fresh (List.contains_iff_mem.mp inside)
  unfold create
  rw [dif_pos missing]
  exact ⟨_, rfl, rfl⟩

def find (tree : DirTree) (name : Text) : Option Node :=
  (tree.entries.find? fun entry => entry.name == name).map DirEntry.node

theorem find_entry {tree : DirTree} {entry : DirEntry} (member : entry ∈ tree.entries) :
    tree.find entry.name = some entry.node := by
  obtain ⟨entries, distinct⟩ := tree
  unfold find
  induction entries with
  | nil => cases member
  | cons first rest ih =>
      rw [List.map_cons, List.nodup_cons] at distinct
      rcases List.mem_cons.mp member with rfl | later
      · simp only [List.find?_cons, beq_self_eq_true, Option.map_some]
      · have differs : (first.name == entry.name) = false := by
          apply beq_eq_false_iff_ne.mpr
          intro same
          apply distinct.1
          rw [same]
          exact List.mem_map_of_mem later
        simp only [List.find?_cons, differs]
        exact ih distinct.2 later

end DirTree

/-! ### Mounts -/

structure Mounted where
  point : Text
  device : Nat
  tree : DirTree

/-- The last mount comes first. -/
structure MountNamespace where
  rootDevice : Nat
  sbin : DirTree
  mounts : List Mounted

def sbinPoint : Text :=
  "/sbin".toList

def stagingPoint : Text :=
  "/dev/sbin.tmp".toList

def nameIn (directory path : Text) : Option Text :=
  if directory.isPrefixOf path then some (path.drop directory.length) else none

theorem nameIn_append (directory name : Text) :
    nameIn directory (directory ++ name) = some name := by
  unfold nameIn
  rw [if_pos (List.isPrefixOf_iff_prefix.mpr (List.prefix_append _ _)), List.drop_left]

namespace MountNamespace

variable (ns : MountNamespace)

def top (point : Text) : Option Mounted :=
  ns.mounts.find? fun mounted => mounted.point == point

def sbinDevice : Nat :=
  match ns.top sbinPoint with
  | some mounted => mounted.device
  | none => ns.rootDevice

def sbinTree : DirTree :=
  match ns.top sbinPoint with
  | some mounted => mounted.tree
  | none => ns.sbin

def mount (mounted : Mounted) : MountNamespace :=
  { ns with mounts := mounted :: ns.mounts }

def umount2 (point : Text) : MountNamespace :=
  { ns with mounts := ns.mounts.eraseP fun mounted => mounted.point == point }

/-- A new file in the file system that is mounted last on the point. -/
def createAt (point : Text) (entry : DirEntry) : List Mounted → Option (List Mounted)
  | [] => none
  | mounted :: rest =>
      if mounted.point = point then
        (mounted.tree.create entry).map fun tree => { mounted with tree := tree } :: rest
      else (createAt point entry rest).map (mounted :: ·)

def create (path : Text) (dType : DType) (node : Node) : Option MountNamespace := do
  let name ← nameIn (stagingPoint ++ ['/']) path
  let mounts ← createAt stagingPoint ⟨name, dType, node⟩ ns.mounts
  return { ns with mounts := mounts }

def openSbin (path : Text) : Option Node :=
  (nameIn (sbinPoint ++ ['/']) path).bind ns.sbinTree.find

/-! ### The staging mount -/

def staged (device : Nat) (tree : DirTree) : MountNamespace :=
  ns.mount ⟨stagingPoint, device, tree⟩

variable {ns}

theorem sbinTree_staged (device : Nat) (tree : DirTree) :
    (ns.staged device tree).sbinTree = ns.sbinTree :=
  rfl

theorem openSbin_entry {entry : DirEntry} (member : entry ∈ ns.sbinTree.entries) :
    ns.openSbin (sbinPoint ++ ['/'] ++ entry.name) = some entry.node := by
  unfold openSbin
  rw [nameIn_append, Option.bind_some]
  exact DirTree.find_entry member

theorem create_staged {device : Nat} {tree : DirTree} {name : Text} (dType : DType) (node : Node)
    (fresh : name ∉ tree.entries.map DirEntry.name) :
    ∃ next, (ns.staged device tree).create (stagingPoint ++ ['/'] ++ name) dType node =
        some (ns.staged device next) ∧
      next.entries = tree.entries ++ [⟨name, dType, node⟩] := by
  obtain ⟨next, created, entries⟩ := @DirTree.create_fresh tree ⟨name, dType, node⟩ fresh
  refine ⟨next, ?_, entries⟩
  unfold create
  rw [nameIn_append]
  change (createAt stagingPoint ⟨name, dType, node⟩
    (⟨stagingPoint, device, tree⟩ :: ns.mounts)).bind _ = _
  rw [createAt, if_pos rfl, created]
  rfl

/-! ### Mount points -/

variable (ns) in
def points : List Text :=
  ns.mounts.map Mounted.point

theorem mem_points_iff {point : Text} : point ∈ ns.points ↔ ns.top point ≠ none := by
  unfold points top
  rw [ne_eq, List.find?_eq_none, not_forall, List.mem_map]
  apply exists_congr
  intro mounted
  rw [Classical.not_imp, not_not, beq_iff_eq]

theorem createAt_points {point : Text} {entry : DirEntry} {mounts next : List Mounted}
    (created : createAt point entry mounts = some next) :
    next.map Mounted.point = mounts.map Mounted.point := by
  induction mounts generalizing next with
  | nil => cases created
  | cons mounted rest ih =>
      rw [createAt] at created
      split at created
      · obtain ⟨tree, _, rfl⟩ := Option.map_eq_some_iff.mp created
        rfl
      · obtain ⟨others, made, rfl⟩ := Option.map_eq_some_iff.mp created
        rw [List.map_cons, List.map_cons, ih made]

theorem create_points {path : Text} {dType : DType} {node : Node} {next : MountNamespace}
    (created : ns.create path dType node = some next) : next.points = ns.points := by
  obtain ⟨name, _, rest⟩ := Option.bind_eq_some_iff.mp created
  obtain ⟨mounts, made, same⟩ := Option.bind_eq_some_iff.mp rest
  cases same
  exact createAt_points made

theorem umount2_points (point : Text) : (ns.umount2 point).points = ns.points.erase point := by
  unfold umount2 points
  induction ns.mounts with
  | nil => rfl
  | cons mounted rest ih =>
      rw [List.map_cons, List.erase_cons, List.eraseP_cons]
      cases same : mounted.point == point with
      | true => rfl
      | false =>
          rw [cond_false, if_neg Bool.false_ne_true, List.map_cons]
          exact congrArg _ ih

end MountNamespace

end SuperBootimg.Concrete.Hidesu
