/-
How update-binary.sh finds the partition it writes to. It looks for /boot in the whole
line of the recovery's fstab, and takes every /dev/ path of the lines it has found.
-/

import SuperBootimg.RegularSearch
import SuperBootimg.Concrete.InitramfsFiles

namespace SuperBootimg.Concrete.Installer

open FieldSplitting RegularSearch WordPattern
open Sepolicy (Text isBlank)
open Initramfs (isWordSymbol isFileSymbol)

/-- `\b/boot\b` -/
def bootPattern : Pattern Char :=
  .seq .boundary (.seq (.literal "/boot".toList) .boundary)

/-- `/dev/` and a `*` behind the set of the symbols of paths. -/
def devicePattern : Pattern Char :=
  .seq (.literal "/dev/".toList) (.many isFileSymbol)

def devicePaths (text : Text) : List Text :=
  matched isWordSymbol devicePattern 0 none text

def linesOf (fstab : Text) : List Text :=
  fstab.splitOn '\n'

def printed (fstab : Text) : List Text :=
  ((linesOf fstab).filter (occurs isWordSymbol bootPattern none)).flatMap devicePaths

/-- `bootimg`, or nothing when grep fails and `set -e` stops the script. -/
def bootimg (fstab : Text) : Option Text :=
  if printed fstab = [] then none else some (joined '\n' (printed fstab))

/-! ### The table -/

inductive Layout
  | mountPointFirst
  | deviceFirst

def mountPoint : Text :=
  "/boot".toList

/-- The device of the line, if it is an entry for /boot. -/
def Layout.bootDevice (layout : Layout) (line : Text) : Option Text :=
  match layout, fields isBlank line with
  | .mountPointFirst, point :: _ :: device :: _ =>
      if point = mountPoint then some device
      else none
  | .deviceFirst, device :: point :: _ =>
      if device.head? ≠ some '#' ∧ point = mountPoint then some device else none
  | _, _ => none

def Layout.bootDevices (layout : Layout) (fstab : Text) : List Text :=
  (linesOf fstab).filterMap layout.bootDevice

def IsDevice (text : Text) : Prop :=
  ∃ rest, text = "/dev/".toList ++ rest ∧ ∀ symbol, symbol ∈ rest → isFileSymbol symbol = true

/-- The partition of the entry is flashed, and nothing without an entry. -/
structure Flashes (layout : Layout) (fstab : Text) : Prop where
  device : ∀ device, layout.bootDevices fstab = [device] → IsDevice device →
    bootimg fstab = some device
  missing : layout.bootDevices fstab = [] → bootimg fstab = none

/-- A field has /boot behind a symbol of a word, and it ends there or no word goes on. -/
def NamesBoot (field : Text) : Prop :=
  ∃ front symbol back, field = front ++ symbol :: (mountPoint ++ back) ∧
    isWordSymbol symbol = true ∧ back.head?.any isWordSymbol = false

def Selected (line : Text) : Prop :=
  ∃ field, field ∈ fields isBlank line ∧ NamesBoot field

def Pathless (line : Text) : Prop :=
  ∀ field, field ∈ fields isBlank line → ¬ "/dev/".toList <:+: field

/-! ### The fields of a line -/

theorem blank_plain (symbol : Char) (separates : isBlank symbol = true) :
    isWordSymbol symbol = false ∧ isFileSymbol symbol = false := by
  unfold isBlank at separates
  rw [Bool.or_eq_true, Bool.or_eq_true, beq_iff_eq, beq_iff_eq, beq_iff_eq] at separates
  rcases separates with (rfl | rfl) | rfl
  · exact ⟨rfl, rfl⟩
  · exact ⟨rfl, rfl⟩
  · exact ⟨rfl, rfl⟩

theorem literal_confined {text : Text} (plain : (text.all fun symbol => !isBlank symbol) = true) :
    (Pattern.literal text).Confined isBlank :=
  all_false plain

theorem bootPattern_confined : bootPattern.Confined isBlank :=
  ⟨trivial, literal_confined rfl, trivial⟩

theorem devicePattern_confined : devicePattern.Confined isBlank :=
  ⟨literal_confined rfl, fun symbol separates => (blank_plain symbol separates).2⟩

/-- `grep` finds /boot between boundaries exactly behind a symbol of a word. -/
theorem occurs_boot_iff (field : Text) :
    occurs isWordSymbol bootPattern none field = true ↔ NamesBoot field := by
  rw [occurs_iff]
  unfold bootPattern NamesBoot
  -- The boundary before the slash asks for a word before it, the one behind asks for none.
  have opening : ∀ (before : Option Char) (rest : Text),
      edge isWordSymbol before (mountPoint ++ rest).head? = true ↔
        before.any isWordSymbol = true := fun _ _ => edge_before_plain rfl
  have closing : ∀ (before : Option Char) (rest : Text),
      edge isWordSymbol (mountPoint.getLast?.or before) rest.head? = true ↔
        rest.head?.any isWordSymbol = false := fun _ _ => edge_behind_word rfl
  constructor
  · intro given
    obtain ⟨front, text, length, rfl, member⟩ := given
    obtain ⟨back, rfl, edgeBefore, edgeBehind, _⟩ := mem_bounded.mp member
    have isWord := (opening _ back).mp edgeBefore
    rw [Option.or_none] at isWord
    obtain ⟨symbol, last, inWord⟩ := (Option.any_eq_true _ _).mp isWord
    obtain ⟨earlier, rfl⟩ := List.getLast?_eq_some_iff.mp last
    refine ⟨earlier, symbol, back, ?_, inWord, (closing _ back).mp edgeBehind⟩
    rw [List.append_assoc]
    rfl
  · intro given
    obtain ⟨front, symbol, back, rfl, isWord, ends⟩ := given
    refine ⟨front ++ [symbol], mountPoint ++ back, 5, ?_, mem_bounded.mpr ⟨back, rfl, ?_, ?_, rfl⟩⟩
    · rw [List.append_assoc]
      rfl
    · apply (opening _ back).mpr
      rw [List.getLast?_concat]
      exact isWord
    · exact (closing _ back).mpr ends

theorem occurs_boot_line (line : Text) :
    occurs isWordSymbol bootPattern none line = true ↔ Selected line := by
  have any : ∀ parts : List Text,
      (parts.map (occurs isWordSymbol bootPattern none)).foldr (· || ·) false =
        parts.any (occurs isWordSymbol bootPattern none) := by
    intro parts
    induction parts with
    | nil => rfl
    | cons part rest ih => rw [List.map_cons, List.foldr_cons, ih, List.any_cons]
  have split := @eq_foldr_fields _ isBlank Bool (occurs isWordSymbol bootPattern none) (· || ·)
    (fun first separator second separates =>
      occurs_append_blank (fun symbol blank => (blank_plain symbol blank).1) bootPattern_confined
        separates none first second)
    (fun _ => rfl) (fun part => Bool.or_false part) line
  unfold Selected
  rw [split.trans (any _), List.any_eq_true]
  simp only [occurs_boot_iff]

theorem devicePaths_line (line : Text) :
    devicePaths line = (fields isBlank line).flatMap devicePaths := by
  have split := @eq_foldr_fields _ isBlank (List Text) devicePaths (· ++ ·)
    (fun first separator second separates =>
      matched_append_blank (fun symbol blank => (blank_plain symbol blank).1)
        devicePattern_confined separates (Nat.zero_le _) none second)
    (fun _ => rfl) (fun part => List.append_nil part) line
  have all : ∀ parts : List Text,
      (parts.map devicePaths).foldr (· ++ ·) [] = parts.flatMap devicePaths := by
    intro parts
    induction parts with
    | nil => rfl
    | cons part rest ih => rw [List.map_cons, List.foldr_cons, ih, List.flatMap_cons]
  exact split.trans (all _)

theorem devicePaths_eq_nil_iff (field : Text) :
    devicePaths field = [] ↔ ¬ "/dev/".toList <:+: field := by
  have solid : ∀ before text, 0 ∉ lengths isWordSymbol devicePattern before text := by
    intro before text member
    obtain ⟨left, right, slash, _, sum⟩ := mem_seq.mp member
    have five : left = 5 := (mem_literal.mp slash).2
    omega
  unfold devicePaths
  rw [matched_eq_nil_iff solid, ← Bool.not_eq_true, occurs_iff]
  apply not_congr
  constructor
  · intro given
    obtain ⟨front, text, length, rfl, member⟩ := given
    obtain ⟨left, right, slash, _, _⟩ := mem_seq.mp member
    obtain ⟨rest, rfl⟩ := (mem_literal.mp slash).1
    exact ⟨front, rest, List.append_assoc _ _ _⟩
  · intro given
    obtain ⟨front, rest, rfl⟩ := given
    refine ⟨front, "/dev/".toList ++ rest, 5 + 0, List.append_assoc _ _ _, ?_⟩
    exact mem_seq.mpr ⟨5, 0, mem_literal.mpr ⟨List.prefix_append _ _, rfl⟩,
      mem_many.mpr (Nat.zero_le _), rfl⟩

theorem devicePaths_line_eq_nil_iff (line : Text) : devicePaths line = [] ↔ Pathless line := by
  unfold Pathless
  rw [devicePaths_line, List.flatMap_eq_nil_iff]
  simp only [devicePaths_eq_nil_iff]

/-! ### The whole table -/

def printedOf (line : Text) : List Text :=
  if occurs isWordSymbol bootPattern none line then devicePaths line else []

theorem printed_eq (fstab : Text) : printed fstab = (linesOf fstab).flatMap printedOf := by
  unfold printed
  induction linesOf fstab with
  | nil => rfl
  | cons line rest ih =>
      rw [List.filter_cons, List.flatMap_cons, ← ih, printedOf]
      split
      · rw [List.flatMap_cons]
      · rfl

theorem printedOf_eq_nil_iff (line : Text) :
    printedOf line = [] ↔ (Selected line → Pathless line) := by
  unfold printedOf
  rw [← occurs_boot_line, ← devicePaths_line_eq_nil_iff]
  split
  · rename_i selected
    exact ⟨fun none _ => none, fun given => given selected⟩
  · rename_i other
    exact iff_of_true rfl fun selected => absurd selected other

theorem printedOf_eq_singleton_iff (line device : Text) :
    printedOf line = [device] ↔ Selected line ∧ devicePaths line = [device] := by
  unfold printedOf
  rw [← occurs_boot_line]
  split
  · rename_i selected
    exact (and_iff_right selected).symm
  · rename_i other
    refine iff_of_false ?_ fun given => other given.1
    intro same
    cases same

theorem flatMap_eq_singleton_iff {α β : Type} {f : α → List β} {only : β} {items : List α} :
    items.flatMap f = [only] ↔ ∃ before item after, items = before ++ item :: after ∧
      f item = [only] ∧ ∀ other, other ∈ before ++ after → f other = [] := by
  constructor
  · intro single
    induction items with
    | nil => cases single
    | cons first rest ih =>
        rw [List.flatMap_cons] at single
        rcases List.append_eq_singleton_iff.mp single with ⟨none, later⟩ | ⟨here, none⟩
        · obtain ⟨before, item, after, rfl, found, others⟩ := ih later
          refine ⟨first :: before, item, after, rfl, found, ?_⟩
          intro other member
          rcases List.mem_cons.mp member with rfl | member
          · exact none
          · exact others other member
        · refine ⟨[], first, rest, rfl, here, ?_⟩
          intro other member
          exact List.flatMap_eq_nil_iff.mp none other member
  · intro given
    obtain ⟨before, item, after, rfl, found, others⟩ := given
    have early : before.flatMap f = [] := List.flatMap_eq_nil_iff.mpr fun other member =>
      others other (List.mem_append_left _ member)
    have late : after.flatMap f = [] := List.flatMap_eq_nil_iff.mpr fun other member =>
      others other (List.mem_append_right _ member)
    rw [List.flatMap_append, List.flatMap_cons, early, late, found]
    rfl

theorem bootimg_eq_some_iff {fstab device : Text} (plain : '\n' ∉ device) :
    bootimg fstab = some device ↔ printed fstab = [device] := by
  unfold bootimg
  cases printed fstab with
  | nil => exact iff_of_false (fun same => by cases same) fun same => by cases same
  | cons first rest =>
      rw [if_neg (List.cons_ne_nil _ _), Option.some_inj]
      cases rest with
      | nil =>
          unfold joined
          rw [List.intercalate_singleton, List.singleton_inj]
      | cons second others =>
          rw [joined_cons_cons]
          refine iff_of_false ?_ fun same => by cases same
          intro same
          apply plain
          rw [← same]
          exact List.mem_append_right _ List.mem_cons_self

theorem bootimg_eq_none_iff (fstab : Text) : bootimg fstab = none ↔ printed fstab = [] := by
  unfold bootimg
  split
  · rename_i none
    exact iff_of_true rfl none
  · rename_i some
    exact iff_of_false (fun same => by cases same) some

/-- The partition of the entry is flashed, and nothing without one, exactly if among the
lines in which /boot follows a symbol of a word only one has a /dev/ path, which is the
device of the entry, or none has one if there is no entry. -/
theorem flashes_iff (layout : Layout) (fstab : Text) :
    Flashes layout fstab ↔
      (∀ device, layout.bootDevices fstab = [device] → IsDevice device →
        ∃ before line after, linesOf fstab = before ++ line :: after ∧ Selected line ∧
          devicePaths line = [device] ∧
          ∀ other, other ∈ before ++ after → Selected other → Pathless other) ∧
      (layout.bootDevices fstab = [] →
        ∀ line, line ∈ linesOf fstab → Selected line → Pathless line) := by
  have found : ∀ device, IsDevice device → (bootimg fstab = some device ↔
      ∃ before line after, linesOf fstab = before ++ line :: after ∧ Selected line ∧
        devicePaths line = [device] ∧
        ∀ other, other ∈ before ++ after → Selected other → Pathless other) := by
    intro device valid
    have plain : '\n' ∉ device := by
      obtain ⟨rest, rfl, accepted⟩ := valid
      rw [List.mem_append, not_or]
      refine ⟨by decide, fun member => ?_⟩
      cases accepted _ member
    rw [bootimg_eq_some_iff plain, printed_eq, flatMap_eq_singleton_iff]
    simp only [printedOf_eq_singleton_iff, printedOf_eq_nil_iff, and_assoc]
  have missing : bootimg fstab = none ↔
      ∀ line, line ∈ linesOf fstab → Selected line → Pathless line := by
    rw [bootimg_eq_none_iff, printed_eq, List.flatMap_eq_nil_iff]
    simp only [printedOf_eq_nil_iff]
  constructor
  · intro given
    exact ⟨fun device entry valid => (found device valid).mp (given.device device entry valid),
      fun none => missing.mp (given.missing none)⟩
  · intro given
    exact ⟨fun device entry valid => (found device valid).mpr (given.1 device entry valid),
      fun none => missing.mpr (given.2 none)⟩

/-- Another partition is taken for the one that is mounted on /boot. -/
example : bootimg ("/dev/block/mmcblk0p20 /boot emmc\n" ++
    "/dev/block/mmcblk0p21 /mnt/boot ext4\n").toList =
      some "/dev/block/mmcblk0p21".toList := by
  decide +kernel

def plainFstab : Text :=
  "/boot emmc /dev/block/mmcblk0p20\n/system ext4 /dev/block/mmcblk0p21\n".toList

theorem plainFstab_not_found :
    bootimg plainFstab = none ∧ ¬ Flashes .mountPointFirst plainFstab := by
  have none : bootimg plainFstab = none := by decide +kernel
  refine ⟨none, ?_⟩
  intro flashes
  have found := flashes.device "/dev/block/mmcblk0p20".toList (by decide +kernel)
    ⟨"block/mmcblk0p20".toList, rfl, List.all_eq_true.mp rfl⟩
  rw [none] at found
  cases found

end SuperBootimg.Concrete.Installer
