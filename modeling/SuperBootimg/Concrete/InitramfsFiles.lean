/-
The list INITRAMFS_FILES of bootimg.sh. `addFile` looks for a name in the list with
grep, for which the name is a pattern, and `doneBootImgEdit` hands the list to cpio.
-/

import Mathlib.Data.List.Nodup
import SuperBootimg.WordPattern
import SuperBootimg.Concrete.SepolicyRules

namespace SuperBootimg.Concrete.Initramfs

open FieldSplitting WordPattern
open Sepolicy (Text isBlank echo)

/-- The symbols between which `\b` sees no boundary. -/
def isWordSymbol (symbol : Char) : Bool :=
  symbol.isAlphanum || symbol == '_'

def isFileSymbol (symbol : Char) : Bool :=
  isWordSymbol symbol || symbol == '.' || symbol == '-' || symbol == '/'

structure FilePath where
  text : Text
  plain : ∀ symbol, symbol ∈ text → isFileSymbol symbol = true
  first : text.head?.any isWordSymbol = true
  last : text.getLast?.any isWordSymbol = true

/-- A name as an extended regular expression. -/
def pattern (name : Text) : List (Element Char) :=
  name.map fun symbol => if symbol = '.' then .any else .literal symbol

/-- `grep -qE "\b$1\b"` on a line. -/
def grep (name line : Text) : Bool :=
  found isWordSymbol (pattern name) line

def addFile (files name : Text) : Text :=
  if grep name (echo files) then files else files ++ ' ' :: name

/-- `INITRAMFS_FILES` after some calls, the first of which finds it empty. -/
def initramfsFiles (calls : List FilePath) : Text :=
  calls.foldl (fun files call => addFile files call.text) []

def wordsOf (files : Text) : List Text :=
  fields isBlank files

def cpioLines (files : Text) : List Text :=
  (translate ' ' '\n' (echo files)).splitOn '\n'

/-! ### What the list is for -/

/-- The names in the order of their first calls. -/
def firstCalls (names : List Text) : List Text :=
  names.foldl (fun listed name => if listed.contains name then listed else listed ++ [name]) []

structure ListsEach (calls : List FilePath) (files : Text) : Prop where
  once : (wordsOf files).Nodup
  listed : ∀ word, word ∈ wordsOf files ↔ ∃ call, call ∈ calls ∧ call.text = word

theorem firstCalls_append (names : List Text) (name : Text) :
    firstCalls (names ++ [name]) =
      if (firstCalls names).contains name then firstCalls names
      else firstCalls names ++ [name] := by
  unfold firstCalls
  rw [List.foldl_append]
  rfl

theorem firstCalls_spec (names : List Text) :
    (firstCalls names).Nodup ∧ ∀ name, name ∈ firstCalls names ↔ name ∈ names := by
  induction names using List.reverseRecOn with
  | nil => exact ⟨List.nodup_nil, fun _ => Iff.rfl⟩
  | append_singleton names name ih =>
      rw [firstCalls_append]
      by_cases member : name ∈ firstCalls names
      · rw [if_pos (List.contains_iff_mem.mpr member)]
        refine ⟨ih.1, fun other => ?_⟩
        rw [ih.2, List.mem_append, List.mem_singleton]
        constructor
        · intro inside
          exact .inl inside
        · intro given
          rcases given with inside | rfl
          · exact inside
          · exact (ih.2 other).mp member
      · rw [if_neg fun inside => member (List.contains_iff_mem.mp inside)]
        constructor
        · have longer := List.Nodup.concat member ih.1
          rw [List.concat_eq_append] at longer
          exact longer
        · intro other
          rw [List.mem_append, List.mem_append, ih.2]

/-! ### The list as the shell sees it -/

theorem FilePath.unblank (name : FilePath) (symbol : Char) (inside : symbol ∈ name.text) :
    isBlank symbol = false := by
  have plain := name.plain symbol inside
  cases blank : isBlank symbol with
  | false => rfl
  | true =>
      unfold isBlank at blank
      rw [Bool.or_eq_true, Bool.or_eq_true, beq_iff_eq, beq_iff_eq, beq_iff_eq] at blank
      rcases blank with (rfl | rfl) | rfl
      · cases plain
      · cases plain
      · cases plain

theorem FilePath.nonempty (name : FilePath) : name.text ≠ [] := by
  intro none
  have first := name.first
  rw [none] at first
  cases first

def written (words : List Text) : Text :=
  words.flatMap fun word => ' ' :: word

def Paths (words : List Text) : Prop :=
  ∀ word, word ∈ words → ∃ path : FilePath, path.text = word

theorem Paths.append {words : List Text} (paths : Paths words) (call : FilePath) :
    Paths (words ++ [call.text]) := by
  intro word member
  rcases List.mem_append.mp member with old | new
  · exact paths word old
  · exact ⟨call, (List.mem_singleton.mp new).symm⟩

theorem wordsOf_written {words : List Text} (paths : Paths words) :
    wordsOf (written words) = words := by
  unfold wordsOf
  induction words with
  | nil => exact fields_nil
  | cons word rest ih =>
      obtain ⟨path, rfl⟩ := paths word List.mem_cons_self
      have later := ih fun word member => paths word (List.mem_cons_of_mem _ member)
      have ends : Ends isBlank (written rest) := by
        intro symbol others same
        cases rest with
        | nil => cases same
        | cons second rest =>
            cases same
            rfl
      have shape : written (path.text :: rest) = ' ' :: (path.text ++ written rest) := rfl
      rw [shape, fields_cons_blank rfl, fields_word_append path.nonempty path.unblank ends, later]

theorem echo_written {words : List Text} (paths : Paths words) :
    echo (written words) = joined ' ' words :=
  congrArg (joined ' ') (wordsOf_written paths)

theorem addFile_written {words : List Text} (paths : Paths words) (name : Text) :
    addFile (written words) name =
      written (if grep name (joined ' ' words) then words else words ++ [name]) := by
  have longer : written (words ++ [name]) = written words ++ ' ' :: name := by
    unfold written
    rw [List.flatMap_append]
    exact congrArg _ (List.append_nil _)
  unfold addFile
  rw [echo_written paths]
  split
  · rfl
  · exact longer.symm

theorem cpioLines_written {words : List Text} (some : words ≠ []) (paths : Paths words) :
    cpioLines (written words) = words := by
  have spaceless : ∀ word, word ∈ words → ' ' ∉ word := by
    intro word member inside
    obtain ⟨path, rfl⟩ := paths word member
    have blank := path.unblank ' ' inside
    cases blank
  unfold cpioLines
  rw [echo_written paths, translate_joined spaceless]
  apply List.splitOn_intercalate _ _ some
  intro word member inside
  obtain ⟨path, rfl⟩ := paths word member
  have blank := path.unblank '\n' inside
  cases blank

/-! ### What grep finds -/

theorem grep_of_mem {words : List Text} (name : FilePath) (member : name.text ∈ words) :
    grep name.text (joined ' ' words) = true := by
  obtain ⟨front, back, split, before, behind⟩ := @joined_of_mem Char ' ' words name.text member
  unfold grep
  rw [split]
  apply found_word _ name.first name.last
  · rcases before with rfl | last
    · rfl
    · rw [last]
      rfl
  · rcases behind with rfl | head
    · rfl
    · rw [head]
      rfl
  · unfold pattern
    rw [List.forall₂_map_left_iff, List.forall₂_same]
    intro symbol _
    split
    · rfl
    · exact beq_self_eq_true symbol

theorem grep_nil (name : FilePath) : grep name.text [] = false := by
  have some := name.nonempty
  unfold grep found foundFrom foundHere pattern
  cases shape : name.text with
  | nil => exact absurd shape some
  | cons symbol rest => rw [List.map_cons, matchesFront, Bool.and_false, Bool.false_and]

theorem grep_append {words : List Text} {name : FilePath}
    (present : grep name.text (joined ' ' words) = true) (word : Text) :
    grep name.text (joined ' ' (words ++ [word])) = true := by
  cases words with
  | nil =>
      have none := grep_nil name
      rw [show joined ' ' [] = ([] : Text) from rfl, none] at present
      cases present
  | cons first rest =>
      rw [joined_append_singleton (List.cons_ne_nil _ _)]
      exact found_append present rfl word

/-! ### Runs -/

def texts (calls : List FilePath) : List Text :=
  calls.map FilePath.text

/-- No name matches the list when it is new. -/
def Distinguished (calls : List FilePath) : Prop :=
  ∀ before call after, calls = before ++ call :: after → call.text ∉ texts before →
    grep call.text (joined ' ' (firstCalls (texts before))) = false

theorem distinguished_append {calls : List FilePath} {call : FilePath}
    (earlier : Distinguished calls)
    (last : call.text ∉ texts calls →
      grep call.text (joined ' ' (firstCalls (texts calls))) = false) :
    Distinguished (calls ++ [call]) := by
  intro before other after split new
  rcases List.eq_nil_or_concat after with rfl | ⟨front, final, rfl⟩
  · obtain ⟨rfl, same⟩ := List.append_inj' split rfl
    cases same
    exact last new
  · rw [List.concat_eq_append, ← List.cons_append, ← List.append_assoc] at split
    obtain ⟨same, _⟩ := List.append_inj' split rfl
    exact earlier before other front same new

theorem distinguished_front {calls : List FilePath} {call : FilePath}
    (whole : Distinguished (calls ++ [call])) : Distinguished calls := by
  intro before other after split new
  apply whole before other (after ++ [call]) _ new
  rw [split, List.append_assoc, List.cons_append]

/-- After every call: the list has the names as they should be, or it lacks one for good. -/
def Progress (calls : List FilePath) (words : List Text) : Prop :=
  (Distinguished calls ∧ words = firstCalls (texts calls)) ∨
    (¬ Distinguished calls ∧ ∃ call, call ∈ calls ∧ call.text ∉ words ∧
      grep call.text (joined ' ' words) = true)

theorem Progress.of_distinguished {calls : List FilePath} (distinguished : Distinguished calls)
    (call : FilePath) :
    Progress (calls ++ [call])
      (if grep call.text (joined ' ' (firstCalls (texts calls))) then firstCalls (texts calls)
        else firstCalls (texts calls) ++ [call.text]) := by
  have spec := (firstCalls_spec (texts calls)).2 call.text
  have next : firstCalls (texts (calls ++ [call])) =
      if (firstCalls (texts calls)).contains call.text then firstCalls (texts calls)
      else firstCalls (texts calls) ++ [call.text] := by
    unfold texts
    rw [List.map_append]
    exact firstCalls_append _ _
  by_cases old : call.text ∈ texts calls
  · left
    rw [next, if_pos (List.contains_iff_mem.mpr (spec.mpr old)),
      if_pos (grep_of_mem call (spec.mpr old))]
    exact ⟨distinguished_append distinguished fun new => absurd old new, rfl⟩
  · have fresh : call.text ∉ firstCalls (texts calls) := fun member => old (spec.mp member)
    cases matched : grep call.text (joined ' ' (firstCalls (texts calls))) with
    | false =>
        left
        rw [next, if_neg fun inside => fresh (List.contains_iff_mem.mp inside)]
        exact ⟨distinguished_append distinguished fun _ => matched, rfl⟩
    | true =>
        right
        refine ⟨?_, call, List.mem_append_right _ List.mem_cons_self, fresh, matched⟩
        intro whole
        have unmatched := whole calls call [] rfl old
        rw [matched] at unmatched
        cases unmatched

theorem Progress.append {calls : List FilePath} {words : List Text}
    (progress : Progress calls words) (call : FilePath) :
    Progress (calls ++ [call])
      (if grep call.text (joined ' ' words) then words else words ++ [call.text]) := by
  rcases progress with ⟨distinguished, rfl⟩ | ⟨violated, lost, member, missing, matched⟩
  · exact Progress.of_distinguished distinguished call
  · -- a name that has been found without being there is not added any more
    right
    refine ⟨fun whole => violated (distinguished_front whole), lost,
      List.mem_append_left _ member, ?_⟩
    split
    · exact ⟨missing, matched⟩
    · rename_i unmatched
      refine ⟨?_, grep_append matched call.text⟩
      rw [List.mem_append, List.mem_singleton, not_or]
      refine ⟨missing, ?_⟩
      intro same
      rw [same] at matched
      exact unmatched matched

theorem initramfsFiles_words (calls : List FilePath) :
    ∃ words, initramfsFiles calls = written words ∧ Paths words ∧ Progress calls words := by
  induction calls using List.reverseRecOn with
  | nil =>
      refine ⟨[], rfl, fun _ member => absurd member List.not_mem_nil, .inl ⟨?_, rfl⟩⟩
      intro before call after impossible
      exact absurd impossible.symm (List.append_ne_nil_of_right_ne_nil _ (List.cons_ne_nil _ _))
  | append_singleton calls call ih =>
      obtain ⟨words, same, paths, progress⟩ := ih
      refine ⟨_, ?_, ?_, progress.append call⟩
      · unfold initramfsFiles
        rw [List.foldl_append]
        exact (congrArg (addFile · call.text) same).trans (addFile_written paths call.text)
      · split
        · exact paths
        · exact paths.append call

/-- Every edited file is listed once exactly when no new name matches the names before. -/
theorem lists_each_iff (calls : List FilePath) :
    ListsEach calls (initramfsFiles calls) ↔ Distinguished calls := by
  obtain ⟨words, same, paths, state⟩ := initramfsFiles_words calls
  rw [same]
  rcases state with ⟨distinguished, rfl⟩ | ⟨violated, lost, member, missing, _⟩
  · refine iff_of_true ?_ distinguished
    obtain ⟨once, listed⟩ := firstCalls_spec (texts calls)
    constructor
    case once =>
      rw [wordsOf_written paths]
      exact once
    case listed =>
      intro word
      rw [wordsOf_written paths, listed]
      exact List.mem_map
  · refine iff_of_false ?_ violated
    intro given
    have listed := (given.listed lost.text).mpr ⟨lost, member, rfl⟩
    rw [wordsOf_written paths] at listed
    exact missing listed

def initRc : FilePath :=
  ⟨"init.rc".toList, List.all_eq_true.mp rfl, by decide, by decide⟩

def init : FilePath :=
  ⟨"init".toList, List.all_eq_true.mp rfl, by decide, by decide⟩

/-- The program is taken for listed because its script is. -/
theorem init_left_out :
    wordsOf (initramfsFiles [initRc, init]) = ["init.rc".toList] ∧
      ¬ ListsEach [initRc, init] (initramfsFiles [initRc, init]) := by
  have words : wordsOf (initramfsFiles [initRc, init]) = ["init.rc".toList] := by
    decide +kernel
  refine ⟨words, fun given => ?_⟩
  have listed := (given.listed init.text).mpr ⟨init, by simp, rfl⟩
  rw [words] at listed
  exact absurd listed (by decide)

end SuperBootimg.Concrete.Initramfs
