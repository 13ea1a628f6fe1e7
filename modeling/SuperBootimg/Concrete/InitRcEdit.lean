/-
How changes.sh edits init.rc, and what init reads in the file. Lines are put behind those
that match a pattern, and a service is written behind the last line whether or not a line
break ends it.
-/

import SuperBootimg.RegularSearch
import SuperBootimg.HeadedSections
import SuperBootimg.Concrete.InitramfsFiles

namespace SuperBootimg.Concrete.InitRc

open FieldSplitting RegularSearch HeadedSections
open Sepolicy (Text)
open Initramfs (isWordSymbol)

/-! ### The edit -/

/-- `sed '/address/a text'` on the pieces between line breaks. The last one is a line only if
it is not empty, and is ended before the text. -/
def appendedTo (address : Pattern Char) (added : Text) : List Text → List Text
  | [] => []
  | [last] =>
      if last ≠ [] ∧ occurs isWordSymbol address none last = true then [last, added, []]
      else [last]
  | line :: rest =>
      line :: ((if occurs isWordSymbol address none line then [added] else []) ++
        appendedTo address added rest)

def appendBehind (address : Pattern Char) (added text : Text) : Text :=
  joined '\n' (appendedTo address added (text.splitOn '\n'))

structure Options where
  keeprecovery : Bool
  hidesu : Bool
  /-- `UNSUPPORTED_SELINUX` is not empty. -/
  unsupportedSelinux : Bool

/-- `^service flash_recovery` -/
def recoveryAddress : Pattern Char :=
  .seq .start (.literal "service flash_recovery".toList)

def initAddress : Pattern Char :=
  .literal "on init".toList

def disabledLine : Text :=
  "    disabled".toList

def chmodLine (hidesu : Bool) : Text :=
  if hidesu then "    chmod 0750 /sbin".toList else "    chmod 0755 /sbin".toList

def suService (unsupportedSelinux : Bool) : Text :=
  "service su /sbin/su --daemon\n\tclass main\n".toList ++
    (if unsupportedSelinux then "\tseclabel u:r:kernel:s0\n".toList
      else "\tseclabel u:r:su_daemon:s0\n".toList) ++ "\n\n".toList

def hidesuService : Text :=
  "service hidesu /sbin/hidesu\n\tclass main\n\tseclabel u:r:su:s0\n\n\n".toList

def edited (options : Options) (text : Text) : Text :=
  let recovery :=
    if options.keeprecovery then text else appendBehind recoveryAddress disabledLine text
  let opened := appendBehind initAddress (chmodLine options.hidesu) recovery
  opened ++ suService options.unsupportedSelinux ++
    if options.hidesu then hidesuService else []

/-! ### What is read -/

def isRcBlank (symbol : Char) : Bool :=
  symbol == ' ' || symbol == '\t' || symbol == '\r'

/-- The words of a line up to a comment. -/
def words (line : Text) : List Text :=
  (fields isRcBlank line).takeWhile fun word => word.head? != some '#'

def statementOf (line : Text) : Option (List Text) :=
  if words line = [] then none else some (words line)

def opensSection (statement : List Text) : Bool :=
  statement.head?.any fun word =>
    ["on".toList, "service".toList, "import".toList].contains word

def linesOf (text : Text) : List Text :=
  text.splitOn '\n'

def parse (text : Text) : Outline (List Text) :=
  outline opensSection ((linesOf text).filterMap statementOf)

/-! ### What is intended -/

/-- keeprecovery and hidesu are off, and SELinux is supported. -/
def defaultOptions : Options :=
  { keeprecovery := false
    hidesu := false
    unsupportedSelinux := false }

def initHeader : List Text :=
  ["on".toList, "init".toList]

def chmodCommand : List Text :=
  ["chmod".toList, "0755".toList, "/sbin".toList]

def disabledOption : List Text :=
  ["disabled".toList]

def recoveryHeader : List Text :=
  ["service".toList, "flash_recovery".toList]

def suBlock : Block (List Text) :=
  { header := ["service".toList, "su".toList, "/sbin/su".toList, "--daemon".toList]
    body := [["class".toList, "main".toList],
      ["seclabel".toList, "u:r:su_daemon:s0".toList]] }

def amended (block : Block (List Text)) : Block (List Text) :=
  if block.header = initHeader then { block with body := chmodCommand :: block.body }
  else if block.header.take 2 = recoveryHeader then
    { block with body := disabledOption :: block.body }
  else block

def intended (script : Outline (List Text)) : Outline (List Text) :=
  { script with blocks := script.blocks.map amended ++ [suBlock] }

/-! ### Lines of the edited file -/

def namesInit (line : Text) : Bool :=
  occurs isWordSymbol initAddress none line

def startsRecovery (line : Text) : Bool :=
  occurs isWordSymbol recoveryAddress none line

/-- What the two substitutions put behind a line. -/
def inserted (line : Text) : List Text :=
  (if namesInit line then [chmodLine false] else []) ++
    if startsRecovery line then [disabledLine] else []

def withInserted (line : Text) : List Text :=
  line :: inserted line

def suLine : Text :=
  "service su /sbin/su --daemon".toList

def suRest : List Text :=
  ["\tclass main".toList, "\tseclabel u:r:su_daemon:s0".toList, [], [], []]

theorem namesInit_iff (line : Text) : namesInit line = true ↔ "on init".toList <:+: line :=
  occurs_literal

theorem startsRecovery_iff (line : Text) :
    startsRecovery line = true ↔ "service flash_recovery".toList <+: line :=
  occurs_start

def put (address : Pattern Char) (added line : Text) : List Text :=
  line :: if occurs isWordSymbol address none line then [added] else []

/-- The last line gets a line break if something is put behind it. -/
theorem appendedTo_concat {address : Pattern Char} (added : Text)
    (some : occurs isWordSymbol address none [] = false) (init : List Text) (last : Text) :
    appendedTo address added (init ++ [last]) =
      if occurs isWordSymbol address none last then
        (init ++ [last]).flatMap (put address added) ++ [[]]
      else init.flatMap (put address added) ++ [last] := by
  induction init with
  | nil =>
      rw [List.nil_append, appendedTo, List.flatMap_singleton, put]
      cases found : occurs isWordSymbol address none last with
      | true =>
          have nonempty : last ≠ [] := by
            intro none
            rw [none, some] at found
            cases found
          rw [if_pos ⟨nonempty, rfl⟩]
          rfl
      | false => rw [if_neg fun given => Bool.false_ne_true given.2]; rfl
  | cons line init ih =>
      have next : appendedTo address added (line :: (init ++ [last])) =
          put address added line ++ appendedTo address added (init ++ [last]) := by
        cases init with
        | nil => rfl
        | cons second others => rfl
      rw [List.cons_append, next, ih, List.flatMap_cons, List.flatMap_cons]
      split
      · rw [List.append_assoc]
      · rw [List.append_assoc]

theorem put_put (line : Text) :
    (put recoveryAddress disabledLine line).flatMap (put initAddress (chmodLine false)) =
      withInserted line := by
  have other : put initAddress (chmodLine false) disabledLine = [disabledLine] := by
    decide +kernel
  unfold withInserted inserted namesInit startsRecovery
  rw [put, List.flatMap_cons, put, List.cons_append]
  cases occurs isWordSymbol recoveryAddress none line with
  | true => rw [if_pos rfl, List.flatMap_singleton, other]
  | false => rfl

def openedPieces (init : List Text) (last : Text) : List Text :=
  if startsRecovery last || namesInit last then (init ++ [last]).flatMap withInserted ++ [[]]
  else init.flatMap withInserted ++ [last]

theorem appendedTo_appendedTo (init : List Text) (last : Text) :
    appendedTo initAddress (chmodLine false)
        (appendedTo recoveryAddress disabledLine (init ++ [last])) =
      openedPieces init last := by
  have both : ∀ lines : List Text,
      (lines.flatMap (put recoveryAddress disabledLine)).flatMap
          (put initAddress (chmodLine false)) = lines.flatMap withInserted := by
    intro lines
    rw [List.flatMap_assoc]
    exact List.flatMap_congr fun line _ => put_put line
  have noInit : occurs isWordSymbol initAddress none [] = false := by decide +kernel
  have noRecovery : occurs isWordSymbol recoveryAddress none [] = false := by decide +kernel
  unfold openedPieces
  rw [appendedTo_concat _ noRecovery]
  cases recovery : startsRecovery last with
  | true =>
      unfold startsRecovery at recovery
      rw [if_pos recovery, appendedTo_concat _ noInit, noInit, if_neg Bool.false_ne_true, both,
        Bool.true_or, if_pos rfl]
  | false =>
      have kept : put recoveryAddress disabledLine last = [last] := by
        unfold startsRecovery at recovery
        rw [put, recovery]
        rfl
      have whole : init.flatMap (put recoveryAddress disabledLine) ++ [last] =
          (init ++ [last]).flatMap (put recoveryAddress disabledLine) := by
        rw [List.flatMap_append, List.flatMap_singleton, kept]
      unfold startsRecovery at recovery
      rw [recovery, if_neg Bool.false_ne_true, appendedTo_concat _ noInit, whole, both, both,
        Bool.false_or]
      rfl

theorem mem_appendedTo {address : Pattern Char} {added : Text} {pieces : List Text} {piece : Text}
    (member : piece ∈ appendedTo address added pieces) :
    piece ∈ pieces ∨ piece = added ∨ piece = [] := by
  fun_induction appendedTo address added pieces with
  | case1 => exact .inl member
  | case2 last matched =>
      rcases List.mem_cons.mp member with rfl | later
      · exact .inl List.mem_cons_self
      · rcases List.mem_cons.mp later with rfl | empty
        · exact .inr (.inl rfl)
        · exact .inr (.inr (List.mem_singleton.mp empty))
  | case3 last other => exact .inl member
  | case4 line rest more ih =>
      rcases List.mem_cons.mp member with rfl | later
      · exact .inl List.mem_cons_self
      · rcases List.mem_append.mp later with here | behind
        · split at here
          · exact .inr (.inl (List.mem_singleton.mp here))
          · exact absurd here List.not_mem_nil
        · rcases ih behind with inside | other
          · exact .inl (List.mem_cons_of_mem _ inside)
          · exact .inr other

theorem appendedTo_ne_nil {address : Pattern Char} {added : Text} {pieces : List Text}
    (some : pieces ≠ []) : appendedTo address added pieces ≠ [] := by
  fun_cases appendedTo address added pieces with
  | case1 => exact absurd rfl some
  | case2 => exact List.cons_ne_nil _ _
  | case3 => exact List.cons_ne_nil _ _
  | case4 => exact List.cons_ne_nil _ _

theorem linesOf_joined {pieces : List Text} (some : pieces ≠ [])
    (inLines : ∀ piece, piece ∈ pieces → '\n' ∉ piece) :
    linesOf (joined '\n' pieces) = pieces :=
  List.splitOn_intercalate '\n' inLines some

theorem joined_linesOf (text : Text) : joined '\n' (linesOf text) = text :=
  List.intercalate_splitOn '\n'

theorem linesOf_appendBehind (address : Pattern Char) {added : Text} (plain : '\n' ∉ added)
    (text : Text) :
    linesOf (appendBehind address added text) = appendedTo address added (linesOf text) := by
  apply linesOf_joined (appendedTo_ne_nil (List.splitOn_ne_nil '\n' text))
  intro piece member
  rcases mem_appendedTo member with inside | rfl | rfl
  · exact not_mem_splitOn inside
  · exact plain
  · exact List.not_mem_nil

/-- What is written behind a text goes on where its last line ends. -/
theorem linesOf_append_joined {text : Text} {before : List Text} {final first : Text}
    {rest : List Text} (split : linesOf text = before ++ [final])
    (inLines : ∀ piece, piece ∈ first :: rest → '\n' ∉ piece) :
    linesOf (text ++ joined '\n' (first :: rest)) = before ++ (final ++ first) :: rest := by
  have pieces : ∀ piece, piece ∈ before ++ [final] → '\n' ∉ piece := by
    intro piece member
    rw [← split] at member
    exact not_mem_splitOn member
  rw [← joined_linesOf text, split, joined_append_joined]
  apply linesOf_joined (List.append_ne_nil_of_right_ne_nil _ (List.cons_ne_nil _ _))
  intro piece member
  rcases List.mem_append.mp member with early | late
  · exact pieces piece (List.mem_append_left _ early)
  · rcases List.mem_cons.mp late with rfl | later
    · rw [List.mem_append, not_or]
      exact ⟨pieces final (List.mem_append_right _ List.mem_cons_self),
        inLines first List.mem_cons_self⟩
    · exact inLines piece (List.mem_cons_of_mem _ later)

theorem suService_eq : suService false = joined '\n' (suLine :: suRest) := by
  decide +kernel

theorem openedPieces_concat (init : List Text) (last : Text) :
    ∃ before final, openedPieces init last = before ++ [final] ∧
      before ++ (final ++ suLine) :: suRest =
        if startsRecovery last || namesInit last then
          (init ++ [last]).flatMap withInserted ++ suLine :: suRest
        else init.flatMap withInserted ++ (last ++ suLine) :: suRest := by
  unfold openedPieces
  split
  · exact ⟨_, [], rfl, rfl⟩
  · exact ⟨_, last, rfl, rfl⟩

/-- The lines of the edited file. -/
theorem linesOf_edited {text : Text} {init : List Text} {last : Text}
    (split : linesOf text = init ++ [last]) :
    linesOf (edited defaultOptions text) =
      if startsRecovery last || namesInit last then
        (init ++ [last]).flatMap withInserted ++ suLine :: suRest
      else init.flatMap withInserted ++ (last ++ suLine) :: suRest := by
  have opened : linesOf (appendBehind initAddress (chmodLine false)
      (appendBehind recoveryAddress disabledLine text)) = openedPieces init last := by
    rw [linesOf_appendBehind _ (by decide), linesOf_appendBehind _ (by decide), split,
      appendedTo_appendedTo]
  have service : ∀ piece, piece ∈ suLine :: suRest → '\n' ∉ piece := by
    intro piece member
    have plain : (suLine :: suRest).all (fun line => !line.contains '\n') = true := by decide
    have other := all_false plain piece member
    rw [← Bool.not_eq_true, List.contains_iff_mem] at other
    exact other
  obtain ⟨before, final, shape, result⟩ := openedPieces_concat init last
  rw [shape] at opened
  change linesOf (appendBehind initAddress (chmodLine false)
    (appendBehind recoveryAddress disabledLine text) ++ suService false ++ []) = _
  rw [List.append_nil, suService_eq, linesOf_append_joined opened service, result]

end SuperBootimg.Concrete.InitRc
