/-
Regular expressions on one line as `grep` and `sed` use them. Of the matches that begin
first the longest is taken, and a group takes as much of it as it can.
-/

import SuperBootimg.FieldSplitting
import SuperBootimg.WordPattern

namespace SuperBootimg.RegularSearch

open WordPattern
open FieldSplitting (prefix_append_blank prefix_append_separator infix_append_plain)

variable {α : Type} [DecidableEq α]

inductive Pattern (α : Type)
  | literal (expected : List α)
  /-- `^` -/
  | start
  /-- `\b` -/
  | boundary
  | optional (body : Pattern α)
  /-- A set of symbols and `*`. -/
  | many (accepts : α → Bool)
  | seq (first second : Pattern α)

/-- The symbol before what follows a number of symbols. -/
def behind (before : Option α) (text : List α) (length : Nat) : Option α :=
  (text.take length).getLast?.or before

section Search

variable (word : α → Bool)

/-- The lengths of all matches that begin where the text does. -/
def lengths : Pattern α → Option α → List α → List Nat
  | .literal expected, _, text => if expected <+: text then [expected.length] else []
  | .start, before, _ => if before.isNone then [0] else []
  | .boundary, before, text => if edge word before text.head? then [0] else []
  | .optional body, before, text => 0 :: lengths body before text
  | .many accepts, _, text => List.range ((text.takeWhile accepts).length + 1)
  | .seq first second, before, text =>
      (lengths first before text).flatMap fun length =>
        (lengths second (behind before text length) (text.drop length)).map (length + ·)

def longest (pattern : Pattern α) (before : Option α) (text : List α) : Option Nat :=
  (lengths word pattern before text).max?

def occurs (pattern : Pattern α) : Option α → List α → Bool
  | before, [] => !(lengths word pattern before []).isEmpty
  | before, symbol :: rest =>
      !(lengths word pattern before (symbol :: rest)).isEmpty || occurs pattern (some symbol) rest

/-- `grep -o`: the matches that are not empty, one behind the other. -/
def matched (pattern : Pattern α) : Nat → Option α → List α → List (List α)
  | _, _, [] => []
  | skip + 1, _, symbol :: rest => matched pattern skip (some symbol) rest
  | 0, before, symbol :: rest =>
      match longest word pattern before (symbol :: rest) with
      | some (length + 1) =>
          (symbol :: rest).take (length + 1) :: matched pattern length (some symbol) rest
      | _ => matched pattern 0 (some symbol) rest

end Search

structure Rule (α : Type) where
  group : Pattern α
  rest : Pattern α
  text : List α

def Rule.plain (pattern : Pattern α) (text : List α) : Rule α :=
  { group := .literal []
    rest := pattern
    text := text }

section Substitution

variable (word : α → Bool) (rule : Rule α)

/-- Length of the group and of the whole match, for a match that begins where the text does. -/
def Rule.found (before : Option α) (text : List α) : Option (Nat × Nat) := do
  let whole ← longest word (.seq rule.group rule.rest) before text
  let groups := (lengths word rule.group before text).filter fun group =>
    (lengths word rule.rest (behind before text group) (text.drop group)).contains (whole - group)
  let group ← groups.max?
  return (group, whole)

/-- `sed`, for rules whose matches are not empty. -/
def substituteFrom : Nat → Option α → List α → List α
  | _, _, [] => []
  | skip + 1, _, symbol :: rest => substituteFrom skip (some symbol) rest
  | 0, before, symbol :: rest =>
      match rule.found word before (symbol :: rest) with
      | some (group, length + 1) =>
          (symbol :: rest).take group ++ rule.text ++ substituteFrom length (some symbol) rest
      | _ => symbol :: substituteFrom 0 (some symbol) rest

def substitute (line : List α) : List α :=
  substituteFrom word rule 0 none line

end Substitution

variable {word : α → Bool}

/-! ### Matches at one place -/

theorem mem_literal {expected text : List α} {before : Option α} {length : Nat} :
    length ∈ lengths word (.literal expected) before text ↔
      expected <+: text ∧ length = expected.length := by
  rw [lengths]
  split
  · rename_i front
    rw [List.mem_singleton]
    exact (and_iff_right front).symm
  · rename_i other
    exact iff_of_false List.not_mem_nil fun given => other given.1

theorem mem_start {text : List α} {before : Option α} {length : Nat} :
    length ∈ lengths word .start before text ↔ before = none ∧ length = 0 := by
  rw [lengths, ← Option.isNone_iff_eq_none]
  split
  · rename_i first
    rw [List.mem_singleton]
    exact (and_iff_right first).symm
  · rename_i other
    exact iff_of_false List.not_mem_nil fun given => other given.1

theorem mem_boundary {text : List α} {before : Option α} {length : Nat} :
    length ∈ lengths word .boundary before text ↔
      edge word before text.head? = true ∧ length = 0 := by
  rw [lengths]
  split
  · rename_i here
    rw [List.mem_singleton]
    exact (and_iff_right here).symm
  · rename_i other
    exact iff_of_false List.not_mem_nil fun given => other given.1

theorem mem_optional {body : Pattern α} {text : List α} {before : Option α} {length : Nat} :
    length ∈ lengths word (.optional body) before text ↔
      length = 0 ∨ length ∈ lengths word body before text := by
  rw [lengths, List.mem_cons]

theorem mem_many {accepts : α → Bool} {text : List α} {before : Option α} {length : Nat} :
    length ∈ lengths word (.many accepts) before text ↔
      length ≤ (text.takeWhile accepts).length := by
  rw [lengths, List.mem_range, Nat.lt_succ_iff]

theorem mem_seq {first second : Pattern α} {text : List α} {before : Option α} {length : Nat} :
    length ∈ lengths word (.seq first second) before text ↔
      ∃ left right, left ∈ lengths word first before text ∧
        right ∈ lengths word second (behind before text left) (text.drop left) ∧
        length = left + right := by
  rw [lengths, List.mem_flatMap]
  constructor
  · intro given
    obtain ⟨left, member, inside⟩ := given
    obtain ⟨right, rightMember, same⟩ := List.mem_map.mp inside
    exact ⟨left, right, member, rightMember, same.symm⟩
  · intro given
    obtain ⟨left, right, member, rightMember, same⟩ := given
    exact ⟨left, member, List.mem_map.mpr ⟨right, rightMember, same.symm⟩⟩

/-- No match is longer than the text. -/
theorem length_le {pattern : Pattern α} {text : List α} {before : Option α} {length : Nat}
    (member : length ∈ lengths word pattern before text) : length ≤ text.length := by
  induction pattern generalizing before text length with
  | literal expected =>
      obtain ⟨front, rfl⟩ := mem_literal.mp member
      exact front.length_le
  | start =>
      rw [(mem_start.mp member).2]
      exact Nat.zero_le _
  | boundary =>
      rw [(mem_boundary.mp member).2]
      exact Nat.zero_le _
  | optional body ih =>
      rcases mem_optional.mp member with rfl | inside
      · exact Nat.zero_le _
      · exact ih inside
  | many accepts => exact Nat.le_trans (mem_many.mp member) (List.takeWhile_sublist _).length_le
  | seq first second ihFirst ihSecond =>
      obtain ⟨left, right, leftMember, rightMember, rfl⟩ := mem_seq.mp member
      have leftLe := ihFirst leftMember
      have rightLe := ihSecond rightMember
      rw [List.length_drop] at rightLe
      omega

theorem longest_eq_some_iff {pattern : Pattern α} {text : List α} {before : Option α}
    {length : Nat} :
    longest word pattern before text = some length ↔
      length ∈ lengths word pattern before text ∧
        ∀ other, other ∈ lengths word pattern before text → other ≤ length :=
  List.max?_eq_some_iff

theorem longest_eq_none_iff {pattern : Pattern α} {text : List α} {before : Option α} :
    longest word pattern before text = none ↔
      ∀ length, length ∉ lengths word pattern before text := by
  unfold longest
  rw [List.max?_eq_none_iff, List.eq_nil_iff_forall_not_mem]

omit [DecidableEq α] in
theorem behind_zero (before : Option α) (text : List α) : behind before text 0 = before :=
  Option.none_or

omit [DecidableEq α] in
theorem behind_cons (before : Option α) (symbol : α) (rest : List α) (length : Nat) :
    behind before (symbol :: rest) (length + 1) = behind (some symbol) rest length := by
  unfold behind
  rw [List.take_succ_cons, List.getLast?_cons]
  cases (rest.take length).getLast? <;> rfl

omit [DecidableEq α] in
theorem behind_append (before : Option α) (expected rest : List α) :
    behind before (expected ++ rest) expected.length = expected.getLast?.or before := by
  unfold behind
  rw [List.take_left]

/-- `\b` on both sides of a text. -/
theorem mem_bounded {before : Option α} {body text : List α} {length : Nat} :
    length ∈ lengths word (.seq .boundary (.seq (.literal body) .boundary)) before text ↔
      ∃ rest, text = body ++ rest ∧ edge word before text.head? = true ∧
        edge word (body.getLast?.or before) rest.head? = true ∧ length = body.length := by
  constructor
  · intro member
    obtain ⟨left, right, opening, inner, rfl⟩ := mem_seq.mp member
    obtain ⟨edgeBefore, rfl⟩ := mem_boundary.mp opening
    rw [behind_zero, List.drop_zero] at inner
    obtain ⟨left, right, found, closing, rfl⟩ := mem_seq.mp inner
    obtain ⟨⟨rest, rfl⟩, rfl⟩ := mem_literal.mp found
    obtain ⟨edgeBehind, rfl⟩ := mem_boundary.mp closing
    rw [behind_append, List.drop_left] at edgeBehind
    exact ⟨rest, rfl, edgeBefore, edgeBehind, Nat.zero_add _⟩
  · intro given
    obtain ⟨rest, rfl, edgeBefore, edgeBehind, rfl⟩ := given
    refine mem_seq.mpr ⟨0, body.length, mem_boundary.mpr ⟨edgeBefore, rfl⟩, ?_,
      (Nat.zero_add _).symm⟩
    rw [behind_zero, List.drop_zero]
    refine mem_seq.mpr ⟨body.length, 0, mem_literal.mpr ⟨List.prefix_append _ _, rfl⟩, ?_, rfl⟩
    rw [behind_append, List.drop_left]
    exact mem_boundary.mpr ⟨edgeBehind, rfl⟩

/-! ### Places of a line -/

theorem occurs_iff {pattern : Pattern α} {before : Option α} {text : List α} :
    occurs word pattern before text = true ↔
      ∃ front back length, text = front ++ back ∧
        length ∈ lengths word pattern (front.getLast?.or before) back := by
  have here : ∀ {before : Option α} {text : List α},
      (!(lengths word pattern before text).isEmpty) = true ↔
        ∃ length, length ∈ lengths word pattern before text := by
    intro before text
    rw [Bool.not_eq_true', List.isEmpty_eq_false_iff_exists_mem]
  induction text generalizing before with
  | nil =>
      rw [occurs, here]
      constructor
      · intro given
        obtain ⟨length, member⟩ := given
        exact ⟨[], [], length, rfl, member⟩
      · intro given
        obtain ⟨front, back, length, split, member⟩ := given
        obtain ⟨rfl, rfl⟩ := List.append_eq_nil_iff.mp split.symm
        exact ⟨length, member⟩
  | cons symbol rest ih =>
      have last : ∀ front : List α,
          (symbol :: front).getLast?.or before = front.getLast?.or (some symbol) := by
        intro front
        rw [List.getLast?_cons]
        cases front.getLast? <;> rfl
      rw [occurs, Bool.or_eq_true]
      refine (or_congr here ih).trans ?_
      constructor
      · intro given
        rcases given with ⟨length, member⟩ | ⟨front, back, length, rfl, member⟩
        · exact ⟨[], symbol :: rest, length, rfl, member⟩
        · refine ⟨symbol :: front, back, length, rfl, ?_⟩
          rw [last]
          exact member
      · intro given
        obtain ⟨front, back, length, split, member⟩ := given
        cases front with
        | nil =>
            rw [List.nil_append] at split
            rw [← split] at member
            exact .inl ⟨length, member⟩
        | cons first others =>
            obtain ⟨same, tail⟩ := List.cons.inj split
            subst same
            rw [last] at member
            exact .inr ⟨others, back, length, tail, member⟩

theorem occurs_literal {expected : List α} {before : Option α} {text : List α} :
    occurs word (.literal expected) before text = true ↔ expected <:+: text := by
  rw [occurs_iff]
  constructor
  · intro given
    obtain ⟨front, back, length, rfl, member⟩ := given
    obtain ⟨rest, rfl⟩ := (mem_literal.mp member).1
    exact ⟨front, rest, List.append_assoc _ _ _⟩
  · intro given
    obtain ⟨front, rest, rfl⟩ := given
    exact ⟨front, expected ++ rest, _, List.append_assoc _ _ _,
      mem_literal.mpr ⟨List.prefix_append _ _, rfl⟩⟩

theorem occurs_start {expected text : List α} :
    occurs word (.seq .start (.literal expected)) none text = true ↔ expected <+: text := by
  rw [occurs_iff]
  constructor
  · intro given
    obtain ⟨front, back, length, rfl, member⟩ := given
    obtain ⟨left, right, leftMember, rightMember, _⟩ := mem_seq.mp member
    obtain ⟨first, rfl⟩ := mem_start.mp leftMember
    rw [Option.or_none, List.getLast?_eq_none_iff] at first
    rw [first]
    exact (mem_literal.mp rightMember).1
  · intro front
    refine ⟨[], text, expected.length, rfl, mem_seq.mpr ⟨0, expected.length, ?_, ?_, ?_⟩⟩
    · exact mem_start.mpr ⟨rfl, rfl⟩
    · exact mem_literal.mpr ⟨front, rfl⟩
    · exact (Nat.zero_add _).symm

/-- Where no match is empty, `grep -o` finds something if `grep` does. -/
theorem matched_eq_nil_iff {pattern : Pattern α}
    (solid : ∀ before text, 0 ∉ lengths word pattern before text) {before : Option α}
    {text : List α} :
    matched word pattern 0 before text = [] ↔ occurs word pattern before text = false := by
  induction text generalizing before with
  | nil =>
      refine iff_of_true rfl ?_
      rw [occurs, Bool.not_eq_false', List.isEmpty_iff, List.eq_nil_iff_forall_not_mem]
      intro length member
      have same := Nat.le_zero.mp (length_le member)
      rw [same] at member
      exact solid before [] member
  | cons symbol rest ih =>
      rw [matched, occurs, Bool.or_eq_false_iff]
      cases found : longest word pattern before (symbol :: rest) with
      | none =>
          have empty : lengths word pattern before (symbol :: rest) = [] :=
            List.max?_eq_none_iff.mp found
          simp only [empty, List.isEmpty_nil, Bool.not_true, true_and]
          exact ih
      | some length =>
          have member := (longest_eq_some_iff.mp found).1
          cases length with
          | zero => exact absurd member (solid _ _)
          | succ length =>
              refine iff_of_false (List.cons_ne_nil _ _) ?_
              intro given
              rw [Bool.not_eq_false', List.isEmpty_iff] at given
              rw [given.1] at member
              exact List.not_mem_nil member

/-! ### Substitutions -/

theorem found_eq_some {rule : Rule α} {text : List α} {before : Option α} {group whole : Nat}
    (matches_ : longest word (.seq rule.group rule.rest) before text = some whole)
    (member : group ∈ lengths word rule.group before text)
    (rest : whole - group ∈ lengths word rule.rest (behind before text group) (text.drop group))
    (most : ∀ other, other ∈ lengths word rule.group before text →
      whole - other ∈ lengths word rule.rest (behind before text other) (text.drop other) →
        other ≤ group) :
    rule.found word before text = some (group, whole) := by
  unfold Rule.found
  rw [matches_]
  have chosen : ((lengths word rule.group before text).filter fun group =>
      (lengths word rule.rest (behind before text group) (text.drop group)).contains
        (whole - group)).max? = some group := by
    apply List.max?_eq_some_iff.mpr
    simp only [List.mem_filter, List.contains_iff_mem]
    exact ⟨⟨member, rest⟩, fun other given => most other given.1 given.2⟩
  simp only [Option.bind_eq_bind, Option.bind_some, chosen]
  rfl

theorem found_eq_none {rule : Rule α} {text : List α} {before : Option α}
    (none : longest word (.seq rule.group rule.rest) before text = none) :
    rule.found word before text = Option.none := by
  unfold Rule.found
  rw [none]
  rfl

theorem found_plain {pattern : Pattern α} {replacement text : List α} {before : Option α} :
    (Rule.plain pattern replacement).found word before text =
      (longest word pattern before text).map fun whole => (0, whole) := by
  have single : lengths word (.literal []) before text = [0] := by
    rw [lengths, if_pos List.nil_prefix]
    rfl
  have same : longest word (.seq (.literal []) pattern) before text =
      longest word pattern before text := by
    unfold longest
    rw [lengths, single, List.flatMap_singleton, behind_zero, List.drop_zero]
    congr 1
    rw [List.map_congr_left fun length _ => Nat.zero_add length, List.map_id']
  cases found : longest word pattern before text with
  | none => exact found_eq_none (same.trans found)
  | some whole =>
      have whole' : longest word (.seq (Rule.plain pattern replacement).group
          (Rule.plain pattern replacement).rest) before text = some whole := same.trans found
      apply found_eq_some whole'
      · exact mem_literal.mpr ⟨List.nil_prefix, rfl⟩
      · rw [behind_zero, List.drop_zero, Nat.sub_zero]
        exact (longest_eq_some_iff.mp found).1
      · intro other member _
        exact Nat.le_of_eq (mem_literal.mp member).2

theorem substituteFrom_skip (rule : Rule α) (skip : Nat) (before : Option α) (text : List α) :
    substituteFrom word rule skip before text =
      substituteFrom word rule 0 (behind before text skip) (text.drop skip) := by
  induction skip generalizing before text with
  | zero => rw [behind_zero, List.drop_zero]
  | succ skip ih =>
      cases text with
      | nil => rfl
      | cons symbol rest => rw [substituteFrom, ih, behind_cons, List.drop_succ_cons]

theorem substitute_found {rule : Rule α} {text : List α} {before : Option α} {group whole : Nat}
    (found : rule.found word before text = some (group, whole)) (positive : 0 < whole)
    (nonempty : text ≠ []) :
    substituteFrom word rule 0 before text = text.take group ++ rule.text ++
      substituteFrom word rule 0 (behind before text whole) (text.drop whole) := by
  cases text with
  | nil => exact absurd rfl nonempty
  | cons symbol rest =>
      obtain ⟨length, rfl⟩ := Nat.exists_eq_succ_of_ne_zero (Nat.ne_of_gt positive)
      rw [substituteFrom, found]
      simp only
      rw [substituteFrom_skip, Nat.succ_eq_add_one, behind_cons, List.drop_succ_cons]

theorem substitute_missed {rule : Rule α} {symbol : α} {rest : List α} {before : Option α}
    (missed : ∀ group whole, rule.found word before (symbol :: rest) = some (group, whole) →
      whole = 0) :
    substituteFrom word rule 0 before (symbol :: rest) =
      symbol :: substituteFrom word rule 0 (some symbol) rest := by
  rw [substituteFrom]
  split
  · rename_i group length found
    exact absurd (missed group (length + 1) found) (Nat.succ_ne_zero _)
  · rfl

/-- What does not match stays as it is. -/
theorem substitute_kept {rule : Rule α} {before : Option α} {text : List α}
    (absent : ¬ occurs word (.seq rule.group rule.rest) before text = true) :
    substituteFrom word rule 0 before text = text := by
  induction text generalizing before with
  | nil => rfl
  | cons symbol rest ih =>
      rw [occurs, Bool.or_eq_true, not_or, Bool.not_eq_true, Bool.not_eq_false',
        List.isEmpty_iff] at absent
      rw [substitute_missed, ih absent.2]
      intro group whole found
      rw [found_eq_none (List.max?_eq_none_iff.mpr absent.1)] at found
      cases found

/-! ### Patterns that go on to the end of the line -/

def Pattern.onward (expected : List α) : Pattern α :=
  .seq (.literal expected) (.many fun _ => true)

theorem mem_onward {expected text : List α} {before : Option α} {length : Nat} :
    length ∈ lengths word (.onward expected) before text ↔
      expected <+: text ∧ expected.length ≤ length ∧ length ≤ text.length := by
  unfold Pattern.onward
  have rest : (text.drop expected.length).takeWhile (fun _ => true) =
      text.drop expected.length := List.takeWhile_eq_self_iff.mpr fun _ _ => rfl
  constructor
  · intro member
    obtain ⟨left, right, leftMember, rightMember, rfl⟩ := mem_seq.mp member
    obtain ⟨front, rfl⟩ := mem_literal.mp leftMember
    rw [mem_many, rest, List.length_drop] at rightMember
    have inside := front.length_le
    exact ⟨front, by omega, by omega⟩
  · intro given
    obtain ⟨front, least, most⟩ := given
    refine mem_seq.mpr
      ⟨expected.length, length - expected.length, mem_literal.mpr ⟨front, rfl⟩, ?_, by omega⟩
    rw [mem_many, rest, List.length_drop]
    omega

theorem longest_onward {expected text : List α} {before : Option α} (front : expected <+: text) :
    longest word (.onward expected) before text = some text.length :=
  longest_eq_some_iff.mpr
    ⟨mem_onward.mpr ⟨front, front.length_le, Nat.le_refl _⟩, fun _ member => length_le member⟩

omit [DecidableEq α] in
theorem opening_prefix_iff {opening symbol : α} {body front : List α} (plain : opening ∉ body)
    (rest : List α) : opening :: body <+: symbol :: front ++ opening :: rest ↔
      opening :: body <+: symbol :: front := by
  rw [List.cons_append, List.cons_prefix_cons, List.cons_prefix_cons,
    prefix_append_separator plain]

/-- The line ends before the first place. -/
theorem substitute_onward {opening : α} {body front : List α} (plain : opening ∉ body)
    (first : ¬ opening :: body <:+: front) (before : Option α) (back : List α) :
    substituteFrom word (.plain (.onward (opening :: body)) []) 0 before
      (front ++ (opening :: body ++ back)) = front := by
  induction front generalizing before with
  | nil =>
      have found : (Rule.plain (.onward (opening :: body)) []).found word before
          (opening :: body ++ back) = some (0, (opening :: body ++ back).length) := by
        rw [found_plain, longest_onward (List.prefix_append _ _)]
        rfl
      rw [List.nil_append, substitute_found found (Nat.succ_pos _) (List.cons_ne_nil _ _),
        List.drop_length]
      rfl
  | cons symbol front ih =>
      rw [List.infix_cons_iff, not_or] at first
      rw [List.cons_append, substitute_missed, ih first.2]
      intro group whole found
      rw [found_plain, Option.map_eq_some_iff] at found
      obtain ⟨length, found, _⟩ := found
      have here := (mem_onward.mp (longest_eq_some_iff.mp found).1).1
      exact absurd ((opening_prefix_iff plain _).mp here) first.1

theorem occurs_onward {expected text : List α} {before : Option α}
    (present : occurs word (.seq (.literal []) (.onward expected)) before text = true) :
    expected <:+: text := by
  obtain ⟨front, rest, length, rfl, member⟩ := occurs_iff.mp present
  obtain ⟨left, right, leftMember, rightMember, _⟩ := mem_seq.mp member
  rw [(mem_literal.mp leftMember).2, List.length_nil, List.drop_zero] at rightMember
  exact (mem_onward.mp rightMember).1.isInfix.trans (List.suffix_append _ _).isInfix

/-- The text with the group stands before the other one. -/
theorem occurs_onward_onward {first second text : List α} {before : Option α}
    (present : occurs word (.seq (.onward first) (.onward second)) before text = true) :
    ∃ front back, text = front ++ (second ++ back) ∧ first <:+: front := by
  obtain ⟨front, rest, length, rfl, member⟩ := occurs_iff.mp present
  obtain ⟨left, right, leftMember, rightMember, _⟩ := mem_seq.mp member
  obtain ⟨begins, least, most⟩ := mem_onward.mp leftMember
  obtain ⟨⟨back, behind⟩, _, _⟩ := mem_onward.mp rightMember
  refine ⟨front ++ rest.take left, back, ?_, ?_⟩
  · rw [behind, List.append_assoc, List.take_append_drop]
  · have inside : first <+: rest.take left := by
      rw [List.prefix_take_iff]
      exact ⟨begins, least⟩
    exact inside.isInfix.trans (List.suffix_append _ _).isInfix

/-- The group is kept up to the last place, and nothing behind it. -/
theorem found_onward_onward {first body front : List α} {opening : α} (plain : opening ∉ body)
    (begins : first <+: front) {back : List α} (last : ¬ opening :: body <:+: back)
    (before : Option α) :
    Rule.found word
      { group := .onward first, rest := .onward (opening :: body), text := [] } before
      (front ++ (opening :: body ++ back)) =
        some (front.length, (front ++ (opening :: body ++ back)).length) := by
  have whole : (front ++ (opening :: body ++ back)).length - front.length =
      (opening :: body ++ back).length := by
    rw [List.length_append, Nat.add_sub_cancel_left]
  have group : front.length ∈ lengths word (.onward first) before
      (front ++ (opening :: body ++ back)) :=
    mem_onward.mpr ⟨begins.trans (List.prefix_append _ _), begins.length_le,
      (List.prefix_append _ _).length_le⟩
  have rest : (opening :: body ++ back).length ∈ lengths word (.onward (opening :: body))
      (behind before (front ++ (opening :: body ++ back)) front.length)
      ((front ++ (opening :: body ++ back)).drop front.length) := by
    rw [List.drop_left]
    exact mem_onward.mpr ⟨List.prefix_append _ _, (List.prefix_append _ _).length_le, Nat.le_refl _⟩
  apply found_eq_some
  · apply longest_eq_some_iff.mpr
    exact ⟨mem_seq.mpr ⟨_, _, group, rest, List.length_append⟩, fun _ member => length_le member⟩
  · exact group
  · rw [whole]
    exact rest
  · intro other _ here
    by_contra beyond
    apply last
    obtain ⟨more, rfl⟩ : ∃ more, other = front.length + (more + 1) :=
      ⟨other - front.length - 1, by omega⟩
    have begun := (mem_onward.mp here).1
    rw [← List.drop_drop, List.drop_left, List.cons_append, List.drop_succ_cons] at begun
    have inside := begun.isInfix.trans (List.drop_suffix more (body ++ back)).isInfix
    exact (infix_append_plain plain back).mp inside

theorem substitute_onward_onward {first body front : List α} {opening : α}
    (plain : opening ∉ body) (firstPlain : opening ∉ first) (present : first <:+: front)
    {back : List α} (last : ¬ opening :: body <:+: back) (before : Option α) :
    substituteFrom word { group := .onward first, rest := .onward (opening :: body), text := [] } 0
      before (front ++ (opening :: body ++ back)) = front := by
  induction front generalizing before with
  | nil =>
      rw [List.infix_nil] at present
      subst present
      have found := @found_onward_onward _ _ word [] body [] opening plain List.prefix_rfl back
        last before
      rw [List.nil_append] at found ⊢
      rw [substitute_found found (Nat.succ_pos _) (List.cons_ne_nil _ _), List.drop_length]
      rfl
  | cons symbol front ih =>
      by_cases begins : first <+: symbol :: front
      · have found := @found_onward_onward _ _ word _ _ _ _ plain begins _ last before
        rw [substitute_found found (Nat.succ_pos _) (List.cons_ne_nil _ _), List.take_left,
          List.drop_length]
        exact (List.append_nil _).trans (List.append_nil _)
      · rw [List.infix_cons_iff, or_iff_right begins] at present
        rw [List.cons_append, substitute_missed, ih present]
        intro group whole found
        have none : longest word (.seq (.onward first) (.onward (opening :: body))) before
            (symbol :: (front ++ (opening :: body ++ back))) = Option.none := by
          apply longest_eq_none_iff.mpr
          intro length member
          obtain ⟨left, right, leftMember, _, _⟩ := mem_seq.mp member
          have here := (mem_onward.mp leftMember).1
          apply begins
          exact (prefix_append_separator firstPlain (symbol :: front) (body ++ back)).mp here
        rw [found_eq_none none] at found
        cases found

/-! ### Matches that stay between blanks -/

/-- Neither anchored nor going on at a blank. -/
def Pattern.Confined (blank : α → Bool) : Pattern α → Prop
  | .literal expected => ∀ symbol, symbol ∈ expected → blank symbol = false
  | .start => False
  | .boundary => True
  | .optional body => body.Confined blank
  | .many accepts => ∀ symbol, blank symbol = true → accepts symbol = false
  | .seq first second => first.Confined blank ∧ second.Confined blank

section Confined

variable {blank : α → Bool}

theorem lengths_append_blank (plain : ∀ symbol, blank symbol = true → word symbol = false)
    {pattern : Pattern α} (confined : pattern.Confined blank) {separator : α}
    (separates : blank separator = true) (before : Option α)
    (text rest : List α) :
    lengths word pattern before (text ++ separator :: rest) =
      lengths word pattern before text := by
  induction pattern generalizing before text with
  | literal expected =>
      rw [lengths, lengths]
      simp only [prefix_append_blank confined separates]
  | start => exact absurd confined id
  | boundary =>
      rw [lengths, lengths]
      have head : edge word before (text ++ separator :: rest).head? =
          edge word before text.head? := by
        cases text with
        | nil =>
            unfold edge
            rw [List.nil_append, List.head?_cons, List.head?_nil, Option.any_some,
              plain separator separates]
            rfl
        | cons symbol others => rfl
      rw [head]
  | optional body ih => rw [lengths, lengths, ih confined]
  | many accepts =>
      rw [lengths, lengths, List.takeWhile_append, List.takeWhile_cons_of_neg]
      · split
        · rename_i all
          rw [all, List.append_nil]
        · rfl
      · rw [confined separator separates]
        exact Bool.false_ne_true
  | seq first second ihFirst ihSecond =>
      rw [lengths, lengths, ihFirst confined.1]
      apply List.flatMap_congr
      intro length member
      have inside := length_le member
      have same : behind before (text ++ separator :: rest) length =
          behind before text length := by
        unfold behind
        rw [List.take_append_of_le_length inside]
      rw [same, List.drop_append_of_le_length inside, ihSecond confined.2]

theorem lengths_before {pattern : Pattern α} (confined : pattern.Confined blank)
    {before other : Option α} (same : before.any word = other.any word) (text : List α) :
    lengths word pattern before text = lengths word pattern other text := by
  induction pattern generalizing before other text with
  | literal expected => rfl
  | start => exact absurd confined id
  | boundary =>
      rw [lengths, lengths]
      unfold edge
      rw [same]
  | optional body ih => rw [lengths, lengths, ih confined same]
  | many accepts => rfl
  | seq first second ihFirst ihSecond =>
      rw [lengths, lengths, ihFirst confined.1 same]
      apply List.flatMap_congr
      intro length _
      have still : (behind before text length).any word = (behind other text length).any word := by
        unfold behind
        cases (text.take length).getLast? with
        | none => exact same
        | some symbol => rfl
      rw [ihSecond confined.2 still]

theorem occurs_before {pattern : Pattern α} (confined : pattern.Confined blank)
    {before other : Option α} (same : before.any word = other.any word) (text : List α) :
    occurs word pattern before text = occurs word pattern other text := by
  cases text with
  | nil => rw [occurs, occurs, lengths_before confined same]
  | cons symbol rest => rw [occurs, occurs, lengths_before confined same]

theorem occurs_append_blank (plain : ∀ symbol, blank symbol = true → word symbol = false)
    {pattern : Pattern α} (confined : pattern.Confined blank) {separator : α}
    (separates : blank separator = true) (before : Option α) (text rest : List α) :
    occurs word pattern before (text ++ separator :: rest) =
      (occurs word pattern before text || occurs word pattern none rest) := by
  induction text generalizing before with
  | nil =>
      have here := @lengths_append_blank _ _ word _ plain _ confined _ separates before [] rest
      rw [List.nil_append] at here
      rw [List.nil_append, occurs, occurs, here]
      congr 1
      exact occurs_before confined (by rw [Option.any_some, plain separator separates]; rfl) rest
  | cons symbol text ih =>
      have here := @lengths_append_blank _ _ word _ plain _ confined _ separates before
        (symbol :: text) rest
      rw [List.cons_append] at here
      rw [List.cons_append, occurs, occurs, here, ih, Bool.or_assoc]

theorem longest_append_blank (plain : ∀ symbol, blank symbol = true → word symbol = false)
    {pattern : Pattern α} (confined : pattern.Confined blank) {separator : α}
    (separates : blank separator = true) (before : Option α) (text rest : List α) :
    longest word pattern before (text ++ separator :: rest) =
      longest word pattern before text := by
  unfold longest
  rw [lengths_append_blank plain confined separates]

/-- No match begins at a blank. -/
theorem longest_blank (plain : ∀ symbol, blank symbol = true → word symbol = false)
    {pattern : Pattern α} (confined : pattern.Confined blank) {separator : α}
    (separates : blank separator = true) {before : Option α} {rest : List α} {length : Nat}
    (found : longest word pattern before (separator :: rest) = some length) : length = 0 := by
  have here := longest_append_blank plain confined separates before [] rest
  rw [List.nil_append, found] at here
  exact Nat.le_zero.mp (length_le (longest_eq_some_iff.mp here.symm).1)

theorem matched_before {pattern : Pattern α} (confined : pattern.Confined blank)
    {before other : Option α} (same : before.any word = other.any word) (text : List α) :
    matched word pattern 0 before text = matched word pattern 0 other text := by
  cases text with
  | nil => rfl
  | cons symbol rest =>
      unfold matched longest
      rw [lengths_before confined same]

theorem matched_append_blank (plain : ∀ symbol, blank symbol = true → word symbol = false)
    {pattern : Pattern α} (confined : pattern.Confined blank) {separator : α}
    (separates : blank separator = true) {skip : Nat} {text : List α}
    (inside : skip ≤ text.length) (before : Option α) (rest : List α) :
    matched word pattern skip before (text ++ separator :: rest) =
      matched word pattern skip before text ++ matched word pattern 0 none rest := by
  induction text generalizing skip before with
  | nil =>
      rw [Nat.le_zero.mp inside, List.nil_append, matched, matched, List.nil_append]
      have later := @matched_before _ _ word _ _ confined (some separator) none
        (by rw [Option.any_some, plain separator separates]; rfl) rest
      split
      · rename_i length found
        exact absurd (longest_blank plain confined separates found) (Nat.succ_ne_zero _)
      · exact later
  | cons symbol text ih =>
      cases skip with
      | succ skip =>
          rw [List.cons_append, matched, matched, ih (Nat.le_of_succ_le_succ inside)]
      | zero =>
          have same := longest_append_blank plain confined separates before (symbol :: text) rest
          rw [List.cons_append] at same
          rw [List.cons_append, matched, matched, same]
          cases found : longest word pattern before (symbol :: text) with
          | none => exact ih (Nat.zero_le _) _
          | some length =>
              have bound := length_le (longest_eq_some_iff.mp found).1
              cases length with
              | zero => exact ih (Nat.zero_le _) _
              | succ length =>
                  simp only
                  rw [ih (Nat.le_of_succ_le_succ bound), ← @List.cons_append _ symbol text,
                    List.take_append_of_le_length bound, List.cons_append]

theorem substitute_before {pattern : Pattern α} (confined : pattern.Confined blank)
    {before other : Option α} (same : before.any word = other.any word)
    (replacement text : List α) :
    substituteFrom word (.plain pattern replacement) 0 before text =
      substituteFrom word (.plain pattern replacement) 0 other text := by
  cases text with
  | nil => rfl
  | cons symbol rest =>
      unfold substituteFrom
      rw [found_plain, found_plain]
      unfold longest
      rw [lengths_before confined same]

theorem substitute_append_blank (plain : ∀ symbol, blank symbol = true → word symbol = false)
    {pattern : Pattern α} (confined : pattern.Confined blank) (replacement : List α)
    {separator : α} (separates : blank separator = true) {skip : Nat} {text : List α}
    (inside : skip ≤ text.length) (before : Option α) (rest : List α) :
    substituteFrom word (.plain pattern replacement) skip before (text ++ separator :: rest) =
      substituteFrom word (.plain pattern replacement) skip before text ++
        separator :: substituteFrom word (.plain pattern replacement) 0 none rest := by
  induction text generalizing skip before with
  | nil =>
      have later := @substitute_before _ _ word _ _ confined (some separator) none
        (by rw [Option.any_some, plain separator separates]; rfl) replacement rest
      rw [Nat.le_zero.mp inside, List.nil_append, substitute_missed, later]
      · rfl
      · intro group whole found
        rw [found_plain, Option.map_eq_some_iff] at found
        obtain ⟨length, found, same⟩ := found
        cases same
        exact longest_blank plain confined separates found
  | cons symbol text ih =>
      cases skip with
      | succ skip =>
          rw [List.cons_append, substituteFrom, substituteFrom,
            ih (Nat.le_of_succ_le_succ inside)]
      | zero =>
          have same := longest_append_blank plain confined separates before (symbol :: text) rest
          rw [List.cons_append] at same
          rw [List.cons_append, substituteFrom, substituteFrom, found_plain, found_plain, same]
          cases found : longest word pattern before (symbol :: text) with
          | none =>
              change symbol :: _ = symbol :: _ ++ _
              rw [ih (Nat.zero_le _), List.cons_append]
          | some length =>
              have bound := length_le (longest_eq_some_iff.mp found).1
              cases length with
              | zero =>
                  change symbol :: _ = symbol :: _ ++ _
                  rw [ih (Nat.zero_le _), List.cons_append]
              | succ length =>
                  simp only [Option.map_some, List.take_zero, List.nil_append]
                  rw [ih (Nat.le_of_succ_le_succ bound), List.append_assoc]

end Confined

end SuperBootimg.RegularSearch
