/-
Words of a text and back: splitting at blanks, where runs of blanks and blanks at
the ends separate nothing, splitting at one separator, and joining by a separator.
The alphabet and the blanks are arbitrary.
-/

import Mathlib.Data.List.Basic
import Mathlib.Data.List.TakeWhile

namespace SuperBootimg.FieldSplitting

variable {α : Type}

/-- The maximal pieces without a blank. -/
def fields (blank : α → Bool) (text : List α) : List (List α) :=
  (text.splitOnP blank).filter fun field => !field.isEmpty

def joined (separator : α) (words : List (List α)) : List α :=
  [separator].intercalate words

def translate [DecidableEq α] (old new : α) (text : List α) : List α :=
  text.map fun symbol => if symbol = old then new else symbol

theorem all_false {accepts : α → Bool} {text : List α}
    (all : (text.all fun symbol => !accepts symbol) = true) :
    ∀ symbol, symbol ∈ text → accepts symbol = false := by
  intro symbol member
  have other := List.all_eq_true.mp all symbol member
  rwa [Bool.not_eq_true'] at other

theorem joined_cons_cons (separator : α) (first second : List α) (rest : List (List α)) :
    joined separator (first :: second :: rest) =
      first ++ separator :: joined separator (second :: rest) := by
  unfold joined
  rw [List.intercalate_cons_cons, List.append_assoc, List.singleton_append]

theorem mem_joined {separator symbol : α} {words : List (List α)}
    (inside : symbol ∈ joined separator words) :
    symbol = separator ∨ ∃ word, word ∈ words ∧ symbol ∈ word := by
  induction words with
  | nil => cases inside
  | cons first rest ih =>
      cases rest with
      | nil =>
          unfold joined at inside
          rw [List.intercalate_singleton] at inside
          exact .inr ⟨first, List.mem_cons_self, inside⟩
      | cons second others =>
          rw [joined_cons_cons] at inside
          rcases List.mem_append.mp inside with early | late
          · exact .inr ⟨first, List.mem_cons_self, early⟩
          · rcases List.mem_cons.mp late with same | later
            · exact .inl same
            · rcases ih later with same | ⟨word, member, found⟩
              · exact .inl same
              · exact .inr ⟨word, List.mem_cons_of_mem _ member, found⟩

/-- A word of a joined text stands between separators or the ends of the text. -/
theorem joined_of_mem {separator : α} {words : List (List α)} {word : List α}
    (member : word ∈ words) :
    ∃ front back, joined separator words = front ++ (word ++ back) ∧
      (front = [] ∨ front.getLast? = some separator) ∧
      (back = [] ∨ back.head? = some separator) := by
  induction words with
  | nil => cases member
  | cons first rest ih =>
      cases rest with
      | nil =>
          cases List.mem_singleton.mp member
          refine ⟨[], [], ?_, .inl rfl, .inl rfl⟩
          unfold joined
          rw [List.intercalate_singleton, List.nil_append, List.append_nil]
      | cons second others =>
          rw [joined_cons_cons]
          rcases List.mem_cons.mp member with rfl | later
          · exact ⟨[], _, rfl, .inl rfl, .inr rfl⟩
          · obtain ⟨front, back, split, before, behind⟩ := ih later
            refine ⟨first ++ separator :: front, back, ?_, .inr ?_, behind⟩
            · rw [split, List.append_assoc, List.cons_append]
            · rw [List.getLast?_append_of_ne_nil _ (List.cons_ne_nil _ _), List.getLast?_cons]
              rcases before with rfl | last
              · rfl
              · rw [last]
                rfl

theorem joined_cons (separator : α) (first : List α) (rest : List (List α)) :
    joined separator (first :: rest) = first ++ rest.flatMap (separator :: ·) := by
  induction rest generalizing first with
  | nil =>
      unfold joined
      rw [List.intercalate_singleton, List.flatMap_nil, List.append_nil]
  | cons second others ih =>
      rw [joined_cons_cons, ih, List.flatMap_cons, List.cons_append]

/-- A joined text is continued in its last word. -/
theorem joined_append_joined (separator : α) (before : List (List α)) (last first : List α)
    (rest : List (List α)) :
    joined separator (before ++ [last]) ++ joined separator (first :: rest) =
      joined separator (before ++ (last ++ first) :: rest) := by
  cases before with
  | nil => simp only [List.nil_append, joined_cons, List.flatMap_nil, List.append_assoc]
  | cons word others =>
      simp only [List.cons_append, joined_cons, List.flatMap_append, List.flatMap_cons,
        List.flatMap_nil, List.append_assoc, List.nil_append]

/-- Words without the separator can be told from the joined text. -/
theorem joined_injective [DecidableEq α] {separator : α} {first second : List (List α)}
    (firstSome : first ≠ []) (secondSome : second ≠ [])
    (firstPlain : ∀ word, word ∈ first → separator ∉ word)
    (secondPlain : ∀ word, word ∈ second → separator ∉ word)
    (same : joined separator first = joined separator second) : first = second := by
  unfold joined at same
  rw [← List.splitOn_intercalate separator firstPlain firstSome, same,
    List.splitOn_intercalate separator secondPlain secondSome]

theorem not_mem_splitOn [DecidableEq α] {separator : α} {text word : List α}
    (member : word ∈ text.splitOn separator) : separator ∉ word := by
  induction text generalizing word with
  | nil =>
      rw [List.splitOn_nil, List.mem_singleton] at member
      rw [member]
      exact List.not_mem_nil
  | cons symbol rest ih =>
      rw [List.splitOn_cons_eq_if_modifyHead] at member
      split at member
      · rcases List.mem_cons.mp member with rfl | later
        · exact List.not_mem_nil
        · exact ih later
      · rename_i different
        rw [beq_iff_eq] at different
        cases shape : rest.splitOn separator with
        | nil => exact absurd shape (List.splitOn_ne_nil _ _)
        | cons first others =>
            rw [shape, List.modifyHead_cons] at member
            rcases List.mem_cons.mp member with rfl | later
            · rw [List.mem_cons, not_or]
              refine ⟨fun same => different same.symm, ih ?_⟩
              rw [shape]
              exact List.mem_cons_self
            · apply ih
              rw [shape]
              exact List.mem_cons_of_mem _ later

theorem joined_append_singleton {separator : α} {words : List (List α)} (some : words ≠ [])
    (word : List α) :
    joined separator (words ++ [word]) = joined separator words ++ separator :: word := by
  induction words with
  | nil => exact absurd rfl some
  | cons first rest ih =>
      cases rest with
      | nil =>
          rw [List.singleton_append, joined_cons_cons]
          unfold joined
          rw [List.intercalate_singleton, List.intercalate_singleton]
      | cons second others =>
          have later := ih (List.cons_ne_nil _ _)
          rw [joined_cons_cons, List.append_assoc,
            @List.cons_append α separator (joined separator (second :: others)), ← later]
          exact joined_cons_cons _ _ _ _

theorem joined_ne_nil {separator : α} {words : List (List α)} (some : words ≠ [])
    (nonempty : ∀ word, word ∈ words → word ≠ []) : joined separator words ≠ [] := by
  cases words with
  | nil => exact absurd rfl some
  | cons first rest =>
      have firstNonempty := nonempty first List.mem_cons_self
      cases rest with
      | nil =>
          unfold joined
          rw [List.intercalate_singleton]
          exact firstNonempty
      | cons second others =>
          rw [joined_cons_cons]
          exact List.append_ne_nil_of_left_ne_nil firstNonempty _

section Fields

variable {blank : α → Bool}

theorem fields_nil : fields blank [] = [] := by
  unfold fields
  rw [List.splitOnP_nil]
  rfl

theorem fields_word {word : List α} (nonempty : word ≠ [])
    (plain : ∀ symbol, symbol ∈ word → blank symbol = false) : fields blank word = [word] := by
  unfold fields
  rw [List.splitOnP_eq_singleton plain]
  cases word with
  | nil => exact absurd rfl nonempty
  | cons symbol rest => rfl

theorem fields_append {word : List α} {separator : α} (nonempty : word ≠ [])
    (plain : ∀ symbol, symbol ∈ word → blank symbol = false) (separates : blank separator = true)
    (rest : List α) : fields blank (word ++ separator :: rest) = word :: fields blank rest := by
  unfold fields
  rw [List.splitOnP_append_cons_of_forall_mem plain separator separates]
  cases word with
  | nil => exact absurd rfl nonempty
  | cons symbol others => rfl

theorem fields_cons_blank {symbol : α} (separates : blank symbol = true) (rest : List α) :
    fields blank (symbol :: rest) = fields blank rest := by
  unfold fields
  rw [List.splitOnP_cons_eq_if_modifyHead, if_pos separates]
  rfl

theorem fields_dropWhile (text : List α) : fields blank (text.dropWhile blank) =
    fields blank text := by
  induction text with
  | nil => rfl
  | cons symbol rest ih =>
      cases separates : blank symbol with
      | true => rw [List.dropWhile_cons_of_pos separates, ih, fields_cons_blank separates]
      | false => rw [List.dropWhile_cons_of_neg (by rw [separates]; exact Bool.false_ne_true)]

theorem fields_append_blank {separator : α} (separates : blank separator = true)
    (first second : List α) : fields blank (first ++ separator :: second) =
      fields blank first ++ fields blank second := by
  unfold fields
  rw [List.splitOnP_append_cons first second separates, List.filter_append]

def Ends (blank : α → Bool) (rest : List α) : Prop :=
  ∀ symbol others, rest = symbol :: others → blank symbol = true

theorem fields_word_append {word rest : List α} (nonempty : word ≠ [])
    (plain : ∀ symbol, symbol ∈ word → blank symbol = false) (ends : Ends blank rest) :
    fields blank (word ++ rest) = word :: fields blank rest := by
  cases rest with
  | nil => rw [List.append_nil, fields_word nonempty plain, fields_nil]
  | cons symbol others =>
      have separates := ends symbol others rfl
      rw [fields_append nonempty plain separates, fields_cons_blank separates]

/-- Behind its leading blanks a text is empty or begins with its first field. -/
theorem leading_field (blank : α → Bool) (text : List α) :
    (text.dropWhile blank = [] ∧ fields blank text = []) ∨
      ∃ word rest, text.dropWhile blank = word ++ rest ∧ word ≠ [] ∧
        (∀ symbol, symbol ∈ word → blank symbol = false) ∧ Ends blank rest ∧
        fields blank text = word :: fields blank rest := by
  rw [← fields_dropWhile text]
  cases shape : text.dropWhile blank with
  | nil => exact .inl ⟨rfl, fields_nil⟩
  | cons symbol others =>
      right
      have first : blank symbol = false := by
        have head := List.head_dropWhile_not blank (by rw [shape]; exact List.cons_ne_nil _ _)
        simp only [shape, List.head_cons] at head
        exact head
      have plain : ∀ other, other ∈ (symbol :: others).takeWhile (fun symbol => !blank symbol) →
          blank other = false := by
        intro other member
        have taken := List.mem_takeWhile_imp member
        rwa [Bool.not_eq_true'] at taken
      have ends : Ends blank ((symbol :: others).dropWhile fun symbol => !blank symbol) := by
        intro other rest same
        have head := List.head_dropWhile_not (fun symbol => !blank symbol)
          (by rw [same]; exact List.cons_ne_nil _ _)
        simp only [same, List.head_cons, Bool.not_eq_false'] at head
        exact head
      have nonempty : (symbol :: others).takeWhile (fun symbol => !blank symbol) ≠ [] := by
        rw [List.takeWhile_cons_of_pos (by rw [first]; rfl)]
        exact List.cons_ne_nil _ _
      have whole := @List.takeWhile_append_dropWhile α (fun symbol => !blank symbol)
        (symbol :: others)
      refine ⟨_, _, whole.symm, nonempty, plain, ends, ?_⟩
      rw [← fields_word_append nonempty plain ends, whole]

theorem fields_eq_nil_iff {text : List α} :
    fields blank text = [] ↔ ∀ symbol, symbol ∈ text → blank symbol = true := by
  rw [← List.dropWhile_eq_nil_iff]
  rcases leading_field blank text with ⟨ended, none⟩ | ⟨word, rest, shape, nonempty, _, _, split⟩
  · exact iff_of_true none ended
  · rw [split, shape]
    exact iff_of_false (List.cons_ne_nil _ _) (List.append_ne_nil_of_left_ne_nil nonempty rest)

theorem fields_blanks_append {blanks : List α}
    (blankAll : ∀ symbol, symbol ∈ blanks → blank symbol = true) (rest : List α) :
    fields blank (blanks ++ rest) = fields blank rest := by
  rw [← fields_dropWhile, List.dropWhile_append_of_pos blankAll, fields_dropWhile]

/-- What is put together from the parts on both sides of each blank is put together from
the fields. -/
theorem eq_foldr_fields {β : Type} {value : List α → β} {combine : β → β → β}
    (split : ∀ first separator second, blank separator = true →
      value (first ++ separator :: second) = combine (value first) (value second))
    (left : ∀ part, combine (value []) part = part)
    (right : ∀ part, combine part (value []) = part) (text : List α) :
    value text = ((fields blank text).map value).foldr combine (value []) := by
  induction size : text.length using Nat.strong_induction_on generalizing text with
  | _ size ih =>
      have whole := @List.takeWhile_append_dropWhile α (fun symbol => !blank symbol) text
      have plain : ∀ symbol, symbol ∈ text.takeWhile (fun symbol => !blank symbol) →
          blank symbol = false := by
        intro symbol member
        have taken := List.mem_takeWhile_imp member
        rwa [Bool.not_eq_true'] at taken
      have single : ∀ part, (∀ symbol, symbol ∈ part → blank symbol = false) →
          value part = ((fields blank part).map value).foldr combine (value []) := by
        intro part plain
        cases part with
        | nil => rw [fields_nil, List.map_nil, List.foldr_nil]
        | cons symbol rest =>
            rw [fields_word (List.cons_ne_nil _ _) plain]
            exact (right _).symm
      generalize text.takeWhile (fun symbol => !blank symbol) = first at whole plain
      cases shape : text.dropWhile (fun symbol => !blank symbol) with
      | nil =>
          rw [shape, List.append_nil] at whole
          rw [← whole]
          exact single first plain
      | cons separator second =>
          have separates : blank separator = true := by
            have head := List.head_dropWhile_not (fun symbol => !blank symbol)
              (by rw [shape]; exact List.cons_ne_nil _ _)
            simp only [shape, List.head_cons, Bool.not_eq_false'] at head
            exact head
          rw [shape] at whole
          have shorter := congrArg List.length whole
          rw [List.length_append, List.length_cons] at shorter
          rw [← whole, split first separator second separates, ih _ (by omega) second rfl]
          cases first with
          | nil => rw [left, List.nil_append, fields_cons_blank separates]
          | cons symbol rest =>
              rw [fields_append (List.cons_ne_nil _ _) plain separates]
              rfl

/-- A text closed by a plain symbol is a single field when only blanks precede its last word. -/
theorem fields_closed_iff {closing : α} (plain : blank closing = false) {text only : List α} :
    fields blank (text ++ [closing]) = [only] ↔
      ∃ blanks word, text = blanks ++ word ∧ (∀ symbol, symbol ∈ blanks → blank symbol = true) ∧
        (∀ symbol, symbol ∈ word → blank symbol = false) ∧ only = word ++ [closing] := by
  constructor
  · intro single
    have front := @List.takeWhile_append_dropWhile α blank (text ++ [closing])
    rcases leading_field blank (text ++ [closing]) with
      ⟨_, none⟩ | ⟨word, rest, shape, nonempty, wordPlain, _, split⟩
    · rw [none] at single
      cases single
    · rw [split] at single
      obtain ⟨rfl, last⟩ := List.cons.inj single
      rw [fields_eq_nil_iff] at last
      rw [shape] at front
      rcases List.eq_nil_or_concat rest with rfl | ⟨earlier, final, rfl⟩
      · rcases List.eq_nil_or_concat word with rfl | ⟨body, final, rfl⟩
        · exact absurd rfl nonempty
        · rw [List.concat_eq_append, List.append_nil, ← List.append_assoc] at front
          obtain ⟨same, closes⟩ := List.append_inj' front rfl
          cases closes
          rw [List.concat_eq_append] at wordPlain ⊢
          refine ⟨_, body, same.symm, fun symbol member => List.mem_takeWhile_imp member, ?_, rfl⟩
          intro symbol member
          exact wordPlain symbol (List.mem_append_left _ member)
      · rw [List.concat_eq_append, ← List.append_assoc, ← List.append_assoc] at front
        obtain ⟨_, closes⟩ := List.append_inj' front rfl
        cases closes
        have impossible := last closing
          (by rw [List.concat_eq_append]; exact List.mem_append_right _ List.mem_cons_self)
        rw [plain] at impossible
        cases impossible
  · intro given
    obtain ⟨blanks, word, rfl, blankAll, wordPlain, rfl⟩ := given
    rw [List.append_assoc, fields_blanks_append blankAll]
    apply fields_word (List.append_ne_nil_of_right_ne_nil _ (List.cons_ne_nil _ _))
    intro symbol member
    rcases List.mem_append.mp member with inside | same
    · exact wordPlain symbol inside
    · rw [List.mem_singleton.mp same]
      exact plain

theorem fields_joined {separator : α} (separates : blank separator = true)
    {words : List (List α)} (nonempty : ∀ word, word ∈ words → word ≠ [])
    (plain : ∀ word, word ∈ words → ∀ symbol, symbol ∈ word → blank symbol = false) :
    fields blank (joined separator words) = words := by
  induction words with
  | nil => exact fields_nil
  | cons first rest ih =>
      have firstNonempty := nonempty first List.mem_cons_self
      have firstPlain := plain first List.mem_cons_self
      cases rest with
      | nil =>
          unfold joined
          rw [List.intercalate_singleton]
          exact fields_word firstNonempty firstPlain
      | cons second others =>
          have later := ih (fun word member => nonempty word (List.mem_cons_of_mem _ member))
            (fun word member => plain word (List.mem_cons_of_mem _ member))
          rw [joined_cons_cons, fields_append firstNonempty firstPlain separates, later]

end Fields

section Patterns

/-- A text without blanks does not go on behind a blank. -/
theorem prefix_append_blank {blank : α → Bool} {expected : List α}
    (confined : ∀ symbol, symbol ∈ expected → blank symbol = false) {separator : α}
    (separates : blank separator = true) (text rest : List α) :
    expected <+: text ++ separator :: rest ↔ expected <+: text := by
  constructor
  · intro front
    rcases List.prefix_or_prefix_of_prefix front (List.prefix_append text _) with within | beyond
    · exact within
    · obtain ⟨more, rfl⟩ := beyond
      rw [List.prefix_append_right_inj] at front
      cases more with
      | nil => exact (List.append_nil text).symm ▸ List.prefix_rfl
      | cons symbol others =>
          have same := (List.cons_prefix_cons.mp front).1
          have blankless := confined symbol (List.mem_append_right _ List.mem_cons_self)
          rw [same, separates] at blankless
          cases blankless
  · intro front
    exact front.trans (List.prefix_append _ _)

theorem prefix_append_separator {separator : α} {expected : List α} (plain : separator ∉ expected)
    (text rest : List α) : expected <+: text ++ separator :: rest ↔ expected <+: text := by
  classical
  have confined : ∀ symbol, symbol ∈ expected → decide (symbol = separator) = false := by
    intro symbol member
    rw [decide_eq_false_iff_not]
    intro same
    rw [same] at member
    exact plain member
  exact @prefix_append_blank α (fun symbol => decide (symbol = separator)) expected confined
    separator (decide_eq_true rfl) text rest

theorem infix_append_blank {blank : α → Bool} {expected : List α}
    (confined : ∀ symbol, symbol ∈ expected → blank symbol = false) {separator : α}
    (separates : blank separator = true) (text rest : List α) :
    expected <:+: text ++ separator :: rest ↔ expected <:+: text ∨ expected <:+: rest := by
  induction text with
  | nil =>
      have front := prefix_append_blank confined separates [] rest
      rw [List.nil_append, List.prefix_nil] at front
      rw [List.nil_append, List.infix_cons_iff, front, List.infix_nil]
  | cons symbol text ih =>
      have front := prefix_append_blank confined separates (symbol :: text) rest
      rw [List.cons_append] at front
      rw [List.cons_append, List.infix_cons_iff, front, ih, List.infix_cons_iff, or_assoc]

theorem exists_first {expected text : List α} (some : expected ≠ [])
    (present : expected <:+: text) :
    ∃ front back, text = front ++ (expected ++ back) ∧ ¬ expected <:+: front := by
  induction text with
  | nil => exact absurd (List.infix_nil.mp present) some
  | cons symbol rest ih =>
      by_cases here : expected <+: symbol :: rest
      · obtain ⟨back, same⟩ := here
        refine ⟨[], back, same.symm, ?_⟩
        rw [List.infix_nil]
        exact some
      · rw [List.infix_cons_iff, or_iff_right here] at present
        obtain ⟨front, back, rfl, first⟩ := ih present
        refine ⟨symbol :: front, back, rfl, ?_⟩
        rw [List.infix_cons_iff, not_or]
        exact ⟨fun begun => here (begun.trans (List.prefix_append (symbol :: front) _)), first⟩

theorem exists_last {expected text : List α} (some : expected ≠ [])
    (present : expected <:+: text) :
    ∃ front back, text = front ++ (expected ++ back) ∧ ¬ expected <:+: back := by
  induction text with
  | nil => exact absurd (List.infix_nil.mp present) some
  | cons symbol rest ih =>
      by_cases later : expected <:+: rest
      · obtain ⟨front, back, rfl, last⟩ := ih later
        exact ⟨symbol :: front, back, rfl, last⟩
      · rw [List.infix_cons_iff, or_iff_left later] at present
        obtain ⟨back, same⟩ := present
        refine ⟨[], back, same.symm, fun again => later (again.trans ?_)⟩
        cases expected with
        | nil => exact absurd rfl some
        | cons first others =>
            rw [← (List.cons.inj same).2]
            exact (List.suffix_append others back).isInfix

theorem infix_append_plain {separator : α} {body text : List α} (plain : separator ∉ text)
    (rest : List α) :
    separator :: body <:+: text ++ rest ↔ separator :: body <:+: rest := by
  induction text with
  | nil => exact Iff.rfl
  | cons symbol text ih =>
      have different : ¬ separator :: body <+: symbol :: (text ++ rest) := by
        intro front
        apply plain
        rw [(List.cons_prefix_cons.mp front).1]
        exact List.mem_cons_self
      rw [List.cons_append, List.infix_cons_iff, or_iff_right different]
      exact ih fun member => plain (List.mem_cons_of_mem _ member)

/-- A text that begins with a separator begins at a separator. -/
theorem infix_append_separator {separator : α} {body text : List α} (plain : separator ∉ text)
    (rest : List α) :
    separator :: body <:+: text ++ separator :: rest ↔
      body <+: rest ∨ separator :: body <:+: rest := by
  rw [infix_append_plain plain, List.infix_cons_iff, List.prefix_cons_inj]

theorem prefix_joined_iff {separator : α} {body : List α} (plain : separator ∉ body)
    (first : List α) (rest : List (List α)) :
    body <+: joined separator (first :: rest) ↔ body <+: first := by
  cases rest with
  | nil =>
      unfold joined
      rw [List.intercalate_singleton]
  | cons second others =>
      rw [joined_cons_cons]
      exact prefix_append_separator plain _ _

theorem infix_joined_iff {separator : α} {body first : List α}
    {rest : List (List α)} (plain : separator ∉ body) (firstPlain : separator ∉ first)
    (restPlain : ∀ word, word ∈ rest → separator ∉ word) :
    separator :: body <:+: joined separator (first :: rest) ↔
      ∃ word, word ∈ rest ∧ body <+: word := by
  induction rest generalizing first with
  | nil =>
      unfold joined
      rw [List.intercalate_singleton]
      refine iff_of_false ?_ ?_
      · intro inside
        exact firstPlain (inside.subset List.mem_cons_self)
      · intro given
        obtain ⟨word, member, _⟩ := given
        exact List.not_mem_nil member
  | cons second others ih =>
      have later := ih (restPlain second List.mem_cons_self)
        fun word member => restPlain word (List.mem_cons_of_mem _ member)
      have front := prefix_joined_iff plain second others
      rw [joined_cons_cons, infix_append_separator firstPlain]
      refine (or_congr front later).trans ?_
      simp only [List.mem_cons, exists_eq_or_imp]

end Patterns

section Translate

variable [DecidableEq α] {old new : α}

theorem translate_word {word : List α} (plain : old ∉ word) : translate old new word = word := by
  unfold translate
  rw [List.map_congr_left, List.map_id]
  intro symbol inside
  apply if_neg
  intro same
  rw [same] at inside
  exact plain inside

theorem translate_append (first second : List α) :
    translate old new (first ++ old :: second) =
      translate old new first ++ new :: translate old new second := by
  unfold translate
  rw [List.map_append, List.map_cons, if_pos rfl]

theorem translate_translate (different : new ≠ old) (text : List α) :
    translate old new (translate old new text) = translate old new text := by
  unfold translate
  rw [List.map_map]
  apply List.map_congr_left
  intro symbol _
  rw [Function.comp_apply]
  by_cases same : symbol = old
  · rw [if_pos same, if_neg different]
  · rw [if_neg same, if_neg same]

/-- Exchanging the separator of a joined text gives the text joined by the other one. -/
theorem translate_joined {words : List (List α)} (plain : ∀ word, word ∈ words → old ∉ word) :
    translate old new (joined old words) = joined new words := by
  induction words with
  | nil => rfl
  | cons first rest ih =>
      have firstKept : translate old new first = first :=
        translate_word (plain first List.mem_cons_self)
      cases rest with
      | nil =>
          unfold joined
          rw [List.intercalate_singleton, List.intercalate_singleton, firstKept]
      | cons second others =>
          have later := ih (fun word member => plain word (List.mem_cons_of_mem _ member))
          rw [joined_cons_cons, joined_cons_cons, translate_append, firstKept, later]

end Translate

end SuperBootimg.FieldSplitting
