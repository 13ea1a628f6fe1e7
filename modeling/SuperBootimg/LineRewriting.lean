/-
Rules of a stream editor on a whole text: each line is rewritten on its own, several edits
of a file compose line by line, and a rule that replaces a word by one of the same length
keeps every position.
-/

import Mathlib.Data.List.Infix
import SuperBootimg.FieldSplitting
import SuperBootimg.RegularSearch

namespace SuperBootimg.LineRewriting

open FieldSplitting RegularSearch

variable {α : Type} [DecidableEq α]

/-- Rewrites the pieces between separators. Behind a separator at the end there is no line;
a rule leaves the empty piece there as it is. -/
def onLines (separator : α) (rewrite : List α → List α) (text : List α) : List α :=
  joined separator ((text.splitOn separator).map rewrite)

theorem splitOn_ne_nil (separator : α) (text : List α) : text.splitOn separator ≠ [] :=
  List.splitOnP_ne_nil _ _

theorem splitOn_joined {separator : α} {lines : List (List α)} (some : lines ≠ [])
    (plain : ∀ line, line ∈ lines → separator ∉ line) :
    (joined separator lines).splitOn separator = lines :=
  List.splitOn_intercalate separator plain some

theorem joined_splitOn (separator : α) (text : List α) :
    joined separator (text.splitOn separator) = text :=
  List.intercalate_splitOn separator

theorem onLines_id (separator : α) (text : List α) : onLines separator id text = text := by
  unfold onLines
  rw [List.map_id, joined_splitOn]

/-- Two edits, one behind the other. -/
theorem onLines_onLines {separator : α} {first second : List α → List α}
    (plain : ∀ line, separator ∉ line → separator ∉ first line) (text : List α) :
    onLines separator second (onLines separator first text) =
      onLines separator (second ∘ first) text := by
  have some : (text.splitOn separator).map first ≠ [] := by
    rw [ne_eq, List.map_eq_nil_iff]
    exact splitOn_ne_nil separator text
  have lines : ∀ line, line ∈ (text.splitOn separator).map first → separator ∉ line := by
    intro line member
    obtain ⟨old, inside, rfl⟩ := List.mem_map.mp member
    exact plain old (not_mem_splitOn inside)
  unfold onLines
  rw [splitOn_joined some lines, List.map_map]

/-- Any number of edits. -/
theorem foldl_onLines {ι : Type} {separator : α} {rewrite : ι → List α → List α}
    {edits : List ι} (plain : ∀ edit, edit ∈ edits → ∀ line, separator ∉ line →
      separator ∉ rewrite edit line) (text : List α) :
    edits.foldl (fun text edit => onLines separator (rewrite edit) text) text =
      onLines separator (fun line => edits.foldl (fun line edit => rewrite edit line) line)
        text := by
  induction edits generalizing text with
  | nil => exact (onLines_id separator text).symm
  | cons edit rest ih =>
      rw [List.foldl_cons, ih fun other member => plain other (List.mem_cons_of_mem _ member),
        onLines_onLines (plain edit List.mem_cons_self)]
      rfl

theorem length_onLines {separator : α} {rewrite : List α → List α}
    (kept : ∀ line, (rewrite line).length = line.length) (text : List α) :
    (onLines separator rewrite text).length = text.length := by
  have same : ∀ lines : List (List α),
      (joined separator (lines.map rewrite)).length = (joined separator lines).length := by
    intro lines
    induction lines with
    | nil => rfl
    | cons first rest ih =>
        cases rest with
        | nil => simp only [joined, List.map_cons, List.map_nil, List.intercalate_singleton, kept]
        | cons second others =>
            rw [List.map_cons] at ih
            rw [List.map_cons, List.map_cons, joined_cons_cons, joined_cons_cons,
              List.length_append, List.length_append, List.length_cons, List.length_cons, ih, kept]
  unfold onLines
  rw [same, joined_splitOn]

section Substitution

variable {word : α → Bool}

theorem mem_substituteFrom {rule : Rule α} {skip : Nat} {before : Option α} {text : List α}
    {symbol : α} (inside : symbol ∈ substituteFrom word rule skip before text) :
    symbol ∈ text ∨ symbol ∈ rule.text := by
  induction text generalizing skip before with
  | nil =>
      cases skip <;> cases inside
  | cons first rest ih =>
      have further : ∀ {skip before}, symbol ∈ substituteFrom word rule skip before rest →
          symbol ∈ first :: rest ∨ symbol ∈ rule.text := fun later =>
        (ih later).imp_left (List.mem_cons_of_mem _)
      cases skip with
      | succ skip => exact further inside
      | zero =>
          rw [substituteFrom] at inside
          split at inside
          · rcases List.mem_append.mp inside with front | later
            · rcases List.mem_append.mp front with kept | new
              · exact .inl (List.mem_of_mem_take kept)
              · exact .inr new
            · exact further later
          · rcases List.mem_cons.mp inside with rfl | later
            · exact .inl List.mem_cons_self
            · exact further later

/-- A rule that writes no separator keeps lines apart. -/
theorem not_mem_substitute {rule : Rule α} {separator : α} (plain : separator ∉ rule.text)
    {line : List α} (absent : separator ∉ line) : separator ∉ substitute word rule line := by
  intro inside
  rcases mem_substituteFrom inside with old | new
  · exact absent old
  · exact plain new

/-! ### A word that is replaced -/

/-- From the left, each occurrence of a word is replaced and the rest kept. -/
inductive Replaced (expected replacement : List α) : List α → List α → Prop
  | nil : Replaced expected replacement [] []
  | found {rest result : List α} (later : Replaced expected replacement rest result) :
      Replaced expected replacement (expected ++ rest) (replacement ++ result)
  | missed {symbol : α} {rest result : List α} (front : ¬ expected <+: symbol :: rest)
      (later : Replaced expected replacement rest result) :
      Replaced expected replacement (symbol :: rest) (symbol :: result)

theorem literal_found {expected : List α} (replacement : List α) {before : Option α}
    {text : List α} (front : expected <+: text) :
    (Rule.plain (.literal expected) replacement).found word before text =
      some (0, expected.length) := by
  have same : longest word (.literal expected) before text = some expected.length := by
    apply longest_eq_some_iff.mpr
    refine ⟨mem_literal.mpr ⟨front, rfl⟩, fun other member => ?_⟩
    exact Nat.le_of_eq (mem_literal.mp member).2
  rw [found_plain, same]
  rfl

theorem literal_missed {expected : List α} (replacement : List α) {before : Option α}
    {text : List α} (front : ¬ expected <+: text) :
    (Rule.plain (.literal expected) replacement).found word before text = none := by
  have nothing : longest word (.literal expected) before text = none := by
    apply longest_eq_none_iff.mpr
    intro length member
    exact front (mem_literal.mp member).1
  rw [found_plain, nothing]
  rfl

theorem replaced_substituteFrom {expected : List α} (nonempty : expected ≠ [])
    (replacement : List α) (before : Option α) (text : List α) :
    Replaced expected replacement text
      (substituteFrom word (.plain (.literal expected) replacement) 0 before text) := by
  have positive := List.length_pos_iff.mpr nonempty
  induction size : text.length using Nat.strong_induction_on generalizing before text with
  | _ size ih =>
      by_cases front : expected <+: text
      · obtain ⟨rest, rfl⟩ := front
        have front := List.prefix_append expected rest
        have found := @literal_found _ _ word _ replacement before _ front
        rw [substitute_found found positive (List.append_ne_nil_of_left_ne_nil nonempty _),
          List.drop_left, List.take_zero, List.nil_append]
        apply Replaced.found
        apply ih rest.length _ _ _ rfl
        rw [← size, List.length_append]
        omega
      · cases text with
        | nil => exact .nil
        | cons symbol rest =>
            have missed := @literal_missed _ _ word _ replacement before _ front
            rw [substitute_missed]
            · apply Replaced.missed front
              apply ih rest.length _ _ _ rfl
              rw [← size]
              exact Nat.lt_succ_self _
            · intro group whole found
              rw [missed] at found
              cases found

omit [DecidableEq α] in
/-- The positions stay where a word is replaced by one of its length. -/
theorem Replaced.length_eq {expected replacement text result : List α}
    (same : replacement.length = expected.length)
    (replaced : Replaced expected replacement text result) : result.length = text.length := by
  induction replaced with
  | nil => rfl
  | found _ ih => rw [List.length_append, List.length_append, same, ih]
  | missed _ _ ih => rw [List.length_cons, List.length_cons, ih]

/-- A word does not come about where another one is written, not even in part. -/
structure KeptOut (word replacement : List α) : Prop where
  some : word ≠ []
  inside : ¬ word <:+: replacement
  /-- No occurrence begins in what is written. -/
  behind : ∀ front, front ∈ word.inits → front ≠ [] → ¬ front <:+ replacement
  /-- None ends there. -/
  ahead : ∀ tail, tail ∈ word.tails → tail ≠ [] → ¬ tail <+: replacement ∧ ¬ replacement <+: tail

instance (word replacement : List α) : Decidable (KeptOut word replacement) :=
  decidable_of_iff
    (word ≠ [] ∧ ¬ word <:+: replacement ∧
      (∀ front, front ∈ word.inits → front ≠ [] → ¬ front <:+ replacement) ∧
      ∀ tail, tail ∈ word.tails → tail ≠ [] → ¬ tail <+: replacement ∧ ¬ replacement <+: tail)
    ⟨fun all => ⟨all.1, all.2.1, all.2.2.1, all.2.2.2⟩,
      fun apart => ⟨apart.some, apart.inside, apart.behind, apart.ahead⟩⟩

omit [DecidableEq α] in
theorem KeptOut.of_append {expected replacement result : List α}
    (apart : KeptOut expected replacement) (present : expected <:+: replacement ++ result) :
    expected <:+: result := by
  obtain ⟨before, after, whole⟩ := present
  rw [List.append_assoc, List.append_eq_append_iff] at whole
  rcases whole with ⟨part, new, rest⟩ | ⟨part, _, rest⟩
  · rcases List.append_eq_append_iff.mp rest with ⟨tail, same, _⟩ | ⟨tail, same, here⟩
    · exact absurd ⟨before, tail, by rw [new, same, List.append_assoc]⟩ apart.inside
    · cases part with
      | nil =>
          rw [same, here, List.nil_append]
          exact (List.prefix_append _ _).isInfix
      | cons symbol part =>
          have front := (List.mem_inits _ _).mpr ⟨tail, same.symm⟩
          exact absurd ⟨before, new.symm⟩ (apart.behind _ front (List.cons_ne_nil _ _))
  · exact ⟨part, after, by rw [rest, List.append_assoc]⟩

omit [DecidableEq α] in
/-- What is read at the start of the result is at the start of the text. -/
theorem Replaced.front_kept {old replacement text result word : List α}
    (apart : KeptOut word replacement) (replaced : Replaced old replacement text result)
    {tail : List α} (inside : tail <:+ word) (front : tail <+: result) : tail <+: text := by
  induction replaced generalizing tail with
  | nil => exact front
  | found later ih =>
      by_cases empty : tail = []
      · rw [empty]
        exact List.nil_prefix
      · have clear := apart.ahead tail ((List.mem_tails _ _).mpr inside) empty
        rcases List.prefix_or_prefix_of_prefix front (List.prefix_append _ _) with short | long
        · exact absurd short clear.1
        · exact absurd long clear.2
  | @missed symbol rest result _ later ih =>
      cases tail with
      | nil => exact List.nil_prefix
      | cons first tail =>
          obtain ⟨rfl, further⟩ := List.cons_prefix_cons.mp front
          have shorter : tail <:+ word := (List.suffix_cons _ _).trans inside
          exact List.cons_prefix_cons.mpr ⟨rfl, ih shorter further⟩

omit [DecidableEq α] in
/-- A word that is replaced everywhere, or was not there, is not in the result. -/
theorem Replaced.not_infix {old replacement text result word : List α}
    (apart : KeptOut word replacement) (replaced : Replaced old replacement text result)
    (absent : word = old ∨ ¬ word <:+: text) : ¬ word <:+: result := by
  induction replaced with
  | nil => exact fun present => apart.some (List.infix_nil.mp present)
  | found later ih =>
      intro present
      apply ih _ (apart.of_append present)
      exact absent.imp_right fun away inside => away (List.infix_append_of_infix_right inside)
  | @missed symbol rest result front later ih =>
      have further : word = old ∨ ¬ word <:+: rest :=
        absent.imp_right fun away inside => away (List.infix_cons inside)
      have here : ¬ word <+: symbol :: result := by
        intro start
        have original := (Replaced.missed front later).front_kept apart
          (List.suffix_refl _) start
        rcases absent with rfl | away
        · exact front original
        · exact away original.isInfix
      rw [List.infix_cons_iff, not_or]
      exact ⟨here, ih further⟩

/-! ### Several words -/

/-- Each word is replaced in turn. -/
def replaceAll (word : α → Bool) (words : List (List α × List α)) (line : List α) : List α :=
  words.foldl (fun line pair => substitute word (.plain (.literal pair.1) pair.2) line) line

theorem length_replaceAll {words : List (List α × List α)}
    (nonempty : ∀ pair, pair ∈ words → pair.1 ≠ [])
    (same : ∀ pair, pair ∈ words → pair.2.length = pair.1.length) (line : List α) :
    (replaceAll word words line).length = line.length := by
  induction words generalizing line with
  | nil => rfl
  | cons pair rest ih =>
      have replaced := @replaced_substituteFrom _ _ word _ (nonempty pair List.mem_cons_self)
        pair.2 none line
      have later := ih (fun other member => nonempty other (List.mem_cons_of_mem _ member))
        fun other member => same other (List.mem_cons_of_mem _ member)
      exact (later _).trans (replaced.length_eq (same pair List.mem_cons_self))

/-- No word that is replaced is left, nor one that was not there before. -/
theorem not_infix_replaceAll {words : List (List α × List α)} {expected : List α}
    (nonempty : ∀ pair, pair ∈ words → pair.1 ≠ [])
    (apart : ∀ pair, pair ∈ words → KeptOut expected pair.2) (line : List α)
    (absent : expected ∈ words.map Prod.fst ∨ ¬ expected <:+: line) :
    ¬ expected <:+: replaceAll word words line := by
  induction words generalizing line with
  | nil =>
      rcases absent with impossible | away
      · cases impossible
      · exact away
  | cons pair rest ih =>
      have replaced := @replaced_substituteFrom _ _ word _ (nonempty pair List.mem_cons_self)
        pair.2 none line
      apply ih (fun other member => nonempty other (List.mem_cons_of_mem _ member))
        fun other member => apart other (List.mem_cons_of_mem _ member)
      rcases absent with listed | away
      · rcases List.mem_cons.mp listed with here | later
        · exact .inr (replaced.not_infix (apart pair List.mem_cons_self) (.inl here))
        · exact .inl later
      · exact .inr (replaced.not_infix (apart pair List.mem_cons_self) (.inr away))

/-- A word inside lines is in a text only if it is in a line. -/
theorem not_infix_onLines {separator : α} {rewrite : List α → List α} {expected : List α}
    (some : expected ≠ []) (plain : separator ∉ expected)
    (absent : ∀ line, ¬ expected <:+: rewrite line) (text : List α) :
    ¬ expected <:+: onLines separator rewrite text := by
  have confined : ∀ symbol, symbol ∈ expected → decide (symbol = separator) = false := by
    intro symbol member
    rw [decide_eq_false_iff_not]
    intro same
    exact plain (same ▸ member)
  have all : ∀ lines : List (List α), ¬ expected <:+: joined separator (lines.map rewrite) := by
    intro lines
    induction lines with
    | nil => exact fun present => some (List.infix_nil.mp present)
    | cons first rest ih =>
        cases rest with
        | nil =>
            rw [List.map_cons, List.map_nil, joined, List.intercalate_singleton]
            exact absent first
        | cons second others =>
            rw [List.map_cons, List.map_cons, joined_cons_cons,
              @infix_append_blank _ (fun symbol => decide (symbol = separator)) _ confined
                separator (decide_eq_true rfl), not_or]
            exact ⟨absent first, ih⟩
  exact all (text.splitOn separator)

end Substitution

end SuperBootimg.LineRewriting
