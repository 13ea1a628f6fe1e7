/-
What the two substitutions of noverity make of any text. A word verify is taken out with a
comma before it and a value behind it, wherever it stands, and the value ends at the next comma
only. Then every ro that is a word of its own becomes rw.
-/

import SuperBootimg.Concrete.FstabLines

namespace SuperBootimg.Concrete.Fstab

open FieldSplitting RegularSearch WordPattern
open Sepolicy (Text isBlank)
open Initramfs (isWordSymbol)

def verifyWord : Text :=
  "verify".toList

def valueLength : Text → Nat
  | [] => 0
  | symbol :: rest =>
      if symbol = '=' then (rest.takeWhile fun symbol => symbol != ',').length + 1 else 0

def stripped (text : Text) : Text :=
  substitute isWordSymbol verifyRule text

/-- What may come before the word and is dropped with it. -/
def IsOpening (opening : Text) : Prop :=
  opening = [] ∨ opening = [',']

/-! ### The word verify -/

theorem mem_value {before : Option Char} {text : Text} {length : Nat} :
    length ∈ lengths isWordSymbol valuePattern before text ↔ length ≤ valueLength text := by
  unfold valuePattern
  rw [mem_optional, mem_seq]
  constructor
  · intro given
    rcases given with rfl | ⟨left, right, leftMember, rightMember, rfl⟩
    · exact Nat.zero_le _
    · obtain ⟨⟨rest, rfl⟩, rfl⟩ := mem_literal.mp leftMember
      have inside := mem_many.mp rightMember
      rw [List.drop_left] at inside
      change 1 + right ≤ (rest.takeWhile fun symbol => symbol != ',').length + 1
      omega
  · intro most
    cases text with
    | nil => exact .inl (Nat.le_zero.mp most)
    | cons symbol rest =>
        by_cases equals : symbol = '='
        · subst equals
          change length ≤ (rest.takeWhile fun symbol => symbol != ',').length + 1 at most
          cases length with
          | zero => exact .inl rfl
          | succ length =>
              right
              refine ⟨1, length, mem_literal.mpr ⟨⟨rest, rfl⟩, rfl⟩, ?_, Nat.add_comm _ _⟩
              exact mem_many.mpr (Nat.le_of_succ_le_succ most)
        · rw [valueLength, if_neg equals] at most
          exact .inl (Nat.le_zero.mp most)

theorem mem_verify {before : Option Char} {text : Text} {length : Nat} :
    length ∈ lengths isWordSymbol
        (.seq (.optional (.literal ",".toList)) (.seq (.literal "verify".toList) valuePattern))
        before text ↔
      ∃ opening rest, IsOpening opening ∧ text = opening ++ (verifyWord ++ rest) ∧
        opening.length + 6 ≤ length ∧ length ≤ opening.length + 6 + valueLength rest := by
  constructor
  · intro member
    obtain ⟨left, right, leftMember, rightMember, rfl⟩ := mem_seq.mp member
    obtain ⟨middle, last, middleMember, lastMember, rfl⟩ := mem_seq.mp rightMember
    obtain ⟨⟨rest, word⟩, rfl⟩ := mem_literal.mp middleMember
    rw [← word, List.drop_left, mem_value] at lastMember
    have six : "verify".toList.length = 6 := rfl
    rw [six]
    rcases mem_optional.mp leftMember with rfl | comma
    · refine ⟨[], rest, .inl rfl, word.symm, ?_, ?_⟩
      · rw [List.length_nil]
        omega
      · rw [List.length_nil]
        omega
    · obtain ⟨⟨behind, rfl⟩, rfl⟩ := mem_literal.mp comma
      rw [List.drop_left] at word
      refine ⟨[','], rest, .inr rfl, by rw [verifyWord, word]; rfl, ?_, ?_⟩
      · change 1 + 6 ≤ 1 + (6 + last)
        omega
      · change 1 + (6 + last) ≤ 1 + 6 + valueLength rest
        omega
  · intro given
    obtain ⟨opening, rest, open_, rfl, least, most⟩ := given
    have first : opening.length ∈ lengths isWordSymbol (.optional (.literal ",".toList)) before
        (opening ++ (verifyWord ++ rest)) := by
      rcases open_ with rfl | rfl
      · exact mem_optional.mpr (.inl rfl)
      · exact mem_optional.mpr (.inr (mem_literal.mpr ⟨List.prefix_append _ _, rfl⟩))
    refine mem_seq.mpr ⟨opening.length, length - opening.length, first, ?_, by omega⟩
    rw [List.drop_left]
    refine mem_seq.mpr ⟨6, length - opening.length - 6,
      mem_literal.mpr ⟨List.prefix_append _ _, rfl⟩, ?_, by omega⟩
    have six : verifyWord.length = 6 := rfl
    rw [← six, List.drop_left, mem_value, six]
    omega

theorem opening_unique {opening other rest behind : Text} (open_ : IsOpening opening)
    (otherOpen : IsOpening other)
    (same : opening ++ (verifyWord ++ rest) = other ++ (verifyWord ++ behind)) :
    opening = other ∧ rest = behind := by
  rcases open_ with rfl | rfl
  · rcases otherOpen with rfl | rfl
    · exact ⟨rfl, List.append_cancel_left same⟩
    · exact absurd (List.cons.inj same).1 (by decide)
  · rcases otherOpen with rfl | rfl
    · exact absurd (List.cons.inj same).1 (by decide)
    · exact ⟨rfl, List.append_cancel_left (List.append_cancel_left same)⟩

theorem verify_found {opening : Text} (open_ : IsOpening opening) (rest : Text)
    (before : Option Char) :
    verifyRule.found isWordSymbol before (opening ++ (verifyWord ++ rest)) =
      some (0, opening.length + 6 + valueLength rest) := by
  unfold verifyRule
  rw [found_plain, Option.map_eq_some_iff]
  refine ⟨_, longest_eq_some_iff.mpr ?_, rfl⟩
  refine ⟨mem_verify.mpr ⟨opening, rest, open_, rfl, Nat.le_add_right _ _, Nat.le_refl _⟩, ?_⟩
  intro length member
  obtain ⟨other, behind, otherOpen, same, _, most⟩ := mem_verify.mp member
  obtain ⟨rfl, rfl⟩ := opening_unique open_ otherOpen same
  exact most

theorem verify_missed {text : Text}
    (absent : ∀ opening, IsOpening opening → ¬ opening ++ verifyWord <+: text)
    (before : Option Char) : verifyRule.found isWordSymbol before text = none := by
  unfold verifyRule
  rw [found_plain, Option.map_eq_none_iff, longest_eq_none_iff]
  intro length member
  obtain ⟨opening, rest, open_, rfl, _, _⟩ := mem_verify.mp member
  apply absent opening open_
  rw [← List.append_assoc]
  exact List.prefix_append _ _

theorem opening_or_absent (text : Text) :
    (∃ opening rest, IsOpening opening ∧ text = opening ++ (verifyWord ++ rest)) ∨
      ∀ opening, IsOpening opening → ¬ opening ++ verifyWord <+: text := by
  by_cases some : ∃ opening, IsOpening opening ∧ opening ++ verifyWord <+: text
  · obtain ⟨opening, open_, rest, same⟩ := some
    exact .inl ⟨opening, rest, open_, by rw [← same, List.append_assoc]⟩
  · exact .inr fun opening open_ front => some ⟨opening, open_, front⟩

/-! ### The text piece by piece -/

/-- The symbol before a text does not matter. -/
theorem stripped_from (before : Option Char) (text : Text) :
    substituteFrom isWordSymbol verifyRule 0 before text = stripped text := by
  unfold stripped substitute
  cases text with
  | nil => rfl
  | cons symbol rest =>
      have same : verifyRule.found isWordSymbol before (symbol :: rest) =
          verifyRule.found isWordSymbol none (symbol :: rest) := by
        rcases opening_or_absent (symbol :: rest) with ⟨opening, behind, open_, split⟩ | absent
        · rw [split, verify_found open_, verify_found open_]
        · rw [verify_missed absent, verify_missed absent]
      unfold substituteFrom
      rw [same]

theorem stripped_found {opening : Text} (open_ : IsOpening opening) (rest : Text) :
    stripped (opening ++ (verifyWord ++ rest)) = stripped (rest.drop (valueLength rest)) := by
  have found := verify_found open_ rest none
  have some : opening ++ (verifyWord ++ rest) ≠ [] :=
    List.append_ne_nil_of_right_ne_nil _ (List.append_ne_nil_of_left_ne_nil (by decide) _)
  have drop : (opening ++ (verifyWord ++ rest)).drop (opening.length + 6 + valueLength rest) =
      rest.drop (valueLength rest) := by
    have six : verifyWord.length = 6 := rfl
    rw [Nat.add_assoc, ← List.drop_drop, List.drop_left, ← List.drop_drop, ← six, List.drop_left]
  unfold stripped substitute
  rw [substitute_found found (by omega) some, drop, stripped_from]
  rfl

theorem stripped_missed {symbol : Char} {rest : Text}
    (absent : ∀ opening, IsOpening opening → ¬ opening ++ verifyWord <+: symbol :: rest) :
    stripped (symbol :: rest) = symbol :: stripped rest := by
  have missed := verify_missed absent none
  unfold stripped substitute
  rw [substitute_missed, stripped_from]
  · rfl
  · intro group whole found
    rw [missed] at found
    cases found

/-- Induction along the substitution. -/
theorem stripped_induction {motive : Text → Prop} (nil : motive [])
    (found : ∀ opening rest, IsOpening opening → motive (rest.drop (valueLength rest)) →
      motive (opening ++ (verifyWord ++ rest)))
    (missed : ∀ symbol rest,
      (∀ opening, IsOpening opening → ¬ opening ++ verifyWord <+: symbol :: rest) →
        motive rest → motive (symbol :: rest)) (text : Text) : motive text := by
  induction size : text.length using Nat.strong_induction_on generalizing text with
  | _ size ih =>
      rcases opening_or_absent text with ⟨opening, rest, open_, rfl⟩ | absent
      · apply found opening rest open_
        apply ih _ _ _ rfl
        have six : verifyWord.length = 6 := rfl
        rw [List.length_append, List.length_append, six] at size
        rw [List.length_drop]
        omega
      · cases text with
        | nil => exact nil
        | cons symbol rest =>
            apply missed symbol rest absent
            apply ih _ _ _ rfl
            rw [List.length_cons] at size
            omega

theorem valueLength_le (text : Text) : valueLength text ≤ text.length := by
  cases text with
  | nil => exact Nat.le_refl _
  | cons symbol rest =>
      have inside : (rest.takeWhile fun symbol => symbol != ',').length ≤ rest.length :=
        (List.takeWhile_sublist _).length_le
      rw [valueLength, List.length_cons]
      split <;> omega

/-- A value ends where the piece does, or runs on to the next comma. -/
theorem valueLength_append {piece : Text} {symbol : Char} (different : symbol ≠ '=')
    (rest : Text) :
    valueLength (piece ++ symbol :: rest) = valueLength piece ∨
      symbol ≠ ',' ∧ (piece ++ symbol :: rest).drop (valueLength (piece ++ symbol :: rest)) =
        rest.dropWhile fun symbol => symbol != ',' := by
  cases piece with
  | nil =>
      left
      change (if symbol = '=' then _ else 0) = 0
      exact if_neg different
  | cons first others =>
      rw [List.cons_append, valueLength, valueLength]
      by_cases equals : first = '='
      · rw [if_pos equals, if_pos equals, List.takeWhile_append]
        split
        · rename_i whole
          have same := (List.takeWhile_sublist fun symbol => symbol != ',').eq_of_length whole
          by_cases comma : symbol = ','
          · left
            rw [comma, same, List.takeWhile_cons_of_neg (by decide), List.append_nil]
          · right
            refine ⟨comma, ?_⟩
            have parts := @List.takeWhile_append_dropWhile _ (fun symbol => symbol != ',') rest
            have taken : (symbol :: rest).takeWhile (fun symbol => symbol != ',') =
                symbol :: rest.takeWhile (fun symbol => symbol != ',') :=
              List.takeWhile_cons_of_pos (bne_iff_ne.mpr comma)
            rw [taken, List.drop_succ_cons]
            generalize rest.takeWhile (fun symbol => symbol != ',') = value at parts ⊢
            generalize rest.dropWhile (fun symbol => symbol != ',') = remainder at parts ⊢
            rw [← parts, ← List.cons_append, ← List.append_assoc, List.drop_left]
        · exact .inl rfl
      · rw [if_neg equals, if_neg equals]
        exact .inl rfl

theorem stripped_nil : stripped [] = [] :=
  rfl

theorem stripped_subset (text : Text) : ∀ symbol, symbol ∈ stripped text → symbol ∈ text := by
  induction text using stripped_induction with
  | nil => exact fun _ member => member
  | found opening rest open_ ih =>
      intro symbol member
      rw [stripped_found open_] at member
      have remaining := List.mem_of_mem_drop (ih symbol member)
      exact List.mem_append_right _ (List.mem_append_right _ remaining)
  | missed symbol rest absent ih =>
      intro other member
      rw [stripped_missed absent] at member
      rcases List.mem_cons.mp member with rfl | later
      · exact List.mem_cons_self
      · exact List.mem_cons_of_mem _ (ih other later)

/-- The pieces between commas are treated on their own, -/
theorem stripped_append_comma {piece : Text} (plain : ',' ∉ piece) (rest : Text) :
    stripped (piece ++ ',' :: rest) = stripped piece ++ stripped (',' :: rest) := by
  induction piece using stripped_induction with
  | nil => rfl
  | found opening behind open_ ih =>
      rcases open_ with rfl | rfl
      · have later : ',' ∉ behind := fun member =>
          plain (List.mem_append_right _ (List.mem_append_right _ member))
        have length := (@valueLength_append behind ',' (by decide) rest).resolve_right
          fun other => other.1 rfl
        have parts := stripped_found (.inl rfl : IsOpening []) (behind ++ ',' :: rest)
        rw [length, List.drop_append_of_le_length (valueLength_le behind)] at parts
        rw [stripped_found (.inl rfl), ← ih fun member => later (List.mem_of_mem_drop member),
          ← parts]
        simp only [List.append_assoc]
      · exact absurd (List.mem_append_left _ List.mem_cons_self) plain
  | missed symbol others absent ih =>
      have later : ',' ∉ others := fun member => plain (List.mem_cons_of_mem _ member)
      rw [List.cons_append, stripped_missed, stripped_missed absent, ih later, List.cons_append]
      intro opening open_ front
      rcases open_ with rfl | rfl
      · apply absent [] (.inl rfl)
        exact (prefix_append_separator (by decide : ',' ∉ [] ++ verifyWord) (symbol :: others)
          rest).mp front
      · apply plain
        rw [(List.cons_prefix_cons.mp front).1]
        exact List.mem_cons_self

/-- and a comma goes with the word behind it. -/
theorem stripped_comma {text : Text} (front : verifyWord <+: text) :
    stripped (',' :: text) = stripped text := by
  obtain ⟨rest, rfl⟩ := front
  have behind := stripped_found (.inr rfl : IsOpening [',']) rest
  have here := stripped_found (.inl rfl : IsOpening []) rest
  exact behind.trans here.symm

theorem stripped_comma_kept {text : Text} (absent : ¬ verifyWord <+: text) :
    stripped (',' :: text) = ',' :: stripped text := by
  apply stripped_missed
  intro opening open_ front
  rcases open_ with rfl | rfl
  · exact absurd (List.cons_prefix_cons.mp front).1 (by decide)
  · exact absent (List.cons_prefix_cons.mp front).2

theorem stripped_plain {text : Text} (plain : ¬ verifyWord <:+: text) : stripped text = text := by
  induction text using stripped_induction with
  | nil => rfl
  | found opening rest open_ ih => exact absurd ⟨opening, rest, List.append_assoc _ _ _⟩ plain
  | missed symbol rest absent ih =>
      rw [List.infix_cons_iff, not_or] at plain
      rw [stripped_missed absent, ih plain.2]

/-- Where the word stands, at least that much is taken out. -/
theorem stripped_length (text : Text) :
    (stripped text).length ≤ text.length ∧
      (verifyWord <:+: text → (stripped text).length + 6 ≤ text.length) := by
  induction text using stripped_induction with
  | nil => exact ⟨Nat.le_refl _, fun present => absurd (List.infix_nil.mp present) (by decide)⟩
  | found opening rest open_ ih =>
      have six : verifyWord.length = 6 := rfl
      have shorter := ih.1
      rw [List.length_drop] at shorter
      rw [stripped_found open_, List.length_append, List.length_append, six]
      exact ⟨by omega, fun _ => by omega⟩
  | missed symbol rest absent ih =>
      rw [stripped_missed absent, List.length_cons, List.length_cons]
      refine ⟨Nat.succ_le_succ ih.1, fun present => ?_⟩
      rw [List.infix_cons_iff] at present
      have less := ih.2 (present.resolve_left (absent [] (.inl rfl)))
      omega

theorem absent_append_blank {text : Text} {separator : Char} (blank : isBlank separator = true)
    (absent : ∀ opening, IsOpening opening → ¬ opening ++ verifyWord <+: text) (rest : Text) :
    ∀ opening, IsOpening opening → ¬ opening ++ verifyWord <+: text ++ separator :: rest := by
  intro opening open_ front
  have confined : ∀ symbol, symbol ∈ opening ++ verifyWord → isBlank symbol = false := by
    rcases open_ with rfl | rfl
    · exact plain_of_all rfl
    · exact plain_of_all rfl
  exact absent opening open_ ((prefix_append_blank confined blank text rest).mp front)

theorem absent_nil : ∀ opening, IsOpening opening → ¬ opening ++ verifyWord <+: [] := by
  intro opening _ front
  exact absurd (List.append_eq_nil_iff.mp (List.prefix_nil.mp front)).2 (by decide)

/-- White space stays where it is if the word is not before it, -/
theorem stripped_front {front : Text} (plain : ¬ verifyWord <:+: front) {separator : Char}
    (blank : isBlank separator = true) (rest : Text) :
    stripped (front ++ separator :: rest) = front ++ separator :: stripped rest := by
  induction front with
  | nil => exact stripped_missed (absent_append_blank blank absent_nil rest)
  | cons symbol front ih =>
      have absent : ∀ opening, IsOpening opening →
          ¬ opening ++ verifyWord <+: symbol :: front := by
        intro opening _ begins
        exact plain ((List.suffix_append _ _).isInfix.trans begins.isInfix)
      have kept : stripped (symbol :: (front ++ separator :: rest)) =
          symbol :: stripped (front ++ separator :: rest) :=
        stripped_missed (absent_append_blank blank absent rest)
      rw [List.infix_cons_iff, not_or] at plain
      rw [List.cons_append, kept, ih plain.2, List.cons_append]

theorem stripped_dropWhile_length (text : Text) :
    (stripped (text.dropWhile fun symbol => symbol != ',')).length ≤ (stripped text).length := by
  have parts := @List.takeWhile_append_dropWhile _ (fun symbol => symbol != ',') text
  have plain : ',' ∉ text.takeWhile fun symbol => symbol != ',' := by
    intro member
    exact absurd (List.mem_takeWhile_imp member) (by decide)
  cases shape : text.dropWhile (fun symbol => symbol != ',') with
  | nil => exact Nat.zero_le _
  | cons symbol rest =>
      have comma : symbol = ',' := by
        have head := List.head?_dropWhile_not (fun symbol => symbol != ',') text
        rw [shape] at head
        exact bne_eq_false_iff_eq.mp head
      subst comma
      rw [shape] at parts
      rw [← parts, stripped_append_comma plain, List.length_append]
      exact Nat.le_add_left _ _

/-- and in any case not more than a value with the white space in it is lost. -/
theorem stripped_blank_length {separator : Char} (blank : isBlank separator = true)
    (front back : Text) :
    (stripped (front ++ separator :: back)).length ≤
      (stripped front).length + 1 + (stripped back).length := by
  induction front using stripped_induction with
  | nil =>
      rw [List.nil_append, stripped_missed (absent_append_blank blank absent_nil back),
        List.length_cons]
      exact Nat.le_of_eq (by rw [stripped_nil, List.length_nil]; omega)
  | found opening rest open_ ih =>
      have different : separator ≠ '=' := by
        intro same
        rw [same] at blank
        exact absurd blank (by decide)
      have parts := stripped_found open_ (rest ++ separator :: back)
      rw [stripped_found open_]
      simp only [List.append_assoc] at parts ⊢
      rw [parts]
      rcases @valueLength_append rest separator different back with same | ⟨_, beyond⟩
      · rw [same, List.drop_append_of_le_length (valueLength_le rest)]
        exact ih
      · rw [beyond]
        have most := stripped_dropWhile_length back
        omega
  | missed symbol rest absent ih =>
      have kept : stripped (symbol :: (rest ++ separator :: back)) =
          symbol :: stripped (rest ++ separator :: back) :=
        stripped_missed (absent_append_blank blank absent back)
      rw [stripped_missed absent, List.cons_append, kept, List.length_cons, List.length_cons]
      omega

/-! ### The word ro -/

def roWord : Text :=
  "ro".toList

def rewritten (text : Text) : Text :=
  substitute isWordSymbol roRule text

/-- A word of its own, between symbols of no word. -/
def HasRo (text : Text) : Prop :=
  ∃ front back, text = front ++ (roWord ++ back) ∧ front.getLast?.any isWordSymbol = false ∧
    back.head?.any isWordSymbol = false

theorem mem_ro {before : Option Char} {text : Text} {length : Nat} :
    length ∈ lengths isWordSymbol roPattern before text ↔
      ∃ rest, text = roWord ++ rest ∧ before.any isWordSymbol = false ∧
        rest.head?.any isWordSymbol = false ∧ length = 2 := by
  unfold roPattern
  rw [mem_bounded]
  constructor
  · intro given
    obtain ⟨rest, rfl, edgeBefore, edgeBehind, same⟩ := given
    exact ⟨rest, rfl, (edge_before_word rfl).mp edgeBefore, (edge_behind_word rfl).mp edgeBehind,
      same⟩
  · intro given
    obtain ⟨rest, rfl, noneBefore, noneBehind, same⟩ := given
    exact ⟨rest, rfl, (edge_before_word rfl).mpr noneBefore,
      (edge_behind_word rfl).mpr noneBehind, same⟩

theorem occurs_ro_iff (text : Text) :
    occurs isWordSymbol roPattern none text = true ↔ HasRo text := by
  rw [occurs_iff]
  unfold HasRo
  constructor
  · intro given
    obtain ⟨front, rest, length, rfl, member⟩ := given
    obtain ⟨back, rfl, noneBefore, noneBehind, _⟩ := mem_ro.mp member
    rw [Option.or_none] at noneBefore
    exact ⟨front, back, rfl, noneBefore, noneBehind⟩
  · intro given
    obtain ⟨front, back, rfl, noneBefore, noneBehind⟩ := given
    refine ⟨front, roWord ++ back, 2, rfl, mem_ro.mpr ⟨back, rfl, ?_, noneBehind, rfl⟩⟩
    rw [Option.or_none]
    exact noneBefore

/-- Where the text begins the word is found, or the first symbol stays. -/
theorem ro_cases (before : Option Char) (symbol : Char) (rest : Text) :
    (∃ back, symbol :: rest = roWord ++ back ∧
        substituteFrom isWordSymbol roRule 0 before (symbol :: rest) =
          "rw".toList ++ substituteFrom isWordSymbol roRule 0 (some 'o') back) ∨
      lengths isWordSymbol roPattern before (symbol :: rest) = [] ∧
        substituteFrom isWordSymbol roRule 0 before (symbol :: rest) =
          symbol :: substituteFrom isWordSymbol roRule 0 (some symbol) rest := by
  by_cases some : ∃ length, length ∈ lengths isWordSymbol roPattern before (symbol :: rest)
  · obtain ⟨length, member⟩ := some
    obtain ⟨back, split, noneBefore, noneBehind, rfl⟩ := mem_ro.mp member
    left
    refine ⟨back, split, ?_⟩
    have found : roRule.found isWordSymbol before (symbol :: rest) = Option.some (0, 2) := by
      unfold roRule
      rw [found_plain, Option.map_eq_some_iff]
      refine ⟨2, longest_eq_some_iff.mpr ⟨member, ?_⟩, rfl⟩
      intro other inside
      obtain ⟨_, _, _, _, rfl⟩ := mem_ro.mp inside
      exact Nat.le_refl _
    rw [substitute_found found (by decide) (List.cons_ne_nil _ _), split]
    rfl
  · right
    have none : lengths isWordSymbol roPattern before (symbol :: rest) = [] :=
      List.eq_nil_iff_forall_not_mem.mpr fun length member => some ⟨length, member⟩
    refine ⟨none, substitute_missed ?_⟩
    intro group whole found
    unfold roRule at found
    rw [found_plain, longest, none] at found
    cases found

/-- Only a letter is exchanged for another one. -/
theorem rewritten_map {β : Type} {value : Char → β} (same : value 'w' = value 'o')
    (text : Text) : (rewritten text).map value = text.map value := by
  suffices general : ∀ (size : Nat) (before : Option Char) (text : Text), text.length ≤ size →
      (substituteFrom isWordSymbol roRule 0 before text).map value = text.map value from
    general text.length none text (Nat.le_refl _)
  intro size
  induction size with
  | zero =>
      intro before text bound
      rw [List.length_eq_zero_iff.mp (Nat.le_zero.mp bound)]
      rfl
  | succ size ih =>
      intro before text bound
      cases text with
      | nil => rfl
      | cons symbol rest =>
          rcases ro_cases before symbol rest with ⟨back, split, result⟩ | ⟨_, result⟩
          · rw [result, split]
            have shorter := congrArg List.length split
            have two : roWord.length = 2 := rfl
            rw [List.length_append, two] at shorter
            rw [List.map_append, List.map_append, ih _ back (by omega)]
            change value 'r' :: value 'w' :: _ = value 'r' :: value 'o' :: _
            rw [same]
          · rw [result, List.map_cons, List.map_cons, ih _ rest (Nat.le_of_succ_le_succ bound)]

theorem rewritten_eq_iff (text : Text) : rewritten text = text ↔ ¬ HasRo text := by
  rw [← occurs_ro_iff]
  constructor
  · intro same present
    suffices general : ∀ (text : Text) (before : Option Char),
        occurs isWordSymbol roPattern before text = true →
          substituteFrom isWordSymbol roRule 0 before text ≠ text from
      general text none present same
    intro text
    induction text with
    | nil =>
        intro before present
        rw [occurs, Bool.not_eq_true', List.isEmpty_eq_false_iff_exists_mem] at present
        obtain ⟨length, member⟩ := present
        have short := length_le member
        obtain ⟨_, _, _, _, rfl⟩ := mem_ro.mp member
        exact absurd short (by decide)
    | cons symbol rest ih =>
        intro before present equal
        rcases ro_cases before symbol rest with ⟨back, split, result⟩ | ⟨none, result⟩
        · rw [result, split] at equal
          exact absurd (List.cons.inj (List.cons.inj equal).2).1 (by decide)
        · rw [occurs, none, List.isEmpty_nil, Bool.not_true, Bool.false_or] at present
          rw [result] at equal
          exact ih _ present (List.cons.inj equal).2
  · intro absent
    apply substitute_kept
    intro present
    apply absent
    obtain ⟨front, rest, length, rfl, member⟩ := occurs_iff.mp present
    obtain ⟨left, right, leftMember, rightMember, rfl⟩ := mem_seq.mp member
    obtain ⟨_, rfl⟩ := mem_literal.mp leftMember
    exact occurs_iff.mpr ⟨front, rest, right, rfl, rightMember⟩

/-- A symbol of no word separates what is rewritten. -/
theorem rewritten_append {separator : Char} (plain : isWordSymbol separator = false)
    (front back : Text) :
    rewritten (front ++ separator :: back) = rewritten front ++ separator :: rewritten back := by
  have word : ∀ symbol, symbol ∈ roWord → (!isWordSymbol symbol) = false := by
    intro symbol member
    have isWord : isWordSymbol symbol = true := List.all_eq_true.mp rfl symbol member
    rw [isWord]
    rfl
  have confined : roPattern.Confined fun symbol => !isWordSymbol symbol :=
    ⟨trivial, word, trivial⟩
  have separates : (!isWordSymbol separator) = true := by
    rw [plain]
    rfl
  exact substitute_append_blank
    (fun symbol other => by rwa [Bool.not_eq_true'] at other) confined _ separates
    (Nat.zero_le _) none back

end SuperBootimg.Concrete.Fstab
