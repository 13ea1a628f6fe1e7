/-
Searching a text for a pattern of symbols and wildcards between word boundaries. A
boundary is between a symbol of a word and one of none; outside the text there is none.
-/

import Mathlib.Data.List.Forall2

namespace SuperBootimg.WordPattern

variable {α : Type} [DecidableEq α]

inductive Element (α : Type)
  | literal (symbol : α)
  | any
  deriving DecidableEq

def Element.accepts : Element α → α → Bool
  | .literal expected, symbol => expected == symbol
  | .any, _ => true

def matchesFront : List (Element α) → List α → Bool
  | [], _ => true
  | _ :: _, [] => false
  | element :: pattern, symbol :: text => element.accepts symbol && matchesFront pattern text

section Search

variable (word : α → Bool) (pattern : List (Element α))

def edge (before after : Option α) : Bool :=
  before.any word != after.any word

def foundHere (before : Option α) (text : List α) : Bool :=
  edge word before text.head? && matchesFront pattern text &&
    edge word ((text.take pattern.length).getLast?.or before) (text.drop pattern.length).head?

def foundFrom : Option α → List α → Bool
  | before, [] => foundHere word pattern before []
  | before, symbol :: rest =>
      foundHere word pattern before (symbol :: rest) || foundFrom (some symbol) rest

def found (text : List α) : Bool :=
  foundFrom word pattern none text

/-- Some part of the text behind `before` matches, with a boundary on both sides. -/
def OccursFrom (before : Option α) (text : List α) : Prop :=
  ∃ front middle back, text = front ++ (middle ++ back) ∧
    List.Forall₂ (fun element symbol => element.accepts symbol = true) pattern middle ∧
    edge word (front.getLast?.or before) (middle ++ back).head? = true ∧
    edge word ((front ++ middle).getLast?.or before) back.head? = true

end Search

variable {word : α → Bool} {pattern : List (Element α)}

/-! ### Boundaries -/

omit [DecidableEq α] in
theorem edge_before_word {before after : Option α} (isWord : after.any word = true) :
    edge word before after = true ↔ before.any word = false := by
  unfold edge
  rw [isWord, bne_iff_ne, ne_eq, Bool.not_eq_true]

omit [DecidableEq α] in
theorem edge_before_plain {before after : Option α} (plain : after.any word = false) :
    edge word before after = true ↔ before.any word = true := by
  unfold edge
  rw [plain, bne_iff_ne, ne_eq, Bool.not_eq_false]

omit [DecidableEq α] in
theorem edge_behind_word {before after : Option α} (isWord : before.any word = true) :
    edge word before after = true ↔ after.any word = false := by
  unfold edge
  rw [isWord, bne_iff_ne, ne_comm, ne_eq, Bool.not_eq_true]

/-! ### The search -/

theorem matchesFront_iff {text : List α} :
    matchesFront pattern text = true ↔ pattern.length ≤ text.length ∧
      List.Forall₂ (fun element symbol => element.accepts symbol = true) pattern
        (text.take pattern.length) := by
  induction pattern generalizing text with
  | nil =>
      rw [List.length_nil, List.take_zero]
      exact iff_of_true rfl ⟨Nat.zero_le _, List.Forall₂.nil⟩
  | cons element pattern ih =>
      cases text with
      | nil =>
          refine iff_of_false Bool.false_ne_true ?_
          intro given
          exact absurd given.1 (Nat.not_succ_le_zero _)
      | cons symbol rest =>
          rw [matchesFront, Bool.and_eq_true, ih, List.length_cons, List.length_cons,
            List.take_succ_cons, List.forall₂_cons, Nat.succ_le_succ_iff]
          exact and_left_comm

theorem foundHere_iff {before : Option α} {text : List α} :
    foundHere word pattern before text = true ↔ ∃ middle back, text = middle ++ back ∧
      List.Forall₂ (fun element symbol => element.accepts symbol = true) pattern middle ∧
      edge word before (middle ++ back).head? = true ∧
      edge word (middle.getLast?.or before) back.head? = true := by
  unfold foundHere
  rw [Bool.and_eq_true, Bool.and_eq_true, matchesFront_iff]
  constructor
  · intro given
    obtain ⟨⟨opening, _, accepted⟩, closing⟩ := given
    refine ⟨text.take pattern.length, text.drop pattern.length,
      (List.take_append_drop _ _).symm, accepted, ?_, closing⟩
    rw [List.take_append_drop]
    exact opening
  · intro given
    obtain ⟨middle, back, rfl, accepted, opening, closing⟩ := given
    rw [accepted.length_eq, List.take_left, List.drop_left]
    rw [List.length_append]
    exact ⟨⟨opening, Nat.le_add_right _ _, accepted⟩, closing⟩

theorem foundFrom_iff {before : Option α} {text : List α} :
    foundFrom word pattern before text = true ↔ OccursFrom word pattern before text := by
  unfold OccursFrom
  induction text generalizing before with
  | nil =>
      rw [foundFrom, foundHere_iff]
      constructor
      · intro given
        obtain ⟨middle, back, split, rest⟩ := given
        exact ⟨[], middle, back, split, rest⟩
      · intro given
        obtain ⟨front, middle, back, split, rest⟩ := given
        cases front with
        | nil => exact ⟨middle, back, split, rest⟩
        | cons symbol others => cases split
  | cons symbol text ih =>
      have last : ∀ front : List α,
          (symbol :: front).getLast?.or before = front.getLast?.or (some symbol) := by
        intro front
        rw [List.getLast?_cons]
        cases front.getLast? <;> rfl
      rw [foundFrom, Bool.or_eq_true, foundHere_iff, ih]
      constructor
      · intro given
        rcases given with ⟨middle, back, split, rest⟩ | ⟨front, middle, back, split, accepted, rest⟩
        · exact ⟨[], middle, back, split, rest⟩
        · refine ⟨symbol :: front, middle, back, by rw [split]; rfl, accepted, ?_⟩
          rw [last, List.cons_append, last]
          exact rest
      · intro given
        obtain ⟨front, middle, back, split, accepted, rest⟩ := given
        cases front with
        | nil => exact .inl ⟨middle, back, split, accepted, rest⟩
        | cons first others =>
            rw [List.cons_append] at split
            obtain ⟨same, tail⟩ := List.cons.inj split
            subst same
            rw [last, List.cons_append, last] at rest
            exact .inr ⟨others, middle, back, tail, accepted, rest⟩

/-- What has been found stays found when more is written behind a symbol of no word. -/
theorem found_append {text : List α} (present : found word pattern text = true) {separator : α}
    (plain : word separator = false) (more : List α) :
    found word pattern (text ++ separator :: more) = true := by
  have kept : ∀ part : List α,
      (part ++ separator :: more).head?.any word = part.head?.any word := by
    intro part
    cases part with
    | nil => exact plain
    | cons symbol others => rfl
  unfold found at present ⊢
  rw [foundFrom_iff] at present ⊢
  obtain ⟨front, middle, back, rfl, accepted, opening, closing⟩ := present
  refine ⟨front, middle, back ++ separator :: more, by simp only [List.append_assoc], accepted,
    ?_, ?_⟩
  · unfold edge at opening ⊢
    rw [← List.append_assoc, kept]
    exact opening
  · unfold edge at closing ⊢
    rw [kept]
    exact closing

/-- A word that matches is found where it stands between symbols of no word. -/
theorem found_word {front middle back : List α}
    (accepted : List.Forall₂ (fun element symbol => element.accepts symbol = true) pattern middle)
    (first : middle.head?.any word = true) (last : middle.getLast?.any word = true)
    (before : front.getLast?.any word = false) (behind : back.head?.any word = false) :
    found word pattern (front ++ (middle ++ back)) = true := by
  unfold found
  rw [foundFrom_iff]
  obtain ⟨symbol, rest, rfl⟩ : ∃ symbol rest, middle = symbol :: rest := by
    cases middle with
    | nil => cases first
    | cons symbol rest => exact ⟨symbol, rest, rfl⟩
  refine ⟨front, symbol :: rest, back, rfl, accepted, ?_, ?_⟩
  · rw [Option.or_none]
    exact (edge_before_word first).mpr before
  · rw [Option.or_none, List.getLast?_append_of_ne_nil _ (List.cons_ne_nil _ _)]
    exact (edge_behind_word last).mpr behind

end SuperBootimg.WordPattern
