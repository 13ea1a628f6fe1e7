/-
Reading a text by a format, as scanf does. White space in the format passes over any
blanks, a literal is matched, numbers and words are converted behind leading blanks.
The first directive that does not match ends the conversion.
-/

import Mathlib.Data.List.DropRight
import SuperBootimg.FieldSplitting

namespace SuperBootimg.FormatScan

open FieldSplitting

def isSpace (symbol : Char) : Bool :=
  symbol ∈ [' ', '\t', '\n', '\x0b', '\x0c', '\r']

inductive Directive
  | space
  | literal (symbol : Char)
  /-- `%d` and `%u`, whose targets take the value in their own width. -/
  | integer
  /-- `%<width>s` -/
  | word (width : Nat)
  deriving DecidableEq

inductive Value
  | integer (value : Int)
  | word (text : List Char)
  deriving DecidableEq

def signed : List Char → Bool × List Char
  | '-' :: rest => (true, rest)
  | '+' :: rest => (false, rest)
  | text => (false, text)

def scanDigits (text : List Char) : Option (Nat × List Char) :=
  let digits := text.takeWhile Char.isDigit
  if digits = [] then none
  else some (Nat.ofDigitChars 10 digits 0, text.dropWhile Char.isDigit)

def scanInteger (text : List Char) : Option (Int × List Char) :=
  let (negative, digits) := signed (text.dropWhile isSpace)
  (scanDigits digits).map fun (number, rest) =>
    (if negative then -(number : Int) else number, rest)

def scanWord (width : Nat) (text : List Char) : Option (List Char × List Char) :=
  let rest := text.dropWhile isSpace
  let word := (rest.takeWhile fun symbol => !isSpace symbol).take width
  if word = [] then none else some (word, rest.drop word.length)

/-- The values converted before the format ends or a directive does not match. -/
def scan : List Directive → List Char → List Value
  | [], _ => []
  | .space :: format, text => scan format (text.dropWhile isSpace)
  | .literal symbol :: format, text =>
      match text with
      | first :: rest => if first = symbol then scan format rest else []
      | [] => []
  | .integer :: format, text =>
      match scanInteger text with
      | some (value, rest) => .integer value :: scan format rest
      | none => []
  | .word width :: format, text =>
      match scanWord width text with
      | some (word, rest) => .word word :: scan format rest
      | none => []

section Directives

variable {format : List Directive} {text rest : List Char}

theorem scan_space : scan (.space :: format) text = scan format (text.dropWhile isSpace) :=
  rfl

theorem scan_literal (symbol : Char) :
    scan (.literal symbol :: format) (symbol :: rest) = scan format rest := by
  simp only [scan, if_true]

theorem scan_integer {value : Int} (found : scanInteger text = some (value, rest)) :
    scan (.integer :: format) text = .integer value :: scan format rest := by
  simp only [scan, found]

theorem scan_word {width : Nat} {word : List Char}
    (found : scanWord width text = some (word, rest)) :
    scan (.word width :: format) text = .word word :: scan format rest := by
  simp only [scan, found]

end Directives

/-! ### Words -/

variable {width : Nat} {text : List Char}

theorem takeWhile_field {word rest : List Char}
    (plain : ∀ symbol, symbol ∈ word → isSpace symbol = false) (ends : Ends isSpace rest) :
    (word ++ rest).takeWhile (fun symbol => !isSpace symbol) = word := by
  rw [List.takeWhile_append_of_pos (by
    intro symbol member
    rw [plain symbol member]
    rfl)]
  cases rest with
  | nil => rw [List.takeWhile_nil, List.append_nil]
  | cons symbol others =>
      rw [List.takeWhile_cons_of_neg (by rw [ends symbol others rfl]; exact Bool.false_ne_true),
        List.append_nil]

theorem dropWhile_field {word rest : List Char} (nonempty : word ≠ [])
    (plain : ∀ symbol, symbol ∈ word → isSpace symbol = false) :
    (word ++ rest).dropWhile isSpace = word ++ rest := by
  cases word with
  | nil => exact absurd rfl nonempty
  | cons symbol others =>
      have first := plain symbol List.mem_cons_self
      exact List.dropWhile_cons_of_neg (by rw [first]; exact Bool.false_ne_true)

/-- A conversion takes as much of the leading field as its width allows. -/
theorem scanWord_field {word rest : List Char} (positive : 0 < width) (nonempty : word ≠ [])
    (plain : ∀ symbol, symbol ∈ word → isSpace symbol = false) (ends : Ends isSpace rest)
    (shape : text.dropWhile isSpace = word ++ rest) :
    scanWord width text = some (word.take width, word.drop width ++ rest) := by
  have some : word.take width ≠ [] := by
    rw [ne_eq, List.take_eq_nil_iff]
    rintro (impossible | empty)
    · omega
    · exact nonempty empty
  unfold scanWord
  simp only [shape, takeWhile_field plain ends]
  rw [if_neg some, List.length_take]
  congr 2
  by_cases long : width ≤ word.length
  · rw [Nat.min_eq_left long, List.drop_append_of_le_length long]
  · rw [Nat.min_eq_right (by omega), List.drop_left, List.drop_eq_nil_of_le (by omega),
      List.nil_append]

theorem scanWord_eq_none_iff (positive : 0 < width) :
    scanWord width text = none ↔ fields isSpace text = [] := by
  rcases leading_field isSpace text with ⟨blank, none⟩ |
    ⟨word, rest, shape, nonempty, plain, ends, split⟩
  · rw [none]
    unfold scanWord
    rw [blank]
    exact iff_of_true (if_pos List.take_nil) rfl
  · rw [scanWord_field positive nonempty plain ends shape, split]
    exact iff_of_false (Option.some_ne_none _) (List.cons_ne_nil _ _)

/-- A conversion leaves no word behind exactly when it takes the only one as a whole. -/
theorem scanWord_last_iff {word rest : List Char} (positive : 0 < width)
    (found : scanWord width text = some (word, rest)) :
    fields isSpace rest = [] ↔
      ∃ only, fields isSpace text = [only] ∧ only.length ≤ width := by
  rcases leading_field isSpace text with ⟨_, none⟩ |
    ⟨first, others, shape, nonempty, plain, ends, split⟩
  · rw [(scanWord_eq_none_iff positive).mpr none] at found
    cases found
  · rw [scanWord_field positive nonempty plain ends shape] at found
    cases found
    rw [split]
    by_cases long : first.length ≤ width
    · rw [List.drop_eq_nil_of_le long, List.nil_append]
      constructor
      · intro last
        exact ⟨first, by rw [last], long⟩
      · intro given
        obtain ⟨only, same, _⟩ := given
        exact (List.cons.inj same).2
    · have left : first.drop width ≠ [] := by
        rw [ne_eq, List.drop_eq_nil_iff]
        exact long
      rw [fields_word_append left
        (fun symbol member => plain symbol (List.mem_of_mem_drop member)) ends]
      constructor
      · intro impossible
        cases impossible
      · intro given
        obtain ⟨only, same, short⟩ := given
        rw [(List.cons.inj same).1] at long
        exact absurd short long

theorem scanWord_dropWhile (text : List Char) :
    scanWord width (text.dropWhile isSpace) = scanWord width text := by
  unfold scanWord
  rw [List.dropWhile_idempotent]

theorem scan_word_dropWhile (format : List Directive) (text : List Char) :
    scan (.word width :: format) (text.dropWhile isSpace) = scan (.word width :: format) text := by
  simp only [scan, scanWord_dropWhile]

/-- Two more words are converted unless there is none, or a single one that fits the first. -/
theorem scan_two_words {second : Nat} (positive : 0 < width) (secondPositive : 0 < second)
    {closing : List Directive} (silent : ∀ rest, scan closing rest = []) :
    (∃ first other, scan (.word width :: .space :: .word second :: closing) text =
        [.word first, .word other]) ↔
      fields isSpace text ≠ [] ∧
        ¬ ∃ only, fields isSpace text = [only] ∧ only.length ≤ width := by
  cases found : scanWord width text with
  | none =>
      have none := (scanWord_eq_none_iff positive).mp found
      simp [scan, found, none]
  | some result =>
      obtain ⟨word, rest⟩ := result
      have some : fields isSpace text ≠ [] := by
        intro none
        rw [(scanWord_eq_none_iff positive).mpr none] at found
        cases found
      rw [← scanWord_last_iff positive found, ← scanWord_eq_none_iff secondPositive]
      simp only [scan, found, some, ne_eq, not_false_eq_true, true_and, scanWord_dropWhile]
      cases scanWord second rest with
      | none => simp
      | some next => simp [silent]

/-! ### Numbers -/

def decimal (value : Int) : List Char :=
  if value < 0 then '-' :: Nat.toDigits 10 value.natAbs else Nat.toDigits 10 value.natAbs

theorem scanDigits_digits (number : Nat) {rest : List Char}
    (ends : Ends (fun symbol => !symbol.isDigit) rest) :
    scanDigits (Nat.toDigits 10 number ++ rest) = some (number, rest) := by
  have digits : ∀ symbol, symbol ∈ Nat.toDigits 10 number → symbol.isDigit = true :=
    fun symbol member => Nat.isDigit_of_mem_toDigits (by decide) (by decide) member
  have stops : rest.takeWhile Char.isDigit = [] ∧ rest.dropWhile Char.isDigit = rest := by
    cases rest with
    | nil => exact ⟨rfl, rfl⟩
    | cons symbol others =>
        have notDigit : ¬ symbol.isDigit = true := by
          rw [Bool.not_eq_true, ← Bool.not_eq_true']
          exact ends symbol others rfl
        exact ⟨List.takeWhile_cons_of_neg notDigit, List.dropWhile_cons_of_neg notDigit⟩
  unfold scanDigits
  rw [List.takeWhile_append_of_pos digits, List.dropWhile_append_of_pos digits, stops.1, stops.2,
    List.append_nil]
  simp only
  rw [if_neg Nat.toDigits_ne_nil, Nat.ofDigitChars_ten_toDigits]

theorem isSpace_of_isDigit {symbol : Char} (digit : symbol.isDigit = true) :
    isSpace symbol = false := by
  apply Bool.eq_false_iff.mpr
  intro space
  unfold isSpace at space
  simp only [List.mem_cons, List.not_mem_nil, or_false, decide_eq_true_eq] at space
  rcases space with rfl | rfl | rfl | rfl | rfl | rfl <;> revert digit <;> decide

theorem signed_of_isDigit {symbol : Char} (digit : symbol.isDigit = true) (rest : List Char) :
    signed (symbol :: rest) = (false, symbol :: rest) := by
  unfold signed
  split
  · rename_i same
    cases same
    cases digit
  · rename_i same
    cases same
    cases digit
  · rfl

theorem scanInteger_signed {negative : Bool} {digits rest : List Char} {number : Nat}
    (shape : signed (text.dropWhile isSpace) = (negative, digits))
    (found : scanDigits digits = some (number, rest)) :
    scanInteger text = some (if negative then -(number : Int) else number, rest) := by
  unfold scanInteger
  rw [shape]
  simp only [found, Option.map_some]

/-- A printed number is read back, whatever follows it that is no digit. -/
theorem scanInteger_decimal (value : Int) {rest : List Char}
    (ends : Ends (fun symbol => !symbol.isDigit) rest) :
    scanInteger (decimal value ++ rest) = some (value, rest) := by
  have natural := scanDigits_digits value.natAbs ends
  unfold decimal
  by_cases negative : value < 0
  · rw [if_pos negative]
    have minus : -(value.natAbs : Int) = value := by omega
    have sign : signed (('-' :: Nat.toDigits 10 value.natAbs ++ rest).dropWhile isSpace) =
        (true, Nat.toDigits 10 value.natAbs ++ rest) := rfl
    rw [scanInteger_signed sign natural, if_pos rfl, minus]
  · rw [if_neg negative]
    have plain : (value.natAbs : Int) = value := by omega
    have unsigned : signed ((Nat.toDigits 10 value.natAbs ++ rest).dropWhile isSpace) =
        (false, Nat.toDigits 10 value.natAbs ++ rest) := by
      cases shape : Nat.toDigits 10 value.natAbs with
      | nil => exact absurd shape Nat.toDigits_ne_nil
      | cons symbol others =>
          have member : symbol ∈ Nat.toDigits 10 value.natAbs := by
            rw [shape]
            exact List.mem_cons_self
          have digit : symbol.isDigit = true :=
            Nat.isDigit_of_mem_toDigits (by decide) (by decide) member
          rw [List.cons_append, List.dropWhile_cons_of_neg
            (by rw [isSpace_of_isDigit digit]; exact Bool.false_ne_true)]
          exact signed_of_isDigit digit _
    rw [scanInteger_signed unsigned natural, if_neg Bool.false_ne_true, plain]

theorem scanInteger_dropWhile (text : List Char) :
    scanInteger (text.dropWhile isSpace) = scanInteger text := by
  unfold scanInteger
  rw [List.dropWhile_idempotent]

theorem not_mem_decimal {symbol : Char} (notDigit : symbol.isDigit = false)
    (notMinus : symbol ≠ '-') (value : Int) : symbol ∉ decimal value := by
  have none : symbol ∉ Nat.toDigits 10 value.natAbs := by
    intro member
    rw [Nat.isDigit_of_mem_toDigits (by decide) (by decide) member] at notDigit
    cases notDigit
  unfold decimal
  split
  · rw [List.mem_cons, not_or]
    exact ⟨notMinus, none⟩
  · exact none

end SuperBootimg.FormatScan
