/-
The arrays into which the main loop of hidesu.c scans a line of the event log. `%Ns`
stores up to N bytes and a terminator, and N is the size of the array.
-/

import SuperBootimg.Concrete.HidesuEvents

namespace SuperBootimg.Concrete.Hidesu

open FieldSplitting FormatScan LineStream

/-- `char processName[256], hostingType[16], hostingName[256]` -/
def arraySizes : List Nat :=
  [256, 16, 256]

def storedBytes : Value → Option Nat
  | .integer _ => none
  | .word text => some (text.length + 1)

def scanned (bytes : Text) : Text :=
  translate ',' ' ' (cString bytes)

/-- No conversion of the line stores more than its array holds. -/
def FieldsFit (bytes : Text) : Prop :=
  ∀ stored, stored ∈ ((scan amProcStart (scanned bytes)).filterMap storedBytes).zip arraySizes →
    stored.1 ≤ stored.2

def behindNumbers : Text → Option Text
  | '[' :: text => do
      let (_, text) ← scanInteger text
      let (_, text) ← scanInteger text
      let (_, text) ← scanInteger text
      return text
  | _ => none

def ShortWords (bytes : Text) : Prop :=
  ∀ text, behindNumbers (scanned bytes) = some text →
    ∀ field, field ∈ (fields isSpace text).zip arraySizes → field.1.length < field.2

/-! ### Words and arrays -/

def wordFormat (closing : List Directive) : List Nat → List Directive
  | [] => closing
  | size :: sizes => .space :: .word size :: wordFormat closing sizes

theorem amProcStart_eq :
    amProcStart = .literal '[' :: .integer :: .space :: .integer :: .space :: .integer ::
      wordFormat [.literal ']'] arraySizes :=
  rfl

theorem filterMap_integer {format : List Directive} {text rest : Text} {value : Int}
    (found : scanInteger text = some (value, rest)) :
    (scan (.integer :: format) text).filterMap storedBytes =
      (scan format rest).filterMap storedBytes := by
  rw [scan_integer found, List.filterMap_cons]
  rfl

/-- Nothing is stored as characters unless the three numbers are there. -/
theorem filterMap_scan (line : Text) :
    (scan amProcStart line).filterMap storedBytes =
      ((behindNumbers line).map fun text =>
        (scan (wordFormat [.literal ']'] arraySizes) text).filterMap storedBytes).getD [] := by
  rw [amProcStart_eq]
  unfold behindNumbers
  split
  · rename_i text
    rw [scan_literal]
    cases user : scanInteger text with
    | none =>
        rw [scan, user]
        rfl
    | some result =>
        obtain ⟨value, text⟩ := result
        rw [filterMap_integer user, scan_space]
        cases pid : scanInteger text with
        | none =>
            rw [scan, scanInteger_dropWhile, pid]
            simp only [Option.bind_eq_bind, Option.bind_some, pid]
            rfl
        | some result =>
            obtain ⟨number, text⟩ := result
            rw [filterMap_integer ((scanInteger_dropWhile _).trans pid), scan_space]
            cases uid : scanInteger text with
            | none =>
                rw [scan, scanInteger_dropWhile, uid]
                simp only [Option.bind_eq_bind, Option.bind_some, pid, uid]
                rfl
            | some result =>
                obtain ⟨other, text⟩ := result
                rw [filterMap_integer ((scanInteger_dropWhile _).trans uid)]
                simp only [Option.bind_eq_bind, Option.bind_some, pid, uid]
                rfl
  · rename_i different
    cases line with
    | nil => rfl
    | cons first rest =>
        have other : first ≠ '[' := by
          rintro rfl
          exact different rest rfl
        rw [scan, if_neg other]
        rfl

/-- A conversion that fills its array leaves no room for the terminator; one that does not
has taken the whole word. -/
theorem words_fit_iff {sizes : List Nat} (positive : ∀ size, size ∈ sizes → 0 < size)
    (symbol : Char) (text : Text) :
    (∀ stored, stored ∈ ((scan (wordFormat [.literal symbol] sizes) text).filterMap
        storedBytes).zip sizes → stored.1 ≤ stored.2) ↔
      ∀ field, field ∈ (fields isSpace text).zip sizes → field.1.length < field.2 := by
  induction sizes generalizing text with
  | nil =>
      rw [List.zip_nil_right, List.zip_nil_right]
      exact iff_of_true (fun _ member => absurd member List.not_mem_nil)
        (fun _ member => absurd member List.not_mem_nil)
  | cons size sizes ih =>
      have sizePositive := positive size List.mem_cons_self
      have later := ih fun other member => positive other (List.mem_cons_of_mem _ member)
      rw [wordFormat, scan_space]
      rcases leading_field isSpace text with ⟨blank, none⟩ |
        ⟨word, rest, shape, nonempty, plain, ends, split⟩
      · have ended : scanWord size (text.dropWhile isSpace) = .none := by
          rw [scanWord_dropWhile]
          exact (scanWord_eq_none_iff sizePositive).mpr none
        simp only [scan, ended, none, List.filterMap_nil, List.zip_nil_left, List.not_mem_nil,
          false_implies, implies_true]
      · have converted := scanWord_field sizePositive nonempty plain ends shape
        rw [← scanWord_dropWhile] at converted
        rw [scan_word converted, split, List.filterMap_cons, storedBytes, List.zip_cons_cons,
          List.zip_cons_cons, List.forall_mem_cons, List.forall_mem_cons, List.length_take]
        by_cases short : word.length < size
        · rw [List.drop_eq_nil_of_le (by omega), List.nil_append, later rest]
          have fits : min size word.length + 1 ≤ size := by omega
          exact and_congr_left fun _ => iff_of_true fits short
        · have full : ¬ min size word.length + 1 ≤ size := by omega
          exact iff_of_false (fun given => full given.1) fun given => short given.1

/-- The fields of a line fit their arrays exactly when the words behind its numbers are
shorter than the arrays. -/
theorem fields_fit_iff (bytes : Text) : FieldsFit bytes ↔ ShortWords bytes := by
  unfold FieldsFit ShortWords
  rw [filterMap_scan]
  cases behindNumbers (scanned bytes) with
  | none =>
      refine iff_of_true (fun stored member => absurd member List.not_mem_nil) ?_
      intro text impossible
      cases impossible
  | some text =>
      rw [Option.map_some, Option.getD_some, words_fit_iff (by decide)]
      constructor
      · intro short other same
        cases same
        exact short
      · intro short
        exact short text rfl

/-- The hosting type has as many bytes as its array, and the terminator comes behind it. -/
def longType : Text :=
  "[0,10,10001,com.att.tv,0123456789abcdef,com.att.tv/.Main]\n".toList

theorem longType_overflows : longType.length ≤ 511 ∧ ¬ FieldsFit longType := by
  refine ⟨by decide, ?_⟩
  intro fits
  have stored := fits (17, 16) (by decide +kernel)
  exact absurd stored (by decide)

end SuperBootimg.Concrete.Hidesu
