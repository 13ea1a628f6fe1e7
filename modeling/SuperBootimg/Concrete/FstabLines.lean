/-
Lines of an fstab with five fields, the last two of which are lists of flags, and the
substitutions that changes.sh makes in a line.
-/

import SuperBootimg.RegularSearch
import SuperBootimg.Concrete.InitramfsFiles

namespace SuperBootimg.Concrete.Fstab

open FieldSplitting RegularSearch
open Sepolicy (Text isBlank)
open Initramfs (isWordSymbol)

/-! ### The substitutions -/

/-- `nocrypt` of changes.sh, by the names of the options. -/
inductive NocryptMode
  | crypt
  | nocrypt
  | nocryptAll
  deriving DecidableEq

/-- How the flags begin that ask for encryption. -/
def cryptKeys : List Text :=
  ["encryptable=".toList, "forceencrypt=".toList, "forcefdeorfbe=".toList]

/-- `s;\(/data.*\),key=.*;\1;g` -/
def dataRule (key : Text) : Rule Char :=
  { group := .onward "/data".toList
    rest := .onward (',' :: key)
    text := [] }

/-- `s;,key=.*;;g` -/
def allRule (key : Text) : Rule Char :=
  .plain (.onward (',' :: key)) []

def nocryptRules : NocryptMode → List (Rule Char)
  | .crypt => []
  | .nocrypt => cryptKeys.map dataRule
  | .nocryptAll => cryptKeys.map allRule

def valuePattern : Pattern Char :=
  .optional (.seq (.literal "=".toList) (.many fun symbol => symbol != ','))

/-- `s;,\{0,1\}verify\(=[^,]*\)\{0,1\};;g` -/
def verifyRule : Rule Char :=
  .plain (.seq (.optional (.literal ",".toList)) (.seq (.literal "verify".toList) valuePattern)) []

def roPattern : Pattern Char :=
  .seq .boundary (.seq (.literal "ro".toList) .boundary)

/-- `s;\bro\b;rw;g` -/
def roRule : Rule Char :=
  .plain roPattern "rw".toList

def noverityRules (noverity : Bool) : List (Rule Char) :=
  if noverity then [verifyRule, roRule] else []

def applied (rules : List (Rule Char)) (line : Text) : Text :=
  rules.foldl (fun text rule => substitute isWordSymbol rule text) line

def edited (mode : NocryptMode) (noverity : Bool) (line : Text) : Text :=
  applied (nocryptRules mode ++ noverityRules noverity) line

/-! ### Lines with five fields -/

def isGap (symbol : Char) : Bool :=
  symbol == ' ' || symbol == '\t'

structure Blanks where
  text : Text
  blank : ∀ symbol, symbol ∈ text → isGap symbol = true

def Blanks.none : Blanks :=
  { text := []
    blank := fun _ member => absurd member List.not_mem_nil }

structure Gap extends Blanks where
  some : text ≠ []

def Gap.space : Gap :=
  { text := [' ']
    blank := List.all_eq_true.mp rfl
    some := List.cons_ne_nil _ _ }

structure Field where
  text : Text
  solid : text ≠ []
  plain : ∀ symbol, symbol ∈ text → isBlank symbol = false

/-- Nothing that ends a flag. -/
def IsFlag (text : Text) : Prop :=
  ∀ symbol, symbol ∈ text → symbol ≠ ',' ∧ isBlank symbol = false

/-- Flags separated by commas. -/
structure FlagList where
  flags : List Text
  some : flags ≠ []
  solid : joined ',' flags ≠ []
  plain : ∀ flag, flag ∈ flags → IsFlag flag

structure FstabLine where
  lead : Blanks
  source : Field
  sourceGap : Gap
  mountPoint : Field
  mountPointGap : Gap
  fsType : Field
  fsTypeGap : Gap
  mountFlags : FlagList
  mountFlagsGap : Gap
  fsMgrFlags : FlagList
  trail : Blanks

/-- All before the last field, with given mount flags. -/
def FstabLine.front (line : FstabLine) (mountFlags : List Text) : Text :=
  line.lead.text ++ (line.source.text ++ (line.sourceGap.text ++ (line.mountPoint.text ++
    (line.mountPointGap.text ++ (line.fsType.text ++ (line.fsTypeGap.text ++
      (joined ',' mountFlags ++ line.mountFlagsGap.text)))))))

def FstabLine.written (line : FstabLine) (mountFlags fsMgrFlags : List Text) : Text :=
  line.front mountFlags ++ (joined ',' fsMgrFlags ++ line.trail.text)

def FstabLine.text (line : FstabLine) : Text :=
  line.written line.mountFlags.flags line.fsMgrFlags.flags

theorem FstabLine.text_eq (line : FstabLine) :
    line.text = line.front line.mountFlags.flags ++
      (joined ',' line.fsMgrFlags.flags ++ line.trail.text) :=
  rfl

theorem isBlank_of_gap {symbol : Char} (gap : isGap symbol = true) : isBlank symbol = true := by
  unfold isBlank
  unfold isGap at gap
  rw [gap]
  rfl

theorem Blanks.all (blanks : Blanks) : ∀ symbol, symbol ∈ blanks.text → isBlank symbol = true :=
  fun symbol member => isBlank_of_gap (blanks.blank symbol member)

theorem Gap.ends (gap : Gap) (rest : Text) : Ends isBlank (gap.text ++ rest) := by
  intro symbol others same
  cases shape : gap.text with
  | nil => exact absurd shape gap.some
  | cons first more =>
      rw [shape, List.cons_append] at same
      rw [← (List.cons.inj same).1]
      apply gap.all
      rw [shape]
      exact List.mem_cons_self

theorem plain_of_all {text : Text} (all : (text.all fun symbol => !isBlank symbol) = true) :
    ∀ symbol, symbol ∈ text → isBlank symbol = false :=
  all_false all

theorem flags_of_all {flags : List Text}
    (all : (flags.all fun flag => flag.all fun symbol => symbol != ',' && !isBlank symbol) = true) :
    ∀ flag, flag ∈ flags → IsFlag flag := by
  intro flag member symbol inside
  have plain := List.all_eq_true.mp (List.all_eq_true.mp all flag member) symbol inside
  rw [Bool.and_eq_true, bne_iff_ne, Bool.not_eq_true'] at plain
  exact plain

def Field.sda : Field :=
  ⟨"/dev/block/sda".toList, by decide, plain_of_all rfl⟩

def Field.ext4 : Field :=
  ⟨"ext4".toList, by decide, plain_of_all rfl⟩

theorem IsFlag.commaless {text : Text} (flag : IsFlag text) : ',' ∉ text :=
  fun inside => (flag ',' inside).1 rfl

theorem joined_blankless {flags : List Text} (plain : ∀ flag, flag ∈ flags → IsFlag flag) :
    ∀ symbol, symbol ∈ joined ',' flags → isBlank symbol = false := by
  intro symbol member
  rcases mem_joined member with rfl | ⟨flag, inside, present⟩
  · rfl
  · exact (plain flag inside symbol present).2

/-- Flags are told apart from the white space behind them. -/
theorem joined_append_blanks {first second : List Text}
    (firstPlain : ∀ flag, flag ∈ first → IsFlag flag)
    (secondPlain : ∀ flag, flag ∈ second → IsFlag flag) {behind other : Text}
    (blank : ∀ symbol, symbol ∈ behind → isBlank symbol = true)
    (otherBlank : ∀ symbol, symbol ∈ other → isBlank symbol = true)
    (same : joined ',' first ++ behind = joined ',' second ++ other) :
    joined ',' first = joined ',' second ∧ behind = other := by
  have word : ∀ {flags : List Text} {rest : Text}, (∀ flag, flag ∈ flags → IsFlag flag) →
      (∀ symbol, symbol ∈ rest → isBlank symbol = true) →
        (joined ',' flags ++ rest).takeWhile (fun symbol => !isBlank symbol) =
          joined ',' flags := by
    intro flags rest plain blank
    rw [List.takeWhile_append_of_pos]
    · cases rest with
      | nil => rw [List.takeWhile_nil, List.append_nil]
      | cons symbol more =>
          rw [List.takeWhile_cons_of_neg, List.append_nil]
          rw [blank symbol List.mem_cons_self]
          exact Bool.false_ne_true
    · intro symbol member
      rw [joined_blankless plain symbol member]
      rfl
  have words : joined ',' first = joined ',' second := by
    rw [← word firstPlain blank, same, word secondPlain otherBlank]
  rw [words] at same
  exact ⟨words, List.append_cancel_left same⟩

theorem fields_gap {word : Text} (solid : word ≠ [])
    (plain : ∀ symbol, symbol ∈ word → isBlank symbol = false) (gap : Gap) (rest : Text) :
    fields isBlank (word ++ (gap.text ++ rest)) = word :: fields isBlank rest := by
  rw [fields_word_append solid plain (gap.ends rest), fields_blanks_append gap.all]

def Ended (text : Text) : Prop :=
  ∃ before separator, text = before ++ [separator] ∧ isBlank separator = true

theorem FstabLine.front_ended (line : FstabLine) (mountFlags : List Text) :
    Ended (line.front mountFlags) := by
  obtain ⟨before, separator, split⟩ :=
    (List.eq_nil_or_concat line.mountFlagsGap.text).resolve_left line.mountFlagsGap.some
  have blank : isBlank separator = true := by
    apply line.mountFlagsGap.all
    rw [split, List.concat_eq_append]
    exact List.mem_append_right _ List.mem_cons_self
  rw [List.concat_eq_append] at split
  unfold FstabLine.front
  rw [split]
  simp only [← List.append_assoc]
  exact ⟨_, separator, rfl, blank⟩

/-- Every such line has the five fields, -/
theorem FstabLine.fields_text (line : FstabLine) :
    fields isBlank line.text = [line.source.text, line.mountPoint.text, line.fsType.text,
      joined ',' line.mountFlags.flags, joined ',' line.fsMgrFlags.flags] := by
  have ends : Ends isBlank line.trail.text := by
    intro symbol others same
    apply line.trail.all
    rw [same]
    exact List.mem_cons_self
  have none : fields isBlank line.trail.text = [] := fields_eq_nil_iff.mpr line.trail.all
  unfold FstabLine.text FstabLine.written FstabLine.front
  simp only [List.append_assoc]
  rw [fields_blanks_append line.lead.all, fields_gap line.source.solid line.source.plain,
    fields_gap line.mountPoint.solid line.mountPoint.plain,
    fields_gap line.fsType.solid line.fsType.plain,
    fields_gap line.mountFlags.solid (joined_blankless line.mountFlags.plain),
    fields_word_append line.fsMgrFlags.solid (joined_blankless line.fsMgrFlags.plain) ends, none]

/-- The first field of a text with the white space before it. -/
theorem first_field {text word : Text} {others : List Text}
    (split : fields isBlank text = word :: others) (inLine : '\n' ∉ text) :
    ∃ (blanks : Blanks) (field : Field) (rest : Text),
      text = blanks.text ++ (field.text ++ rest) ∧ field.text = word ∧ Ends isBlank rest ∧
        fields isBlank rest = others ∧ '\n' ∉ rest := by
  have whole := @List.takeWhile_append_dropWhile _ isBlank text
  rcases leading_field isBlank text with
    ⟨_, none⟩ | ⟨first, rest, shape, solid, plain, ends, parts⟩
  · rw [none] at split
    cases split
  · rw [split] at parts
    obtain ⟨rfl, rfl⟩ := List.cons.inj parts
    rw [shape] at whole
    rw [← whole, List.mem_append, List.mem_append, not_or, not_or] at inLine
    refine ⟨⟨text.takeWhile isBlank, ?_⟩, ⟨word, solid, plain⟩, rest, whole.symm, rfl, ends, rfl,
      inLine.2.2⟩
    intro symbol member
    have blank := List.mem_takeWhile_imp member
    unfold isBlank at blank
    rw [Bool.or_eq_true, or_iff_left] at blank
    · exact blank
    · intro newline
      rw [beq_iff_eq.mp newline] at member
      exact inLine.1 member

/-- The white space between two fields is not empty. -/
theorem next_field {text word : Text} {others : List Text} (ended : Ends isBlank text)
    (split : fields isBlank text = word :: others) (inLine : '\n' ∉ text) :
    ∃ (gap : Gap) (field : Field) (rest : Text),
      text = gap.text ++ (field.text ++ rest) ∧ field.text = word ∧ Ends isBlank rest ∧
        fields isBlank rest = others ∧ '\n' ∉ rest := by
  obtain ⟨blanks, field, rest, shape, same, ends, later, restInLine⟩ := first_field split inLine
  have some : blanks.text ≠ [] := by
    intro none
    rw [shape, none, List.nil_append] at ended
    cases first : field.text with
    | nil => exact field.solid first
    | cons symbol more =>
        have blank := ended symbol (more ++ rest) (by rw [first, List.cons_append])
        rw [field.plain symbol (by rw [first]; exact List.mem_cons_self)] at blank
        cases blank
  exact ⟨⟨blanks, some⟩, field, rest, shape, same, ends, later, restInLine⟩

/-- Every field is a list of flags. -/
theorem flags_of_field (field : Field) :
    ∃ list : FlagList, joined ',' list.flags = field.text := by
  have same := @List.intercalate_splitOn _ field.text _ _ ','
  refine ⟨⟨field.text.splitOn ',', List.splitOn_ne_nil _ _, ?_, ?_⟩, same⟩
  · unfold joined
    rw [same]
    exact field.solid
  · intro flag member symbol inside
    constructor
    · intro comma
      rw [comma] at inside
      exact not_mem_splitOn member inside
    · apply field.plain
      obtain ⟨front, back, split, _, _⟩ := @joined_of_mem _ ',' _ _ member
      unfold joined at split
      rw [← same, split]
      exact List.mem_append_right _ (List.mem_append_left _ inside)

/-- and every line with five fields is such a line. -/
theorem exists_line {text : Text} (inLine : '\n' ∉ text)
    {source mountPoint fsType mountFlags fsMgrFlags : Text}
    (split : fields isBlank text = [source, mountPoint, fsType, mountFlags, fsMgrFlags]) :
    ∃ line : FstabLine, line.text = text := by
  obtain ⟨lead, source, rest, rfl, rfl, ends, split, inLine⟩ := first_field split inLine
  obtain ⟨sourceGap, mountPoint, rest, rfl, rfl, ends, split, inLine⟩ :=
    next_field ends split inLine
  obtain ⟨mountPointGap, fsType, rest, rfl, rfl, ends, split, inLine⟩ :=
    next_field ends split inLine
  obtain ⟨fsTypeGap, fourth, rest, rfl, rfl, ends, split, inLine⟩ :=
    next_field ends split inLine
  obtain ⟨mountFlagsGap, fifth, rest, rfl, rfl, ends, split, inLine⟩ :=
    next_field ends split inLine
  obtain ⟨mountFlags, mountFlagsText⟩ := flags_of_field fourth
  obtain ⟨fsMgrFlags, fsMgrFlagsText⟩ := flags_of_field fifth
  have trail : ∀ symbol, symbol ∈ rest → isGap symbol = true := by
    intro symbol member
    have blank := fields_eq_nil_iff.mp split symbol member
    unfold isBlank at blank
    rw [Bool.or_eq_true, or_iff_left] at blank
    · exact blank
    · intro newline
      rw [beq_iff_eq.mp newline] at member
      exact inLine member
  refine ⟨⟨lead, source, sourceGap, mountPoint, mountPointGap, fsType, fsTypeGap,
    mountFlags, mountFlagsGap, fsMgrFlags, ⟨rest, trail⟩⟩, ?_⟩
  unfold FstabLine.text FstabLine.written FstabLine.front
  simp only [mountFlagsText, fsMgrFlagsText, List.append_assoc]

end SuperBootimg.Concrete.Fstab
