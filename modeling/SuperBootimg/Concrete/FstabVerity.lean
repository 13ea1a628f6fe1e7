/-
What the option noverity leaves of a line of an fstab. The rules look at the whole line, so
other flags and fields that contain their words are damaged.
-/

import SuperBootimg.Concrete.NoverityRules

namespace SuperBootimg.Concrete.Fstab

open FieldSplitting RegularSearch
open Sepolicy (Text isBlank)
open Initramfs (isWordSymbol)

def isVerify (flag : Text) : Bool :=
  flag == verifyWord || "verify=".toList.isPrefixOf flag

def readWrite (flag : Text) : Text :=
  if flag = roWord then "rw".toList else flag

/-- The flags that are to stay. -/
def unverified (flags : List Text) : List Text :=
  flags.filter fun flag => !isVerify flag

def FstabLine.keptFlags (line : FstabLine) : List Text :=
  unverified line.fsMgrFlags.flags

def FstabLine.writableFlags (line : FstabLine) : List Text :=
  line.mountFlags.flags.map readWrite

/-- Just the flags have been changed that are to be, and no flag has become empty. -/
structure VerityCleared (line : FstabLine) (result : Text) : Prop where
  whole : result = line.written line.writableFlags line.keptFlags
  formed : (∀ flag, flag ∈ line.mountFlags.flags ++ line.fsMgrFlags.flags → flag ≠ []) →
    ∀ flag, flag ∈ line.writableFlags ++ line.keptFlags → flag ≠ []

/-- The words verify and ro stand in the line only as the flags that are meant, the first flag
stays unless none does, and white space does not follow the value of a last one. -/
structure VerityClearable (line : FstabLine) : Prop where
  outside : ¬ verifyWord <:+: line.front line.mountFlags.flags
  others : ∀ flag, flag ∈ line.keptFlags → ¬ verifyWord <:+: flag
  first : (∀ flag, flag ∈ line.fsMgrFlags.flags.head? → isVerify flag = false) ∨
    line.keptFlags = []
  last : (∀ flag, flag ∈ line.fsMgrFlags.flags.getLast? → ¬ "verify=".toList <+: flag) ∨
    line.trail.text = []
  source : ¬ HasRo line.source.text
  mountPoint : ¬ HasRo line.mountPoint.text
  fsType : ¬ HasRo line.fsType.text
  mountFlags : ∀ flag, flag ∈ line.mountFlags.flags → flag = roWord ∨ ¬ HasRo flag
  fsMgrFlags : ∀ flag, flag ∈ line.keptFlags → ¬ HasRo flag

/-! ### Flags -/

theorem isVerify_iff {flag : Text} :
    isVerify flag = true ↔ flag = verifyWord ∨ ∃ value, flag = verifyWord ++ '=' :: value := by
  unfold isVerify
  rw [Bool.or_eq_true, beq_iff_eq, List.isPrefixOf_iff_prefix]
  apply or_congr_right
  constructor
  · intro given
    obtain ⟨value, rfl⟩ := given
    exact ⟨value, rfl⟩
  · intro given
    obtain ⟨value, rfl⟩ := given
    exact ⟨value, rfl⟩

theorem isVerify_begins {flag : Text} (verifies : isVerify flag = true) :
    verifyWord <+: flag := by
  rcases isVerify_iff.mp verifies with rfl | ⟨value, rfl⟩
  · exact List.prefix_rfl
  · exact List.prefix_append _ _

/-- A flag of verity is taken out, with a value all the white space behind it as well. -/
theorem stripped_verify {flag trail : Text} (verifies : isVerify flag = true)
    (commaless : ',' ∉ flag) (blank : ∀ symbol, symbol ∈ trail → isBlank symbol = true) :
    stripped (flag ++ trail) = if "verify=".toList <+: flag then [] else trail := by
  have trailPlain : ¬ verifyWord <:+: trail := by
    intro inside
    exact absurd (blank 'v' (inside.subset List.mem_cons_self)) (by decide)
  rcases isVerify_iff.mp verifies with rfl | ⟨value, rfl⟩
  · have none : valueLength trail = 0 := by
      cases trail with
      | nil => rfl
      | cons symbol rest =>
          have different : symbol ≠ '=' := by
            intro same
            have equals := blank symbol List.mem_cons_self
            rw [same] at equals
            exact absurd equals (by decide)
          exact if_neg different
    have found := stripped_found (.inl rfl : IsOpening []) trail
    rw [none, List.drop_zero, stripped_plain trailPlain] at found
    rw [if_neg (by decide)]
    exact found
  · have all : (value ++ trail).takeWhile (fun symbol => symbol != ',') = value ++ trail := by
      apply List.takeWhile_eq_self_iff.mpr
      intro symbol member
      rw [bne_iff_ne]
      intro same
      rw [same] at member
      rcases List.mem_append.mp member with inside | behind
      · exact commaless (List.mem_append_right _ (List.mem_cons_of_mem _ inside))
      · exact absurd (blank ',' behind) (by decide)
    have found := stripped_found (.inl rfl : IsOpening []) ('=' :: (value ++ trail))
    have length : valueLength ('=' :: (value ++ trail)) = (value ++ trail).length + 1 := by
      change ((value ++ trail).takeWhile fun symbol => symbol != ',').length + 1 = _
      rw [all]
    rw [length, List.drop_succ_cons, List.drop_length] at found
    rw [if_pos ⟨value, rfl⟩, List.append_assoc]
    exact found

def listed (flags : List Text) : Text :=
  flags.flatMap (',' :: ·)

def strippedList (flags : List Text) : Text :=
  flags.flatMap fun flag => stripped (',' :: flag)

theorem strippedList_cons (flag : Text) (flags : List Text) :
    strippedList (flag :: flags) = stripped (',' :: flag) ++ strippedList flags :=
  List.flatMap_cons

theorem listed_cons (flag : Text) (flags : List Text) :
    listed (flag :: flags) = ',' :: flag ++ listed flags :=
  List.flatMap_cons

theorem joined_eq_listed (first : Text) (rest : List Text) :
    joined ',' (first :: rest) = first ++ listed rest :=
  joined_cons ',' first rest

theorem unverified_gone {flag : Text} (verifies : isVerify flag = true) (flags : List Text) :
    unverified (flag :: flags) = unverified flags := by
  unfold unverified
  rw [List.filter_cons_of_neg]
  rw [verifies]
  exact Bool.false_ne_true

theorem unverified_kept {flag : Text} (other : isVerify flag = false) (flags : List Text) :
    unverified (flag :: flags) = flag :: unverified flags := by
  unfold unverified
  rw [List.filter_cons_of_pos]
  rw [other]
  rfl

theorem verifyWord_commaless : ',' ∉ verifyWord := by
  decide

theorem stripped_joined {first : Text} {rest : List Text} (firstPlain : ',' ∉ first)
    (restPlain : ∀ flag, flag ∈ rest → ',' ∉ flag) :
    stripped (joined ',' (first :: rest)) = stripped first ++ strippedList rest := by
  induction rest generalizing first with
  | nil =>
      unfold joined
      rw [List.intercalate_singleton]
      exact (List.append_nil _).symm
  | cons second others ih =>
      have later := ih (restPlain second List.mem_cons_self) fun flag member =>
        restPlain flag (List.mem_cons_of_mem _ member)
      have front := prefix_joined_iff verifyWord_commaless second others
      rw [joined_cons_cons, stripped_append_comma firstPlain, strippedList_cons]
      by_cases begins : verifyWord <+: second
      · rw [stripped_comma (front.mpr begins), stripped_comma begins, later]
      · rw [stripped_comma_kept fun inside => begins (front.mp inside),
          stripped_comma_kept begins, later, List.cons_append]

theorem stripped_verify_alone {flag : Text} (verifies : isVerify flag = true)
    (commaless : ',' ∉ flag) : stripped flag = [] := by
  have alone := stripped_verify verifies commaless fun symbol none =>
    absurd none List.not_mem_nil
  rwa [List.append_nil, ite_self] at alone

theorem stripped_comma_verify {flag : Text} (verifies : isVerify flag = true)
    (commaless : ',' ∉ flag) : stripped (',' :: flag) = [] := by
  rw [stripped_comma (isVerify_begins verifies), stripped_verify_alone verifies commaless]

theorem strippedList_length {flags : List Text} (plain : ∀ flag, flag ∈ flags → ',' ∉ flag) :
    (strippedList flags).length ≤ (listed (unverified flags)).length ∧
      ((∃ flag, flag ∈ unverified flags ∧ verifyWord <:+: flag) →
        (strippedList flags).length + 6 ≤ (listed (unverified flags)).length) := by
  induction flags with
  | nil =>
      refine ⟨Nat.le_refl _, fun given => ?_⟩
      obtain ⟨flag, member, _⟩ := given
      exact absurd member List.not_mem_nil
  | cons flag flags ih =>
      obtain ⟨most, less⟩ := ih fun other member => plain other (List.mem_cons_of_mem _ member)
      rw [strippedList_cons]
      cases verifies : isVerify flag with
      | true =>
          rw [unverified_gone verifies,
            stripped_comma_verify verifies (plain flag List.mem_cons_self)]
          exact ⟨most, less⟩
      | false =>
          obtain ⟨here, lessHere⟩ := stripped_length (',' :: flag)
          rw [unverified_kept verifies, listed_cons, List.length_append, List.length_append]
          refine ⟨Nat.add_le_add here most, fun given => ?_⟩
          obtain ⟨other, member, inside⟩ := given
          rcases List.mem_cons.mp member with rfl | later
          · have fewer := lessHere (List.infix_cons inside)
            omega
          · have fewer := less ⟨other, later, inside⟩
            omega

theorem listed_length_le (flags : List Text) :
    (listed flags).length ≤ (joined ',' flags).length + 1 := by
  cases flags with
  | nil => exact Nat.zero_le _
  | cons first rest => rw [joined_eq_listed, listed_cons, List.cons_append, List.length_cons]

/-- At most one symbol is left too much, and with the word in a flag that stays too many are
taken out. -/
theorem flags_length {flags : List Text} (some : flags ≠ [])
    (plain : ∀ flag, flag ∈ flags → ',' ∉ flag) :
    (stripped (joined ',' flags)).length ≤ (joined ',' (unverified flags)).length + 1 ∧
      ((∃ flag, flag ∈ unverified flags ∧ verifyWord <:+: flag) →
        (stripped (joined ',' flags)).length + 5 ≤ (joined ',' (unverified flags)).length) := by
  obtain ⟨first, rest, rfl⟩ := List.exists_cons_of_ne_nil some
  have firstPlain := plain first List.mem_cons_self
  have restPlain : ∀ flag, flag ∈ rest → ',' ∉ flag := fun flag member =>
    plain flag (List.mem_cons_of_mem _ member)
  obtain ⟨most, less⟩ := strippedList_length restPlain
  rw [stripped_joined firstPlain restPlain, List.length_append]
  cases verifies : isVerify first with
  | true =>
      have comma := listed_length_le (unverified rest)
      rw [stripped_verify_alone verifies firstPlain, List.length_nil, unverified_gone verifies]
      refine ⟨by omega, fun given => ?_⟩
      have fewer := less given
      omega
  | false =>
      obtain ⟨here, lessHere⟩ := stripped_length first
      rw [unverified_kept verifies, joined_eq_listed, List.length_append]
      refine ⟨by omega, fun given => ?_⟩
      obtain ⟨other, member, inside⟩ := given
      rcases List.mem_cons.mp member with rfl | later
      · have fewer := lessHere inside
        omega
      · have fewer := less ⟨other, later, inside⟩
        omega

/-! ### Flags without the word -/

theorem strippedList_clean {flags : List Text} (plain : ∀ flag, flag ∈ flags → ',' ∉ flag)
    (clean : ∀ flag, flag ∈ unverified flags → ¬ verifyWord <:+: flag) :
    strippedList flags = listed (unverified flags) := by
  induction flags with
  | nil => rfl
  | cons flag flags ih =>
      have later : ∀ other, other ∈ flags → ',' ∉ other := fun other member =>
        plain other (List.mem_cons_of_mem _ member)
      rw [strippedList_cons]
      cases verifies : isVerify flag with
      | true =>
          rw [unverified_gone verifies] at clean ⊢
          rw [stripped_comma_verify verifies (plain flag List.mem_cons_self), ih later clean]
          rfl
      | false =>
          rw [unverified_kept verifies] at clean ⊢
          have absent := clean flag List.mem_cons_self
          rw [listed_cons, stripped_comma_kept fun front => absent front.isInfix,
            stripped_plain absent,
            ih later fun other member => clean other (List.mem_cons_of_mem _ member)]

/-- A comma too many is left behind a first flag that is taken out. -/
theorem flags_clean {first : Text} {rest : List Text}
    (plain : ∀ flag, flag ∈ first :: rest → ',' ∉ flag)
    (clean : ∀ flag, flag ∈ unverified (first :: rest) → ¬ verifyWord <:+: flag) :
    stripped (joined ',' (first :: rest)) =
      if isVerify first then listed (unverified rest)
      else joined ',' (unverified (first :: rest)) := by
  have restPlain : ∀ flag, flag ∈ rest → ',' ∉ flag := fun flag member =>
    plain flag (List.mem_cons_of_mem _ member)
  have firstPlain := plain first List.mem_cons_self
  rw [stripped_joined firstPlain restPlain]
  cases verifies : isVerify first with
  | true =>
      rw [unverified_gone verifies] at clean
      rw [stripped_verify_alone verifies firstPlain, if_pos rfl,
        strippedList_clean restPlain clean]
      rfl
  | false =>
      rw [unverified_kept verifies] at clean ⊢
      rw [if_neg Bool.false_ne_true, joined_eq_listed,
        stripped_plain (clean first List.mem_cons_self),
        strippedList_clean restPlain fun flag member => clean flag (List.mem_cons_of_mem _ member)]

/-- The white space that is left behind a last flag. -/
def leftBehind (last trail : Text) : Text :=
  if "verify=".toList <+: last then [] else trail

section Trail

variable {last trail : Text}

theorem stripped_last (commaless : ',' ∉ last)
    (clean : isVerify last = false → ¬ verifyWord <:+: last)
    (blank : ∀ symbol, symbol ∈ trail → isBlank symbol = true) :
    stripped (last ++ trail) = stripped last ++ leftBehind last trail := by
  unfold leftBehind
  cases verifies : isVerify last with
  | true =>
      rw [stripped_verify verifies commaless blank, stripped_verify_alone verifies commaless]
      rfl
  | false =>
      have absent := clean verifies
      have value : ¬ "verify=".toList <+: last := by
        intro front
        have word : verifyWord <+: "verify=".toList := ⟨['='], rfl⟩
        exact absent (word.trans front).isInfix
      have still : ¬ verifyWord <:+: last ++ trail := by
        cases trail with
        | nil =>
            rw [List.append_nil]
            exact absent
        | cons symbol rest =>
            rw [infix_append_blank (plain_of_all rfl) (blank symbol List.mem_cons_self),
              not_or]
            refine ⟨absent, fun inside => ?_⟩
            have letter := blank 'v' (List.mem_cons_of_mem _ (inside.subset List.mem_cons_self))
            exact absurd letter (by decide)
      rw [if_neg value, stripped_plain still, stripped_plain absent]

theorem stripped_comma_last (commaless : ',' ∉ last)
    (clean : isVerify last = false → ¬ verifyWord <:+: last)
    (blank : ∀ symbol, symbol ∈ trail → isBlank symbol = true) :
    stripped (',' :: (last ++ trail)) = stripped (',' :: last) ++ leftBehind last trail := by
  have front : verifyWord <+: last ++ trail ↔ verifyWord <+: last := by
    cases trail with
    | nil => rw [List.append_nil]
    | cons symbol rest =>
        exact prefix_append_blank (plain_of_all rfl) (blank symbol List.mem_cons_self) last rest
  by_cases begins : verifyWord <+: last
  · rw [stripped_comma (front.mpr begins), stripped_comma begins,
      stripped_last commaless clean blank]
  · rw [stripped_comma_kept fun inside => begins (front.mp inside), stripped_comma_kept begins,
      stripped_last commaless clean blank, List.cons_append]

theorem stripped_trail {init : List Text} (plain : ∀ flag, flag ∈ init ++ [last] → ',' ∉ flag)
    (clean : isVerify last = false → ¬ verifyWord <:+: last)
    (blank : ∀ symbol, symbol ∈ trail → isBlank symbol = true) :
    stripped (joined ',' (init ++ [last]) ++ trail) =
      stripped (joined ',' (init ++ [last])) ++ leftBehind last trail := by
  have lastPlain := plain last (List.mem_append_right _ List.mem_cons_self)
  have trailPlain : ',' ∉ trail := fun member => absurd (blank ',' member) (by decide)
  cases init with
  | nil =>
      unfold joined
      rw [List.nil_append, List.intercalate_singleton]
      exact stripped_last lastPlain clean blank
  | cons first rest =>
      have firstPlain := plain first List.mem_cons_self
      have restPlain : ∀ flag, flag ∈ rest → ',' ∉ flag := fun flag member =>
        plain flag (List.mem_cons_of_mem _ (List.mem_append_left _ member))
      have whole : joined ',' (first :: rest ++ [last]) ++ trail =
          joined ',' (first :: (rest ++ [last ++ trail])) := by
        rw [← List.cons_append, joined_append_singleton (List.cons_ne_nil _ _),
          joined_append_singleton (List.cons_ne_nil _ _), List.append_assoc, List.cons_append]
      have parts : ∀ piece, strippedList (rest ++ [piece]) =
          strippedList rest ++ stripped (',' :: piece) := by
        intro piece
        unfold strippedList
        rw [List.flatMap_append, List.flatMap_singleton]
      have extended : ∀ piece, ',' ∉ piece → ∀ flag, flag ∈ rest ++ [piece] → ',' ∉ flag := by
        intro piece piecePlain flag member
        rcases List.mem_append.mp member with early | late
        · exact restPlain flag early
        · rw [List.mem_singleton.mp late]
          exact piecePlain
      have longer : ',' ∉ last ++ trail := by
        rw [List.mem_append, not_or]
        exact ⟨lastPlain, trailPlain⟩
      rw [whole, stripped_joined firstPlain (extended _ longer), List.cons_append,
        stripped_joined firstPlain (extended _ lastPlain), parts, parts,
        stripped_comma_last lastPlain clean blank, List.append_assoc, List.append_assoc]

end Trail

/-! ### Fields of a line after the second substitution -/

theorem rewritten_length (text : Text) : (rewritten text).length = text.length := by
  have same := congrArg List.length (@rewritten_map Unit (fun _ => ()) rfl text)
  rwa [List.length_map, List.length_map] at same

theorem rewritten_blanks (text : Text) :
    (rewritten text).countP isBlank = text.countP isBlank := by
  have same := congrArg (List.countP id) (@rewritten_map Bool isBlank rfl text)
  rwa [List.countP_map, List.countP_map] at same

theorem rewritten_comma {text : Text} : ',' ∈ rewritten text ↔ ',' ∈ text := by
  have found : ∀ text : Text, ',' ∈ text ↔ true ∈ text.map fun symbol => symbol == ',' := by
    intro text
    rw [List.mem_map]
    constructor
    · intro member
      exact ⟨',', member, rfl⟩
    · intro given
      obtain ⟨symbol, member, same⟩ := given
      rw [← beq_iff_eq.mp same]
      exact member
  rw [found, found, @rewritten_map Bool (fun symbol => symbol == ',') rfl text]

theorem gap_plain {symbol : Char} (gap : isGap symbol = true) : isWordSymbol symbol = false := by
  unfold isGap at gap
  rw [Bool.or_eq_true, beq_iff_eq, beq_iff_eq] at gap
  rcases gap with rfl | rfl <;> rfl

theorem rewritten_gap {blanks : Text} (blank : ∀ symbol, symbol ∈ blanks → isGap symbol = true)
    (rest : Text) : rewritten (blanks ++ rest) = blanks ++ rewritten rest := by
  induction blanks with
  | nil => rfl
  | cons symbol blanks ih =>
      have parts := rewritten_append (gap_plain (blank symbol List.mem_cons_self)) []
        (blanks ++ rest)
      rw [List.nil_append] at parts
      rw [List.cons_append, parts,
        ih fun other member => blank other (List.mem_cons_of_mem _ member)]
      rfl

theorem rewritten_field (text : Text) (gap : Gap) (rest : Text) :
    rewritten (text ++ (gap.text ++ rest)) = rewritten text ++ (gap.text ++ rewritten rest) := by
  obtain ⟨symbol, more, shape⟩ := List.exists_cons_of_ne_nil gap.some
  have blank := gap.blank
  rw [shape] at blank ⊢
  rw [List.cons_append, rewritten_append (gap_plain (blank symbol List.mem_cons_self)),
    rewritten_gap fun other member => blank other (List.mem_cons_of_mem _ member)]
  rfl

theorem rewritten_trail (text : Text) (blanks : Blanks) :
    rewritten (text ++ blanks.text) = rewritten text ++ blanks.text := by
  have blank := blanks.blank
  cases shape : blanks.text with
  | nil => rw [List.append_nil, List.append_nil]
  | cons symbol more =>
      rw [shape] at blank
      have kept := @rewritten_gap more
        (fun other member => blank other (List.mem_cons_of_mem _ member)) []
      rw [List.append_nil] at kept
      rw [rewritten_append (gap_plain (blank symbol List.mem_cons_self)), kept]
      exact congrArg (fun rest => rewritten text ++ symbol :: rest) (List.append_nil more)

theorem rewritten_joined (flags : List Text) :
    rewritten (joined ',' flags) = joined ',' (flags.map rewritten) := by
  induction flags with
  | nil => rfl
  | cons first rest ih =>
      cases rest with
      | nil =>
          unfold joined
          rw [List.map_singleton, List.intercalate_singleton, List.intercalate_singleton]
      | cons second others =>
          rw [joined_cons_cons, rewritten_append rfl, ih]
          simp only [List.map_cons, joined_cons_cons]

theorem rewritten_written (line : FstabLine) (mountFlags fsMgrFlags : List Text) :
    rewritten (line.written mountFlags fsMgrFlags) =
      line.lead.text ++ (rewritten line.source.text ++ (line.sourceGap.text ++
        (rewritten line.mountPoint.text ++ (line.mountPointGap.text ++
          (rewritten line.fsType.text ++ (line.fsTypeGap.text ++
            (joined ',' (mountFlags.map rewritten) ++ (line.mountFlagsGap.text ++
              (joined ',' (fsMgrFlags.map rewritten) ++ line.trail.text))))))))) := by
  unfold FstabLine.written FstabLine.front
  simp only [List.append_assoc]
  rw [rewritten_gap line.lead.blank, rewritten_field, rewritten_field, rewritten_field,
    rewritten_field, rewritten_trail, rewritten_joined, rewritten_joined]

theorem append_eq_append_of_length {first second rest others : Text}
    (length : first.length = second.length) :
    first ++ rest = second ++ others ↔ first = second ∧ rest = others := by
  constructor
  · exact fun same => List.append_inj same length
  · intro given
    rw [given.1, given.2]

theorem readWrite_length (flag : Text) : (readWrite flag).length = flag.length := by
  unfold readWrite
  split
  · rename_i same
    rw [same]
    rfl
  · rfl

theorem readWrite_flag {flag : Text} (isFlag : IsFlag flag) : IsFlag (readWrite flag) := by
  unfold readWrite
  split
  · exact @flags_of_all ["rw".toList] rfl _ List.mem_cons_self
  · exact isFlag

theorem rewritten_eq_readWrite_iff (flag : Text) :
    rewritten flag = readWrite flag ↔ flag = roWord ∨ ¬ HasRo flag := by
  unfold readWrite
  split
  · rename_i same
    refine iff_of_true ?_ (.inl same)
    rw [same]
    decide +kernel
  · rename_i different
    rw [rewritten_eq_iff, or_iff_right different]

theorem joined_map_length {change_ : Text → Text}
    (kept : ∀ flag, (change_ flag).length = flag.length) (flags : List Text) :
    (joined ',' (flags.map change_)).length = (joined ',' flags).length := by
  induction flags with
  | nil => rfl
  | cons first rest ih =>
      cases rest with
      | nil =>
          unfold joined
          rw [List.map_singleton, List.intercalate_singleton, List.intercalate_singleton, kept]
      | cons second others =>
          rw [List.map_cons, List.map_cons, joined_cons_cons, joined_cons_cons, List.length_append,
            List.length_append, List.length_cons, List.length_cons, kept, ← List.map_cons, ih]

theorem joined_map_eq_iff {first second : Text → Text} {flags : List Text}
    (firstPlain : ∀ flag, flag ∈ flags → ',' ∉ first flag)
    (secondPlain : ∀ flag, flag ∈ flags → ',' ∉ second flag) :
    joined ',' (flags.map first) = joined ',' (flags.map second) ↔
      ∀ flag, flag ∈ flags → first flag = second flag := by
  rw [← List.map_inj_left]
  refine ⟨fun same => ?_, fun same => by rw [same]⟩
  by_cases some : flags = []
  · rw [some]
    rfl
  · have plain : ∀ {value : Text → Text}, (∀ flag, flag ∈ flags → ',' ∉ value flag) →
        ∀ word, word ∈ flags.map value → ',' ∉ word := by
      intro value plain word member
      obtain ⟨flag, inside, rfl⟩ := List.mem_map.mp member
      exact plain flag inside
    exact joined_injective (fun none => some (List.map_eq_nil_iff.mp none))
      (fun none => some (List.map_eq_nil_iff.mp none)) (plain firstPlain) (plain secondPlain) same

/-- The second substitution changes the mount flag ro and nothing else. -/
theorem rewritten_written_iff (line : FstabLine) {mountFlags fsMgrFlags : List Text}
    (mountPlain : ∀ flag, flag ∈ mountFlags → IsFlag flag)
    (fsMgrPlain : ∀ flag, flag ∈ fsMgrFlags → IsFlag flag) :
    rewritten (line.written mountFlags fsMgrFlags) =
        line.written (mountFlags.map readWrite) fsMgrFlags ↔
      ¬ HasRo line.source.text ∧ ¬ HasRo line.mountPoint.text ∧ ¬ HasRo line.fsType.text ∧
        (∀ flag, flag ∈ mountFlags → flag = roWord ∨ ¬ HasRo flag) ∧
        ∀ flag, flag ∈ fsMgrFlags → ¬ HasRo flag := by
  have mountLength : (joined ',' (mountFlags.map rewritten)).length =
      (joined ',' (mountFlags.map readWrite)).length := by
    rw [joined_map_length rewritten_length, joined_map_length readWrite_length]
  have mount : joined ',' (mountFlags.map rewritten) = joined ',' (mountFlags.map readWrite) ↔
      ∀ flag, flag ∈ mountFlags → flag = roWord ∨ ¬ HasRo flag := by
    rw [joined_map_eq_iff]
    · simp only [rewritten_eq_readWrite_iff]
    · intro flag member inside
      exact (mountPlain flag member).commaless (rewritten_comma.mp inside)
    · exact fun flag member => (readWrite_flag (mountPlain flag member)).commaless
  have fsMgr : joined ',' (fsMgrFlags.map rewritten) = joined ',' fsMgrFlags ↔
      ∀ flag, flag ∈ fsMgrFlags → ¬ HasRo flag := by
    nth_rewrite 2 [← List.map_id fsMgrFlags]
    rw [joined_map_eq_iff]
    · simp only [id_eq, rewritten_eq_iff]
    · intro flag member inside
      exact (fsMgrPlain flag member).commaless (rewritten_comma.mp inside)
    · exact fun flag member => (fsMgrPlain flag member).commaless
  rw [rewritten_written]
  unfold FstabLine.written FstabLine.front
  simp only [List.append_assoc, List.append_right_inj]
  rw [append_eq_append_of_length (rewritten_length _), List.append_right_inj,
    append_eq_append_of_length (rewritten_length _), List.append_right_inj,
    append_eq_append_of_length (rewritten_length _), List.append_right_inj,
    append_eq_append_of_length mountLength, List.append_right_inj, List.append_left_inj,
    mount, fsMgr, rewritten_eq_iff, rewritten_eq_iff, rewritten_eq_iff]

/-! ### Lines -/

section Lines

variable (line : FstabLine)

theorem edited_verity (text : Text) : edited .crypt true text = rewritten (stripped text) :=
  rfl

theorem keptFlags_flags : ∀ flag, flag ∈ line.keptFlags → IsFlag flag :=
  fun flag member => line.fsMgrFlags.plain flag (List.mem_of_mem_filter member)

theorem writableFlags_flags : ∀ flag, flag ∈ line.writableFlags → IsFlag flag := by
  intro flag member
  obtain ⟨other, inside, rfl⟩ := List.mem_map.mp member
  exact readWrite_flag (line.mountFlags.plain other inside)

theorem front_length : (line.front line.writableFlags).length =
    (line.front line.mountFlags.flags).length := by
  unfold FstabLine.front FstabLine.writableFlags
  simp only [List.length_append, joined_map_length readWrite_length]

theorem joined_blanks {flags : List Text} (plain : ∀ flag, flag ∈ flags → IsFlag flag) :
    (joined ',' flags).countP isBlank = 0 := by
  rw [List.countP_eq_zero]
  intro symbol member
  rw [joined_blankless plain symbol member]
  exact Bool.false_ne_true

theorem front_blanks : (line.front line.writableFlags).countP isBlank =
    (line.front line.mountFlags.flags).countP isBlank := by
  unfold FstabLine.front
  simp only [List.countP_append, joined_blanks (writableFlags_flags line),
    joined_blanks line.mountFlags.plain]

/-- No word of verity is taken out of the line but the flags that are to be. -/
theorem verity_words (length : (stripped line.text).length =
    (line.written line.writableFlags line.keptFlags).length) :
    ¬ verifyWord <:+: line.front line.mountFlags.flags ∧
      ∀ flag, flag ∈ line.keptFlags → ¬ verifyWord <:+: flag := by
  obtain ⟨before, separator, shape, separates⟩ := line.front_ended line.mountFlags.flags
  have outer := stripped_blank_length separates before
    (joined ',' line.fsMgrFlags.flags ++ line.trail.text)
  have inner : (stripped (joined ',' line.fsMgrFlags.flags ++ line.trail.text)).length ≤
      (stripped (joined ',' line.fsMgrFlags.flags)).length + line.trail.text.length := by
    have blank := line.trail.all
    cases trail : line.trail.text with
    | nil =>
        rw [List.append_nil]
        exact Nat.le_add_right _ _
    | cons symbol rest =>
        rw [trail] at blank
        have step := stripped_blank_length (blank symbol List.mem_cons_self)
          (joined ',' line.fsMgrFlags.flags) rest
        have shorter := (stripped_length rest).1
        rw [List.length_cons]
        omega
  have first := stripped_length before
  have flags := flags_length line.fsMgrFlags.some fun flag member =>
    (line.fsMgrFlags.plain flag member).commaless
  have frontLength : (line.front line.mountFlags.flags).length = before.length + 1 := by
    rw [shape, List.length_append, List.length_singleton]
  have text : line.text = before ++ separator ::
      (joined ',' line.fsMgrFlags.flags ++ line.trail.text) := by
    rw [line.text_eq, shape, List.append_assoc, List.singleton_append]
  rw [text] at length
  unfold FstabLine.written FstabLine.keptFlags at length
  rw [List.length_append, front_length, frontLength, List.length_append] at length
  constructor
  · intro inside
    rw [shape, infix_append_blank (plain_of_all rfl) separates, List.infix_nil,
      or_iff_left (by decide)] at inside
    have less := first.2 inside
    omega
  · intro flag member inside
    have less := flags.2 ⟨flag, member, inside⟩
    omega

variable {line}

/-- With the words only where they are meant, the front stays. -/
theorem stripped_text {init : List Text} {last : Text}
    (split : line.fsMgrFlags.flags = init ++ [last])
    (outside : ¬ verifyWord <:+: line.front line.mountFlags.flags)
    (others : ∀ flag, flag ∈ line.keptFlags → ¬ verifyWord <:+: flag) :
    stripped line.text = line.front line.mountFlags.flags ++
      (stripped (joined ',' line.fsMgrFlags.flags) ++ leftBehind last line.trail.text) := by
  obtain ⟨before, separator, shape, separates⟩ := line.front_ended line.mountFlags.flags
  have absent : ¬ verifyWord <:+: before := by
    intro inside
    apply outside
    rw [shape]
    exact inside.trans (List.prefix_append _ _).isInfix
  have member : last ∈ line.fsMgrFlags.flags := by
    rw [split]
    exact List.mem_append_right _ List.mem_cons_self
  have clean : isVerify last = false → ¬ verifyWord <:+: last := by
    intro other
    apply others
    unfold FstabLine.keptFlags unverified
    rw [List.mem_filter, other]
    exact ⟨member, rfl⟩
  have plain : ∀ flag, flag ∈ init ++ [last] → ',' ∉ flag := by
    intro flag inside
    rw [← split] at inside
    exact (line.fsMgrFlags.plain flag inside).commaless
  rw [line.text_eq, shape, List.append_assoc, List.singleton_append,
    stripped_front absent separates, split, stripped_trail plain clean line.trail.all,
    List.append_assoc, List.singleton_append]

/-- What is left of the flags is what is to be, -/
theorem flags_kept (others : ∀ flag, flag ∈ line.keptFlags → ¬ verifyWord <:+: flag)
    (first : (∀ flag, flag ∈ line.fsMgrFlags.flags.head? → isVerify flag = false) ∨
      line.keptFlags = []) :
    stripped (joined ',' line.fsMgrFlags.flags) = joined ',' line.keptFlags := by
  have plain : ∀ flag, flag ∈ line.fsMgrFlags.flags → ',' ∉ flag := fun flag member =>
    (line.fsMgrFlags.plain flag member).commaless
  unfold FstabLine.keptFlags at others first ⊢
  obtain ⟨head, rest, shape⟩ := List.exists_cons_of_ne_nil line.fsMgrFlags.some
  rw [shape] at others first plain ⊢
  rw [flags_clean plain others]
  cases verifies : isVerify head with
  | true =>
      have none := first.resolve_left fun other => by
        rw [other head rfl] at verifies
        cases verifies
      rw [if_pos rfl, none]
      rw [unverified_gone verifies] at none
      rw [none]
      rfl
  | false => rw [if_neg Bool.false_ne_true]

/-- unless a comma is left over. -/
theorem first_kept (others : ∀ flag, flag ∈ line.keptFlags → ¬ verifyWord <:+: flag)
    (length : (stripped (joined ',' line.fsMgrFlags.flags)).length =
      (joined ',' line.keptFlags).length) :
    (∀ flag, flag ∈ line.fsMgrFlags.flags.head? → isVerify flag = false) ∨
      line.keptFlags = [] := by
  have plain : ∀ flag, flag ∈ line.fsMgrFlags.flags → ',' ∉ flag := fun flag member =>
    (line.fsMgrFlags.plain flag member).commaless
  unfold FstabLine.keptFlags at others length ⊢
  obtain ⟨head, rest, shape⟩ := List.exists_cons_of_ne_nil line.fsMgrFlags.some
  rw [shape] at others length plain ⊢
  rw [flags_clean plain others] at length
  cases verifies : isVerify head with
  | true =>
      right
      rw [verifies, if_pos rfl, unverified_gone verifies] at length
      rw [unverified_gone verifies]
      cases kept : unverified rest with
      | nil => rfl
      | cons flag flags =>
          rw [kept, joined_eq_listed, listed_cons, List.cons_append, List.length_cons] at length
          omega
  | false =>
      left
      intro flag member
      cases member
      exact verifies

theorem verityCleared_formed : (∀ flag, flag ∈ line.mountFlags.flags ++ line.fsMgrFlags.flags →
    flag ≠ []) → ∀ flag, flag ∈ line.writableFlags ++ line.keptFlags → flag ≠ [] := by
  intro solid flag member
  rcases List.mem_append.mp member with mount | fsMgr
  · obtain ⟨other, inside, rfl⟩ := List.mem_map.mp mount
    have some := solid other (List.mem_append_left _ inside)
    intro none
    have length := readWrite_length other
    rw [none, List.length_nil] at length
    exact some (List.length_eq_zero_iff.mp length.symm)
  · exact solid flag (List.mem_append_right _ (List.mem_of_mem_filter fsMgr))

end Lines

theorem leftBehind_trail {last trail : Text} (value : "verify=".toList <+: last → trail = []) :
    leftBehind last trail = trail := by
  unfold leftBehind
  split
  · rename_i front
    exact (value front).symm
  · rfl

/-- A value at the end takes the white space behind the line along. -/
theorem trail_of_cleared {line : FstabLine} {init : List Text} {last : Text}
    (split : line.fsMgrFlags.flags = init ++ [last])
    (outside : ¬ verifyWord <:+: line.front line.mountFlags.flags)
    (others : ∀ flag, flag ∈ line.keptFlags → ¬ verifyWord <:+: flag)
    (same : rewritten (stripped line.text) = line.written line.writableFlags line.keptFlags)
    (front : "verify=".toList <+: last) : line.trail.text = [] := by
  have blankless : (stripped (joined ',' line.fsMgrFlags.flags)).countP isBlank = 0 := by
    rw [List.countP_eq_zero]
    intro symbol member
    rw [joined_blankless line.fsMgrFlags.plain symbol (stripped_subset _ symbol member)]
    exact Bool.false_ne_true
  have trail : line.trail.text.countP isBlank = line.trail.text.length :=
    List.countP_eq_length.mpr line.trail.all
  have blanks := congrArg (List.countP isBlank) same
  unfold FstabLine.written at blanks
  rw [rewritten_blanks, stripped_text split outside others, leftBehind, if_pos front] at blanks
  simp only [List.countP_append, front_blanks, blankless,
    joined_blanks (keptFlags_flags line), List.countP_nil, trail] at blanks
  exact List.length_eq_zero_iff.mp (by omega)

/-- Just the flags of verity and the read-only flag are changed, exactly if their words stand
in no other place of the line and the flags of verity neither come first nor, with a value,
before white space. -/
theorem clears_verity_iff (line : FstabLine) :
    VerityCleared line (edited .crypt true line.text) ↔ VerityClearable line := by
  obtain ⟨init, last, split⟩ :=
    (List.eq_nil_or_concat line.fsMgrFlags.flags).resolve_left line.fsMgrFlags.some
  rw [List.concat_eq_append] at split
  have lastFlag : line.fsMgrFlags.flags.getLast? = some last := by
    rw [split, List.getLast?_concat]
  have words := rewritten_written_iff line line.mountFlags.plain (keptFlags_flags line)
  rw [edited_verity]
  constructor
  · intro cleared
    have same := cleared.whole
    have length := congrArg List.length same
    rw [rewritten_length] at length
    obtain ⟨outside, others⟩ := verity_words line length
    have value := trail_of_cleared split outside others same
    have text := stripped_text split outside others
    rw [leftBehind_trail value] at text
    unfold FstabLine.written at length
    rw [text] at length
    simp only [List.length_append, front_length] at length
    have first := first_kept others (by omega)
    have kept := flags_kept others first
    rw [kept] at text
    rw [text] at same
    obtain ⟨source, mountPoint, fsType, mountFlags, fsMgrFlags⟩ := words.mp same
    refine ⟨outside, others, first, ?_, source, mountPoint, fsType, mountFlags, fsMgrFlags⟩
    by_cases front : "verify=".toList <+: last
    · exact .inr (value front)
    · left
      intro flag member
      rw [lastFlag] at member
      cases member
      exact front
  · intro clearable
    have text := stripped_text split clearable.outside clearable.others
    have value : "verify=".toList <+: last → line.trail.text = [] := fun front =>
      clearable.last.resolve_left fun none => none last lastFlag front
    rw [leftBehind_trail value, flags_kept clearable.others clearable.first] at text
    refine ⟨?_, verityCleared_formed⟩
    rw [text]
    exact words.mpr ⟨clearable.source, clearable.mountPoint, clearable.fsType,
      clearable.mountFlags, clearable.fsMgrFlags⟩

def verifyFirstLine : FstabLine where
  lead := Blanks.none
  source := Field.sda
  sourceGap := Gap.space
  mountPoint := ⟨"/system".toList, by decide, plain_of_all rfl⟩
  mountPointGap := Gap.space
  fsType := Field.ext4
  fsTypeGap := Gap.space
  mountFlags := ⟨[roWord], List.cons_ne_nil _ _, by decide, flags_of_all rfl⟩
  mountFlagsGap := Gap.space
  fsMgrFlags := ⟨[verifyWord, "wait".toList], List.cons_ne_nil _ _, by decide,
    flags_of_all rfl⟩
  trail := Blanks.none

/-- An empty flag is left in front. -/
theorem verifyFirst_not_cleared :
    edited .crypt true verifyFirstLine.text = "/dev/block/sda /system ext4 rw ,wait".toList ∧
      ¬ VerityCleared verifyFirstLine (edited .crypt true verifyFirstLine.text) := by
  have result : edited .crypt true verifyFirstLine.text =
      "/dev/block/sda /system ext4 rw ,wait".toList := by
    decide +kernel
  refine ⟨result, fun cleared => ?_⟩
  rw [result] at cleared
  exact absurd cleared.whole (by decide +kernel)

end SuperBootimg.Concrete.Fstab
