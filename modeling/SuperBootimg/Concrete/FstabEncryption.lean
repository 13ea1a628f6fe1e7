/-
What the options nocrypt and nocrypt_all leave of a line of an fstab. A rule that finds
its flag drops all that follows it as well; for nocrypt it takes the last place in a line
that has /data somewhere before it.
-/

import SuperBootimg.Concrete.FstabLines

namespace SuperBootimg.Concrete.Fstab

open FieldSplitting RegularSearch
open Sepolicy (Text isBlank)
open Initramfs (isWordSymbol)

def beginsWith (keys : List Text) (flag : Text) : Bool :=
  keys.any fun key => key.isPrefixOf flag

def isCrypt (flag : Text) : Bool :=
  beginsWith cryptKeys flag

def dataMount : Text :=
  "/data".toList

def FstabLine.decrypted (line : FstabLine) : Text :=
  line.written line.mountFlags.flags (line.fsMgrFlags.flags.filter fun flag => !isCrypt flag)

def FstabLine.intended (line : FstabLine) : NocryptMode → Text
  | .crypt => line.text
  | .nocrypt => if line.mountPoint.text = dataMount then line.decrypted else line.text
  | .nocryptAll => line.decrypted

/-- The key stands behind a comma that comes after /data. -/
def Behind (key text : Text) : Prop :=
  ∃ front back, text = front ++ (',' :: key ++ back) ∧ dataMount <:+: front

/-- The last flag with the first key, before it the last one with the second key, and so
on, up to the first flag. A key of no flag is not in what stands before the flags either. -/
inductive Chain (front : Text) : List Text → List Text → Prop
  | done : Chain front [] []
  | cut {key : Text} {keys before behind : List Text} {flag : Text} (begins : key <+: flag)
      (last : ∀ other, other ∈ behind → ¬ key <+: other) (rest : Chain front keys before) :
      Chain front (key :: keys) (before ++ flag :: behind)
  | kept {key : Text} {keys flags : List Text} (none : ∀ flag, flag ∈ flags → ¬ key <+: flag)
      (absent : ¬ Behind key front) (rest : Chain front keys flags) :
      Chain front (key :: keys) flags

/-- The encryption flags come last, and before them there is another one. -/
structure CryptLast (line : FstabLine) (kept dropped : List Text) : Prop where
  split : line.fsMgrFlags.flags = kept ++ dropped
  some : kept ≠ []
  plain : ∀ flag, flag ∈ kept → isCrypt flag = false
  crypt : ∀ flag, flag ∈ dropped → isCrypt flag = true
  ends : dropped = [] ∨ line.trail.text = []

/-! ### One rule -/

theorem beginsWith_cons {key : Text} {keys : List Text} {flag : Text} :
    beginsWith (key :: keys) flag = false ↔ ¬ key <+: flag ∧ beginsWith keys flag = false := by
  unfold beginsWith
  rw [List.any_cons, Bool.or_eq_false_iff, ← List.isPrefixOf_iff_prefix, Bool.not_eq_true]

theorem exists_last_item {α : Type} {holds : α → Prop} {items : List α}
    (some : ∃ item, item ∈ items ∧ holds item) :
    ∃ before item behind, items = before ++ item :: behind ∧ holds item ∧
      ∀ other, other ∈ behind → ¬ holds other := by
  induction items with
  | nil =>
      obtain ⟨item, member, _⟩ := some
      exact absurd member List.not_mem_nil
  | cons first rest ih =>
      by_cases later : ∃ item, item ∈ rest ∧ holds item
      · obtain ⟨before, item, behind, rfl, here, last⟩ := ih later
        exact ⟨first :: before, item, behind, rfl, here, last⟩
      · obtain ⟨item, member, here⟩ := some
        rcases List.mem_cons.mp member with rfl | inside
        · exact ⟨[], item, rest, rfl, here,
            fun other again present => later ⟨other, again, present⟩⟩
        · exact absurd ⟨item, inside, here⟩ later

theorem cryptKeys_flags : ∀ key, key ∈ cryptKeys → IsFlag key :=
  flags_of_all rfl

theorem IsFlag.needle_blankless {key : Text} (isKey : IsFlag key) :
    ∀ symbol, symbol ∈ ',' :: key → isBlank symbol = false := by
  intro symbol member
  rcases List.mem_cons.mp member with rfl | inside
  · rfl
  · exact (isKey symbol inside).2

section Needle

variable {key front first tail : Text} {rest : List Text}

/-- Where a key stands behind a comma, it is before the flags or begins one of them. -/
theorem needle_infix_iff (isKey : IsFlag key) (ended : Ended front)
    (plain : ∀ flag, flag ∈ first :: rest → IsFlag flag)
    (blank : ∀ symbol, symbol ∈ tail → isBlank symbol = true) :
    ',' :: key <:+: front ++ (joined ',' (first :: rest) ++ tail) ↔
      ',' :: key <:+: front ∨ ∃ flag, flag ∈ rest ∧ key <+: flag := by
  obtain ⟨before, separator, rfl, separates⟩ := ended
  have some : ',' :: key ≠ [] := List.cons_ne_nil _ _
  have early : ',' :: key <:+: before ++ [separator] ↔ ',' :: key <:+: before := by
    rw [infix_append_blank isKey.needle_blankless separates, List.infix_nil, or_iff_left some]
  have late : ',' :: key <:+: joined ',' (first :: rest) ++ tail ↔
      ',' :: key <:+: joined ',' (first :: rest) := by
    cases tail with
    | nil => rw [List.append_nil]
    | cons symbol more =>
        rw [infix_append_blank isKey.needle_blankless (blank symbol List.mem_cons_self)]
        apply or_iff_left
        intro inside
        have comma := blank ',' (List.mem_cons_of_mem _ (inside.subset List.mem_cons_self))
        cases comma
  rw [early, List.append_assoc, List.singleton_append,
    infix_append_blank isKey.needle_blankless separates, late,
    infix_joined_iff isKey.commaless (plain first List.mem_cons_self).commaless fun flag member =>
      (plain flag (List.mem_cons_of_mem _ member)).commaless]

theorem needle_absent (isKey : IsFlag key) (plain : ∀ flag, flag ∈ first :: rest → IsFlag flag)
    (blank : ∀ symbol, symbol ∈ tail → isBlank symbol = true)
    (none : ∀ flag, flag ∈ rest → ¬ key <+: flag) :
    ¬ ',' :: key <:+: joined ',' (first :: rest) ++ tail := by
  intro present
  have ended : Ended [' '] := ⟨[], ' ', rfl, rfl⟩
  have behind : ',' :: key <:+: [' '] ++ (joined ',' (first :: rest) ++ tail) :=
    present.trans (List.suffix_append _ _).isInfix
  rcases (needle_infix_iff isKey ended plain blank).mp behind with inside | ⟨flag, member, begins⟩
  · have comma : ',' ∈ [' '] := inside.subset List.mem_cons_self
    exact absurd comma (by decide)
  · exact none flag member begins

/-- The text around a flag that begins with a key. -/
theorem around_flag {before behind : List Text} {value : Text} :
    front ++ (joined ',' (first :: (before ++ (key ++ value) :: behind)) ++ tail) =
      (front ++ joined ',' (first :: before)) ++
        (',' :: key ++ (value ++ (joined ',' ([] :: behind) ++ tail))) := by
  simp only [joined_cons, List.flatMap_append, List.flatMap_cons, List.append_assoc,
    List.cons_append, List.nil_append]

end Needle

/-! ### nocrypt_all -/

section All

variable {key front first tail : Text} {rest : List Text}

theorem all_kept {text : Text} (absent : ¬ ',' :: key <:+: text) :
    substitute isWordSymbol (allRule key) text = text :=
  substitute_kept fun present => absent (occurs_onward present)

theorem all_cut {text before after : Text} (isKey : IsFlag key)
    (split : text = before ++ (',' :: key ++ after)) (firstPlace : ¬ ',' :: key <:+: before) :
    substitute isWordSymbol (allRule key) text = before := by
  rw [split]
  exact substitute_onward isKey.commaless firstPlace none after

def leading (keep : Text → Bool) (first : Text) (rest : List Text) (tail : Text) : Text :=
  joined ',' (first :: rest.takeWhile keep) ++ if rest.all keep then tail else []

theorem leading_leading (keep again : Text → Bool) (first : Text) (rest : List Text)
    (tail : Text) :
    leading again first (rest.takeWhile keep) (if rest.all keep then tail else []) =
      leading (fun flag => keep flag && again flag) first rest tail := by
  have both : (rest.all fun flag => keep flag && again flag) =
      (rest.all keep && (rest.takeWhile keep).all again) := by
    induction rest with
    | nil => rfl
    | cons flag rest ih =>
        rw [List.all_cons, List.all_cons, ih, List.takeWhile_cons]
        cases keep flag with
        | true => rw [if_pos rfl, List.all_cons]; cases again flag <;> cases rest.all keep <;> rfl
        | false => rfl
  unfold leading
  rw [List.takeWhile_takeWhile, both]
  have same : (fun flag => decide (again flag = true ∧ keep flag = true)) =
      fun flag => keep flag && again flag := by
    funext flag
    cases keep flag <;> cases again flag <;> rfl
  rw [same]
  cases rest.all keep <;> cases (rest.takeWhile keep).all again <;> rfl

/-- The rule cuts the line before the first flag with its key. -/
theorem substitute_all (isKey : IsFlag key) (ended : Ended front)
    (plain : ∀ flag, flag ∈ first :: rest → IsFlag flag)
    (blank : ∀ symbol, symbol ∈ tail → isBlank symbol = true) (clean : ¬ ',' :: key <:+: front) :
    substitute isWordSymbol (allRule key) (front ++ (joined ',' (first :: rest) ++ tail)) =
      front ++ leading (fun flag => !key.isPrefixOf flag) first rest tail := by
  have whole := @List.takeWhile_append_dropWhile _ (fun flag => !key.isPrefixOf flag) rest
  have others : ∀ flag, flag ∈ rest.takeWhile (fun flag => !key.isPrefixOf flag) →
      ¬ key <+: flag := by
    intro flag member begins
    have kept := List.mem_takeWhile_imp member
    rw [List.isPrefixOf_iff_prefix.mpr begins] at kept
    cases kept
  unfold leading
  cases shape : rest.dropWhile (fun flag => !key.isPrefixOf flag) with
  | nil =>
      rw [shape, List.append_nil] at whole
      rw [whole] at others ⊢
      have all : (rest.all fun flag => !key.isPrefixOf flag) = true := by
        rw [List.all_eq_true]
        exact List.dropWhile_eq_nil_iff.mp shape
      rw [if_pos all]
      apply all_kept
      rw [needle_infix_iff isKey ended plain blank, not_or]
      exact ⟨clean, fun given => others _ given.choose_spec.1 given.choose_spec.2⟩
  | cons flag behind =>
      have begins : key <+: flag := by
        have head := List.head_dropWhile_not (fun flag => !key.isPrefixOf flag)
          (by rw [shape]; exact List.cons_ne_nil _ _)
        simp only [shape, List.head_cons, Bool.not_eq_false', List.isPrefixOf_iff_prefix] at head
        exact head
      rw [shape] at whole
      generalize rest.takeWhile (fun flag => !key.isPrefixOf flag) = before at whole others
      obtain ⟨value, rfl⟩ := begins
      subst whole
      have some : ¬ (before ++ (key ++ value) :: behind).all (fun flag => !key.isPrefixOf flag) =
          true := by
        intro all
        have here := List.all_eq_true.mp all (key ++ value)
          (List.mem_append_right _ List.mem_cons_self)
        rw [List.isPrefixOf_iff_prefix.mpr (List.prefix_append _ _)] at here
        cases here
      rw [if_neg some, List.append_nil]
      apply all_cut isKey around_flag
      have kept := @needle_infix_iff key front first [] before isKey ended
        (fun flag member => plain flag
          (List.cons_subset_cons _ (List.subset_append_left _ _) member))
        (fun symbol member => absurd member List.not_mem_nil)
      rw [List.append_nil] at kept
      rw [kept, not_or]
      exact ⟨clean, fun given => others _ given.choose_spec.1 given.choose_spec.2⟩

theorem applied_cons (rule : Rule Char) (rules : List (Rule Char)) (text : Text) :
    applied (rule :: rules) text = applied rules (substitute isWordSymbol rule text) :=
  List.foldl_cons

theorem applied_all {keys : List Text} (areKeys : ∀ key, key ∈ keys → IsFlag key)
    (ended : Ended front) (plain : ∀ flag, flag ∈ first :: rest → IsFlag flag)
    (blank : ∀ symbol, symbol ∈ tail → isBlank symbol = true)
    (clean : ∀ key, key ∈ keys → ¬ ',' :: key <:+: front) :
    applied (keys.map allRule) (front ++ (joined ',' (first :: rest) ++ tail)) =
      front ++ leading (fun flag => !beginsWith keys flag) first rest tail := by
  induction keys generalizing rest tail with
  | nil =>
      have all : (rest.all fun flag => !beginsWith [] flag) = true := List.all_eq_true.mpr
        fun _ _ => rfl
      have whole : rest.takeWhile (fun flag => !beginsWith [] flag) = rest :=
        List.takeWhile_eq_self_iff.mpr fun _ _ => rfl
      unfold leading
      rw [whole, if_pos all]
      rfl
  | cons key keys ih =>
      have both : (fun flag => !beginsWith (key :: keys) flag) =
          fun flag => !key.isPrefixOf flag && !beginsWith keys flag := by
        funext flag
        unfold beginsWith
        rw [List.any_cons, Bool.not_or]
      rw [List.map_cons, applied_cons, substitute_all (areKeys key List.mem_cons_self) ended plain
        blank (clean key List.mem_cons_self), both, ← leading_leading]
      apply ih (fun other member => areKeys other (List.mem_cons_of_mem _ member))
      · intro flag member
        exact plain flag (List.cons_subset_cons _ (List.takeWhile_sublist _).subset member)
      · intro symbol member
        split at member
        · exact blank symbol member
        · exact absurd member List.not_mem_nil
      · exact fun other member => clean other (List.mem_cons_of_mem _ member)

/-- What the rule leaves is the front of the text and does not have the key. -/
theorem substitute_all_front (isKey : IsFlag key) (text : Text) :
    substitute isWordSymbol (allRule key) text <+: text ∧
      ¬ ',' :: key <:+: substitute isWordSymbol (allRule key) text := by
  by_cases present : ',' :: key <:+: text
  · obtain ⟨before, after, split, firstPlace⟩ := exists_first (List.cons_ne_nil _ _) present
    rw [all_cut isKey split firstPlace, split]
    exact ⟨List.prefix_append _ _, firstPlace⟩
  · rw [all_kept present]
    exact ⟨List.prefix_rfl, present⟩

theorem applied_all_front {keys : List Text} (areKeys : ∀ key, key ∈ keys → IsFlag key)
    (text : Text) :
    applied (keys.map allRule) text <+: text ∧
      ∀ key, key ∈ keys → ¬ ',' :: key <:+: applied (keys.map allRule) text := by
  induction keys generalizing text with
  | nil => exact ⟨List.prefix_rfl, fun key member => absurd member List.not_mem_nil⟩
  | cons key keys ih =>
      obtain ⟨front, clean⟩ := substitute_all_front (areKeys key List.mem_cons_self) text
      obtain ⟨later, others⟩ := ih (fun other member => areKeys other
        (List.mem_cons_of_mem _ member)) (substitute isWordSymbol (allRule key) text)
      rw [List.map_cons, applied_cons]
      refine ⟨later.trans front, ?_⟩
      intro other member
      rcases List.mem_cons.mp member with rfl | inside
      · exact fun present => clean (present.trans later.isInfix)
      · exact others other inside

end All

/-! ### nocrypt -/

section Data

variable {key front first tail : Text} {rest : List Text}

theorem data_kept {text : Text} (absent : ¬ Behind key text) :
    substitute isWordSymbol (dataRule key) text = text :=
  substitute_kept fun present => absent (occurs_onward_onward present)

theorem data_cut {text before after : Text} (isKey : IsFlag key)
    (split : text = before ++ (',' :: key ++ after)) (present : dataMount <:+: before)
    (lastPlace : ¬ ',' :: key <:+: after) :
    substitute isWordSymbol (dataRule key) text = before := by
  rw [split]
  exact substitute_onward_onward isKey.commaless (by decide) present lastPlace none

/-- The last place of a key behind /data. -/
theorem Behind.last {text : Text} (behind : Behind key text) :
    ∃ before after, text = before ++ (',' :: key ++ after) ∧ dataMount <:+: before ∧
      ¬ ',' :: key <:+: after := by
  obtain ⟨before, after, rfl, present⟩ := behind
  by_cases again : ',' :: key <:+: after
  · obtain ⟨middle, rest, rfl, last⟩ := exists_last (List.cons_ne_nil _ _) again
    refine ⟨before ++ (',' :: key ++ middle), rest, by simp only [List.append_assoc], ?_, last⟩
    exact present.trans (List.prefix_append _ _).isInfix
  · exact ⟨before, after, rfl, present, again⟩

theorem Behind.append {text : Text} (behind : Behind key text) (more : Text) :
    Behind key (text ++ more) := by
  obtain ⟨before, after, rfl, present⟩ := behind
  exact ⟨before, after ++ more, by simp only [List.append_assoc], present⟩

/-- The rule keeps a text or takes away the end of it. -/
theorem substitute_data_front (isKey : IsFlag key) (text : Text) :
    substitute isWordSymbol (dataRule key) text <+: text ∧
      (substitute isWordSymbol (dataRule key) text = text ↔ ¬ Behind key text) := by
  by_cases behind : Behind key text
  · obtain ⟨before, after, split, present, last⟩ := behind.last
    rw [data_cut isKey split present last]
    refine ⟨⟨_, split.symm⟩, iff_of_false ?_ fun absent => absent behind⟩
    intro same
    rw [← same] at split
    have length := congrArg List.length split
    rw [List.length_append, List.length_append, List.length_cons] at length
    omega
  · rw [data_kept behind]
    exact ⟨List.prefix_rfl, iff_of_true rfl behind⟩

theorem applied_data_front {keys : List Text} (areKeys : ∀ key, key ∈ keys → IsFlag key)
    (text : Text) : applied (keys.map dataRule) text <+: text := by
  induction keys generalizing text with
  | nil => exact List.prefix_rfl
  | cons key keys ih =>
      rw [List.map_cons, applied_cons]
      exact (ih (fun other member => areKeys other (List.mem_cons_of_mem _ member)) _).trans
        (substitute_data_front (areKeys key List.mem_cons_self) text).1

theorem applied_data_eq_iff {keys : List Text} (areKeys : ∀ key, key ∈ keys → IsFlag key)
    (text : Text) :
    applied (keys.map dataRule) text = text ↔ ∀ key, key ∈ keys → ¬ Behind key text := by
  induction keys with
  | nil => exact iff_of_true rfl fun key member => absurd member List.not_mem_nil
  | cons key keys ih =>
      have others : ∀ other, other ∈ keys → IsFlag other := fun other member =>
        areKeys other (List.mem_cons_of_mem _ member)
      obtain ⟨front, kept⟩ := substitute_data_front (areKeys key List.mem_cons_self) text
      have later := applied_data_front others (substitute isWordSymbol (dataRule key) text)
      rw [List.map_cons, applied_cons, List.forall_mem_cons, ← kept, ← ih others]
      constructor
      · intro same
        rw [same] at later
        have whole := front.eq_of_length_le later.length_le
        rw [whole] at same
        exact ⟨whole, same⟩
      · intro given
        rw [given.1, given.2]

/-- The rule cuts the line before the last flag with its key. -/
theorem data_cut_flag {before behind : List Text} {flag : Text} (isKey : IsFlag key)
    (begins : key <+: flag) (plain : ∀ other, other ∈ flag :: behind → IsFlag other)
    (last : ∀ other, other ∈ behind → ¬ key <+: other)
    (blank : ∀ symbol, symbol ∈ tail → isBlank symbol = true) (mounted : dataMount <:+: front) :
    substitute isWordSymbol (dataRule key)
        (front ++ (joined ',' (first :: (before ++ flag :: behind)) ++ tail)) =
      front ++ joined ',' (first :: before) := by
  obtain ⟨value, rfl⟩ := begins
  apply data_cut isKey around_flag (mounted.trans (List.prefix_append _ _).isInfix)
  have valuePlain : ',' ∉ value := fun member =>
    (plain _ List.mem_cons_self).commaless (List.mem_append_right _ member)
  rw [infix_append_plain valuePlain]
  apply needle_absent isKey _ blank last
  intro other member
  rcases List.mem_cons.mp member with rfl | inside
  · exact fun symbol none => absurd none List.not_mem_nil
  · exact plain other (List.mem_cons_of_mem _ inside)

/-- Without such a flag the key stands before the flags. -/
theorem needle_in_front {before after : Text} (isKey : IsFlag key) (ended : Ended front)
    (plain : ∀ flag, flag ∈ first :: rest → IsFlag flag)
    (blank : ∀ symbol, symbol ∈ tail → isBlank symbol = true)
    (none : ∀ flag, flag ∈ rest → ¬ key <+: flag)
    (split : front ++ (joined ',' (first :: rest) ++ tail) = before ++ (',' :: key ++ after)) :
    ∃ others, front = before ++ (',' :: key ++ others) := by
  have absent := needle_absent isKey plain blank none
  rcases List.append_eq_append_iff.mp split with ⟨more, _, inside⟩ | ⟨more, inside, rest⟩
  · refine absurd ?_ absent
    rw [inside]
    exact ⟨more, after, List.append_assoc _ _ _⟩
  · rcases List.append_eq_append_iff.mp rest with ⟨others, needle, _⟩ | ⟨others, needle, whole⟩
    · exact ⟨others, by rw [inside, needle]⟩
    · rcases List.eq_nil_or_concat more with rfl | ⟨middle, last, rfl⟩
      · refine absurd ?_ absent
        rw [List.nil_append] at needle
        rw [whole, needle]
        exact (List.prefix_append _ _).isInfix
      · obtain ⟨start, separator, shape, separates⟩ := ended
        rw [inside, List.concat_eq_append, ← List.append_assoc] at shape
        obtain ⟨_, same⟩ := List.append_inj' shape rfl
        have member : separator ∈ ',' :: key := by
          rw [needle, List.concat_eq_append, same]
          exact List.mem_append_left _ (List.mem_append_right _ List.mem_cons_self)
        rw [isKey.needle_blankless separator member] at separates
        cases separates

theorem behind_iff_front (isKey : IsFlag key) (ended : Ended front)
    (plain : ∀ flag, flag ∈ first :: rest → IsFlag flag)
    (blank : ∀ symbol, symbol ∈ tail → isBlank symbol = true)
    (none : ∀ flag, flag ∈ rest → ¬ key <+: flag) :
    Behind key (front ++ (joined ',' (first :: rest) ++ tail)) ↔ Behind key front := by
  refine ⟨?_, fun behind => behind.append _⟩
  intro behind
  obtain ⟨before, after, split, present⟩ := behind
  obtain ⟨others, inside⟩ := needle_in_front isKey ended plain blank none split
  exact ⟨before, others, inside, present⟩

/-- The rule then cuts into it. -/
theorem data_cut_front (isKey : IsFlag key) (ended : Ended front)
    (plain : ∀ flag, flag ∈ first :: rest → IsFlag flag)
    (blank : ∀ symbol, symbol ∈ tail → isBlank symbol = true)
    (none : ∀ flag, flag ∈ rest → ¬ key <+: flag) (behind : Behind key front) :
    (substitute isWordSymbol (dataRule key)
      (front ++ (joined ',' (first :: rest) ++ tail))).length < front.length := by
  obtain ⟨before, after, split, present, last⟩ :=
    (behind.append (joined ',' (first :: rest) ++ tail)).last
  obtain ⟨others, inside⟩ := needle_in_front isKey ended plain blank none split
  rw [data_cut isKey split present last, inside, List.length_append, List.length_append,
    List.length_cons]
  omega

/-- The flags and the white space that are left when some flags at the end are dropped. -/
def remaining (first : Text) (taken dropped : List Text) (tail : Text) : Text :=
  joined ',' (first :: taken) ++ if dropped = [] then tail else []

/-- The rules cut into what stands before the flags, or drop flags at the end in a chain. -/
theorem applied_data_shape {keys : List Text} (areKeys : ∀ key, key ∈ keys → IsFlag key)
    (ended : Ended front) (mounted : dataMount <:+: front)
    (plain : ∀ flag, flag ∈ first :: rest → IsFlag flag)
    (blank : ∀ symbol, symbol ∈ tail → isBlank symbol = true) :
    (applied (keys.map dataRule) (front ++ (joined ',' (first :: rest) ++ tail))).length <
        front.length ∨
      ∃ taken dropped, rest = taken ++ dropped ∧
        applied (keys.map dataRule) (front ++ (joined ',' (first :: rest) ++ tail)) =
          front ++ remaining first taken dropped tail ∧
        ((∀ flag, flag ∈ taken → beginsWith keys flag = false) → Chain front keys dropped) := by
  induction keys generalizing rest tail with
  | nil =>
      right
      refine ⟨rest, [], (List.append_nil rest).symm, ?_, fun _ => .done⟩
      unfold remaining
      rw [if_pos rfl]
      rfl
  | cons key keys ih =>
      have isKey := areKeys key List.mem_cons_self
      have others : ∀ other, other ∈ keys → IsFlag other := fun other member =>
        areKeys other (List.mem_cons_of_mem _ member)
      rw [List.map_cons, applied_cons]
      by_cases some : ∃ flag, flag ∈ rest ∧ key <+: flag
      · obtain ⟨before, flag, behind, rfl, begins, last⟩ :
            ∃ before flag behind, rest = before ++ flag :: behind ∧ key <+: flag ∧
              ∀ other, other ∈ behind → ¬ key <+: other := exists_last_item some
        have behindPlain : ∀ other, other ∈ flag :: behind → IsFlag other := fun other member =>
          plain other (List.mem_cons_of_mem _ (List.mem_append_right _ member))
        have beforePlain : ∀ other, other ∈ first :: before → IsFlag other := fun other member =>
          plain other (List.cons_subset_cons _ (List.subset_append_left _ _) member)
        rw [data_cut_flag isKey begins behindPlain last blank mounted]
        have later := @ih [] before others beforePlain fun symbol none =>
          absurd none List.not_mem_nil
        rw [List.append_nil] at later
        rcases later with short | ⟨taken, dropped, rfl, result, chain⟩
        · exact .inl short
        · right
          refine ⟨taken, dropped ++ flag :: behind, List.append_assoc _ _ _, ?_, ?_⟩
          · rw [result]
            unfold remaining
            rw [ite_self, if_neg (List.append_ne_nil_of_right_ne_nil _ (List.cons_ne_nil _ _))]
          · exact fun none => .cut begins last
              (chain fun flag member => (beginsWith_cons.mp (none flag member)).2)
      · have none : ∀ flag, flag ∈ rest → ¬ key <+: flag := fun flag member begins =>
          some ⟨flag, member, begins⟩
        have place := behind_iff_front isKey ended plain blank none
        by_cases behind : Behind key front
        · left
          exact Nat.lt_of_le_of_lt (applied_data_front others _).length_le
            (data_cut_front isKey ended plain blank none behind)
        · rw [data_kept fun inside => behind (place.mp inside)]
          rcases ih others plain blank with short | ⟨taken, dropped, rfl, result, chain⟩
          · exact .inl short
          · right
            refine ⟨taken, dropped, rfl, result, fun plain => .kept ?_ behind ?_⟩
            · exact fun flag member => none flag (List.mem_append_right _ member)
            · exact chain fun flag member => (beginsWith_cons.mp (plain flag member)).2

/-- The flags of a chain are dropped. -/
theorem applied_data_chain {keys taken dropped : List Text}
    (areKeys : ∀ key, key ∈ keys → IsFlag key) (ended : Ended front)
    (mounted : dataMount <:+: front)
    (plain : ∀ flag, flag ∈ first :: (taken ++ dropped) → IsFlag flag)
    (blank : ∀ symbol, symbol ∈ tail → isBlank symbol = true)
    (kept : ∀ flag, flag ∈ taken → beginsWith keys flag = false)
    (chain : Chain front keys dropped) :
    applied (keys.map dataRule) (front ++ (joined ',' (first :: (taken ++ dropped)) ++ tail)) =
      front ++ remaining first taken dropped tail := by
  induction chain generalizing tail with
  | done =>
      unfold remaining
      rw [List.append_nil, if_pos rfl]
      rfl
  | @cut key keys before behind flag begins last rest ih =>
      have isKey := areKeys key List.mem_cons_self
      rw [← @List.append_assoc _ taken before (flag :: behind)] at plain ⊢
      have behindPlain : ∀ other, other ∈ flag :: behind → IsFlag other := fun other member =>
        plain other (List.mem_cons_of_mem _ (List.mem_append_right _ member))
      have later := @ih [] (fun other member => areKeys other (List.mem_cons_of_mem _ member))
        (fun other member => plain other
          (List.cons_subset_cons _ (List.subset_append_left _ _) member))
        (fun symbol none => absurd none List.not_mem_nil)
        (fun other member => (beginsWith_cons.mp (kept other member)).2)
      rw [List.append_nil] at later
      rw [List.map_cons, applied_cons, data_cut_flag isKey begins behindPlain last blank mounted,
        later]
      unfold remaining
      rw [ite_self, if_neg (List.append_ne_nil_of_right_ne_nil _ (List.cons_ne_nil _ _))]
  | @kept key keys flags none absent rest ih =>
      have isKey := areKeys key List.mem_cons_self
      have missing : ∀ flag, flag ∈ taken ++ flags → ¬ key <+: flag := by
        intro flag member
        rcases List.mem_append.mp member with early | late
        · exact (beginsWith_cons.mp (kept flag early)).1
        · exact none flag late
      rw [List.map_cons, applied_cons, data_kept fun inside =>
        absent ((behind_iff_front isKey ended plain blank missing).mp inside)]
      exact ih (fun other member => areKeys other (List.mem_cons_of_mem _ member)) plain blank
        fun other member => (beginsWith_cons.mp (kept other member)).2

end Data

/-! ### Lines -/

/-- A list up to the first item that is not kept, and the rest. -/
theorem exists_kept_front {α : Type} (keep : α → Bool) (items : List α) :
    ∃ taken dropped, items = taken ++ dropped ∧ (∀ item, item ∈ taken → keep item = true) ∧
      ∀ item, item ∈ dropped.head? → keep item = false := by
  refine ⟨items.takeWhile keep, items.dropWhile keep, ?_, ?_, ?_⟩
  · exact List.takeWhile_append_dropWhile.symm
  · intro item member
    have given := List.mem_takeWhile_imp member
    exact given
  · intro item member
    have head := List.head?_dropWhile_not keep items
    rw [Option.mem_def.mp member] at head
    exact head

theorem filter_append_eq_left_iff {α : Type} {keep : α → Bool} {taken dropped : List α} :
    (taken ++ dropped).filter keep = taken ↔
      (∀ item, item ∈ taken → keep item = true) ∧ ∀ item, item ∈ dropped → keep item = false := by
  rw [List.filter_append]
  constructor
  · intro same
    have kept : ∀ item, item ∈ taken → keep item = true := by
      intro item member
      rw [← same, List.mem_append] at member
      rcases member with early | late
      · exact (List.mem_filter.mp early).2
      · exact (List.mem_filter.mp late).2
    rw [List.filter_eq_self.mpr kept, List.append_right_eq_self] at same
    refine ⟨kept, fun item member => ?_⟩
    exact Bool.eq_false_iff.mpr (List.filter_eq_nil_iff.mp same item member)
  · intro given
    obtain ⟨kept, gone⟩ := given
    have none : dropped.filter keep = [] :=
      List.filter_eq_nil_iff.mpr fun item member => Bool.eq_false_iff.mp (gone item member)
    rw [List.filter_eq_self.mpr kept, none, List.append_nil]

/-- What remains is what is wanted if the encryption flags have been dropped, and nothing
else. -/
theorem remaining_eq_iff {first tail : Text} {taken dropped : List Text}
    (plain : ∀ flag, flag ∈ first :: (taken ++ dropped) → IsFlag flag)
    (blank : ∀ symbol, symbol ∈ tail → isBlank symbol = true) :
    remaining first taken dropped tail =
        joined ',' ((first :: (taken ++ dropped)).filter fun flag => !isCrypt flag) ++ tail ↔
      (∀ flag, flag ∈ first :: taken → isCrypt flag = false) ∧
        (∀ flag, flag ∈ dropped → isCrypt flag = true) ∧ (dropped = [] ∨ tail = []) := by
  have takenPlain : ∀ flag, flag ∈ first :: taken → IsFlag flag := fun flag member =>
    plain flag (List.cons_subset_cons _ (List.subset_append_left _ _) member)
  have filterPlain : ∀ flag, flag ∈ (first :: (taken ++ dropped)).filter
      (fun flag => !isCrypt flag) → IsFlag flag := fun flag member =>
    plain flag (List.mem_of_mem_filter member)
  have kept : (first :: (taken ++ dropped)).filter (fun flag => !isCrypt flag) =
        first :: taken ↔
      (∀ flag, flag ∈ first :: taken → isCrypt flag = false) ∧
        ∀ flag, flag ∈ dropped → isCrypt flag = true := by
    rw [← List.cons_append, filter_append_eq_left_iff]
    simp only [Bool.not_eq_true', Bool.not_eq_false']
  rw [← and_assoc, ← kept]
  unfold remaining
  constructor
  · intro same
    have ending : ∀ symbol, symbol ∈ (if dropped = [] then tail else []) →
        isBlank symbol = true := by
      intro symbol member
      split at member
      · exact blank symbol member
      · exact absurd member List.not_mem_nil
    obtain ⟨flags, ends⟩ := joined_append_blanks takenPlain filterPlain ending blank same
    have some : (first :: (taken ++ dropped)).filter (fun flag => !isCrypt flag) ≠ [] := by
      intro none
      rw [none] at flags
      rw [joined_cons] at flags
      have empty := (List.append_eq_nil_iff.mp flags).1
      have crypt := List.filter_eq_nil_iff.mp none first List.mem_cons_self
      rw [empty] at crypt
      exact crypt rfl
    refine ⟨(joined_injective (List.cons_ne_nil _ _) some
      (fun flag member => (takenPlain flag member).commaless)
      (fun flag member => (filterPlain flag member).commaless) flags).symm, ?_⟩
    by_cases empty : dropped = []
    · exact .inl empty
    · rw [if_neg empty] at ends
      exact .inr ends.symm
  · intro given
    obtain ⟨same, ends⟩ := given
    rw [same]
    split
    · rfl
    · rename_i some
      rw [ends.resolve_left some]

theorem edited_eq (mode : NocryptMode) (line : Text) :
    edited mode false line = applied (nocryptRules mode) line := by
  unfold edited noverityRules
  rw [if_neg Bool.false_ne_true, List.append_nil]

/-- What remains of the flags is what is wanted exactly if the encryption flags come last. -/
theorem cryptLast_iff {line : FstabLine} {first : Text} {taken dropped : List Text}
    (split : line.fsMgrFlags.flags = first :: (taken ++ dropped)) :
    remaining first taken dropped line.trail.text =
        joined ',' (line.fsMgrFlags.flags.filter fun flag => !isCrypt flag) ++ line.trail.text ↔
      CryptLast line (first :: taken) dropped := by
  have plain := line.fsMgrFlags.plain
  rw [split] at plain ⊢
  rw [remaining_eq_iff plain line.trail.all]
  constructor
  · intro given
    exact ⟨split, List.cons_ne_nil _ _, given.1, given.2.1, given.2.2⟩
  · intro last
    exact ⟨last.plain, last.crypt, last.ends⟩

theorem leading_eq {keep : Text → Bool} {first tail : Text} {taken dropped : List Text}
    (kept : ∀ flag, flag ∈ taken → keep flag = true)
    (ends : ∀ flag, flag ∈ dropped.head? → keep flag = false) :
    leading keep first (taken ++ dropped) tail = remaining first taken dropped tail := by
  unfold leading remaining
  rw [List.takeWhile_append_of_pos kept, List.all_append, List.all_eq_true.mpr kept]
  cases dropped with
  | nil => rw [List.takeWhile_nil, List.append_nil]; rfl
  | cons flag others =>
      have other := ends flag rfl
      rw [List.takeWhile_cons_of_neg (by rw [other]; exact Bool.false_ne_true), List.append_nil,
        List.all_cons, other, if_neg (List.cons_ne_nil _ _)]
      rfl

theorem nocryptAll_iff (line : FstabLine) :
    edited .nocryptAll false line.text = line.decrypted ↔
      (∀ key, key ∈ cryptKeys → ¬ ',' :: key <:+: line.front line.mountFlags.flags) ∧
        ∃ kept dropped, CryptLast line kept dropped := by
  have ended := line.front_ended line.mountFlags.flags
  have plain := line.fsMgrFlags.plain
  rw [edited_eq, nocryptRules]
  constructor
  · intro same
    have clean : ∀ key, key ∈ cryptKeys →
        ¬ ',' :: key <:+: line.front line.mountFlags.flags := by
      intro key member present
      have absent := (applied_all_front cryptKeys_flags line.text).2 key member
      rw [same] at absent
      exact absent (present.trans (List.prefix_append _ _).isInfix)
    refine ⟨clean, ?_⟩
    obtain ⟨first, rest, flags⟩ := List.exists_cons_of_ne_nil line.fsMgrFlags.some
    obtain ⟨taken, dropped, rfl, kept, ends⟩ :=
      exists_kept_front (fun flag => !isCrypt flag) rest
    have result := same
    rw [line.text_eq, flags] at result
    rw [flags] at plain
    rw [applied_all cryptKeys_flags ended plain line.trail.all clean] at result
    have left := @leading_eq _ first line.trail.text taken dropped kept ends
    exact ⟨first :: taken, dropped, (cryptLast_iff flags).mp
      (left.symm.trans (List.append_cancel_left result))⟩
  · intro given
    obtain ⟨clean, kept, dropped, last⟩ := given
    cases kept with
    | nil => exact absurd rfl last.some
    | cons first taken =>
        have split := last.split
        rw [List.cons_append] at split
        have result := (cryptLast_iff split).mpr last
        rw [line.text_eq]
        rw [split] at plain
        nth_rewrite 1 [split]
        rw [applied_all cryptKeys_flags ended plain line.trail.all clean]
        unfold FstabLine.decrypted FstabLine.written
        rw [← result]
        congr 1
        apply leading_eq
        · intro flag member
          have other := last.plain flag (List.mem_cons_of_mem _ member)
          unfold isCrypt at other
          rw [other]
          rfl
        · intro flag member
          have crypt := last.crypt flag (List.mem_of_mem_head? member)
          unfold isCrypt at crypt
          rw [crypt]
          rfl

theorem nocrypt_data_iff (line : FstabLine) (mounted : line.mountPoint.text = dataMount) :
    edited .nocrypt false line.text = line.decrypted ↔
      ∃ kept dropped, CryptLast line kept dropped ∧
        Chain (line.front line.mountFlags.flags) cryptKeys dropped := by
  have ended := line.front_ended line.mountFlags.flags
  have plain := line.fsMgrFlags.plain
  have inFront : dataMount <:+: line.front line.mountFlags.flags := by
    unfold FstabLine.front
    rw [mounted]
    exact List.infix_append_of_infix_right (List.infix_append_of_infix_right
      (List.infix_append_of_infix_right List.infix_append_left))
  rw [edited_eq, nocryptRules, line.text_eq]
  constructor
  · intro same
    obtain ⟨first, rest, flags⟩ := List.exists_cons_of_ne_nil line.fsMgrFlags.some
    rw [flags] at plain same
    rcases applied_data_shape cryptKeys_flags ended inFront plain line.trail.all with
      short | ⟨taken, dropped, rfl, result, chain⟩
    · rw [same] at short
      unfold FstabLine.decrypted FstabLine.written at short
      rw [List.length_append] at short
      omega
    · rw [result] at same
      have last := (cryptLast_iff flags).mp (List.append_cancel_left same)
      exact ⟨first :: taken, dropped, last,
        chain fun flag member => last.plain flag (List.mem_cons_of_mem _ member)⟩
  · intro given
    obtain ⟨kept, dropped, last, chain⟩ := given
    cases kept with
    | nil => exact absurd rfl last.some
    | cons first taken =>
        have split := last.split
        rw [List.cons_append] at split
        have result := (cryptLast_iff split).mpr last
        unfold FstabLine.decrypted FstabLine.written
        rw [split] at plain
        rw [← result, split]
        exact applied_data_chain cryptKeys_flags ended inFront plain line.trail.all
          (fun flag member => last.plain flag (List.mem_cons_of_mem _ member)) chain

/-- The condition under which just the encryption flags are dropped. -/
def Droppable (mode : NocryptMode) (line : FstabLine) : Prop :=
  match mode with
  | .crypt => True
  | .nocrypt =>
      if line.mountPoint.text = dataMount then
        ∃ kept dropped, CryptLast line kept dropped ∧
          Chain (line.front line.mountFlags.flags) cryptKeys dropped
      else ∀ key, key ∈ cryptKeys → ¬ Behind key line.text
  | .nocryptAll =>
      (∀ key, key ∈ cryptKeys → ¬ ',' :: key <:+: line.front line.mountFlags.flags) ∧
        ∃ kept dropped, CryptLast line kept dropped

/-- The encryption flags are dropped, and nothing else, exactly if they come last in the order
in which the rules take them, or, for another mount point, no /data stands before them. -/
theorem drops_encryption_iff (mode : NocryptMode) (line : FstabLine) :
    edited mode false line.text = line.intended mode ↔ Droppable mode line := by
  unfold FstabLine.intended Droppable
  cases mode with
  | crypt => exact iff_of_true rfl trivial
  | nocrypt =>
      by_cases mounted : line.mountPoint.text = dataMount
      · simp only [if_pos mounted]
        exact nocrypt_data_iff line mounted
      · simp only [if_neg mounted]
        rw [edited_eq]
        exact applied_data_eq_iff cryptKeys_flags line.text
  | nocryptAll => exact nocryptAll_iff line

def footerLine : FstabLine where
  lead := Blanks.none
  source := Field.sda
  sourceGap := Gap.space
  mountPoint := ⟨dataMount, by decide, plain_of_all rfl⟩
  mountPointGap := Gap.space
  fsType := Field.ext4
  fsTypeGap := Gap.space
  mountFlags := ⟨["noatime".toList], List.cons_ne_nil _ _, by decide, flags_of_all rfl⟩
  mountFlagsGap := Gap.space
  fsMgrFlags := ⟨["wait".toList, "encryptable=footer".toList, "check".toList],
    List.cons_ne_nil _ _, by decide, flags_of_all rfl⟩
  trail := Blanks.none

/-- The flag behind the one that is dropped is dropped, too. -/
theorem footerLine_loses_check :
    edited .nocrypt false footerLine.text =
        "/dev/block/sda /data ext4 noatime wait".toList ∧
      edited .nocrypt false footerLine.text ≠ footerLine.intended .nocrypt := by
  decide +kernel

end SuperBootimg.Concrete.Fstab
