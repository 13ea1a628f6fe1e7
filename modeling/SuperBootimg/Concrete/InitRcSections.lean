/-
When the edit of init.rc keeps to the sections of the file. The lines that are put in become
commands of the section they land in, so what decides is which lines have the text of a pattern,
comments included, and how the last line ends.
-/

import SuperBootimg.Concrete.InitRcEdit

namespace SuperBootimg.Concrete.InitRc

open FieldSplitting RegularSearch HeadedSections
open Sepolicy (Text)
open Initramfs (isWordSymbol)

def statements (lines : List Text) : List (List Text) :=
  lines.filterMap statementOf

def opensLine (line : Text) : Bool :=
  opensSection (words line)

def sectionsOf (text : Text) : Outline Text :=
  outline opensLine (linesOf text)

/-- The line has the text that the commands of a trigger are put behind. -/
def NamesInit (line : Text) : Prop :=
  "on init".toList <:+: line

def StartsRecovery (line : Text) : Prop :=
  "service flash_recovery".toList <+: line

/-- The header of the service is found exactly if it is one. A section with the trigger init
has one line that is found, and nothing but the command itself up to it. -/
structure BlockEditable (block : Block Text) : Prop where
  recovery : StartsRecovery block.header ↔ (words block.header).take 2 = recoveryHeader
  trigger : words block.header = initHeader →
    ∃ before line after, block.header :: block.body = before ++ line :: after ∧ NamesInit line ∧
      (∀ other, other ∈ before ++ after → ¬ NamesInit other) ∧
      ∀ command, command ∈ statements (before ++ [line]).tail → command = chmodCommand
  other : words block.header ≠ initHeader →
    ∀ line, line ∈ block.header :: block.body → ¬ NamesInit line

structure Editable (text : Text) : Prop where
  /-- The text ends with a line break or in white space, or something is put behind the last
  line. -/
  ends : ∀ last, last ∈ (linesOf text).getLast? →
    (∀ symbol, symbol ∈ last → isRcBlank symbol = true) ∨ StartsRecovery last ∨ NamesInit last
  lead : ∀ line, line ∈ (sectionsOf text).lead → ¬ NamesInit line
  blocks : ∀ block, block ∈ (sectionsOf text).blocks → BlockEditable block

/-! ### Statements of the lines that are put in -/

theorem namesInit_none {line : Text} (other : ¬ NamesInit line) : namesInit line = false :=
  Bool.eq_false_iff.mpr fun found => other ((namesInit_iff line).mp found)

theorem startsRecovery_none {line : Text} (other : ¬ StartsRecovery line) :
    startsRecovery line = false :=
  Bool.eq_false_iff.mpr fun found => other ((startsRecovery_iff line).mp found)

theorem opensLine_eq (line : Text) : opensLine line = (statementOf line).any opensSection := by
  unfold opensLine statementOf
  split
  · rename_i none
    rw [none]
    rfl
  · rfl

theorem statementOf_chmod : statementOf (chmodLine false) = some chmodCommand := by
  decide +kernel

theorem statementOf_disabled : statementOf disabledLine = some disabledOption := by
  decide +kernel

theorem inserted_plain {line other : Text} (member : other ∈ inserted line) :
    opensLine other = false := by
  unfold inserted at member
  rcases List.mem_append.mp member with chmod | disabled
  · split at chmod
    · rw [List.mem_singleton.mp chmod]
      decide +kernel
    · exact absurd chmod List.not_mem_nil
  · split at disabled
    · rw [List.mem_singleton.mp disabled]
      decide +kernel
    · exact absurd disabled List.not_mem_nil

theorem inserted_none {line : Text} (init : ¬ NamesInit line)
    (recovery : ¬ StartsRecovery line) : inserted line = [] := by
  rw [inserted, namesInit_none init, startsRecovery_none recovery]
  rfl

theorem statements_append (first second : List Text) :
    statements (first ++ second) = statements first ++ statements second :=
  List.filterMap_append

theorem statements_cons (line : Text) (lines : List Text) :
    statements (line :: lines) = statements [line] ++ statements lines :=
  statements_append [line] lines

theorem statements_inserted (line : Text) :
    statements (inserted line) =
      (if namesInit line then [chmodCommand] else []) ++
        if startsRecovery line then [disabledOption] else [] := by
  unfold inserted
  rw [statements_append]
  congr 1
  · split
    · exact List.filterMap_cons_some statementOf_chmod
    · rfl
  · split
    · exact List.filterMap_cons_some statementOf_disabled
    · rfl

theorem count_inserted (line : Text) :
    (statements (inserted line)).count chmodCommand = (if namesInit line then 1 else 0) ∧
      (statements (inserted line)).count disabledOption =
        if startsRecovery line then 1 else 0 := by
  rw [statements_inserted]
  cases namesInit line <;> cases startsRecovery line <;> decide

/-- How many commands are put in. -/
theorem count_withInserted (lines : List Text) :
    (statements (lines.flatMap withInserted)).count chmodCommand =
        (statements lines).count chmodCommand + lines.countP namesInit ∧
      (statements (lines.flatMap withInserted)).count disabledOption =
        (statements lines).count disabledOption + lines.countP startsRecovery := by
  induction lines with
  | nil => exact ⟨rfl, rfl⟩
  | cons line lines ih =>
      obtain ⟨chmod, disabled⟩ := count_inserted line
      obtain ⟨laterChmod, laterDisabled⟩ := ih
      rw [List.flatMap_cons, withInserted, List.cons_append, statements_cons,
        statements_append, statements_cons line lines, List.countP_cons, List.countP_cons]
      simp only [List.count_append, chmod, disabled, laterChmod, laterDisabled]
      constructor
      · omega
      · omega

theorem withInserted_none {lines : List Text} (init : ∀ line, line ∈ lines → ¬ NamesInit line)
    (recovery : ∀ line, line ∈ lines → ¬ StartsRecovery line) :
    lines.flatMap withInserted = lines := by
  induction lines with
  | nil => rfl
  | cons line lines ih =>
      have none := inserted_none (init line List.mem_cons_self)
        (recovery line List.mem_cons_self)
      rw [List.flatMap_cons, withInserted, none, ih
        (fun other member => init other (List.mem_cons_of_mem _ member))
        (fun other member => recovery other (List.mem_cons_of_mem _ member))]
      rfl

/-! ### One section -/

theorem service_plain : ∀ symbol, symbol ∈ "service".toList → isRcBlank symbol = false :=
  all_false rfl

/-- A line that the pattern of the service finds has service for its first word. -/
theorem words_startsRecovery {line : Text} (starts : StartsRecovery line) :
    ∃ others, words line = "service".toList :: others := by
  obtain ⟨rest, rfl⟩ := starts
  have split : fields isRcBlank ("service flash_recovery".toList ++ rest) =
      "service".toList :: fields isRcBlank ("flash_recovery".toList ++ rest) :=
    @fields_append _ isRcBlank "service".toList ' ' (by decide) service_plain rfl
      ("flash_recovery".toList ++ rest)
  unfold words
  rw [split]
  exact ⟨_, List.takeWhile_cons_of_pos (by decide)⟩

theorem startsRecovery_opens {line : Text} (starts : StartsRecovery line) :
    opensLine line = true := by
  obtain ⟨others, split⟩ := words_startsRecovery starts
  unfold opensLine
  rw [split]
  rfl

theorem append_cons_eq_iff {α : Type} {item : α} {before after : List α} :
    before ++ item :: after = item :: (before ++ after) ↔
      ∀ other, other ∈ before → other = item := by
  induction before with
  | nil => exact iff_of_true rfl fun other member => absurd member List.not_mem_nil
  | cons first rest ih =>
      rw [List.cons_append, List.cons_append, List.cons.injEq, List.forall_mem_cons, ← ih]
      constructor
      · intro given
        obtain ⟨rfl, same⟩ := given
        exact ⟨rfl, same⟩
      · intro given
        obtain ⟨rfl, same⟩ := given
        exact ⟨rfl, same⟩

theorem exists_only {α : Type} {holds : α → Bool} {items : List α}
    (one : items.countP holds = 1) :
    ∃ before item after, items = before ++ item :: after ∧ holds item = true ∧
      ∀ other, other ∈ before ++ after → holds other = false := by
  induction items with
  | nil => cases one
  | cons first rest ih =>
      cases kind : holds first with
      | true =>
          rw [List.countP_cons_of_pos kind, Nat.add_eq_right, List.countP_eq_zero] at one
          exact ⟨[], first, rest, rfl, kind, fun other member =>
            Bool.eq_false_iff.mpr (one other member)⟩
      | false =>
          rw [List.countP_cons_of_neg (by rw [kind]; exact Bool.false_ne_true)] at one
          obtain ⟨before, item, after, rfl, here, others⟩ := ih one
          refine ⟨first :: before, item, after, rfl, here, ?_⟩
          rw [List.cons_append, List.forall_mem_cons]
          exact ⟨kind, others⟩

section Block

variable {header : Text} {body : List Text}

theorem countP_namesInit_zero {lines : List Text} :
    lines.countP namesInit = 0 ↔ ∀ line, line ∈ lines → ¬ NamesInit line := by
  rw [List.countP_eq_zero]
  simp only [namesInit_iff]
  rfl

theorem countP_startsRecovery_zero {lines : List Text} :
    lines.countP startsRecovery = 0 ↔ ∀ line, line ∈ lines → ¬ StartsRecovery line := by
  rw [List.countP_eq_zero]
  simp only [startsRecovery_iff]
  rfl

def editedBody (header : Text) (body : List Text) : List (List Text) :=
  statements (inserted header) ++ statements (body.flatMap withInserted)

theorem count_editedBody (header : Text) (body : List Text) :
    (editedBody header body).count chmodCommand =
        (statements body).count chmodCommand + (header :: body).countP namesInit ∧
      (editedBody header body).count disabledOption =
        (statements body).count disabledOption + (header :: body).countP startsRecovery := by
  obtain ⟨chmod, disabled⟩ := count_inserted header
  obtain ⟨laterChmod, laterDisabled⟩ := count_withInserted body
  unfold editedBody
  rw [List.countP_cons, List.countP_cons]
  simp only [List.count_append, chmod, disabled, laterChmod, laterDisabled]
  constructor
  · omega
  · omega

theorem editedBody_none (init : ∀ line, line ∈ header :: body → ¬ NamesInit line)
    (plain : ∀ line, line ∈ body → ¬ StartsRecovery line) :
    editedBody header body =
      (if startsRecovery header then [disabledOption] else []) ++ statements body := by
  have none := namesInit_none (init header List.mem_cons_self)
  rw [editedBody, statements_inserted, none, withInserted_none
    (fun line member => init line (List.mem_cons_of_mem _ member)) plain]
  rfl

/-- One line is found, and what is put behind it is the command alone. -/
theorem withInserted_only {before after : List Text} {line : Text} (found : NamesInit line)
    (others : ∀ other, other ∈ before ++ after → ¬ NamesInit other)
    (plain : ∀ other, other ∈ before ++ line :: after → ¬ StartsRecovery other) :
    (before ++ line :: after).flatMap withInserted =
      before ++ line :: chmodLine false :: after := by
  have here : inserted line = [chmodLine false] := by
    have recovery := startsRecovery_none
      (plain line (List.mem_append_right _ List.mem_cons_self))
    rw [inserted, (namesInit_iff line).mpr found, recovery]
    rfl
  have early := @withInserted_none before
    (fun other member => others other (List.mem_append_left _ member))
    (fun other member => plain other (List.mem_append_left _ member))
  have late := @withInserted_none after
    (fun other member => others other (List.mem_append_right _ member))
    (fun other member => plain other
      (List.mem_append_right _ (List.mem_cons_of_mem _ member)))
  rw [List.flatMap_append, List.flatMap_cons, early, late, withInserted, here]
  rfl

/-- What is put behind the line comes first if all commands before it are the same. -/
theorem editedBody_only {before after : List Text} {line : Text}
    (split : header :: body = before ++ line :: after) (found : NamesInit line)
    (others : ∀ other, other ∈ before ++ after → ¬ NamesInit other)
    (plain : ∀ other, other ∈ header :: body → ¬ StartsRecovery other) :
    editedBody header body = chmodCommand :: statements body ↔
      ∀ command, command ∈ statements (before ++ [line]).tail → command = chmodCommand := by
  have chmod : statements [chmodLine false] = [chmodCommand] :=
    List.filterMap_cons_some statementOf_chmod
  have lines : header :: (inserted header ++ body.flatMap withInserted) =
      before ++ line :: chmodLine false :: after := by
    rw [split] at plain
    rw [← withInserted_only found others plain, ← split, List.flatMap_cons]
    rfl
  cases before with
  | nil =>
      obtain ⟨rfl, rfl⟩ := List.cons.inj split
      rw [editedBody, ← statements_append, (List.cons.inj lines).2, statements_cons, chmod]
      exact iff_of_true rfl fun command member => absurd member List.not_mem_nil
  | cons first before =>
      rw [List.cons_append] at split lines
      obtain ⟨rfl, rfl⟩ := List.cons.inj split
      have parts : statements (before ++ line :: after) =
          statements (before ++ [line]) ++ statements after := by
        rw [← statements_append, List.append_assoc, List.singleton_append]
      have whole : statements (before ++ line :: chmodLine false :: after) =
          statements (before ++ [line]) ++ chmodCommand :: statements after := by
        rw [← List.singleton_append, ← List.append_assoc, statements_append,
          statements_cons (chmodLine false), chmod]
        rfl
      rw [editedBody, ← statements_append, (List.cons.inj lines).2, whole, parts]
      exact append_cons_eq_iff

end Block

theorem not_startsRecovery {line : Text} (trigger : words line = initHeader) :
    ¬ StartsRecovery line := by
  intro starts
  obtain ⟨others, split⟩ := words_startsRecovery starts
  rw [trigger] at split
  exact absurd (List.cons.inj split).1 (by decide)

theorem chmodCommand_ne_disabled : chmodCommand ≠ disabledOption := by
  decide

section Edited

variable {block : Block Text} (plain : ∀ line, line ∈ block.body → ¬ StartsRecovery line)
include plain

theorem trigger_iff (trigger : words block.header = initHeader) :
    editedBody block.header block.body = chmodCommand :: statements block.body ↔
      BlockEditable block := by
  have header := not_startsRecovery trigger
  have all : ∀ line, line ∈ block.header :: block.body → ¬ StartsRecovery line := by
    rw [List.forall_mem_cons]
    exact ⟨header, plain⟩
  constructor
  · intro same
    have chmod := (count_editedBody block.header block.body).1
    rw [same, List.count_cons_self] at chmod
    obtain ⟨before, line, after, split, found, none⟩ :=
      exists_only (Nat.add_left_cancel chmod.symm)
    have found := (namesInit_iff line).mp found
    have others : ∀ other, other ∈ before ++ after → ¬ NamesInit other := by
      intro other member names
      have missed := none other member
      rw [(namesInit_iff other).mpr names] at missed
      cases missed
    refine ⟨iff_of_false header ?_, fun _ => ?_, fun other => absurd trigger other⟩
    · rw [trigger]
      decide
    · exact ⟨before, line, after, split, found, others,
        (editedBody_only split found others all).mp same⟩
  · intro given
    obtain ⟨before, line, after, split, found, others, commands⟩ := given.trigger trigger
    exact (editedBody_only split found others all).mpr commands

theorem service_iff (other : words block.header ≠ initHeader)
    (service : (words block.header).take 2 = recoveryHeader) :
    editedBody block.header block.body = disabledOption :: statements block.body ↔
      BlockEditable block := by
  constructor
  · intro same
    obtain ⟨chmod, disabled⟩ := count_editedBody block.header block.body
    rw [same, List.count_cons_of_ne chmodCommand_ne_disabled.symm, Nat.left_eq_add,
      countP_namesInit_zero] at chmod
    rw [same, List.count_cons_self] at disabled
    have found : startsRecovery block.header = true := by
      cases starts : startsRecovery block.header with
      | true => rfl
      | false =>
          rw [List.countP_cons_of_neg (by rw [starts]; exact Bool.false_ne_true),
            countP_startsRecovery_zero.mpr plain] at disabled
          exact absurd (Nat.add_left_cancel disabled) (by decide)
    exact ⟨iff_of_true ((startsRecovery_iff _).mp found) service,
      fun same => absurd same other, fun _ => chmod⟩
  · intro given
    rw [editedBody_none (given.other other) plain,
      (startsRecovery_iff _).mpr (given.recovery.mpr service)]
    rfl

theorem unamended_iff (other : words block.header ≠ initHeader)
    (service : (words block.header).take 2 ≠ recoveryHeader) :
    editedBody block.header block.body = statements block.body ↔ BlockEditable block := by
  constructor
  · intro same
    obtain ⟨chmod, disabled⟩ := count_editedBody block.header block.body
    rw [same, Nat.left_eq_add, countP_namesInit_zero] at chmod
    rw [same, Nat.left_eq_add, countP_startsRecovery_zero] at disabled
    exact ⟨iff_of_false (disabled _ List.mem_cons_self) service,
      fun same => absurd same other, fun _ => chmod⟩
  · intro given
    have none := startsRecovery_none fun starts => service (given.recovery.mp starts)
    rw [editedBody_none (given.other other) plain, none]
    rfl

/-- The edit adds to a section what it should, and nothing else. -/
theorem block_iff :
    { header := words block.header, body := editedBody block.header block.body : Block _ } =
        amended { header := words block.header, body := statements block.body } ↔
      BlockEditable block := by
  unfold amended
  by_cases trigger : words block.header = initHeader
  · rw [if_pos trigger, Block.mk.injEq, and_iff_right rfl]
    exact trigger_iff plain trigger
  · rw [if_neg trigger]
    by_cases service : (words block.header).take 2 = recoveryHeader
    · rw [if_pos service, Block.mk.injEq, and_iff_right rfl]
      exact service_iff plain trigger service
    · rw [if_neg service, Block.mk.injEq, and_iff_right rfl]
      exact unamended_iff plain trigger service

end Edited

/-! ### The whole file -/

def readBlock (block : Block Text) : Block (List Text) :=
  { header := words block.header
    body := statements block.body }

theorem filterMap_readBlock {blocks : List (Block Text)}
    (headers : ∀ block, block ∈ blocks → opensLine block.header = true) :
    (blocks.filterMap fun block => (statementOf block.header).map fun header =>
      { header := header, body := block.body.filterMap statementOf : Block (List Text) }) =
        blocks.map readBlock := by
  rw [← List.filterMap_eq_map]
  apply List.filterMap_congr
  intro block member
  have some : words block.header ≠ [] := by
    intro none
    have header := headers block member
    unfold opensLine at header
    rw [none] at header
    cases header
  rw [statementOf, if_neg some]
  rfl

theorem parse_lines (lines : List Text) :
    outline opensSection (statements lines) =
      { lead := statements (outline opensLine lines).lead
        blocks := (outline opensLine lines).blocks.map readBlock } := by
  unfold statements
  rw [outline_filterMap opensLine_eq, filterMap_readBlock fun block member =>
    (block_spec member).1]

theorem length_parse (text : Text) :
    (parse text).blocks.length = (linesOf text).countP opensLine := by
  have lines := parse_lines (linesOf text)
  unfold statements at lines
  unfold parse
  rw [lines, List.length_map, length_blocks]

theorem parse_inserted (lines : List Text) :
    outline opensSection (statements (lines.flatMap withInserted)) =
      { lead := statements ((outline opensLine lines).lead.flatMap withInserted)
        blocks := (outline opensLine lines).blocks.map fun block =>
          { header := words block.header, body := editedBody block.header block.body } } := by
  have sections := @outline_inserted Text opensLine inserted
    (fun _ _ member => inserted_plain member) lines
  rw [parse_lines]
  unfold withInserted
  rw [sections]
  simp only [List.map_map]
  congr 1
  apply List.map_congr_left
  intro block _
  change readBlock _ = _
  unfold readBlock editedBody
  simp only [statements_append]
  rfl

theorem statements_su : statements (suLine :: suRest) = suBlock.header :: suBlock.body := by
  decide +kernel

/-- What the edit puts in comes before the new section. -/
theorem parse_edited {text : Text} (lines : statements (linesOf (edited defaultOptions text)) =
      statements ((linesOf text).flatMap withInserted) ++ suBlock.header :: suBlock.body) :
    parse (edited defaultOptions text) =
      { lead := statements ((sectionsOf text).lead.flatMap withInserted)
        blocks := ((sectionsOf text).blocks.map fun block =>
          { header := words block.header
            body := editedBody block.header block.body }) ++ [suBlock] } := by
  have plain : ∀ statement, statement ∈ suBlock.body → opensSection statement = false :=
    all_false (by decide +kernel)
  have header : opensSection suBlock.header = true := by decide +kernel
  unfold statements at lines
  unfold parse
  rw [lines, outline_append header plain]
  have inserted := parse_inserted (linesOf text)
  unfold statements at inserted
  rw [inserted]
  rfl

/-! ### The end of the file -/

/-- The last line can be written on, since it does not count or has been ended. -/
def GoodEnd (last : Text) : Prop :=
  (∀ symbol, symbol ∈ last → isRcBlank symbol = true) ∨ StartsRecovery last ∨ NamesInit last

theorem words_blanks_append {blanks : Text}
    (blank : ∀ symbol, symbol ∈ blanks → isRcBlank symbol = true) (line : Text) :
    words (blanks ++ line) = words line := by
  unfold words
  rw [fields_blanks_append blank]

theorem words_blanks {blanks : Text}
    (blank : ∀ symbol, symbol ∈ blanks → isRcBlank symbol = true) : words blanks = [] := by
  unfold words
  rw [fields_eq_nil_iff.mpr blank]
  rfl

theorem matched_iff (last : Text) :
    (startsRecovery last || namesInit last) = true ↔ StartsRecovery last ∨ NamesInit last := by
  rw [Bool.or_eq_true, startsRecovery_iff, namesInit_iff]
  rfl

theorem withInserted_unmatched {last : Text}
    (other : ¬ (startsRecovery last || namesInit last) = true) : withInserted last = [last] := by
  rw [matched_iff, not_or] at other
  rw [withInserted, inserted_none other.2 other.1]

theorem statements_edited {text : Text} {init : List Text} {last : Text}
    (split : linesOf text = init ++ [last]) (good : GoodEnd last) :
    statements (linesOf (edited defaultOptions text)) =
      statements ((linesOf text).flatMap withInserted) ++ suBlock.header :: suBlock.body := by
  rw [linesOf_edited split, split, ← statements_su]
  split
  · rw [statements_append]
  · rename_i other
    have blank := good.resolve_right fun matched => other ((matched_iff last).mpr matched)
    have none : statements [last] = [] := by
      apply List.filterMap_cons_none
      rw [statementOf, words_blanks blank]
      rfl
    have glued : statements [last ++ suLine] = statements [suLine] := by
      have same : statementOf (last ++ suLine) = statementOf suLine := by
        rw [statementOf, words_blanks_append blank]
        rfl
      have service : statementOf suLine = some suBlock.header := by decide +kernel
      rw [service] at same
      unfold statements
      rw [List.filterMap_cons_some same, List.filterMap_cons_some service]
    rw [List.flatMap_append, List.flatMap_singleton, withInserted_unmatched other,
      statements_append, statements_append _ [last], none, List.append_nil,
      statements_cons (last ++ suLine), glued, ← statements_cons]

/-- The first word decides whether a line opens a section. -/
theorem opensLine_iff (line : Text) :
    opensLine line = true ↔
      ∃ word others, fields isRcBlank line = word :: others ∧
        ["on".toList, "service".toList, "import".toList].contains word = true := by
  unfold opensLine words opensSection
  cases fields isRcBlank line with
  | nil =>
      apply iff_of_false Bool.false_ne_true
      intro given
      obtain ⟨word, others, none, _⟩ := given
      cases none
  | cons word others =>
      have keyword : ["on".toList, "service".toList, "import".toList].contains word = true →
          (word.head? != some '#') = true := by
        intro member
        rw [List.contains_iff_mem] at member
        have all : (["on".toList, "service".toList, "import".toList].all fun word =>
            word.head? != some '#') = true := rfl
        exact List.all_eq_true.mp all word member
      constructor
      · intro opens
        rw [List.takeWhile_cons] at opens
        split at opens
        · exact ⟨word, others, rfl, opens⟩
        · cases opens
      · intro given
        obtain ⟨first, rest, same, member⟩ := given
        obtain ⟨rfl, rfl⟩ := List.cons.inj same
        rw [List.takeWhile_cons, if_pos (keyword member)]
        exact member

theorem keyword_length {word : Text}
    (keyword : ["on".toList, "service".toList, "import".toList].contains word = true) :
    word.length ≤ 7 := by
  rw [List.contains_iff_mem] at keyword
  have short : (["on".toList, "service".toList, "import".toList].all fun word =>
      word.length ≤ 7) = true := rfl
  exact of_decide_eq_true (List.all_eq_true.mp short word keyword)

/-- The new section's first word is joined to the last one of the file. -/
theorem fields_joint {word : Text} (nonempty : word ≠ [])
    (plain : ∀ symbol, symbol ∈ word → isRcBlank symbol = false) :
    fields isRcBlank (word ++ suLine) =
      (word ++ "service".toList) :: fields isRcBlank "su /sbin/su --daemon".toList := by
  have solid : ∀ symbol, symbol ∈ word ++ "service".toList → isRcBlank symbol = false := by
    intro symbol member
    rcases List.mem_append.mp member with early | late
    · exact plain symbol early
    · exact service_plain symbol late
  have shape : word ++ suLine =
      (word ++ "service".toList) ++ ' ' :: "su /sbin/su --daemon".toList := by
    rw [List.append_assoc]
    rfl
  rw [shape]
  exact fields_append (List.append_ne_nil_of_left_ne_nil nonempty _) solid rfl _

/-- A line that is not ended takes the new section in: none begins there that was not one
before. -/
theorem opensLine_glued {last : Text} (some : ¬ ∀ symbol, symbol ∈ last → isRcBlank symbol = true)
    (glued : opensLine (last ++ suLine) = true) : opensLine last = true := by
  have blanks : ∀ symbol, symbol ∈ last.takeWhile isRcBlank → isRcBlank symbol = true := by
    intro symbol member
    have blank := List.mem_takeWhile_imp member
    exact blank
  rcases leading_field isRcBlank last with
    ⟨_, none⟩ | ⟨word, rest, shape, nonempty, plain, ends, parts⟩
  · exact absurd (fields_eq_nil_iff.mp none) some
  · have whole : fields isRcBlank (last ++ suLine) =
        fields isRcBlank (word ++ (rest ++ suLine)) := by
      rw [← List.append_assoc, ← shape]
      conv_lhs => rw [← @List.takeWhile_append_dropWhile _ isRcBlank last]
      rw [List.append_assoc, fields_blanks_append blanks]
    obtain ⟨first, others, split, keyword⟩ := (opensLine_iff _).mp glued
    rw [whole] at split
    cases rest with
    | nil =>
        -- The joint word is longer than any that opens a section.
        rw [List.nil_append, fields_joint nonempty plain] at split
        obtain ⟨rfl, rfl⟩ := List.cons.inj split
        have bounded := keyword_length keyword
        have positive := List.length_pos_of_ne_nil nonempty
        have seven : "service".toList.length = 7 := rfl
        rw [List.length_append, seven] at bounded
        omega
    | cons symbol more =>
        have later : Ends isRcBlank (symbol :: more ++ suLine) := by
          intro other behind same
          rw [List.cons_append] at same
          obtain ⟨rfl, _⟩ := List.cons.inj same
          exact ends symbol more rfl
        rw [fields_word_append nonempty plain later] at split
        obtain ⟨rfl, _⟩ := List.cons.inj split
        exact (opensLine_iff last).mpr ⟨word, _, parts, keyword⟩

theorem countP_withInserted (lines : List Text) :
    (lines.flatMap withInserted).countP opensLine = lines.countP opensLine := by
  induction lines with
  | nil => rfl
  | cons line lines ih =>
      have plain : (inserted line).countP opensLine = 0 := by
        rw [List.countP_eq_zero]
        intro other member
        rw [inserted_plain member]
        exact Bool.false_ne_true
      rw [List.flatMap_cons, withInserted, List.cons_append, List.countP_cons, List.countP_append,
        plain, Nat.zero_add, ih, List.countP_cons]

/-- The edited file has no section more. -/
theorem length_edited {text : Text} {init : List Text} {last : Text}
    (split : linesOf text = init ++ [last]) (bad : ¬ GoodEnd last) :
    (parse (edited defaultOptions text)).blocks.length ≤ (parse text).blocks.length := by
  unfold GoodEnd at bad
  rw [not_or] at bad
  have other : ¬ (startsRecovery last || namesInit last) = true := fun found =>
    bad.2 ((matched_iff last).mp found)
  have rest : suRest.countP opensLine = 0 := by decide +kernel
  rw [length_parse, length_parse, linesOf_edited split, if_neg other, split, List.countP_append,
    List.countP_append, countP_withInserted, List.countP_cons, rest, Nat.zero_add,
    List.countP_singleton]
  apply Nat.add_le_add_left
  cases opens : opensLine (last ++ suLine) with
  | true => rw [opensLine_glued bad.1 opens]
  | false => exact Nat.zero_le _

theorem goodEnd_of_intended {text : Text} {init : List Text} {last : Text}
    (split : linesOf text = init ++ [last])
    (same : parse (edited defaultOptions text) = intended (parse text)) : GoodEnd last := by
  by_contra bad
  have short := length_edited split bad
  rw [same, intended, List.length_append, List.length_map] at short
  exact absurd short (Nat.not_succ_le_self _)

/-! ### The edit and the sections -/

theorem lead_iff {lines : List Text} (plain : ∀ line, line ∈ lines → opensLine line = false) :
    statements (lines.flatMap withInserted) = statements lines ↔
      ∀ line, line ∈ lines → ¬ NamesInit line := by
  constructor
  · intro same
    have chmod := (count_withInserted lines).1
    rw [same, Nat.left_eq_add, countP_namesInit_zero] at chmod
    exact chmod
  · intro none
    rw [withInserted_none none]
    intro line member starts
    have opens := startsRecovery_opens starts
    rw [plain line member] at opens
    cases opens

/-- The edited file reads as the old one with the two amendments and the new service. -/
theorem keeps_sections_iff (text : Text) :
    parse (edited defaultOptions text) = intended (parse text) ↔ Editable text := by
  obtain ⟨init, last, split⟩ : ∃ init last, linesOf text = init ++ [last] :=
    ⟨_, _, (List.dropLast_concat_getLast (List.splitOn_ne_nil '\n' text)).symm⟩
  have final : (linesOf text).getLast? = some last := by rw [split, List.getLast?_concat]
  have bodies : ∀ block, block ∈ (sectionsOf text).blocks →
      ∀ line, line ∈ block.body → ¬ StartsRecovery line := by
    intro block member line inside starts
    have opens := startsRecovery_opens starts
    rw [(block_spec member).2 line inside] at opens
    cases opens
  have before : parse text =
      { lead := statements (sectionsOf text).lead
        blocks := (sectionsOf text).blocks.map readBlock } := parse_lines (linesOf text)
  have compared : GoodEnd last →
      (parse (edited defaultOptions text) = intended (parse text) ↔
        (∀ line, line ∈ (sectionsOf text).lead → ¬ NamesInit line) ∧
          ∀ block, block ∈ (sectionsOf text).blocks → BlockEditable block) := by
    intro good
    rw [parse_edited (statements_edited split good), before, intended, Outline.mk.injEq]
    apply and_congr
    · exact lead_iff fun line member => lead_plain member
    · change _ ++ [suBlock] = ((sectionsOf text).blocks.map readBlock).map amended ++ [suBlock] ↔ _
      rw [List.append_left_inj, List.map_map, List.map_inj_left]
      apply forall_congr'
      intro block
      apply forall_congr'
      intro member
      exact block_iff (bodies block member)
  constructor
  · intro same
    have good := goodEnd_of_intended split same
    obtain ⟨lead, blocks⟩ := (compared good).mp same
    refine ⟨?_, lead, blocks⟩
    intro other member
    rw [final, Option.mem_some_iff] at member
    rw [← member]
    exact good
  · intro editable
    exact (compared (editable.ends last final)).mpr ⟨editable.lead, editable.blocks⟩

/-- The service is written on the last line if no line break ends it. -/
theorem unendedLine_takes_service :
    edited defaultOptions "on boot\n    start adbd".toList =
        ("on boot\n    start adbdservice su /sbin/su --daemon\n\tclass main\n" ++
          "\tseclabel u:r:su_daemon:s0\n\n\n").toList ∧
      parse (edited defaultOptions "on boot\n    start adbd".toList) ≠
        intended (parse "on boot\n    start adbd".toList) := by
  decide +kernel

-- A comment with the text of the pattern and a trigger that begins with it get the command.
example :
    parse (edited defaultOptions "on boot\n    # see on init\non init-late\n".toList) =
      { lead := []
        blocks :=
          [{ header := ["on".toList, "boot".toList], body := [chmodCommand] },
           { header := ["on".toList, "init-late".toList], body := [chmodCommand] },
           suBlock] } := by
  decide +kernel

end SuperBootimg.Concrete.InitRc
