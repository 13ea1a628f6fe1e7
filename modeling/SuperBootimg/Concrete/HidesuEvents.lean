/-
The main loop of hidesu.c on the lines of the event log: what it reads, parses and
asks `disableSu` for. What is stored in the parsed arrays is looked at in EventArrays.
-/

import SuperBootimg.FormatScan
import SuperBootimg.LineStream
import SuperBootimg.Concrete.HidesuSystem
import SuperBootimg.Concrete.MachineWords

namespace SuperBootimg.Concrete.Hidesu

open FieldSplitting FormatScan LineStream

inductive Signal
  | stop
  | cont
  deriving DecidableEq

inductive Effect
  | kill (pid : Pid) (signal : Signal)
  | disableSu (pid : Pid)
  deriving DecidableEq

def cString (bytes : Text) : Text :=
  bytes.takeWhile (· != '\x00')

/-- `"[%d %u %u %256s %16s %256s]"` -/
def amProcStart : List Directive :=
  [.literal '[', .integer, .space, .integer, .space, .integer, .space, .word 256, .space, .word 16,
    .space, .word 256, .literal ']']

/-- The variables a line is scanned into; `pid` and `uid` are unsigned. -/
structure Scanned where
  user : Int
  pid : Nat
  uid : Nat
  processName : Text
  hostingType : Text
  hostingName : Text
  deriving DecidableEq

/-- `%d` goes through `strtoimax` and `%u` through `strtoumax`, which saturate. -/
def readInt (value : Int) : Int :=
  intOf (max (-(2 ^ 63)) (min value (2 ^ 63 - 1)))

def readUnsigned (value : Int) : Nat :=
  uint32Of (if value.natAbs < 2 ^ 64 then value else 2 ^ 64 - 1)

def sscanf (buffer : Text) : Option Scanned :=
  match scan amProcStart buffer with
  | [.integer user, .integer pid, .integer uid, .word processName, .word hostingType,
      .word hostingName] =>
      some ⟨readInt user, readUnsigned pid, readUnsigned uid, processName, hostingType,
        hostingName⟩
  | _ => none

def isListed (processName : Text) : Bool :=
  listed.contains processName

def handleEvent (buffer : Text) : List Effect :=
  match sscanf buffer with
  | none => []
  | some event =>
      if isListed event.processName then
        [.kill event.pid .stop, .disableSu event.pid, .kill event.pid .cont]
      else []

structure LoopState where
  stream : Stream Char
  buffer : Text
  effects : List Effect

def bufferSize : Nat := 512

/-- One iteration; a call of `fgets` that returns `NULL` leaves the buffer as it is. -/
def LoopState.iterate (state : LoopState) : LoopState :=
  let (line, stream) := fgets '\n' bufferSize state.stream
  let buffer := translate ',' ' ' (match line with
    | some bytes => cString bytes
    | none => state.buffer)
  { stream := stream, buffer := buffer, effects := state.effects ++ handleEvent buffer }

/-- `while(!feof(p))`, with fuel. -/
def eventLoop : Nat → LoopState → Option LoopState
  | 0, _ => none
  | fuel + 1, state =>
      if state.stream.ended then some state else eventLoop fuel state.iterate

/-- The buffer before the loop: `snprintf(buffer, sizeof(buffer), "/proc/%lu/ns/mnt", ulres)`. -/
def nsPath (pid : Pid) : Text :=
  "/proc/".toList ++ Nat.toDigits 10 pid ++ "/ns/mnt".toList

def logged (lines : List Text) : Text :=
  lines.flatMap fun line => line ++ ['\n']

def LoopState.started (zygote : Pid) (lines : List Text) : LoopState :=
  { stream := { rest := logged lines, ended := false }, buffer := nsPath zygote, effects := [] }

/-! ### What a line asks for -/

def received (line : Text) : Text :=
  translate ',' ' ' (cString (line ++ ['\n']))

def Effect.disabled : Effect → Option Pid
  | .disableSu pid => some pid
  | .kill _ _ => none

def requested (line : Text) : Option Pid :=
  match sscanf (received line) with
  | some event => if isListed event.processName then some event.pid else none
  | none => none

theorem disabled_handleEvent (line : Text) :
    (handleEvent (received line)).filterMap Effect.disabled = (requested line).toList := by
  unfold handleEvent requested
  cases sscanf (received line) with
  | none => rfl
  | some event =>
      cases member : isListed event.processName with
      | true =>
          simp only [member, if_true]
          rfl
      | false =>
          simp only [member, Bool.false_eq_true, if_false]
          rfl

theorem handleEvent_nsPath (pid : Pid) : handleEvent (translate ',' ' ' (nsPath pid)) = [] :=
  rfl

/-! ### Runs of the loop -/

theorem iterate_line {line : Text} (terminated : '\n' ∉ line) (short : line.length ≤ 510)
    (rest buffer : Text) (effects : List Effect) :
    LoopState.iterate { stream := { rest := line ++ '\n' :: rest, ended := false }
                        buffer := buffer
                        effects := effects } =
      { stream := { rest := rest, ended := false }
        buffer := received line
        effects := effects ++ handleEvent (received line) } := by
  unfold LoopState.iterate
  rw [fgets_line terminated (by unfold bufferSize; omega) rest false]
  rfl

/-- The loop goes once over every line and then once more over the last. -/
theorem eventLoop_logged {lines : List Text}
    (terminated : ∀ line, line ∈ lines → '\n' ∉ line)
    (short : ∀ line, line ∈ lines → line.length ≤ 510) {fuel : Nat}
    (enough : lines.length + 2 ≤ fuel) (buffer : Text) (effects : List Effect) :
    eventLoop fuel { stream := { rest := logged lines, ended := false }
                     buffer := buffer
                     effects := effects } =
      some { stream := { rest := [], ended := true }
             buffer := translate ',' ' ' ((lines.map received).getLast?.getD buffer)
             effects := effects ++ lines.flatMap (fun line => handleEvent (received line)) ++
               handleEvent (translate ',' ' ' ((lines.map received).getLast?.getD buffer)) } := by
  induction lines generalizing fuel buffer effects with
  | nil =>
      rw [List.length_nil] at enough
      obtain ⟨fuel, rfl⟩ : ∃ less, fuel = less + 2 := ⟨fuel - 2, by omega⟩
      rw [List.flatMap_nil, List.append_nil]
      rfl
  | cons line rest ih =>
      rw [List.length_cons] at enough
      obtain ⟨fuel, rfl⟩ : ∃ less, fuel = less + 1 := ⟨fuel - 1, by omega⟩
      have text : logged (line :: rest) = line ++ '\n' :: logged rest := by
        unfold logged
        rw [List.flatMap_cons, List.append_assoc]
        rfl
      have step := iterate_line (terminated line List.mem_cons_self)
        (short line List.mem_cons_self) (logged rest) buffer effects
      rw [text]
      change (if false = true then _ else eventLoop fuel (LoopState.iterate _)) = _
      rw [if_neg Bool.false_ne_true, step,
        ih (fun other member => terminated other (List.mem_cons_of_mem _ member))
          (fun other member => short other (List.mem_cons_of_mem _ member))
          (show rest.length + 2 ≤ fuel by omega)]
      rw [List.flatMap_cons, List.map_cons, List.getLast?_cons, Option.getD_some]
      simp only [List.append_assoc]

theorem disabled_lines (lines : List Text) :
    (lines.flatMap fun line => handleEvent (received line)).filterMap Effect.disabled =
      lines.filterMap requested := by
  induction lines with
  | nil => rfl
  | cons line rest ih =>
      rw [List.flatMap_cons, List.filterMap_append, disabled_handleEvent, ih, List.filterMap_cons]
      cases requested line with
      | none => rfl
      | some pid => rfl

/-- The call of `fgets` that finds the stream at its end replays the last line. -/
theorem disabled_last (zygote : Pid) (lines : List Text) :
    (handleEvent (translate ',' ' ' ((lines.map received).getLast?.getD (nsPath zygote)))).filterMap
        Effect.disabled =
      (lines.getLast?.bind requested).toList := by
  rw [List.getLast?_map]
  cases lines.getLast? with
  | none =>
      rw [Option.map_none, Option.getD_none, handleEvent_nsPath]
      rfl
  | some last =>
      have again : translate ',' ' ' (received last) = received last :=
        translate_translate (by decide) _
      rw [Option.map_some, Option.getD_some, again, disabled_handleEvent]
      rfl

/-- Every event is handled once exactly when the last line asks for nothing. -/
theorem handled_once_iff (zygote : Pid) (lines : List Text)
    (terminated : ∀ line, line ∈ lines → '\n' ∉ line)
    (short : ∀ line, line ∈ lines → line.length ≤ 510) :
    ∃ final, (∀ fuel, lines.length + 2 ≤ fuel →
        eventLoop fuel (LoopState.started zygote lines) = some final) ∧
      (final.effects.filterMap Effect.disabled = lines.filterMap requested ↔
        ∀ last, lines.getLast? = some last → requested last = none) := by
  refine ⟨_, fun fuel enough => eventLoop_logged terminated short enough (nsPath zygote) [], ?_⟩
  simp only [List.nil_append, List.filterMap_append, disabled_lines, disabled_last]
  rw [List.append_right_eq_self]
  cases lines.getLast? with
  | none => exact iff_of_true rfl (fun last impossible => by cases impossible)
  | some last =>
      rw [Option.bind_some, Option.toList_eq_nil_iff]
      constructor
      · intro nothing other same
        cases same
        exact nothing
      · intro given
        exact given last rfl

def listedLine : Text :=
  "[0,10,10001,com.att.tv,activity,com.att.tv/.Main]".toList

def otherLine : Text :=
  "[0,11,1000,com.android.phone,added application,com.android.phone]".toList

theorem otherLine_handled_once :
    ∃ final, (∀ fuel, 4 ≤ fuel →
        eventLoop fuel (LoopState.started 2 [listedLine, otherLine]) = some final) ∧
      final.effects.filterMap Effect.disabled = [10] := by
  obtain ⟨final, run, once⟩ := handled_once_iff 2 [listedLine, otherLine] (by decide) (by decide)
  refine ⟨final, run, (once.mpr ?_).trans (by decide +kernel)⟩
  intro last same
  cases same
  decide +kernel

/-- The last event of the log is handled twice. -/
theorem listedLine_handled_twice :
    (eventLoop 3 (LoopState.started 2 [listedLine])).map
        (fun final => final.effects.filterMap Effect.disabled) = some [10, 10] ∧
      [listedLine].filterMap requested = [10] := by
  decide +kernel

/-! ### Events as they are printed -/

def separates (symbol : Char) : Bool :=
  isSpace symbol || symbol == ','

structure AmProcStart where
  user : Int
  pid : Int
  uid : Int
  processName : Text
  hostingType : Text
  hostingName : Text

namespace AmProcStart

def line (event : AmProcStart) : Text :=
  '[' :: decimal event.user ++ ',' :: (decimal event.pid ++ ',' :: (decimal event.uid ++ ',' ::
    (event.processName ++ ',' :: (event.hostingType ++ ',' :: (event.hostingName ++ [']'])))))

/-- The event fits one line of the log, its name is that of a process, and `%u` can hold
its pid. -/
structure Printable (event : AmProcStart) : Prop where
  pidHeld : event.pid.natAbs < 2 ^ 64
  named : event.processName ≠ []
  nameShort : event.processName.length ≤ 255
  namePlain : ∀ symbol, symbol ∈ event.processName → separates symbol = false
  oneLine : ∀ symbol, symbol ∈ event.line → symbol ≠ '\n' ∧ symbol ≠ '\x00'
  short : event.line.length ≤ 510

/-- The words of the last two fields are a single short one, the bracket included. -/
def Swallowed (event : AmProcStart) : Prop :=
  (∀ symbol, symbol ∈ event.hostingType → separates symbol = true) ∧
    ∃ blanks word, event.hostingName = blanks ++ word ∧
      (∀ symbol, symbol ∈ blanks → separates symbol = true) ∧
      (∀ symbol, symbol ∈ word → separates symbol = false) ∧ word.length < 16

def hosting (event : AmProcStart) : Text :=
  translate ',' ' ' event.hostingType ++ ' ' :: (translate ',' ' ' event.hostingName ++ [']', '\n'])

variable {event : AmProcStart}

theorem Printable.received_line (printable : event.Printable) :
    received event.line = '[' :: decimal event.user ++ ' ' :: (decimal event.pid ++ ' ' ::
      (decimal event.uid ++ ' ' :: (event.processName ++ ' ' :: event.hosting))) := by
  have whole : cString (event.line ++ ['\n']) = event.line ++ ['\n'] := by
    unfold cString
    rw [List.takeWhile_append_of_pos]
    · rfl
    · intro symbol member
      exact bne_iff_ne.mpr (printable.oneLine symbol member).2
  have number : ∀ value, translate ',' ' ' (decimal value) = decimal value :=
    fun value => translate_word (not_mem_decimal rfl (by decide) value)
  have name : translate ',' ' ' event.processName = event.processName := by
    apply translate_word
    intro member
    have plain := printable.namePlain ',' member
    cases plain
  unfold received
  rw [whole]
  unfold line hosting
  have closed : translate ',' ' ' (event.hostingName ++ [']', '\n']) =
      translate ',' ' ' event.hostingName ++ [']', '\n'] := by
    unfold FieldSplitting.translate
    rw [List.map_append]
    rfl
  simp only [List.cons_append, List.append_assoc, List.nil_append]
  change '[' :: translate ',' ' ' _ = _
  rw [translate_append, translate_append, translate_append, translate_append, translate_append,
    number, number, number, name, closed]

theorem ends_space (rest : Text) : Ends isSpace (' ' :: rest) := by
  intro symbol others same
  cases same
  rfl

theorem scanInteger_before_space (value : Int) (rest : Text) :
    scanInteger (decimal value ++ ' ' :: rest) = some (value, ' ' :: rest) := by
  apply scanInteger_decimal
  intro symbol others same
  cases same
  rfl

theorem scanInteger_space (value : Int) (rest : Text) :
    scanInteger ((' ' :: (decimal value ++ ' ' :: rest)).dropWhile isSpace) =
      some (value, ' ' :: rest) := by
  rw [scanInteger_dropWhile]
  exact scanInteger_before_space value rest

/-- The first four conversions always succeed. -/
theorem Printable.scan_line (printable : event.Printable) :
    scan amProcStart (received event.line) =
      .integer event.user :: .integer event.pid :: .integer event.uid :: .word event.processName ::
        scan [.word 16, .space, .word 256, .literal ']'] event.hosting := by
  have short := printable.nameShort
  have plain : ∀ symbol, symbol ∈ event.processName → isSpace symbol = false := by
    intro symbol member
    exact (Bool.or_eq_false_iff.mp (printable.namePlain symbol member)).1
  have shape : (' ' :: (event.processName ++ ' ' :: event.hosting)).dropWhile isSpace =
      event.processName ++ ' ' :: event.hosting :=
    dropWhile_field printable.named plain
  have name : scanWord 256 ((' ' :: (event.processName ++ ' ' :: event.hosting)).dropWhile
      isSpace) = some (event.processName, ' ' :: event.hosting) := by
    rw [scanWord_dropWhile, scanWord_field (by decide) printable.named plain
      (ends_space event.hosting) shape,
      List.take_of_length_le (by omega), List.drop_eq_nil_of_le (by omega), List.nil_append]
  rw [printable.received_line]
  unfold amProcStart
  rw [List.cons_append, scan_literal, scan_integer (scanInteger_before_space event.user _),
    scan_space, scan_integer (scanInteger_space event.pid _), scan_space,
    scan_integer (scanInteger_space event.uid _), scan_space, scan_word name, scan_space]
  exact congrArg _ (congrArg _ (congrArg _ (congrArg _ (scan_word_dropWhile _ event.hosting))))

theorem isSpace_translate (text : Text) (value : Bool) :
    (∀ symbol, symbol ∈ translate ',' ' ' text → isSpace symbol = value) ↔
      ∀ symbol, symbol ∈ text → separates symbol = value := by
  unfold FieldSplitting.translate
  rw [List.forall_mem_map]
  apply forall_congr'
  intro symbol
  apply imp_congr_right
  intro _
  unfold separates
  by_cases comma : symbol = ','
  · subst comma
    exact Iff.rfl
  · rw [if_neg comma, beq_eq_false_iff_ne.mpr comma, Bool.or_false]

theorem fields_hosting (event : AmProcStart) :
    fields isSpace event.hosting = fields isSpace (translate ',' ' ' event.hostingType) ++
      fields isSpace (translate ',' ' ' event.hostingName ++ [']']) := by
  unfold hosting
  rw [fields_append_blank rfl, List.append_cons, fields_append_blank rfl, fields_nil,
    List.append_nil]

theorem fields_closed_ne_nil (text : Text) : fields isSpace (text ++ [']']) ≠ [] := by
  rw [ne_eq, fields_eq_nil_iff]
  intro blank
  have closing := blank ']' (List.mem_append_right _ List.mem_cons_self)
  cases closing

/-- The last two fields are scanned unless the first conversion swallows them both. -/
theorem hosting_single_iff (event : AmProcStart) :
    (∃ only, fields isSpace event.hosting = [only] ∧ only.length ≤ 16) ↔ event.Swallowed := by
  have some := fields_closed_ne_nil (translate ',' ' ' event.hostingName)
  rw [fields_hosting]
  unfold Swallowed
  constructor
  · intro given
    obtain ⟨only, single, short⟩ := given
    cases types : fields isSpace (translate ',' ' ' event.hostingType) with
    | cons first rest =>
        rw [types, List.cons_append] at single
        obtain ⟨_, impossible⟩ := List.append_eq_nil_iff.mp (List.cons.inj single).2
        exact absurd impossible some
    | nil =>
        rw [types, List.nil_append] at single
        obtain ⟨blanks, word, same, blankAll, plain, rfl⟩ := (fields_closed_iff rfl).mp single
        obtain ⟨before, name, split, rfl, rfl⟩ := List.map_eq_append_iff.mp same
        refine ⟨(isSpace_translate _ true).mp (fields_eq_nil_iff.mp types), before, name, split,
          (isSpace_translate _ true).mp blankAll, (isSpace_translate _ false).mp plain, ?_⟩
        rw [List.length_append, List.length_map, List.length_singleton] at short
        omega
  · intro given
    obtain ⟨types, before, name, split, blankAll, plain, short⟩ := given
    have none := fields_eq_nil_iff.mpr ((isSpace_translate _ true).mpr types)
    refine ⟨translate ',' ' ' name ++ [']'], ?_, ?_⟩
    · rw [none, List.nil_append, split]
      apply (fields_closed_iff rfl).mpr
      exact ⟨translate ',' ' ' before, translate ',' ' ' name, List.map_append,
        (isSpace_translate _ true).mpr blankAll, (isSpace_translate _ false).mpr plain, rfl⟩
    · unfold FieldSplitting.translate
      rw [List.length_append, List.length_map, List.length_singleton]
      omega

/-- What hidesu is to do about an event. -/
def expected (event : AmProcStart) : List Effect :=
  if isListed event.processName then
    [.kill (uint32Of event.pid) .stop, .disableSu (uint32Of event.pid),
      .kill (uint32Of event.pid) .cont]
  else []

theorem Printable.handleEvent_line (printable : event.Printable) :
    (event.Swallowed → handleEvent (received event.line) = []) ∧
      (¬ event.Swallowed → handleEvent (received event.line) = event.expected) := by
  have front := printable.scan_line
  have words := @scan_two_words 16 event.hosting 256 (by decide) (by decide) [.literal ']']
    (fun rest => by cases rest <;> simp [scan])
  rw [hosting_single_iff] at words
  have pid : readUnsigned event.pid = uint32Of event.pid :=
    congrArg uint32Of (if_pos printable.pidHeld)
  unfold handleEvent sscanf expected
  rw [front]
  constructor
  · intro swallowed
    have lost : ¬ ∃ first other, scan [.word 16, .space, .word 256, .literal ']'] event.hosting =
        [.word first, .word other] := by
      rw [words]
      exact fun both => both.2 swallowed
    generalize scan [.word 16, .space, .word 256, .literal ']'] event.hosting = rest at lost ⊢
    rcases rest with _ | ⟨first, _ | ⟨second, _ | ⟨third, others⟩⟩⟩
    · rfl
    · cases first <;> rfl
    · cases first with
      | integer value => rfl
      | word text =>
          cases second with
          | integer value => rfl
          | word other => exact absurd ⟨text, other, rfl⟩ lost
    · cases first <;> cases second <;> rfl
  · intro kept
    have some : fields isSpace event.hosting ≠ [] := by
      rw [fields_hosting, ne_eq, List.append_eq_nil_iff]
      intro none
      exact fields_closed_ne_nil _ none.2
    obtain ⟨first, other, scanned⟩ := words.mpr ⟨some, kept⟩
    rw [scanned]
    simp only [pid]

/-- The loop body serves an event as it should unless it is listed and swallowed. -/
theorem recognised_iff (event : AmProcStart) (printable : event.Printable) (rest buffer : Text)
    (effects : List Effect) :
    (LoopState.iterate { stream := { rest := event.line ++ '\n' :: rest, ended := false }
                         buffer := buffer
                         effects := effects }).effects = effects ++ event.expected ↔
      ¬ (isListed event.processName = true ∧ event.Swallowed) := by
  have terminated : '\n' ∉ event.line := fun member => (printable.oneLine _ member).1 rfl
  obtain ⟨lost, served⟩ := printable.handleEvent_line
  rw [iterate_line terminated printable.short]
  simp only [List.append_cancel_left_eq]
  by_cases swallowed : event.Swallowed
  · rw [lost swallowed]
    unfold expected
    by_cases member : isListed event.processName = true
    · rw [if_pos member]
      exact iff_of_false (List.cons_ne_nil _ _).symm (fun kept => kept ⟨member, swallowed⟩)
    · rw [if_neg member]
      exact iff_of_true rfl (fun both => member both.1)
  · exact iff_of_true (served swallowed) (fun both => swallowed both.2)

def activityStart : AmProcStart :=
  ⟨0, 10, 10001, "com.att.tv".toList, "activity".toList, "com.att.tv/.Main".toList⟩

theorem activityStart_recognised :
    (LoopState.iterate { stream := { rest := activityStart.line ++ '\n' :: [], ended := false }
                         buffer := []
                         effects := [] }).effects =
      [] ++ [.kill 10 .stop, .disableSu 10, .kill 10 .cont] := by
  refine ((recognised_iff activityStart ?_ [] [] []).mpr ?_).trans (by decide +kernel)
  · constructor
    case pidHeld => decide
    case named => decide
    case nameShort => decide
    case namePlain =>
      exact all_false (by decide)
    case oneLine =>
      intro symbol member
      have plain : activityStart.line.all (fun symbol => symbol != '\n' && symbol != '\x00') =
          true := by
        decide +kernel
      have both := List.all_eq_true.mp plain symbol member
      rw [Bool.and_eq_true, bne_iff_ne, bne_iff_ne] at both
      exact both
    case short => decide +kernel
  · intro both
    have first := both.2.1 'a' (by decide)
    cases first

def bareStart : AmProcStart :=
  ⟨0, 10, 10001, "com.att.tv".toList, [], "restart".toList⟩

theorem bareStart_overlooked :
    bareStart.expected = [.kill 10 .stop, .disableSu 10, .kill 10 .cont] ∧
      (LoopState.iterate { stream := { rest := bareStart.line ++ ['\n'], ended := false }
                           buffer := []
                           effects := [] }).effects = [] := by
  decide +kernel

end AmProcStart

end SuperBootimg.Concrete.Hidesu
