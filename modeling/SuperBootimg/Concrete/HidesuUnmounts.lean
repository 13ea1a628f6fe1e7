/-
The end of `disableSu` in hidesu.c: /sbin is unmounted, then what the mount table shows
under /system/. The table is read into a buffer of 512 bytes and each piece that fits it
is taken for a line; mount points are used as they are printed.
-/

import Mathlib.Data.List.TakeWhile
import SuperBootimg.LineStream
import SuperBootimg.Concrete.HidesuSystem

namespace SuperBootimg.Concrete.Hidesu

open LineStream

abbrev Umount2 := List Text → Text → Bool

/-- The calls of `umount2` so far, and `ret`. -/
structure Unmounts where
  calls : List Text
  ret : Nat

variable (umount2 : Umount2)

def Unmounts.umount (state : Unmounts) (target : Text) (bit : Nat) : Unmounts :=
  { calls := state.calls ++ [target]
    ret := if umount2 state.calls target then state.ret else state.ret ||| bit }

def Unmounts.handleLine (state : Unmounts) (buffer : Text) : Unmounts :=
  match systemMount buffer with
  | some target => state.umount umount2 target 16
  | none => state

def mountsBufferSize : Nat := 512

/-- From `umount2("/sbin")` on; `mounts` is the text of /proc/<pid>/mounts if it opens. -/
def unmountAll (mounts : Option Text) : Unmounts :=
  let state := Unmounts.umount umount2 { calls := [], ret := 0 } "/sbin".toList 4
  match mounts with
  | none => { state with ret := state.ret ||| 8 }
  | some table => (linesOf '\n' mountsBufferSize table).foldl (Unmounts.handleLine umount2) state

/-! ### The mount table -/

def mangleChar (symbol : Char) : Text :=
  if symbol = ' ' then "\\040".toList
  else if symbol = '\t' then "\\011".toList
  else if symbol = '\n' then "\\012".toList
  else if symbol = '\\' then "\\134".toList
  else [symbol]

def mangle (text : Text) : Text :=
  text.flatMap mangleChar

/-- An entry of the table. A type is the name of a file system, the options begin with
`rw` or `ro`; neither is a path. -/
structure Mount where
  source : Text
  point : Text
  fsType : Text
  options : Text
  typeNamed : fsType.head? ≠ some '/'
  optionsNamed : options.head? ≠ some '/'

def Mount.line (mount : Mount) : Text :=
  mangle mount.source ++ ' ' :: (mangle mount.point ++ ' ' ::
    (mangle mount.fsType ++ ' ' :: (mangle mount.options ++ " 0 0".toList)))

def printed (table : List Mount) : Text :=
  table.flatMap fun mount => mount.line ++ ['\n']

def systemPoint (point : Text) : Option Text :=
  if 8 < point.length && "/system/".toList.isPrefixOf point then some point else none

/-! ### Calls and result -/

variable {umount2}

theorem foldl_handleLine (lines : List Text) (state : Unmounts) :
    lines.foldl (Unmounts.handleLine umount2) state =
      (lines.filterMap systemMount).foldl
        (fun state target => state.umount umount2 target 16) state := by
  induction lines generalizing state with
  | nil => rfl
  | cons line rest ih =>
      rw [List.foldl_cons, ih, List.filterMap_cons]
      unfold Unmounts.handleLine
      cases systemMount line with
      | none => rfl
      | some target => rfl

theorem Unmounts.umount_bits (state : Unmounts) (target : Text) :
    ((state.umount umount2 target 16).ret.testBit 2 = state.ret.testBit 2) ∧
      ((state.umount umount2 target 16).ret.testBit 4 = true ↔
        state.ret.testBit 4 = true ∨ umount2 state.calls target = false) := by
  have low : Nat.testBit 16 2 = false := by decide
  have high : Nat.testBit 16 4 = true := by decide
  unfold Unmounts.umount
  cases umount2 state.calls target with
  | true => simp
  | false => simp [Nat.testBit_or, low, high]

/-- The calls made, and the bit their failures leave. -/
theorem foldl_umount (targets : List Text) (state : Unmounts) :
    (targets.foldl (fun state target => state.umount umount2 target 16) state).calls =
        state.calls ++ targets ∧
      (targets.foldl (fun state target => state.umount umount2 target 16) state).ret.testBit 2 =
        state.ret.testBit 2 ∧
      ((targets.foldl (fun state target => state.umount umount2 target 16) state).ret.testBit 4 =
          true ↔
        state.ret.testBit 4 = true ∨ ∃ before target after, targets = before ++ target :: after ∧
          umount2 (state.calls ++ before) target = false) := by
  induction targets generalizing state with
  | nil =>
      refine ⟨(List.append_nil _).symm, rfl, ?_⟩
      constructor
      · intro set
        exact .inl set
      · intro given
        rcases given with set | ⟨before, target, after, impossible, _⟩
        · exact set
        · exact absurd impossible.symm
            (List.append_ne_nil_of_right_ne_nil _ (List.cons_ne_nil _ _))
  | cons first rest ih =>
      obtain ⟨low, high⟩ := @Unmounts.umount_bits umount2 state first
      obtain ⟨calls, restLow, restHigh⟩ := ih (state.umount umount2 first 16)
      rw [List.foldl_cons]
      refine ⟨?_, restLow.trans low, restHigh.trans ?_⟩
      · rw [calls]
        exact List.append_assoc _ _ _
      · rw [high, or_assoc]
        apply or_congr_right
        constructor
        · intro given
          rcases given with failed | ⟨before, target, after, split, failed⟩
          · exact ⟨[], first, rest, rfl, by rw [List.append_nil]; exact failed⟩
          · refine ⟨first :: before, target, after, by rw [split]; rfl, ?_⟩
            rw [List.append_cons]
            exact failed
        · intro given
          obtain ⟨before, target, after, split, failed⟩ := given
          cases before with
          | nil =>
              cases split
              rw [List.append_nil] at failed
              exact .inl failed
          | cons other before =>
              cases split
              rw [List.append_cons] at failed
              exact .inr ⟨before, target, after, rfl, failed⟩

/-! ### What a piece of the table is taken for -/

private theorem all_plain {text : Text} (plain : ' ' ∉ text) :
    ∀ symbol, symbol ∈ text → (symbol != ' ') = true := by
  intro symbol member
  apply bne_iff_ne.mpr
  intro same
  rw [same] at member
  exact plain member

private theorem dropWhile_space {front : Text} (plain : ' ' ∉ front) (rest : Text) :
    (front ++ ' ' :: rest).dropWhile (· != ' ') = ' ' :: rest := by
  rw [List.dropWhile_append_of_pos (all_plain plain)]
  rfl

private theorem takeWhile_space {front : Text} (plain : ' ' ∉ front) (rest : Text) :
    (front ++ ' ' :: rest).takeWhile (· != ' ') = front := by
  rw [List.takeWhile_append_of_pos (all_plain plain)]
  exact List.append_nil front

theorem systemMount_two_spaces {front point : Text} (frontPlain : ' ' ∉ front)
    (pointPlain : ' ' ∉ point) (rest : Text) :
    systemMount (front ++ ' ' :: (point ++ ' ' :: rest)) = systemPoint point := by
  unfold systemMount systemPoint
  rw [dropWhile_space frontPlain]
  simp only [takeWhile_space pointPlain]
  apply if_neg
  rw [List.length_append, List.length_cons]
  omega

theorem systemMount_one_space {front rest : Text} (frontPlain : ' ' ∉ front)
    (restPlain : ' ' ∉ rest) : systemMount (front ++ ' ' :: rest) = none := by
  unfold systemMount
  rw [dropWhile_space frontPlain]
  change (if (rest.takeWhile (· != ' ')).length = rest.length then _ else _) = none
  rw [List.takeWhile_eq_self_iff.mpr (all_plain restPlain)]
  exact if_pos rfl

theorem systemMount_no_space {text : Text} (plain : ' ' ∉ text) : systemMount text = none := by
  unfold systemMount
  rw [List.dropWhile_eq_nil_iff.mpr (all_plain plain)]

/-- What is unmounted begins behind a blank with a slash. -/
theorem systemMount_some {text target : Text} (found : systemMount text = some target) :
    ∃ before after, text = before ++ ' ' :: after ∧ after.head? = some '/' := by
  have whole := @List.takeWhile_append_dropWhile Char (· != ' ') text
  unfold systemMount at found
  cases shape : text.dropWhile (· != ' ') with
  | nil =>
      rw [shape] at found
      cases found
  | cons space rest =>
      have first : space = ' ' := by
        have head := List.head_dropWhile_not (· != ' ') (by rw [shape]; exact List.cons_ne_nil _ _)
        simp only [shape, List.head_cons, bne_eq_false_iff_eq] at head
        exact head
      rw [shape, first] at whole
      refine ⟨_, rest, whole.symm, ?_⟩
      simp only [shape] at found
      split at found
      · cases found
      · split at found
        · rename_i long
          have slash := (Bool.and_eq_true_iff.mp long).2
          cases rest with
          | nil => cases slash
          | cons symbol others =>
              by_cases blank : (symbol != ' ') = true
              · rw [List.takeWhile_cons, if_pos blank] at slash
                have heads : '/' = symbol := beq_iff_eq.mp (Bool.and_eq_true_iff.mp slash).1
                rw [← heads]
                exact List.head?_cons
              · rw [List.takeWhile_cons, if_neg blank] at slash
                cases slash
        · cases found

/-! ### One entry of the table -/

/-- Nothing behind a blank begins with a slash, so no part of the text is unmounted. -/
def Harmless (text : Text) : Prop :=
  ∀ before after, text = before ++ ' ' :: after → after.head? ≠ some '/'

theorem Harmless.silent {text before part after : Text} (harmless : Harmless text)
    (split : text = before ++ part ++ after) : systemMount part = none := by
  cases found : systemMount part with
  | none => rfl
  | some target =>
      obtain ⟨front, rest, shape, slash⟩ := systemMount_some found
      have inText : text = (before ++ front) ++ ' ' :: (rest ++ after) := by
        rw [split, shape]
        simp only [List.append_assoc, List.cons_append]
      refine absurd ?_ (harmless _ _ inText)
      cases rest with
      | nil => cases slash
      | cons symbol others => exact slash

theorem Harmless.behind {text after : Text} (harmless : Harmless text) (before : Text)
    (split : text = before ++ after) : Harmless after := by
  intro front rest shape
  apply harmless (before ++ front) rest
  rw [split, shape, List.append_assoc]

theorem Harmless.skipped {line : Text} (harmless : Harmless (line ++ ['\n']))
    (plain : '\n' ∉ line) (rest : Text) :
    (linesOf '\n' mountsBufferSize (line ++ '\n' :: rest)).filterMap systemMount =
      (linesOf '\n' mountsBufferSize rest).filterMap systemMount :=
  filterMap_linesOf_silent (by decide) systemMount plain
    (fun _ _ _ split => harmless.silent split) rest

private theorem filterMap_first {α β : Type} (meaning : α → Option β) (first : α)
    (others : List α) :
    (first :: others).filterMap meaning =
      (meaning first).toList ++ others.filterMap meaning := by
  rw [List.filterMap_cons]
  cases meaning first with
  | none => rfl
  | some value => rfl

section Line

variable {source point tail : Text}

/-- A source that fills the buffer is skipped with the first piece. -/
private theorem filterMap_line_source (sourcePlain : ' ' ∉ source)
    (plain : '\n' ∉ source ++ ' ' :: (point ++ ' ' :: tail)) (far : 511 ≤ source.length)
    (rest : Text) :
    (linesOf '\n' mountsBufferSize
        (source ++ ' ' :: (point ++ ' ' :: tail) ++ '\n' :: rest)).filterMap systemMount =
      (linesOf '\n' mountsBufferSize
        (source.drop 511 ++ ' ' :: (point ++ ' ' :: tail) ++ '\n' :: rest)).filterMap
          systemMount := by
  have size : mountsBufferSize - 1 = 511 := rfl
  have whole : (source ++ ' ' :: (point ++ ' ' :: tail)).length =
      source.length + (point.length + (tail.length + 1) + 1) := by
    simp only [List.length_append, List.length_cons]
  have front : ' ' ∉ source.take 511 := fun member => sourcePlain (List.mem_of_mem_take member)
  rw [linesOf_long (by decide) plain (by rw [whole]; unfold mountsBufferSize; omega), size,
    filterMap_first, List.take_append_of_le_length far, List.drop_append_of_le_length far,
    systemMount_no_space front]
  rfl

/-- The blank behind the mount point is still in the first piece. -/
private theorem filterMap_line_held (sourcePlain : ' ' ∉ source) (pointPlain : ' ' ∉ point)
    (plain : '\n' ∉ source ++ ' ' :: (point ++ ' ' :: tail))
    (harmless : Harmless (point ++ ' ' :: tail ++ ['\n']))
    (held : source.length + point.length + 1 < 511) (rest : Text) :
    (linesOf '\n' mountsBufferSize
        (source ++ ' ' :: (point ++ ' ' :: tail) ++ '\n' :: rest)).filterMap systemMount =
      (systemPoint point).toList ++
        (linesOf '\n' mountsBufferSize rest).filterMap systemMount := by
  have size : mountsBufferSize - 1 = 511 := rfl
  by_cases short : (source ++ ' ' :: (point ++ ' ' :: tail)).length + 1 < mountsBufferSize
  · rw [linesOf_short (by decide) plain short, filterMap_first, List.append_assoc,
      List.cons_append, List.append_assoc, List.cons_append,
      systemMount_two_spaces sourcePlain pointPlain]
  · obtain ⟨count, split⟩ : ∃ count, 511 = source.length + (point.length + (count + 1) + 1) :=
      ⟨511 - (source.length + point.length + 2), by omega⟩
    have cut : (source ++ ' ' :: (point ++ ' ' :: tail)).take 511 =
        source ++ ' ' :: (point ++ ' ' :: tail.take count) := by
      rw [split, List.take_length_add_append, List.take_succ_cons, List.take_length_add_append,
        List.take_succ_cons]
    have left : (source ++ ' ' :: (point ++ ' ' :: tail)).drop 511 = tail.drop count := by
      rw [split, List.drop_length_add_append, List.drop_succ_cons, List.drop_length_add_append,
        List.drop_succ_cons]
    have restHarmless : Harmless (tail.drop count ++ ['\n']) := by
      apply harmless.behind (point ++ ' ' :: tail.take count)
      rw [List.append_assoc, List.append_assoc, List.cons_append, List.cons_append,
        ← List.append_assoc (tail.take count), List.take_append_drop]
    have restPlain : '\n' ∉ tail.drop count := by
      rw [← left]
      exact fun member => plain (List.mem_of_mem_drop member)
    rw [linesOf_long (by decide) plain (by omega), size, filterMap_first, cut, left,
      systemMount_two_spaces sourcePlain pointPlain, restHarmless.skipped restPlain]

/-- The first piece ends in the mount point or right behind it. -/
private theorem filterMap_line_cut (sourcePlain : ' ' ∉ source) (pointPlain : ' ' ∉ point)
    (plain : '\n' ∉ source ++ ' ' :: (point ++ ' ' :: tail))
    (harmless : Harmless (point ++ ' ' :: tail ++ ['\n']))
    (near : source.length < 511) (beyond : 511 ≤ source.length + point.length + 1) (rest : Text) :
    (linesOf '\n' mountsBufferSize
        (source ++ ' ' :: (point ++ ' ' :: tail) ++ '\n' :: rest)).filterMap systemMount =
      (linesOf '\n' mountsBufferSize rest).filterMap systemMount := by
  have size : mountsBufferSize - 1 = 511 := rfl
  have whole : (source ++ ' ' :: (point ++ ' ' :: tail)).length =
      source.length + (point.length + (tail.length + 1) + 1) := by
    simp only [List.length_append, List.length_cons]
  obtain ⟨count, split⟩ : ∃ count, 511 = source.length + (count + 1) :=
    ⟨510 - source.length, by omega⟩
  have cut : (source ++ ' ' :: (point ++ ' ' :: tail)).take 511 =
      source ++ ' ' :: point.take count := by
    rw [split, List.take_length_add_append, List.take_succ_cons,
      List.take_append_of_le_length (by omega)]
  have left : (source ++ ' ' :: (point ++ ' ' :: tail)).drop 511 =
      point.drop count ++ ' ' :: tail := by
    rw [split, List.drop_length_add_append, List.drop_succ_cons,
      List.drop_append_of_le_length (by omega)]
  have restHarmless : Harmless (point.drop count ++ ' ' :: tail ++ ['\n']) := by
    apply harmless.behind (point.take count)
    rw [← List.append_assoc, ← List.append_assoc, List.take_append_drop]
  have restPlain : '\n' ∉ point.drop count ++ ' ' :: tail := by
    rw [← left]
    exact fun member => plain (List.mem_of_mem_drop member)
  have none : systemMount (source ++ ' ' :: point.take count) = none :=
    systemMount_one_space sourcePlain fun member => pointPlain (List.mem_of_mem_take member)
  rw [linesOf_long (by decide) plain (by rw [whole]; unfold mountsBufferSize; omega), size,
    filterMap_first, cut, left, none, restHarmless.skipped restPlain]
  rfl

/-- The mount point of a line is seen exactly when it and the blanks around it come in
one piece. -/
theorem filterMap_line (sourcePlain : ' ' ∉ source) (pointPlain : ' ' ∉ point)
    (plain : '\n' ∉ source ++ ' ' :: (point ++ ' ' :: tail))
    (harmless : Harmless (point ++ ' ' :: tail ++ ['\n'])) (rest : Text) :
    (linesOf '\n' mountsBufferSize
        (source ++ ' ' :: (point ++ ' ' :: tail) ++ '\n' :: rest)).filterMap systemMount =
      (if source.length / 511 = (source.length + point.length + 1) / 511 then
        (systemPoint point).toList else []) ++
        (linesOf '\n' mountsBufferSize rest).filterMap systemMount := by
  induction length : source.length using Nat.strongRecOn generalizing source with
  | ind count ih =>
      subst length
      by_cases far : 511 ≤ source.length
      · have shorter : (source.drop 511).length = source.length - 511 := List.length_drop
        have behind : ' ' ∉ source.drop 511 :=
          fun member => sourcePlain (List.mem_of_mem_drop member)
        have behindPlain : '\n' ∉ source.drop 511 ++ ' ' :: (point ++ ' ' :: tail) := by
          intro member
          rw [← List.drop_append_of_le_length far] at member
          exact plain (List.mem_of_mem_drop member)
        have again := ih (source.drop 511).length (by omega) behind behindPlain rfl
        have same : (source.length - 511) / 511 + 1 = source.length / 511 := by omega
        have sameEnd : (source.length - 511 + point.length + 1) / 511 + 1 =
            (source.length + point.length + 1) / 511 := by omega
        rw [filterMap_line_source sourcePlain plain far, again, shorter, ← same, ← sameEnd]
        simp only [Nat.add_right_cancel_iff]
      · have start : source.length / 511 = 0 := by omega
        by_cases held : source.length + point.length + 1 < 511
        · have stop : (source.length + point.length + 1) / 511 = 0 := by omega
          rw [filterMap_line_held sourcePlain pointPlain plain harmless held, start, stop,
            if_pos rfl]
        · have stop : (source.length + point.length + 1) / 511 ≠ 0 := by omega
          rw [filterMap_line_cut sourcePlain pointPlain plain harmless (by omega) (by omega),
            start, if_neg (Ne.symm stop)]
          rfl

end Line

/-! ### Escapes -/

/-- Nothing in the text has to be written as an escape. -/
def Unescaped (text : Text) : Prop :=
  ∀ symbol, symbol ∈ text → mangleChar symbol = [symbol]

theorem mangle_cons (symbol : Char) (rest : Text) :
    mangle (symbol :: rest) = mangleChar symbol ++ mangle rest :=
  List.flatMap_cons

/-- An escape is four characters, the first of which is a backslash. -/
theorem mangleChar_cases (symbol : Char) :
    (mangleChar symbol = [symbol] ∧ symbol ≠ ' ' ∧ symbol ≠ '\n') ∨
      (∃ first second third, mangleChar symbol = ['\\', first, second, third]) ∧
        ' ' ∉ mangleChar symbol ∧ '\n' ∉ mangleChar symbol ∧ symbol ≠ '/' := by
  unfold mangleChar
  by_cases space : symbol = ' '
  · subst space
    exact .inr ⟨⟨_, _, _, rfl⟩, by decide⟩
  · rw [if_neg space]
    by_cases tab : symbol = '\t'
    · subst tab
      exact .inr ⟨⟨_, _, _, rfl⟩, by decide⟩
    · rw [if_neg tab]
      by_cases newline : symbol = '\n'
      · subst newline
        exact .inr ⟨⟨_, _, _, rfl⟩, by decide⟩
      · rw [if_neg newline]
        by_cases backslash : symbol = '\\'
        · subst backslash
          exact .inr ⟨⟨_, _, _, rfl⟩, by decide⟩
        · rw [if_neg backslash]
          exact .inl ⟨rfl, space, newline⟩

theorem mangle_plain (text : Text) : ' ' ∉ mangle text ∧ '\n' ∉ mangle text := by
  induction text with
  | nil => exact ⟨List.not_mem_nil, List.not_mem_nil⟩
  | cons symbol rest ih =>
      rw [mangle_cons, List.mem_append, List.mem_append, not_or, not_or]
      rcases mangleChar_cases symbol with ⟨same, space, newline⟩ | ⟨_, space, newline, _⟩
      · rw [same, List.mem_singleton, List.mem_singleton]
        exact ⟨⟨Ne.symm space, ih.1⟩, Ne.symm newline, ih.2⟩
      · exact ⟨⟨space, ih.1⟩, newline, ih.2⟩

theorem length_le_mangle (text : Text) : text.length ≤ (mangle text).length := by
  induction text with
  | nil => exact Nat.le_refl 0
  | cons symbol rest ih =>
      rw [mangle_cons, List.length_append, List.length_cons]
      rcases mangleChar_cases symbol with ⟨same, _⟩ | ⟨⟨_, _, _, same⟩, _⟩
      · rw [same, List.length_singleton]
        omega
      · rw [same]
        simp only [List.length_cons]
        omega

theorem mangle_eq_self_iff (text : Text) : mangle text = text ↔ Unescaped text := by
  unfold Unescaped
  induction text with
  | nil => exact iff_of_true rfl (fun symbol member => absurd member List.not_mem_nil)
  | cons symbol rest ih =>
      rw [mangle_cons, List.forall_mem_cons, ← ih]
      rcases mangleChar_cases symbol with ⟨same, _⟩ | ⟨⟨_, _, _, escape⟩, _⟩
      · rw [same, List.singleton_append, List.cons_inj_right]
        exact (and_iff_right rfl).symm
      · rw [escape]
        have longer := length_le_mangle rest
        constructor
        · intro same
          have lengths := congrArg List.length same
          simp only [List.length_append, List.length_cons, List.length_nil] at lengths
          omega
        · intro both
          cases both.1

/-- A path keeps its leading characters that are no escapes. -/
theorem isPrefixOf_mangle {word : Text} (plain : Unescaped word) (noBackslash : '\\' ∉ word)
    (text : Text) : word.isPrefixOf (mangle text) = word.isPrefixOf text := by
  induction word generalizing text with
  | nil => rfl
  | cons symbol others ih =>
      rw [List.mem_cons, not_or] at noBackslash
      cases text with
      | nil => rfl
      | cons first rest =>
          have same := ih (fun other member => plain other (List.mem_cons_of_mem _ member))
            noBackslash.2 rest
          rw [mangle_cons, List.isPrefixOf_cons_cons, ← same]
          rcases mangleChar_cases first with ⟨single, _⟩ | ⟨⟨_, _, _, escape⟩, _⟩
          · rw [single]
            exact List.isPrefixOf_cons_cons
          · have differs : (symbol == first) = false := by
              apply beq_eq_false_iff_ne.mpr
              intro equal
              have itself := plain symbol List.mem_cons_self
              rw [equal, escape] at itself
              cases itself
            have differsToo : (symbol == '\\') = false :=
              beq_eq_false_iff_ne.mpr (Ne.symm noBackslash.1)
            rw [escape, differs, List.cons_append, List.isPrefixOf_cons_cons, differsToo]
            rfl

theorem systemPoint_mangle (point : Text) :
    systemPoint (mangle point) = (systemPoint point).map mangle := by
  have word : Unescaped "/system/".toList := (mangle_eq_self_iff _).mp rfl
  unfold systemPoint
  rw [isPrefixOf_mangle word (by decide)]
  cases starts : "/system/".toList.isPrefixOf point with
  | false => simp only [Bool.and_false, Bool.false_eq_true, if_false, Option.map_none]
  | true =>
      obtain ⟨rest, split⟩ := List.isPrefixOf_iff_prefix.mp starts
      have escaped : mangle point = "/system/".toList ++ mangle rest := by
        rw [← split]
        unfold mangle
        rw [List.flatMap_append]
        exact congrArg (· ++ mangle rest) ((mangle_eq_self_iff _).mpr word)
      have longer := length_le_mangle rest
      have eight : "/system/".toList.length = 8 := rfl
      cases rest with
      | nil =>
          rw [escaped, ← split]
          rfl
      | cons symbol others =>
          have long : 8 < (mangle point).length := by
            rw [escaped, List.length_append, eight]
            rw [List.length_cons] at longer
            omega
          have short : 8 < point.length := by
            rw [← split, List.length_append, eight, List.length_cons]
            omega
          simp only [long, short, decide_true, Bool.and_true, if_true, Option.map_some]

/-! ### The whole table -/

theorem Harmless.word {word rest : Text} (plain : ' ' ∉ word) (first : rest.head? ≠ some '/')
    (harmless : Harmless rest) : Harmless (word ++ ' ' :: rest) := by
  intro before after shape
  rcases List.append_eq_append_iff.mp shape with ⟨more, _, split⟩ | ⟨more, inside, split⟩
  · cases more with
    | nil =>
        cases split
        exact first
    | cons symbol others =>
        cases split
        exact harmless others after rfl
  · cases more with
    | nil =>
        cases split
        exact first
    | cons symbol others =>
        cases split
        refine absurd ?_ plain
        rw [inside]
        exact List.mem_append_right _ List.mem_cons_self

theorem head?_mangle {text : Text} (named : text.head? ≠ some '/') (rest : Text) :
    (mangle text ++ ' ' :: rest).head? ≠ some '/' := by
  intro slash
  cases text with
  | nil => cases slash
  | cons symbol others =>
      rw [mangle_cons] at slash
      rcases mangleChar_cases symbol with ⟨same, _⟩ | ⟨⟨_, _, _, escape⟩, _⟩
      · rw [same] at slash
        exact named slash
      · rw [escape] at slash
        cases slash

private def Mount.tail (mount : Mount) : Text :=
  mangle mount.fsType ++ ' ' :: (mangle mount.options ++ " 0 0".toList)

theorem Mount.tail_harmless (mount : Mount) :
    Harmless (mangle mount.point ++ ' ' :: mount.tail ++ ['\n']) := by
  have fields : mangle mount.point ++ ' ' :: mount.tail ++ ['\n'] =
      mangle mount.point ++ ' ' :: (mangle mount.fsType ++ ' ' :: (mangle mount.options ++
        ' ' :: (['0'] ++ ' ' :: ['0', '\n']))) := by
    unfold Mount.tail
    simp only [List.append_assoc, List.cons_append]
    rfl
  have numbers : Harmless ['0', '\n'] := by
    intro before after shape
    have blank : ' ' ∈ ['0', '\n'] := by
      rw [shape]
      exact List.mem_append_right _ List.mem_cons_self
    exact absurd blank (by decide)
  rw [fields]
  apply Harmless.word (mangle_plain _).1 (head?_mangle mount.typeNamed _)
  apply Harmless.word (mangle_plain _).1 (head?_mangle mount.optionsNamed _)
  apply Harmless.word (mangle_plain _).1 (by decide)
  exact Harmless.word (by decide) (by decide) numbers

theorem Mount.line_plain (mount : Mount) : '\n' ∉ mount.line := by
  have zeros : '\n' ∉ " 0 0".toList := by decide
  have blank : '\n' ≠ ' ' := by decide
  unfold Mount.line
  simp only [List.mem_append, List.mem_cons, (mangle_plain _).2, zeros, blank, or_self,
    not_false_eq_true]

/-- The mount point and the blanks around it are read in one piece of the table. -/
def Mount.InOnePiece (mount : Mount) : Prop :=
  (mangle mount.source).length / 511 =
    ((mangle mount.source).length + (mangle mount.point).length + 1) / 511

instance (mount : Mount) : Decidable mount.InOnePiece :=
  inferInstanceAs (Decidable (_ = _))

def Mount.unmounted (mount : Mount) : Option Text :=
  if mount.InOnePiece then (systemPoint mount.point).map mangle else none

theorem filterMap_printed (table : List Mount) :
    (linesOf '\n' mountsBufferSize (printed table)).filterMap systemMount =
      table.filterMap Mount.unmounted := by
  induction table with
  | nil => rfl
  | cons mount rest ih =>
      have text : printed (mount :: rest) = mount.line ++ '\n' :: printed rest := by
        unfold printed
        rw [List.flatMap_cons, List.append_assoc]
        rfl
      have first := filterMap_line (mangle_plain mount.source).1 (mangle_plain mount.point).1
        mount.line_plain mount.tail_harmless (printed rest)
      rw [text, filterMap_first, ← ih]
      refine first.trans (congrArg (· ++ _) ?_)
      rw [systemPoint_mangle]
      unfold Mount.unmounted
      by_cases whole : mount.InOnePiece
      · rw [if_pos whole]
        exact if_pos whole
      · rw [if_neg whole]
        exact if_neg whole

/-! ### The result -/

private theorem length_filterMap_le {α β : Type} {fewer meaning : α → Option β}
    (below : ∀ item, meaning item = none → fewer item = none) (items : List α) :
    (items.filterMap fewer).length ≤ (items.filterMap meaning).length := by
  induction items with
  | nil => exact Nat.le_refl 0
  | cons item rest ih =>
      rw [List.filterMap_cons, List.filterMap_cons]
      cases found : meaning item with
      | none =>
          rw [below item found]
          exact ih
      | some value =>
          cases fewer item with
          | none => exact Nat.le_succ_of_le ih
          | some value => exact Nat.succ_le_succ ih

/-- Results of which some may be missing agree as lists exactly when none is. -/
private theorem filterMap_eq_iff {α β : Type} {fewer meaning : α → Option β}
    (below : ∀ item, meaning item = none → fewer item = none) (items : List α) :
    items.filterMap fewer = items.filterMap meaning ↔
      ∀ item, item ∈ items → fewer item = meaning item := by
  induction items with
  | nil => exact iff_of_true rfl (fun item member => absurd member List.not_mem_nil)
  | cons item rest ih =>
      have shorter := length_filterMap_le below rest
      rw [List.filterMap_cons, List.filterMap_cons, List.forall_mem_cons, ← ih]
      cases found : meaning item with
      | none =>
          rw [below item found]
          exact (and_iff_right rfl).symm
      | some value =>
          cases fewer item with
          | none =>
              refine iff_of_false ?_ (fun both => by cases both.1)
              intro same
              have lengths := congrArg List.length same
              simp only [List.length_cons] at lengths
              omega
          | some other => rw [List.cons.injEq, Option.some.injEq]

/-- What is to be unmounted is unmounted, and the result tells what failed. -/
structure UnmountsSystem (umount2 : Umount2) (table : List Mount) (final : Unmounts) : Prop where
  calls : final.calls = "/sbin".toList :: table.filterMap fun mount => systemPoint mount.point
  /-- The bit 4. -/
  sbin : final.ret.testBit 2 = true ↔ umount2 [] "/sbin".toList = false
  /-- The bit 16. -/
  system : final.ret.testBit 4 = true ↔ ∃ before target after,
    (table.filterMap fun mount => systemPoint mount.point) = before ++ target :: after ∧
      umount2 ("/sbin".toList :: before) target = false

theorem unmountAll_printed (umount2 : Umount2) (table : List Mount) :
    unmountAll umount2 (some (printed table)) =
      (table.filterMap Mount.unmounted).foldl
        (fun state target => state.umount umount2 target 16)
        (Unmounts.umount umount2 { calls := [], ret := 0 } "/sbin".toList 4) := by
  unfold unmountAll
  rw [← filterMap_printed]
  exact foldl_handleLine _ _

theorem systemPoint_some {point target : Text} (found : systemPoint point = some target) :
    target = point := by
  unfold systemPoint at found
  split at found
  · exact (Option.some.inj found).symm
  · cases found

theorem unmounted_eq_iff (mount : Mount) :
    mount.unmounted = systemPoint mount.point ↔
      ∀ target, systemPoint mount.point = some target →
        Unescaped mount.point ∧ mount.InOnePiece := by
  unfold Mount.unmounted
  cases found : systemPoint mount.point with
  | none =>
      rw [Option.map_none, ite_self]
      exact iff_of_true rfl (fun target impossible => by cases impossible)
  | some target =>
      rw [systemPoint_some found, Option.map_some, ← mangle_eq_self_iff]
      by_cases whole : mount.InOnePiece
      · rw [if_pos whole, Option.some.injEq]
        exact ⟨fun same _ _ => ⟨same, whole⟩, fun given => (given _ rfl).1⟩
      · rw [if_neg whole]
        exact iff_of_false (fun impossible => by cases impossible)
          (fun given => whole (given _ rfl).2)

/-- All that is under /system/ is unmounted exactly when no such mount point is escaped
or cut. -/
theorem unmounts_system_iff (umount2 : Umount2) (table : List Mount) :
    UnmountsSystem umount2 table (unmountAll umount2 (some (printed table))) ↔
      ∀ mount, mount ∈ table → ∀ target, systemPoint mount.point = some target →
        Unescaped mount.point ∧ mount.InOnePiece := by
  have below : ∀ mount : Mount, systemPoint mount.point = none → mount.unmounted = none := by
    intro mount none
    unfold Mount.unmounted
    rw [none, Option.map_none, ite_self]
  have agree := filterMap_eq_iff below table
  simp only [unmounted_eq_iff] at agree
  rw [unmountAll_printed, ← agree]
  obtain ⟨calls, low, high⟩ := foldl_umount (table.filterMap Mount.unmounted)
    (Unmounts.umount umount2 { calls := [], ret := 0 } "/sbin".toList 4)
  constructor
  · intro given
    have same := given.calls
    rw [calls] at same
    exact (List.cons.inj same).2
  · intro same
    constructor
    case calls =>
      rw [calls, same]
      rfl
    case sbin =>
      rw [low]
      unfold Unmounts.umount
      cases umount2 [] "/sbin".toList with
      | true => decide
      | false => decide
    case system =>
      have clear : (Unmounts.umount umount2 { calls := [], ret := 0 } "/sbin".toList
          4).ret.testBit 4 = false := by
        unfold Unmounts.umount
        cases umount2 [] "/sbin".toList with
        | true => decide
        | false => decide
      rw [high, same, clear]
      exact or_iff_right Bool.false_ne_true

def boundMount : Mount :=
  ⟨"/dev/block/loop0".toList, "/system/bin/su".toList, "ext4".toList, "ro,relatime".toList,
    by decide, by decide⟩

def dataMount : Mount :=
  ⟨"/dev/block/dm 0".toList, "/data".toList, "ext4".toList, "rw".toList, by decide, by decide⟩

theorem boundMount_unmounted :
    UnmountsSystem (fun _ _ => true) [dataMount, boundMount]
      (unmountAll (fun _ _ => true) (some (printed [dataMount, boundMount]))) := by
  apply (unmounts_system_iff _ _).mpr
  intro mount member target found
  rcases List.mem_pair.mp member with rfl | rfl
  · cases found
  · exact ⟨(mangle_eq_self_iff _).mp (by decide), by decide⟩

def spacedMount : Mount :=
  ⟨"tmpfs".toList, "/system/my app".toList, "tmpfs".toList, "rw".toList, by decide, by decide⟩

/-- A mount point with a space is unmounted under the name the table shows. -/
theorem spacedMount_not_unmounted :
    (unmountAll (fun _ target => target != "/system/my\\040app".toList)
        (some (printed [spacedMount]))).calls =
        ["/sbin".toList, "/system/my\\040app".toList] ∧
      ¬ UnmountsSystem (fun _ target => target != "/system/my\\040app".toList) [spacedMount]
        (unmountAll (fun _ target => target != "/system/my\\040app".toList)
          (some (printed [spacedMount]))) := by
  have calls : (unmountAll (fun _ target => target != "/system/my\\040app".toList)
      (some (printed [spacedMount]))).calls =
      ["/sbin".toList, "/system/my\\040app".toList] := by
    decide +kernel
  refine ⟨calls, fun given => ?_⟩
  have wanted := given.calls
  rw [calls] at wanted
  exact absurd wanted (by decide)

end SuperBootimg.Concrete.Hidesu
