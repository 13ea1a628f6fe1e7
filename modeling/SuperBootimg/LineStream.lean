/-
Reading a stream line by line into a buffer of fixed size, as fgets does. A line that
does not fit is returned in pieces, and the end of the stream is noticed by the call
that runs into it.
-/

import Mathlib.Data.List.Basic

namespace SuperBootimg.LineStream

variable {α : Type} [DecidableEq α]

/-- Up to `limit` symbols, no further than the first newline. -/
def piece (newline : α) : Nat → List α → List α
  | 0, _ => []
  | _ + 1, [] => []
  | limit + 1, symbol :: rest =>
      if symbol = newline then [symbol] else symbol :: piece newline limit rest

structure Stream (α : Type) where
  rest : List α
  /-- The indicator that `feof` tests. -/
  ended : Bool

def fgets (newline : α) (size : Nat) (stream : Stream α) : Option (List α) × Stream α :=
  match stream.rest with
  | [] => (none, { stream with ended := true })
  | symbol :: others =>
      let line := piece newline (size - 1) (symbol :: others)
      (some line,
        { rest := (symbol :: others).drop line.length
          ended := stream.ended || decide (line.length < size - 1 ∧ newline ∉ line) })

/-- `while (fgets(..) != NULL)`, with fuel. -/
def readLines (newline : α) (size : Nat) : Nat → Stream α → List (List α)
  | 0, _ => []
  | fuel + 1, stream =>
      match fgets newline size stream with
      | (none, _) => []
      | (some line, next) => line :: readLines newline size fuel next

/-- What the calls return that read a whole text. -/
def linesOf (newline : α) (size : Nat) (text : List α) : List (List α) :=
  readLines newline size (text.length + 1) { rest := text, ended := false }

variable {newline : α}

theorem piece_line {line : List α} (plain : newline ∉ line) {limit : Nat}
    (fits : line.length < limit) (rest : List α) :
    piece newline limit (line ++ newline :: rest) = line ++ [newline] := by
  induction line generalizing limit with
  | nil =>
      cases limit with
      | zero => exact absurd fits (Nat.not_lt_zero _)
      | succ limit =>
          rw [List.nil_append, piece, if_pos rfl]
          rfl
  | cons symbol others ih =>
      cases limit with
      | zero => exact absurd fits (Nat.not_lt_zero _)
      | succ limit =>
          rw [List.mem_cons, not_or] at plain
          rw [List.length_cons] at fits
          rw [List.cons_append, piece, if_neg (Ne.symm plain.1), ih plain.2 (by omega)]
          rfl

/-- A line that does not fit is cut at the size of the buffer. -/
theorem piece_long {line : List α} (plain : newline ∉ line) {limit : Nat}
    (long : limit ≤ line.length) (rest : List α) :
    piece newline limit (line ++ rest) = line.take limit := by
  induction line generalizing limit with
  | nil =>
      rw [List.length_nil, Nat.le_zero] at long
      subst long
      rfl
  | cons symbol others ih =>
      cases limit with
      | zero => rfl
      | succ limit =>
          rw [List.mem_cons, not_or] at plain
          rw [List.length_cons] at long
          rw [List.cons_append, piece, if_neg (Ne.symm plain.1), ih plain.2 (by omega),
            List.take_succ_cons]

theorem fgets_line {line : List α} (plain : newline ∉ line) {size : Nat}
    (fits : line.length + 1 < size) (rest : List α) (ended : Bool) :
    fgets newline size { rest := line ++ newline :: rest, ended := ended } =
      (some (line ++ [newline]), { rest := rest, ended := ended }) := by
  have whole := piece_line plain (by omega : line.length < size - 1) rest
  have some : ∃ symbol others, line ++ newline :: rest = symbol :: others := by
    cases line with
    | nil => exact ⟨newline, rest, rfl⟩
    | cons symbol others => exact ⟨symbol, others ++ newline :: rest, rfl⟩
  obtain ⟨symbol, others, shape⟩ := some
  unfold fgets
  rw [shape]
  simp only
  rw [← shape, whole]
  have left : (line ++ newline :: rest).drop (line ++ [newline]).length = rest := by
    rw [List.append_cons line newline rest, List.drop_left]
  rw [left]
  simp

/-! ### Whole texts -/

variable {size : Nat}

theorem length_piece_pos {limit : Nat} (positive : 0 < limit) {text : List α} (some : text ≠ []) :
    0 < (piece newline limit text).length := by
  cases limit with
  | zero => exact absurd positive (Nat.lt_irrefl 0)
  | succ limit =>
      cases text with
      | nil => exact absurd rfl some
      | cons symbol others =>
          rw [piece]
          split <;> exact Nat.succ_pos _

theorem readLines_cons (fuel : Nat) {text : List α} (some : text ≠ []) (ended : Bool) :
    ∃ next, readLines newline size (fuel + 1) { rest := text, ended := ended } =
      piece newline (size - 1) text :: readLines newline size fuel
        { rest := text.drop (piece newline (size - 1) text).length, ended := next } := by
  cases text with
  | nil => exact absurd rfl some
  | cons symbol others => exact ⟨_, rfl⟩

/-- Neither the fuel, as long as there is enough, nor the indicator matters. -/
theorem readLines_enough (large : 2 ≤ size) {fuel other : Nat} {text : List α}
    (enough : text.length < fuel) (otherEnough : text.length < other) (ended otherEnded : Bool) :
    readLines newline size fuel { rest := text, ended := ended } =
      readLines newline size other { rest := text, ended := otherEnded } := by
  induction fuel generalizing other text ended otherEnded with
  | zero => exact absurd enough (Nat.not_lt_zero _)
  | succ fuel ih =>
      obtain ⟨other, rfl⟩ : ∃ less, other = less + 1 := ⟨other - 1, by omega⟩
      by_cases none : text = []
      · subst none
        rfl
      · obtain ⟨next, left⟩ := @readLines_cons α _ newline size fuel text none ended
        obtain ⟨otherNext, right⟩ := @readLines_cons α _ newline size other text none otherEnded
        have positive : 0 < (piece newline (size - 1) text).length :=
          length_piece_pos (by omega) none
        have shorter := @List.length_drop α (piece newline (size - 1) text).length text
        have nonempty := List.length_pos_iff.mpr none
        rw [left, right]
        exact congrArg _ (ih (by omega) (by omega) next otherNext)

theorem linesOf_cons (large : 2 ≤ size) {text : List α} (some : text ≠ []) :
    linesOf newline size text = piece newline (size - 1) text ::
      linesOf newline size (text.drop (piece newline (size - 1) text).length) := by
  obtain ⟨next, step⟩ := @readLines_cons α _ newline size text.length text some false
  have positive : 0 < (piece newline (size - 1) text).length :=
    length_piece_pos (by omega) some
  have shorter := @List.length_drop α (piece newline (size - 1) text).length text
  have nonempty := List.length_pos_iff.mpr some
  unfold linesOf
  rw [step]
  exact congrArg _ (readLines_enough large (by omega) (by omega) next false)

theorem linesOf_short (large : 2 ≤ size) {line : List α} (plain : newline ∉ line)
    (fits : line.length + 1 < size) (rest : List α) :
    linesOf newline size (line ++ newline :: rest) =
      (line ++ [newline]) :: linesOf newline size rest := by
  have whole := piece_line plain (by omega : line.length < size - 1) rest
  have some : line ++ newline :: rest ≠ [] :=
    List.append_ne_nil_of_right_ne_nil _ (List.cons_ne_nil _ _)
  rw [linesOf_cons large some, whole, List.append_cons line newline rest, List.drop_left]

theorem linesOf_long (large : 2 ≤ size) {line : List α} (plain : newline ∉ line)
    (long : size ≤ line.length + 1) (rest : List α) :
    linesOf newline size (line ++ newline :: rest) =
      line.take (size - 1) :: linesOf newline size (line.drop (size - 1) ++ newline :: rest) := by
  have cut := piece_long plain (by omega : size - 1 ≤ line.length) (newline :: rest)
  have some : line ++ newline :: rest ≠ [] :=
    List.append_ne_nil_of_right_ne_nil _ (List.cons_ne_nil _ _)
  rw [linesOf_cons large some, cut, List.length_take, Nat.min_eq_left (by omega),
    List.drop_append_of_le_length (by omega)]

/-- A line whose parts all mean nothing adds nothing to what the text means. -/
theorem filterMap_linesOf_silent {β : Type} (large : 2 ≤ size) (meaning : List α → Option β)
    {line : List α} (plain : newline ∉ line)
    (silent : ∀ before part after, line ++ [newline] = before ++ part ++ after →
      meaning part = none) (rest : List α) :
    (linesOf newline size (line ++ newline :: rest)).filterMap meaning =
      (linesOf newline size rest).filterMap meaning := by
  induction length : line.length using Nat.strongRecOn generalizing line with
  | ind count ih =>
      by_cases fits : line.length + 1 < size
      · rw [linesOf_short large plain fits, List.filterMap_cons_none]
        exact silent [] (line ++ [newline]) [] (by rw [List.append_nil, List.nil_append])
      · have split := List.take_append_drop (size - 1) line
        have shorter := @List.length_drop α (size - 1) line
        rw [linesOf_long large plain (by omega), List.filterMap_cons_none]
        · apply ih (line.drop (size - 1)).length (by omega)
          · exact fun member => plain (List.mem_of_mem_drop member)
          · intro before part after same
            apply silent (line.take (size - 1) ++ before) part after
            rw [List.append_assoc, List.append_assoc, ← List.append_assoc before, ← same,
              ← List.append_assoc, split]
          · rfl
        · apply silent [] (line.take (size - 1)) (line.drop (size - 1) ++ [newline])
          rw [List.nil_append, ← List.append_assoc, split]

end SuperBootimg.LineStream
