/-
Flat images as finite words with a zero fill. Reading past the end gives the
fill, so truncation, extension, holes and overwrites are described by the value
read at each index. Nothing here refers to a particular file format.
-/

import Mathlib.Data.List.Basic
import Mathlib.Algebra.Group.Nat.Defs
import Mathlib.Data.UInt

namespace SuperBootimg.ByteImage

variable {α : Type} [Zero α]

/-- The symbol at an index, the fill past the end. -/
def read (image : List α) (index : Nat) : α :=
  image.getD index 0

/-- Cut or extend with the fill to an exact length. -/
def resize (image : List α) (size : Nat) : List α :=
  image.take size ++ List.replicate (size - image.length) 0

def window (image : List α) (start size : Nat) : List α :=
  resize (image.drop start) size

def patch (image : List α) (start : Nat) (word : List α) : List α :=
  if word.length = 0 then image
  else resize image start ++ word ++ image.drop (start + word.length)

/-! ### Pointwise reading -/

@[simp] theorem read_nil (index : Nat) : read ([] : List α) index = 0 := by
  simp [read]

theorem read_past (image : List α) (index : Nat) (past : image.length ≤ index) :
    read image index = 0 := by
  simp [read, List.getElem?_eq_none past]

theorem read_append (left right : List α) (index : Nat) :
    read (left ++ right) index =
      if index < left.length then read left index
      else read right (index - left.length) := by
  by_cases within : index < left.length
  · rw [if_pos within]
    simp [read, List.getElem?_append_left within]
  · rw [if_neg within]
    simp [read, List.getElem?_append_right (Nat.le_of_not_lt within)]

theorem read_replicate_fill (count index : Nat) :
    read (List.replicate count (0 : α)) index = 0 := by
  by_cases within : index < count
  · simp [read, within]
  · exact read_past _ _ (by rw [List.length_replicate]; omega)

theorem read_take (image : List α) (size index : Nat) :
    read (image.take size) index = if index < size then read image index else 0 := by
  by_cases within : index < size
  · rw [if_pos within]
    simp [read, within]
  · rw [if_neg within]
    exact read_past _ _ (by rw [List.length_take]; omega)

theorem read_drop (image : List α) (start index : Nat) :
    read (image.drop start) index = read image (start + index) := by
  simp [read, List.getElem?_drop]

theorem ext_read {left right : List α} (sameLength : left.length = right.length)
    (sameRead : ∀ index, index < left.length → read left index = read right index) :
    left = right := by
  apply List.ext_getElem sameLength
  intro index leftBound rightBound
  have same := sameRead index leftBound
  simpa [read, List.getElem?_eq_getElem leftBound,
    List.getElem?_eq_getElem rightBound] using same

/-! ### Resizing -/

@[simp] theorem length_resize (image : List α) (size : Nat) :
    (resize image size).length = size := by
  simp only [resize, List.length_append, List.length_take, List.length_replicate]
  omega

theorem read_resize (image : List α) (size index : Nat) :
    read (resize image size) index = if index < size then read image index else 0 := by
  unfold resize
  rw [read_append, read_take, List.length_take, read_replicate_fill]
  by_cases within : index < size
  · by_cases stored : index < image.length
    · rw [if_pos (by omega), if_pos within]
    · rw [if_neg (by omega), if_pos within, read_past image index (by omega)]
  · rw [if_neg (by omega), if_neg within]

theorem resize_length (image : List α) : resize image image.length = image := by
  simp [resize]

theorem resize_resize (image : List α) (first second : Nat) (grows : second ≤ first) :
    resize (resize image first) second = resize image second := by
  apply ext_read (by simp)
  intro index within
  rw [length_resize] at within
  rw [read_resize, read_resize, read_resize, if_pos within, if_pos within,
    if_pos (Nat.lt_of_lt_of_le within grows)]

/-! ### Windows -/

@[simp] theorem length_window (image : List α) (start size : Nat) :
    (window image start size).length = size :=
  length_resize _ _

theorem read_window (image : List α) (start size index : Nat) :
    read (window image start size) index =
      if index < size then read image (start + index) else 0 := by
  unfold window
  rw [read_resize, read_drop]

theorem window_eq_iff (image word : List α) (start : Nat) :
    window image start word.length = word ↔
      ∀ index, index < word.length → read image (start + index) = read word index := by
  constructor
  · intro same index within
    rw [← same, length_window] at within
    have seen := congrArg (read · index) same
    simpa only [read_window, if_pos within] using seen
  · intro same
    apply ext_read (length_window _ _ _)
    intro index within
    rw [length_window] at within
    rw [read_window, if_pos within, same index within]

theorem window_congr (left right : List α) (leftStart rightStart size : Nat)
    (same : ∀ index, index < size →
      read left (leftStart + index) = read right (rightStart + index)) :
    window left leftStart size = window right rightStart size := by
  apply ext_read (by simp)
  intro index within
  rw [length_window] at within
  rw [read_window, read_window, if_pos within, if_pos within, same index within]

theorem read_of_window {image word : List α} {start : Nat}
    (seen : window image start word.length = word) (index : Nat) (inside : index < word.length) :
    read image (start + index) = read word index :=
  (window_eq_iff image word start).mp seen index inside

theorem window_of_window {image word : List α} {start : Nat}
    (seen : window image start word.length = word) (inner size : Nat)
    (inside : inner + size ≤ word.length) :
    window image (start + inner) size = window word inner size := by
  apply window_congr
  intro index within
  rw [Nat.add_assoc, read_of_window seen _ (by omega)]

theorem window_append_left (left right : List α) (start size : Nat)
    (inside : start + size ≤ left.length) :
    window (left ++ right) start size = window left start size := by
  apply window_congr
  intro index within
  rw [read_append, if_pos (by omega)]

theorem window_append_right (left right : List α) (start size : Nat) :
    window (left ++ right) (left.length + start) size = window right start size := by
  apply window_congr
  intro index _within
  rw [read_append, if_neg (by omega)]
  congr 1
  omega

theorem window_inside (front header body trailer : List α) (start size : Nat)
    (inside : start + size ≤ body.length) :
    window (front ++ (header ++ body) ++ trailer) (front.length + (header.length + start)) size =
      window body start size := by
  rw [List.append_assoc, window_append_right, window_append_left _ _ _ _
    (by rw [List.length_append]; omega), window_append_right]

theorem window_drop (image : List α) (skipped start size : Nat) :
    window (image.drop skipped) start size = window image (skipped + start) size := by
  unfold window
  rw [List.drop_drop]

theorem window_all (image : List α) : window image 0 image.length = image := by
  unfold window
  rw [List.drop_zero, resize_length]

theorem window_eq_take_drop (image : List α) (start size : Nat)
    (inside : start + size ≤ image.length) :
    window image start size = (image.drop start).take size := by
  unfold window resize
  rw [List.length_drop]
  have noFill : size - (image.length - start) = 0 := by omega
  rw [noFill, List.replicate_zero, List.append_nil]

/-! ### Overwriting -/

theorem length_patch (image word : List α) (start : Nat) (nonempty : word.length ≠ 0) :
    (patch image start word).length = max image.length (start + word.length) := by
  unfold patch
  rw [if_neg nonempty]
  simp only [List.length_append, length_resize, List.length_drop]
  omega

theorem length_patch_le (image word : List α) (start : Nat) :
    (patch image start word).length ≤ max image.length (start + word.length) := by
  by_cases empty : word.length = 0
  · unfold patch
    rw [if_pos empty]
    omega
  · exact Nat.le_of_eq (length_patch image word start empty)

theorem le_length_patch (image word : List α) (start : Nat) :
    image.length ≤ (patch image start word).length := by
  by_cases empty : word.length = 0
  · unfold patch
    exact Nat.le_of_eq (by rw [if_pos empty])
  · have length := length_patch image word start empty
    omega

theorem length_patch_inside (image word : List α) (start : Nat)
    (inside : start + word.length ≤ image.length) :
    (patch image start word).length = image.length := by
  have upper := length_patch_le image word start
  have lower := le_length_patch image word start
  omega

theorem read_patch (image word : List α) (start index : Nat) :
    read (patch image start word) index =
      if start ≤ index ∧ index < start + word.length then read word (index - start)
      else read image index := by
  by_cases empty : word.length = 0
  · unfold patch
    rw [if_pos empty, if_neg (by omega)]
  · unfold patch
    rw [if_neg empty, List.append_assoc, read_append, length_resize, read_resize,
      read_append, read_drop]
    by_cases before : index < start
    · rw [if_pos before, if_pos before, if_neg (by omega)]
    · rw [if_neg before]
      by_cases inside : index - start < word.length
      · rw [if_pos inside, if_pos (by omega)]
      · rw [if_neg inside, if_neg (by omega)]
        congr 1
        omega

theorem read_patch_inside (image word : List α) (start index : Nat)
    (inside : index < word.length) :
    read (patch image start word) (start + index) = read word index := by
  rw [read_patch, if_pos (by omega)]
  congr 1
  omega

theorem read_patch_outside (image word : List α) (start index : Nat)
    (outside : index < start ∨ start + word.length ≤ index) :
    read (patch image start word) index = read image index := by
  rw [read_patch, if_neg (by omega)]

theorem window_patch_self (image word : List α) (start : Nat) :
    window (patch image start word) start word.length = word := by
  rw [window_eq_iff]
  intro index within
  exact read_patch_inside image word start index within

theorem window_patch_disjoint (image word : List α) (start other size : Nat)
    (apart : other + size ≤ start ∨ start + word.length ≤ other) :
    window (patch image start word) other size = window image other size := by
  apply window_congr
  intro index within
  exact read_patch_outside image word start (other + index) (by omega)

theorem patch_window_self (image : List α) (start size : Nat)
    (inside : start + size ≤ image.length) :
    patch image start (window image start size) = image := by
  apply ext_read (length_patch_inside _ _ _ (by rw [length_window]; exact inside))
  intro index _within
  rw [read_patch, length_window]
  by_cases covered : start ≤ index ∧ index < start + size
  · rw [if_pos covered, read_window, if_pos (by omega)]
    congr 1
    omega
  · rw [if_neg covered]

theorem patch_append_left (left right word : List α) (start : Nat)
    (inside : start + word.length ≤ left.length) :
    patch (left ++ right) start word = patch left start word ++ right := by
  have keptLength := length_patch_inside left word start inside
  apply ext_read
  · rw [length_patch_inside _ _ _ (by rw [List.length_append]; omega),
      List.length_append, List.length_append, keptLength]
  · intro index _within
    rw [read_patch, read_append, read_append, keptLength, read_patch]
    by_cases covered : start ≤ index ∧ index < start + word.length
    · rw [if_pos covered, if_pos (by omega), if_pos covered]
    · rw [if_neg covered, if_neg covered]

theorem patch_patch_adjacent (image first second : List α) (start : Nat) :
    patch (patch image start first) (start + first.length) second =
      patch image start (first ++ second) := by
  by_cases noFirst : first.length = 0
  · have empty := List.eq_nil_of_length_eq_zero noFirst
    subst empty
    simp [patch]
  · by_cases noSecond : second.length = 0
    · have empty := List.eq_nil_of_length_eq_zero noSecond
      subst empty
      simp [patch]
    · apply ext_read
      · rw [length_patch _ _ _ noSecond, length_patch _ _ _ noFirst,
          length_patch _ _ _ (by rw [List.length_append]; omega), List.length_append]
        omega
      · intro index _within
        rw [read_patch, read_patch, read_patch, List.length_append, read_append]
        by_cases inSecond : start + first.length ≤ index ∧
            index < start + first.length + second.length
        · rw [if_pos inSecond, if_pos (by omega), if_neg (by omega)]
          congr 1
          omega
        · rw [if_neg inSecond]
          by_cases inFirst : start ≤ index ∧ index < start + first.length
          · rw [if_pos inFirst, if_pos (by omega), if_pos (by omega)]
          · rw [if_neg inFirst, if_neg (by omega)]

/-- A prefix whose rest is fill, written to the start of an empty image. -/
theorem patch_take_fill (word : List α) (size moved : Nat) (fits : word.length ≤ size)
    (rest : ∀ index, moved ≤ index → read word index = 0) :
    patch (resize [] size) 0 (word.take moved) = resize word size := by
  have inside : 0 + (word.take moved).length ≤ (resize ([] : List α) size).length := by
    rw [length_resize, List.length_take]
    omega
  apply ext_read
  · rw [length_patch_inside _ _ _ inside, length_resize, length_resize]
  · intro index within
    rw [length_patch_inside _ _ _ inside, length_resize] at within
    rw [read_patch, read_resize, read_resize, List.length_take, read_take, if_pos within,
      if_pos within, read_nil]
    by_cases written : index < min moved word.length
    · rw [if_pos (by omega), if_pos (by omega), Nat.sub_zero]
    · rw [if_neg (by omega)]
      by_cases past : word.length ≤ index
      · exact (read_past _ _ past).symm
      · exact (rest index (by omega)).symm

def patchAll (image : List α) : List (Nat × List α) → List α
  | [] => image
  | edit :: rest => patchAll (patch image edit.1 edit.2) rest

theorem length_patchAll (image : List α) (edits : List (Nat × List α))
    (inside : ∀ edit, edit ∈ edits → edit.1 + edit.2.length ≤ image.length) :
    (patchAll image edits).length = image.length := by
  induction edits generalizing image with
  | nil => rfl
  | cons edit rest ih =>
      have kept := length_patch_inside image edit.2 edit.1 (inside edit List.mem_cons_self)
      rw [patchAll, ih, kept]
      intro other member
      rw [kept]
      exact inside other (List.mem_cons_of_mem edit member)

theorem read_patchAll_outside (image : List α) (edits : List (Nat × List α)) (index : Nat)
    (outside : ∀ edit, edit ∈ edits → index < edit.1 ∨ edit.1 + edit.2.length ≤ index) :
    read (patchAll image edits) index = read image index := by
  induction edits generalizing image with
  | nil => rfl
  | cons edit rest ih =>
      rw [patchAll, ih, read_patch_outside _ _ _ _ (outside edit List.mem_cons_self)]
      intro other member
      exact outside other (List.mem_cons_of_mem edit member)

theorem window_patchAll (image word : List α) (start : Nat) (before after : List (Nat × List α))
    (apart : ∀ edit, edit ∈ after →
      start + word.length ≤ edit.1 ∨ edit.1 + edit.2.length ≤ start) :
    window (patchAll image (before ++ (start, word) :: after)) start word.length = word := by
  induction before generalizing image with
  | nil =>
      rw [List.nil_append, patchAll, window_eq_iff]
      intro index within
      rw [read_patchAll_outside, read_patch_inside image word start index within]
      intro edit member
      have clear := apart edit member
      omega
  | cons edit rest ih =>
      rw [List.cons_append, patchAll]
      exact ih _

theorem read_patchAll_blank (image : List α) (edits : List (Nat × List α)) (index : Nat)
    (blank : ∀ edit, edit ∈ edits → ∀ within, read edit.2 within = 0)
    (seen : read image index = 0 ∨
      ∃ edit, edit ∈ edits ∧ edit.1 ≤ index ∧ index < edit.1 + edit.2.length) :
    read (patchAll image edits) index = 0 := by
  induction edits generalizing image with
  | nil =>
      rcases seen with zero | ⟨edit, member, _⟩
      · exact zero
      · cases member
  | cons edit rest ih =>
      apply ih _ (fun other member => blank other (List.mem_cons_of_mem _ member))
      have zeros := blank edit List.mem_cons_self
      by_cases inside : edit.1 ≤ index ∧ index < edit.1 + edit.2.length
      · left
        rw [read_patch, if_pos inside]
        exact zeros _
      · rcases seen with zero | ⟨other, member, covered⟩
        · left
          rw [read_patch, if_neg inside]
          exact zero
        · rcases List.mem_cons.mp member with rfl | later
          · exact absurd covered inside
          · exact .inr ⟨other, later, covered⟩

theorem resize_patch_inside (image word : List α) (start size : Nat)
    (inside : start + word.length ≤ size) :
    resize (patch image start word) size = patch (resize image size) start word := by
  apply ext_read
  · rw [length_resize, length_patch_inside _ _ _ (by rw [length_resize]; exact inside),
      length_resize]
  · intro index within
    rw [length_resize] at within
    rw [read_resize, if_pos within, read_patch, read_patch, read_resize, if_pos within]

/-- Appending behind everything written so far, seen after the final cut. -/
theorem resize_patch_behind (image word : List α) (start size : Nat)
    (behind : image.length ≤ start) :
    resize (patch image start word) (start + size) = resize image start ++ resize word size := by
  apply ext_read (by simp)
  intro index within
  rw [length_resize] at within
  rw [read_resize, if_pos within, read_append, length_resize, read_patch]
  by_cases before : index < start
  · rw [if_neg (by omega), if_pos before, read_resize, if_pos before]
  · have kept : index - start < size := by omega
    rw [if_neg before, read_resize, if_pos kept]
    by_cases inside : index < start + word.length
    · rw [if_pos (by omega)]
    · rw [if_neg (by omega), read_past image index (by omega), read_past word _ (by omega)]

/-! ### Matching a pattern -/

section Matching

variable [DecidableEq α]

def matchesAt (image : List α) (start : Nat) (pattern : List α) : Bool :=
  decide (window image start pattern.length = pattern)

theorem matchesAt_iff (image pattern : List α) (start : Nat) :
    matchesAt image start pattern = true ↔ window image start pattern.length = pattern :=
  decide_eq_true_iff

theorem matchesAt_congr (left right pattern : List α) (leftStart rightStart : Nat)
    (same : ∀ index, index < pattern.length →
      read left (leftStart + index) = read right (rightStart + index)) :
    matchesAt left leftStart pattern = matchesAt right rightStart pattern := by
  unfold matchesAt
  rw [window_congr left right leftStart rightStart pattern.length same]

theorem matchesAt_of_front {image word pattern : List α} {start : Nat}
    (seen : window image start word.length = word) (front : pattern <+: word) :
    matchesAt image start pattern = true := by
  obtain ⟨rest, rfl⟩ := front
  rw [matchesAt_iff, window_eq_iff]
  intro index within
  rw [read_of_window seen index (by rw [List.length_append]; omega), read_append, if_pos within]

theorem matchesAt_of_head_ne {image : List α} (pattern : List α) {start : Nat}
    (nonempty : pattern ≠ [])
    (different : read image start ≠ read pattern 0) : matchesAt image start pattern = false := by
  cases found : matchesAt image start pattern with
  | false => rfl
  | true =>
      have seen := (matchesAt_iff image pattern start).mp found
      exact absurd (read_of_window seen 0 (List.length_pos_iff.mpr nonempty)) different

/-- The word ends inside the pattern, having agreed with it so far. -/
def EndsInside (word pattern : List α) : Prop :=
  word <+: pattern ∧ word.length < pattern.length

instance (word pattern : List α) : Decidable (EndsInside word pattern) :=
  inferInstanceAs (Decidable (_ ∧ _))

omit [Zero α] [DecidableEq α] in
/-- What follows a word does not decide on a pattern unless the word ends inside it. -/
theorem prefix_append_iff {word pattern : List α} (decided : ¬ EndsInside word pattern)
    (behind : List α) : pattern <+: word ++ behind ↔ pattern <+: word := by
  constructor
  · intro front
    rcases List.prefix_or_prefix_of_prefix front (List.prefix_append word behind) with
      within | beyond
    · exact within
    · by_contra different
      apply decided
      refine ⟨beyond, Nat.lt_of_le_of_ne beyond.length_le ?_⟩
      intro length
      apply different
      rw [beyond.eq_of_length length]
  · intro front
    exact front.trans (List.prefix_append word behind)

theorem matchesAt_of_begins {image word behind pattern : List α} {start : Nat}
    (begins : image.drop start = word ++ behind) (decided : ¬ EndsInside word pattern) :
    matchesAt image start pattern = decide (pattern <+: word) := by
  have seen : window image start pattern.length =
      (word ++ (behind ++ List.replicate pattern.length 0)).take pattern.length := by
    unfold window resize
    rw [begins, ← List.append_assoc, @List.take_append α (word ++ behind), List.take_replicate,
      Nat.min_eq_left (Nat.sub_le _ _)]
  unfold matchesAt
  apply decide_eq_decide.mpr
  rw [seen, ← prefix_append_iff decided (behind ++ List.replicate pattern.length 0),
    List.prefix_iff_eq_take]
  exact eq_comm

/-- A pattern without fill symbols cannot stand partly behind the end. -/
theorem matchesAt_bound (image pattern : List α) (start : Nat)
    (solid : ∀ symbol, symbol ∈ pattern → symbol ≠ 0) (nonempty : pattern ≠ [])
    (found : matchesAt image start pattern = true) :
    start + pattern.length ≤ image.length := by
  by_contra outside
  have positive : 0 < pattern.length := List.length_pos_iff.mpr nonempty
  have seen := ((window_eq_iff image pattern start).mp
    ((matchesAt_iff image pattern start).mp found)) (pattern.length - 1) (by omega)
  rw [read_past image _ (by omega)] at seen
  have last : read pattern (pattern.length - 1) ∈ pattern := by
    have bound : pattern.length - 1 < pattern.length := by omega
    simp only [read, List.getD_eq_getElem?_getD, List.getElem?_eq_getElem bound, Option.getD_some]
    exact List.getElem_mem bound
  exact solid _ last seen.symm

end Matching

/-! ### Little-endian words -/

def littleEndian : Nat → Nat → List UInt8
  | 0, _ => []
  | width + 1, value => UInt8.ofNat value :: littleEndian width (value / 256)

def leValue : List UInt8 → Nat
  | [] => 0
  | byte :: rest => byte.toNat + 256 * leValue rest

@[simp] theorem length_littleEndian (width value : Nat) :
    (littleEndian width value).length = width := by
  induction width generalizing value with
  | zero => rfl
  | succ width ih => rw [littleEndian, List.length_cons, ih]

theorem leValue_littleEndian (width value : Nat) :
    leValue (littleEndian width value) = value % 256 ^ width := by
  induction width generalizing value with
  | zero => simp [littleEndian, leValue, Nat.mod_one]
  | succ width ih =>
      have byte : (UInt8.ofNat value).toNat = value % 256 := UInt8.toNat_ofNat'
      rw [littleEndian, leValue, ih, byte, Nat.pow_succ, Nat.mul_comm (256 ^ width), Nat.mod_mul]

theorem leValue_lt (bytes : List UInt8) : leValue bytes < 256 ^ bytes.length := by
  induction bytes with
  | nil => exact Nat.one_pos
  | cons byte rest ih =>
      rw [leValue, List.length_cons, Nat.pow_succ]
      have small := UInt8.toNat_lt byte
      omega

theorem littleEndian_leValue (bytes : List UInt8) :
    littleEndian bytes.length (leValue bytes) = bytes := by
  induction bytes with
  | nil => rfl
  | cons byte rest ih =>
      rw [List.length_cons, littleEndian, leValue]
      have small := UInt8.toNat_lt byte
      have quotient : (byte.toNat + 256 * leValue rest) / 256 = leValue rest := by omega
      have head : UInt8.ofNat (byte.toNat + 256 * leValue rest) = byte := by
        apply UInt8.toNat_inj.mp
        rw [UInt8.toNat_ofNat']
        omega
      rw [quotient, head, ih]

/-- The little-endian value of the bytes seen through a window. -/
def word (image : List UInt8) (start width : Nat) : Nat :=
  leValue (window image start width)

theorem word_lt (image : List UInt8) (start width : Nat) :
    word image start width < 256 ^ width := by
  have bound := leValue_lt (window image start width)
  rwa [length_window] at bound

theorem word_congr (left right : List UInt8) (leftStart rightStart width : Nat)
    (same : ∀ index, index < width →
      read left (leftStart + index) = read right (rightStart + index)) :
    word left leftStart width = word right rightStart width := by
  unfold word
  rw [window_congr left right leftStart rightStart width same]

theorem word_patch_self (image : List UInt8) (start width value : Nat) :
    word (patch image start (littleEndian width value)) start width = value % 256 ^ width := by
  have seen := window_patch_self image (littleEndian width value) start
  rw [length_littleEndian] at seen
  unfold word
  rw [seen, leValue_littleEndian]

theorem word_patch_disjoint (image bytes : List UInt8) (start other width : Nat)
    (apart : other + width ≤ start ∨ start + bytes.length ≤ other) :
    word (patch image start bytes) other width = word image other width := by
  unfold word
  rw [window_patch_disjoint image bytes start other width apart]

theorem patch_word_self (image : List UInt8) (start width : Nat)
    (inside : start + width ≤ image.length) :
    patch image start (littleEndian width (word image start width)) = image := by
  have bytes := littleEndian_leValue (window image start width)
  rw [length_window] at bytes
  unfold word
  rw [bytes, patch_window_self image start width inside]

end SuperBootimg.ByteImage
