/-
Page-rounded sections laid out one behind another. Rounding by adding and
masking is related to division, and a list of sections is related to the flat
image that concatenates them with a zero fill up to each page end.
-/

import SuperBootimg.ByteImage

namespace SuperBootimg.PagedLayout

open ByteImage

/-! ### Rounding up to a page -/

def pages (page size : Nat) : Nat :=
  (size + page - 1) / page

def roundUp (page size : Nat) : Nat :=
  page * pages page size

/-- The word-level mask `value & ~(page - 1)` on words of the given width. -/
def clearLow (width page value : Nat) : Nat :=
  value &&& (2 ^ width - page)

theorem clearLow_eq (width exponent value : Nat)
    (fits : exponent ≤ width) (bound : value < 2 ^ width) :
    clearLow width (2 ^ exponent) value = 2 ^ exponent * (value / 2 ^ exponent) := by
  apply Nat.eq_of_testBit_eq
  intro index
  have positive := Nat.two_pow_pos exponent
  have small : 2 ^ exponent - 1 < 2 ^ width :=
    Nat.lt_of_lt_of_le (by omega) (Nat.pow_le_pow_right (by omega) fits)
  have complement : 2 ^ width - 2 ^ exponent = 2 ^ width - (2 ^ exponent - 1 + 1) := by
    rw [Nat.sub_add_cancel positive]
  unfold clearLow
  rw [Nat.testBit_and, complement, Nat.testBit_two_pow_sub_succ small,
    Nat.testBit_two_pow_sub_one, Nat.mul_comm, ← Nat.shiftRight_eq_div_pow,
    ← Nat.shiftLeft_eq, Nat.testBit_shiftLeft, Nat.testBit_shiftRight]
  by_cases high : exponent ≤ index
  · have position : exponent + (index - exponent) = index := by omega
    rw [position]
    by_cases inside : index < width
    · simp [high, inside]
    · have past : value.testBit index = false :=
        Nat.testBit_lt_two_pow (Nat.lt_of_lt_of_le bound
          (Nat.pow_le_pow_right (by omega) (by omega)))
      simp [past]
  · simp [high, Nat.lt_of_not_le high]

theorem roundUp_zero (page : Nat) : roundUp page 0 = 0 := by
  unfold roundUp pages
  by_cases empty : page = 0
  · simp [empty]
  · rw [Nat.div_eq_of_lt (by omega), Nat.mul_zero]

variable {page : Nat}

theorem le_roundUp (positive : 0 < page) (size : Nat) : size ≤ roundUp page size := by
  have division := Nat.div_add_mod (size + page - 1) page
  have remainder := Nat.mod_lt (size + page - 1) positive
  unfold roundUp pages
  omega

theorem roundUp_lt (positive : 0 < page) (size : Nat) : roundUp page size < size + page := by
  have division := Nat.div_add_mod (size + page - 1) page
  unfold roundUp pages
  omega

theorem roundUp_mono {size more : Nat} (fewer : size ≤ more) :
    roundUp page size ≤ roundUp page more := by
  unfold roundUp pages
  exact Nat.mul_le_mul_left page (Nat.div_le_div_right (by omega))

theorem dvd_roundUp (size : Nat) : page ∣ roundUp page size :=
  Nat.dvd_mul_right _ _

theorem advance_eq (positive : 0 < page) (base size : Nat) (aligned : page ∣ base) :
    page * ((base + (size + page - 1)) / page) = base + roundUp page size := by
  obtain ⟨count, rfl⟩ := aligned
  rw [Nat.mul_add_div positive, Nat.mul_add]
  rfl

/-! ### Section positions -/

def span (page : Nat) : List Nat → Nat
  | [] => 0
  | size :: rest => roundUp page size + span page rest

def startOf (page : Nat) : List Nat → Nat → Nat
  | [], _ => 0
  | _ :: _, 0 => 0
  | size :: rest, index + 1 => roundUp page size + startOf page rest index

theorem dvd_span (sizes : List Nat) : page ∣ span page sizes := by
  induction sizes with
  | nil => exact Nat.dvd_zero page
  | cons size rest ih => exact Nat.dvd_add (dvd_roundUp size) ih

theorem span_take_le (sizes : List Nat) (count : Nat) :
    span page (sizes.take count) ≤ span page sizes := by
  induction sizes generalizing count with
  | nil => exact Nat.le_of_eq (congrArg (span page) List.take_nil)
  | cons size rest ih =>
      cases count with
      | zero => exact Nat.zero_le _
      | succ count => exact Nat.add_le_add_left (ih count) _

theorem startOf_bound (sizes : List Nat) (index : Nat) (bound : index < sizes.length) :
    startOf page sizes index + roundUp page (sizes.getD index 0) ≤ span page sizes := by
  induction sizes generalizing index with
  | nil =>
      rw [List.length_nil] at bound
      omega
  | cons size rest ih =>
      cases index with
      | zero => simp only [startOf, span, List.getD_cons_zero]; omega
      | succ index =>
          rw [List.length_cons] at bound
          have inner := ih index (by omega)
          simp only [startOf, span, List.getD_cons_succ]
          omega

/-! ### Sections in one image -/

section Images

variable {α : Type} [Zero α]

def padded (page : Nat) (part : List α) : List α :=
  resize part (roundUp page part.length)

def compose (page : Nat) : List (List α) → List α
  | [] => []
  | part :: rest => padded page part ++ compose page rest

/-- The sections of given sizes, read back from an image. -/
def cut (page : Nat) (image : List α) : List Nat → List (List α)
  | [] => []
  | size :: rest => window image 0 size :: cut page (image.drop (roundUp page size)) rest

@[simp] theorem length_padded (part : List α) :
    (padded page part).length = roundUp page part.length :=
  length_resize _ _

theorem length_compose (parts : List (List α)) :
    (compose page parts).length = span page (parts.map List.length) := by
  induction parts with
  | nil => rfl
  | cons part rest ih =>
      simp only [compose, List.length_append, length_padded, ih, List.map_cons, span]

theorem compose_append (first second : List (List α)) :
    compose page (first ++ second) = compose page first ++ compose page second := by
  induction first with
  | nil => rfl
  | cons part rest ih => simp only [List.cons_append, compose, ih, List.append_assoc]

/-- Each section stands unchanged at its own start. -/
theorem window_compose (positive : 0 < page) (parts : List (List α)) (index : Nat)
    (bound : index < parts.length) :
    window (compose page parts) (startOf page (parts.map List.length) index)
      (parts[index].length) = parts[index] := by
  induction parts generalizing index with
  | nil =>
      rw [List.length_nil] at bound
      omega
  | cons part rest ih =>
      cases index with
      | zero =>
          have fits := le_roundUp positive part.length
          simp only [compose, List.map_cons, startOf, List.getElem_cons_zero]
          rw [window_append_left _ _ _ _ (by rw [length_padded]; omega), padded]
          change resize (resize part _) _ = _
          rw [resize_resize _ _ _ fits, resize_length]
      | succ index =>
          rw [List.length_cons] at bound
          have inner := ih index (by omega)
          simp only [compose, List.map_cons, startOf, List.getElem_cons_succ]
          have shifted := window_append_right (padded page part) (compose page rest)
            (startOf page (rest.map List.length) index) (rest[index].length)
          rw [length_padded] at shifted
          rw [shifted, inner]

theorem section_inside (positive : 0 < page) (parts : List (List α)) (index : Nat)
    (bound : index < parts.length) :
    startOf page (parts.map List.length) index + parts[index].length ≤
      (compose page parts).length := by
  have inside : startOf page (parts.map List.length) index +
      roundUp page ((parts.map List.length).getD index 0) ≤ span page (parts.map List.length) :=
    startOf_bound _ index (by rw [List.length_map]; exact bound)
  have size : (parts.map List.length).getD index 0 = parts[index].length := by
    rw [List.getD_eq_getElem?_getD, List.getElem?_map, List.getElem?_eq_getElem bound]
    rfl
  have fits := le_roundUp positive parts[index].length
  rw [size] at inside
  rw [length_compose]
  omega

theorem slice_compose (positive : 0 < page) (header : List α) (parts : List (List α)) (index : Nat)
    (bound : index < parts.length) :
    ((header ++ compose page parts).drop
      (header.length + startOf page (parts.map List.length) index)).take parts[index].length =
        parts[index] := by
  rw [List.drop_append, List.drop_of_length_le (by omega), List.nil_append,
    Nat.add_sub_cancel_left,
    ← window_eq_take_drop _ _ _ (section_inside positive parts index bound)]
  exact window_compose positive parts index bound

/-- Outside every section the composed image is fill. -/
theorem read_compose_outside (parts : List (List α)) (offset : Nat)
    (outside : ∀ index (bound : index < parts.length),
      offset < startOf page (parts.map List.length) index ∨
        startOf page (parts.map List.length) index + (parts[index]).length ≤ offset) :
    read (compose page parts) offset = 0 := by
  induction parts generalizing offset with
  | nil => exact read_nil offset
  | cons part rest ih =>
      simp only [compose]
      rw [read_append, length_padded]
      have first := outside 0 (by simp)
      simp only [List.map_cons, startOf, List.getElem_cons_zero] at first
      by_cases here : offset < roundUp page part.length
      · rw [if_pos here, padded, read_resize, if_pos here, read_past _ _ (by omega)]
      · rw [if_neg here]
        apply ih
        intro index bound
        have later := outside (index + 1) (by rw [List.length_cons]; omega)
        simp only [List.map_cons, startOf, List.getElem_cons_succ] at later
        omega

/-- Cutting an image whose padding is fill and composing again is the identity. -/
theorem compose_cut (sizes : List Nat) (image : List α)
    (exact : image.length = span page sizes)
    (fill : ∀ index, index < sizes.length → ∀ offset,
      startOf page sizes index + sizes.getD index 0 ≤ offset →
        offset < startOf page sizes index + roundUp page (sizes.getD index 0) →
          read image offset = 0) :
    compose page (cut page image sizes) = image := by
  induction sizes generalizing image with
  | nil =>
      simp only [span] at exact
      simp only [cut, compose]
      exact (List.eq_nil_of_length_eq_zero exact).symm
  | cons size rest ih =>
      simp only [span] at exact
      have tail : compose page (cut page (image.drop (roundUp page size)) rest) =
          image.drop (roundUp page size) := by
        apply ih
        · rw [List.length_drop]
          omega
        · intro index bound offset lower upper
          rw [read_drop]
          apply fill (index + 1) (by rw [List.length_cons]; omega)
          · simp only [startOf, List.getD_cons_succ]
            omega
          · simp only [startOf, List.getD_cons_succ]
            omega
      have head : padded page (window image 0 size) = image.take (roundUp page size) := by
        apply ext_read
        · rw [length_padded, length_window, List.length_take]
          omega
        · intro offset within
          rw [length_padded, length_window] at within
          rw [padded, read_resize, length_window, if_pos within, read_window, read_take,
            if_pos within]
          by_cases inside : offset < size
          · rw [if_pos inside, Nat.zero_add]
          · have zero := fill 0 (by simp) offset
            simp only [startOf, List.getD_cons_zero, Nat.zero_add] at zero
            rw [if_neg inside, zero (by omega) within]
      simp only [cut, compose]
      rw [tail, head, List.take_append_drop]

end Images

end SuperBootimg.PagedLayout
