/-
The integer conversions of the C programs under the two data models they are
built for. The NDK file lists 32-bit targets only, the host Makefile builds for
64 bits; `int` has 32 bits in both, `long`, `size_t`, `ssize_t` and `off_t` have
the width of a pointer.
-/

import Mathlib.Data.Int.Basic
import SuperBootimg.ByteLayout

namespace SuperBootimg.Concrete

open PagedLayout

inductive Abi
  | ilp32
  | lp64
  deriving DecidableEq, Repr

/-- Width of `long`, `size_t`, `ssize_t`, `off_t` and of a pointer. -/
def Abi.bits : Abi → Nat
  | .ilp32 => 32
  | .lp64 => 64

/-- The least pattern that is negative as `ssize_t` or `off_t`. -/
def Abi.signBit (abi : Abi) : Nat :=
  2 ^ (abi.bits - 1)

def intOf (value : Int) : Int :=
  Int.bmod value (2 ^ 32)

def uint32Of (value : Int) : Nat :=
  (value % 2 ^ 32).toNat

def Abi.longOf (abi : Abi) (value : Int) : Int :=
  Int.bmod value (2 ^ abi.bits)

def Abi.sizeOf (abi : Abi) (value : Int) : Nat :=
  (value % 2 ^ abi.bits).toNat

def Abi.pointer (abi : Abi) (base pos : Nat) : Nat :=
  (base + pos) % 2 ^ abi.bits

/-- `pos + size <= limit` for `long pos`, `uint32_t size` and `off_t limit`. With
32-bit `long` the sum is unsigned, with 64-bit `long` it is signed. -/
def Abi.sumWithin (abi : Abi) (pos size limit : Nat) : Bool :=
  match abi with
  | .ilp32 => decide ((pos + size) % 2 ^ 32 ≤ limit)
  | .lp64 => decide (Abi.longOf .lp64 ((pos + size : Nat) : Int) ≤ (limit : Int))

/-- `pos += size + page - 1; pos &= ~(page - 1)` for `long pos`. The bracketed sum
is a `uint32_t`, `pos` is kept as its two's complement pattern. -/
def Abi.advance (abi : Abi) (page pos size : Nat) : Nat :=
  clearLow abi.bits page ((pos + (size + page - 1) % 2 ^ 32) % 2 ^ abi.bits)

/-- The same two statements for `int pos`, where every step is a `uint32_t`. -/
def advanceInt (page : Nat) (pos size : Int) : Int :=
  intOf (clearLow 32 page (uint32Of (pos + size + page - 1)))

theorem Abi.bits_cases (abi : Abi) : abi.bits = 32 ∨ abi.bits = 64 := by
  cases abi
  · exact .inl rfl
  · exact .inr rfl

theorem Abi.signBit_cases (abi : Abi) :
    abi.signBit = 2147483648 ∨ abi.signBit = 9223372036854775808 := by
  cases abi
  · exact .inl rfl
  · exact .inr rfl

theorem Abi.modulus_signBit (abi : Abi) :
    (2 ^ abi.bits = 4294967296 ∧ abi.signBit = 2147483648) ∨
      (2 ^ abi.bits = 18446744073709551616 ∧ abi.signBit = 9223372036854775808) := by
  cases abi
  · exact .inl ⟨rfl, rfl⟩
  · exact .inr ⟨rfl, rfl⟩

theorem intOf_eq_self (value : Int) (lower : -2147483648 ≤ value) (upper : value < 2147483648) :
    intOf value = value := by
  unfold intOf
  rw [Int.bmod_def]
  omega

theorem intOf_emod (value : Int) : intOf value % 4294967296 = value % 4294967296 := by
  unfold intOf
  rw [Int.bmod_def]
  omega

theorem intOf_range (value : Int) : -2147483648 ≤ intOf value ∧ intOf value < 2147483648 := by
  unfold intOf
  rw [Int.bmod_def]
  omega

theorem uint32Of_ofNat (value : Nat) : uint32Of value = value % 4294967296 := by
  unfold uint32Of
  omega

theorem natCast_uint32Of (value : Int) : (uint32Of value : Int) = value % 4294967296 := by
  unfold uint32Of
  exact Int.toNat_of_nonneg (Int.emod_nonneg _ (by decide))

theorem uint32Of_lt (value : Int) : uint32Of value < 4294967296 := by
  unfold uint32Of
  omega

theorem uint32Of_intOf (value : Int) : uint32Of (intOf value) = uint32Of value := by
  have same := intOf_emod value
  unfold uint32Of
  omega

theorem Abi.longOf_eq_self (abi : Abi) (value : Nat) (small : value < abi.signBit) :
    abi.longOf value = value := by
  unfold Abi.longOf
  rw [Int.bmod_def]
  rcases abi.modulus_signBit with ⟨modulus, half⟩ | ⟨modulus, half⟩ <;> (rw [modulus]; omega)

theorem Abi.longOf_int (abi : Abi) (value : Int) (lower : -2147483648 ≤ value)
    (upper : value < 2147483648) : abi.longOf value = value := by
  unfold Abi.longOf
  rw [Int.bmod_def]
  rcases abi.modulus_signBit with ⟨modulus, half⟩ | ⟨modulus, half⟩ <;> (rw [modulus]; omega)

theorem Abi.sumWithin_iff (abi : Abi) (pos size limit : Nat) (small : pos + size < abi.signBit) :
    abi.sumWithin pos size limit = true ↔ pos + size ≤ limit := by
  cases abi with
  | ilp32 =>
      have half : Abi.signBit .ilp32 = 2147483648 := rfl
      unfold Abi.sumWithin
      rw [decide_eq_true_iff, Nat.mod_eq_of_lt (by omega)]
  | lp64 =>
      unfold Abi.sumWithin
      rw [decide_eq_true_iff, Abi.longOf_eq_self _ _ small, Int.ofNat_le]

theorem Abi.longOf_emod (abi : Abi) (value : Int) :
    abi.longOf value % 4294967296 = value % 4294967296 := by
  unfold Abi.longOf
  rw [Int.bmod_def]
  rcases abi.modulus_signBit with ⟨modulus, _⟩ | ⟨modulus, _⟩ <;> (rw [modulus]; omega)

theorem Abi.truncated_lt_iff (abi : Abi) (pos limit : Nat) (small : limit < abi.signBit) :
    abi.sizeOf (intOf (abi.longOf pos)) < limit ↔
      pos % 4294967296 < 2147483648 ∧ pos % 4294967296 < limit := by
  have same := intOf_emod (abi.longOf pos)
  have range := intOf_range (abi.longOf pos)
  rw [abi.longOf_emod] at same
  generalize intOf (abi.longOf pos) = value at same range
  unfold Abi.sizeOf
  cases abi with
  | ilp32 =>
      have half : Abi.signBit .ilp32 = 2147483648 := rfl
      change (value % 4294967296).toNat < limit ↔ _
      omega
  | lp64 =>
      have half : Abi.signBit .lp64 = 9223372036854775808 := rfl
      change (value % 18446744073709551616).toNat < limit ↔ _
      omega

/-! ### Page sizes -/

/-- The page sizes both programs assert. -/
def PageSize (page : Nat) : Prop :=
  page = 2048 ∨ page = 4096 ∨ page = 16384

instance (page : Nat) : Decidable (PageSize page) :=
  inferInstanceAs (Decidable (_ ∨ _ ∨ _))

theorem PageSize.exponent {page : Nat} (valid : PageSize page) :
    ∃ exponent, page = 2 ^ exponent ∧ 11 ≤ exponent ∧ exponent ≤ 14 := by
  rcases valid with rfl | rfl | rfl
  · exact ⟨11, rfl, by omega, by omega⟩
  · exact ⟨12, rfl, by omega, by omega⟩
  · exact ⟨14, rfl, by omega, by omega⟩

theorem PageSize.bounds {page : Nat} (valid : PageSize page) :
    2048 ≤ page ∧ page ≤ 16384 := by
  rcases valid with rfl | rfl | rfl <;> omega

theorem PageSize.positive {page : Nat} (valid : PageSize page) : 0 < page := by
  have bounds := valid.bounds
  omega

theorem PageSize.intOf_eq {page : Nat} (valid : PageSize page) : intOf page = page := by
  rcases valid with rfl | rfl | rfl <;> rfl

theorem PageSize.clearLow_eq {page : Nat} (valid : PageSize page) (width value : Nat)
    (wide : 14 ≤ width) (bound : value < 2 ^ width) :
    clearLow width page value = page * (value / page) := by
  obtain ⟨exponent, rfl, _, upper⟩ := valid.exponent
  exact PagedLayout.clearLow_eq width exponent value (by omega) bound

/-- What the page-rounded position moves by when the 32-bit sum is taken as it is. -/
def roundUp32 (page size : Nat) : Nat :=
  page * ((size + page - 1) % 2 ^ 32 / page)

theorem roundUp32_le (page size : Nat) : roundUp32 page size ≤ (size + page - 1) % 2 ^ 32 :=
  Nat.mul_div_le _ _

theorem dvd_roundUp32 (page size : Nat) : page ∣ roundUp32 page size :=
  Nat.dvd_mul_right _ _

theorem roundUp32_le_roundUp (page size : Nat) : roundUp32 page size ≤ roundUp page size :=
  Nat.mul_le_mul_left _ (Nat.div_le_div_right (Nat.mod_le _ _))

theorem roundUp32_eq (page size : Nat) (small : size + page ≤ 4294967296) :
    roundUp32 page size = roundUp page size := by
  unfold roundUp32 roundUp pages
  rw [Nat.mod_eq_of_lt (by omega)]

theorem PageSize.advance_eq {page : Nat} (valid : PageSize page) (abi : Abi) (pos size : Nat)
    (aligned : page ∣ pos) (bound : pos + (size + page - 1) % 2 ^ 32 < 2 ^ abi.bits) :
    abi.advance page pos size = pos + roundUp32 page size := by
  have wide : 14 ≤ abi.bits := by
    rcases abi.bits_cases with same | same <;> omega
  unfold Abi.advance
  rw [Nat.mod_eq_of_lt bound, valid.clearLow_eq _ _ wide bound]
  obtain ⟨count, rfl⟩ := aligned
  rw [Nat.mul_add_div valid.positive, Nat.mul_add]
  rfl

/-- The 32-bit sum of a position and a size depends on their patterns only. -/
private theorem emod_sum (value size : Int) (pos word page : Nat) (positive : 1 ≤ page)
    (samePos : value % 4294967296 = pos % 4294967296)
    (sameSize : (word : Int) = size % 4294967296) :
    (value + size + page - 1) % 4294967296 =
      ((pos + (word + page - 1)) % 4294967296 : Nat) := by
  omega

/-- `int pos` is the pattern of the page-rounded position, whatever that has grown to. -/
theorem PageSize.advanceInt_intOf {page : Nat} (valid : PageSize page) (pos : Nat) (size : Int)
    (aligned : page ∣ pos) :
    advanceInt page (intOf pos) size =
      intOf ((pos + roundUp page (uint32Of size) : Nat) : Int) := by
  have pattern : uint32Of (intOf pos + size + page - 1) =
      (pos + (uint32Of size + page - 1)) % 4294967296 := by
    apply Int.ofNat_inj.mp
    rw [natCast_uint32Of]
    exact emod_sum _ _ _ _ _ valid.positive (intOf_emod pos) (natCast_uint32Of size)
  have modulus : page ∣ 4294967296 := by
    rcases valid with rfl | rfl | rfl <;> decide
  obtain ⟨count, split⟩ := modulus
  have masked : clearLow 32 page ((pos + (uint32Of size + page - 1)) % 4294967296) =
      (pos + roundUp page (uint32Of size)) % 4294967296 := by
    rw [valid.clearLow_eq 32 ((pos + (uint32Of size + page - 1)) % 4294967296) (by omega)
      (by omega), split, Nat.mod_mul_right_div_self, ← Nat.mul_mod_mul_left,
      PagedLayout.advance_eq valid.positive _ _ aligned]
  unfold advanceInt
  rw [pattern, masked, Int.natCast_mod]
  exact Int.emod_bmod _ (2 ^ 32)

theorem PageSize.advanceInt_eq {page : Nat} (valid : PageSize page) (pos size : Nat)
    (aligned : page ∣ pos) (bound : pos + roundUp page size < 2147483648) :
    advanceInt page pos size = ((pos + roundUp page size : Nat) : Int) := by
  have fits := le_roundUp valid.positive size
  have start : intOf pos = pos := intOf_eq_self _ (by omega) (by omega)
  have moved := valid.advanceInt_intOf pos size aligned
  rw [start, uint32Of_ofNat, Nat.mod_eq_of_lt (by omega)] at moved
  rw [moved]
  exact intOf_eq_self _ (by omega) (by omega)

/-- A page-rounded position that is no multiple of 2^32 is, as an `int`, negative or
behind the first page, by at least the least page size. -/
theorem PageSize.intOf_beyond {page : Nat} (valid : PageSize page) (pos : Nat)
    (aligned : page ∣ pos) (apart : pos % 4294967296 ≠ 0) :
    (intOf pos ≤ -2048 ∨ page ≤ intOf pos) ∧ intOf pos ≤ 2147481600 := by
  have same := intOf_emod pos
  have range := intOf_range pos
  rcases valid with rfl | rfl | rfl <;> omega

end SuperBootimg.Concrete
