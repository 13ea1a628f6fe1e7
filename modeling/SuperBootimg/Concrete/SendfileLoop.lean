/-
The copy loop of `makeSbinTmpfs` when calls of `sendfile` fail. The result is a `ssize_t`
that is kept as a `size_t`: -1 is then the largest count there is.
-/

import SuperBootimg.RetryLoop
import SuperBootimg.Concrete.SbinTmpfs

namespace SuperBootimg.Concrete.Hidesu

open RetryLoop

/-- What one call of `sendfile` after the other returns, `none` for -1. -/
structure Transfers (abi : Abi) where
  returned : Nat → Option Nat
  ssize : ∀ index sent, returned index = some sent → sent < abi.signBit

inductive AfterCopy
  | goesOn (ns : MountNamespace)
  | returns (code : Nat) (ns : MountNamespace)

def checkCopied (abi : Abi) (size copied : Nat) (ns : MountNamespace) : AfterCopy :=
  if copied ≠ abi.sizeOf size then .returns 3 (ns.umount2 stagingPoint) else .goesOn ns

namespace Transfers

variable {abi : Abi} (transfers : Transfers abi)

def bytes (index : Nat) : Nat :=
  match transfers.returned index with
  | some sent => abi.sizeOf sent
  | none => abi.sizeOf (-1)

/-- `while(bytes > 0) copied += bytes`, and whether the loop is left. -/
def copyOnce (index copied : Nat) : Bool × Nat :=
  let bytes := transfers.bytes index
  if 0 < bytes then (false, abi.sizeOf (copied + bytes : Nat)) else (true, copied)

/-- The number of the call with which the loop is left, and `copied` then. -/
def copyLoop (fuel : Nat) : Option (Nat × Nat) :=
  retry transfers.copyOnce fuel 0 0

def copyFile (size fuel : Nat) (ns : MountNamespace) : Option AfterCopy := do
  let (_, copied) ← transfers.copyLoop fuel
  return checkCopied abi size copied ns

def transferred : Nat → Nat
  | 0 => 0
  | index + 1 => transferred index + (transfers.returned index).getD 0

def failed : Nat → Nat
  | 0 => 0
  | index + 1 => failed index + if transfers.returned index = none then 1 else 0

/-- From some call on there is only the end of the file, or only failure. -/
def Settles : Prop :=
  ∃ start, (∀ index, start ≤ index → transfers.returned index = some 0) ∨
    ∀ index, start ≤ index → transfers.returned index = none

structure EndsAt (last : Nat) : Prop where
  ended : transfers.returned last = some 0
  first : ∀ index, index < last → transfers.returned index ≠ some 0

/-- The loop is left, and the file is kept if it has been transferred and undone otherwise. -/
def KeepsOrUndoes (size : Nat) (ns : MountNamespace) : Prop :=
  ∃ fuel last copied, transfers.copyLoop fuel = some (last, copied) ∧
    transfers.copyFile size fuel ns =
      some (if transfers.transferred last = size then .goesOn ns
        else .returns 3 (ns.umount2 stagingPoint))

/-- The failures before the end of the file do not make up for what is missing, nor spoil
what is there. -/
structure Counted (size last : Nat) : Prop where
  ends : transfers.EndsAt last
  whole : transfers.transferred last = size → 2 ^ abi.bits ∣ transfers.failed last
  short : transfers.transferred last ≠ size →
    ¬ (2 ^ abi.bits : Int) ∣ size - transfers.transferred last + transfers.failed last

/-! ### One call -/

theorem bytes_failed {index : Nat} (failure : transfers.returned index = none) :
    transfers.bytes index = 2 ^ abi.bits - 1 := by
  unfold bytes
  rw [failure]
  cases abi with
  | ilp32 => rfl
  | lp64 => rfl

theorem bytes_sent {index sent : Nat} (success : transfers.returned index = some sent) :
    transfers.bytes index = sent := by
  have small := transfers.ssize index sent success
  unfold bytes
  simp only [success]
  rw [sizeOf_natCast]
  rcases abi.modulus_signBit with ⟨modulus, half⟩ | ⟨modulus, half⟩ <;>
    exact Nat.mod_eq_of_lt (by omega)

/-- A failed call does not end the loop. -/
theorem copyOnce_done (index copied : Nat) :
    (transfers.copyOnce index copied).1 = (transfers.returned index == some 0) := by
  unfold copyOnce
  cases result : transfers.returned index with
  | none =>
      have positive : 0 < 2 ^ abi.bits - 1 := by
        rcases abi.modulus_signBit with ⟨modulus, _⟩ | ⟨modulus, _⟩ <;> omega
      simp only [transfers.bytes_failed result, if_pos positive]
      rfl
  | some sent =>
      simp only [transfers.bytes_sent result]
      cases sent with
      | zero => rfl
      | succ sent =>
          rw [if_pos (Nat.succ_pos sent)]
          rfl

theorem natCast_sizeOf (abi : Abi) (value : Int) :
    (abi.sizeOf value : Int) = value % 2 ^ abi.bits := by
  unfold Abi.sizeOf
  apply Int.toNat_of_nonneg
  apply Int.emod_nonneg
  exact Int.pow_ne_zero (by decide)

theorem sizeOf_eq_iff (abi : Abi) (left right : Int) :
    abi.sizeOf left = abi.sizeOf right ↔ (2 ^ abi.bits : Int) ∣ left - right := by
  rw [← Int.natCast_inj, natCast_sizeOf, natCast_sizeOf]
  exact Int.emod_eq_emod_iff_emod_sub_eq_zero.trans Int.dvd_iff_emod_eq_zero.symm

theorem sizeOf_add_natCast (abi : Abi) (left : Int) (right : Nat) :
    abi.sizeOf (abi.sizeOf left + right : Nat) = abi.sizeOf (left + right) := by
  apply (sizeOf_eq_iff abi _ _).mpr
  rw [Int.natCast_add, natCast_sizeOf, Int.add_sub_add_right]
  exact Int.dvd_sub_self_of_emod_eq rfl

/-- A failed call takes one away from the count. -/
theorem copyOnce_copied {index copied next : Nat}
    (counted : copied =
      abi.sizeOf ((transfers.transferred index : Int) - transfers.failed index))
    (again : transfers.copyOnce index copied = (false, next)) :
    next = abi.sizeOf
      ((transfers.transferred (index + 1) : Int) - transfers.failed (index + 1)) := by
  unfold copyOnce at again
  simp only at again
  split at again
  · rw [← (Prod.mk.inj again).2, counted, sizeOf_add_natCast, transferred, failed]
    cases result : transfers.returned index with
    | none =>
        rw [transfers.bytes_failed result]
        simp only [Option.getD_none, if_true]
        apply (sizeOf_eq_iff abi _ _).mpr
        have modulus : ((2 ^ abi.bits : Nat) : Int) = 2 ^ abi.bits := Int.natCast_pow 2 abi.bits
        rw [Int.natCast_sub (Nat.two_pow_pos abi.bits), modulus]
        exact ⟨1, by omega⟩
    | some sent =>
        rw [transfers.bytes_sent result]
        simp only [Option.getD_some, reduceCtorEq, if_false]
        congr 1
        omega
  · cases again

/-! ### The loop -/

/-- The loop is left at the end of the file, and the failures are missing from the count. -/
theorem copyLoop_ended {fuel last copied : Nat}
    (ended : transfers.copyLoop fuel = some (last, copied)) :
    transfers.EndsAt last ∧
      copied = abi.sizeOf ((transfers.transferred last : Int) - transfers.failed last) := by
  have initially : (0 : Nat) = abi.sizeOf
      ((transfers.transferred 0 : Int) - transfers.failed 0) ∧
        ∀ earlier, earlier < 0 → transfers.returned earlier ≠ some 0 := by
    refine ⟨?_, fun earlier impossible => absurd impossible (Nat.not_lt_zero _)⟩
    change 0 = abi.sizeOf ((0 : Nat) - (0 : Nat) : Int)
    rw [Int.sub_self]
    unfold Abi.sizeOf
    rw [Int.zero_emod]
    rfl
  obtain ⟨before, _, ⟨counted, none⟩, left⟩ := @retry_invariant Nat transfers.copyOnce
    (fun index copied => copied =
        abi.sizeOf ((transfers.transferred index : Int) - transfers.failed index) ∧
      ∀ earlier, earlier < index → transfers.returned earlier ≠ some 0)
    (by
      intro index state next holds again
      refine ⟨transfers.copyOnce_copied holds.1 again, ?_⟩
      intro earlier inside
      rcases Nat.lt_succ_iff_lt_or_eq.mp inside with before | rfl
      · exact holds.2 earlier before
      · have goesOn := transfers.copyOnce_done earlier state
        rw [again] at goesOn
        exact beq_eq_false_iff_ne.mp goesOn.symm) fuel 0 last 0 copied initially ended
  have done := transfers.copyOnce_done last before
  rw [left] at done
  refine ⟨⟨beq_iff_eq.mp done.symm, none⟩, ?_⟩
  unfold copyOnce at left
  simp only at left
  split at left
  · cases left
  · rw [← (Prod.mk.inj left).2, counted]

/-- The loop is left exactly if some call returns 0. -/
theorem copyLoop_ends_iff :
    (∃ fuel, (transfers.copyLoop fuel).isSome = true) ↔
      ∃ last, transfers.returned last = some 0 := by
  refine (retry_ends_iff transfers.copyOnce_done 0 0).trans ?_
  constructor
  · intro given
    obtain ⟨last, _, ready⟩ := given
    exact ⟨last, beq_iff_eq.mp ready⟩
  · intro given
    obtain ⟨last, ended⟩ := given
    exact ⟨last, Nat.zero_le last, beq_iff_eq.mpr ended⟩

theorem EndsAt.unique {transfers : Transfers abi} {last other : Nat}
    (ends : transfers.EndsAt last) (ends' : transfers.EndsAt other) : last = other := by
  rcases Nat.lt_trichotomy last other with before | same | behind
  · exact absurd ends.ended (ends'.first last before)
  · exact same
  · exact absurd ends'.ended (ends.first other behind)

/-- What the check makes of the count. -/
theorem checkCopied_eq_iff (size sent failures : Nat) (ns : MountNamespace) :
    checkCopied abi size (abi.sizeOf ((sent : Int) - failures)) ns =
        (if sent = size then .goesOn ns else .returns 3 (ns.umount2 stagingPoint)) ↔
      (sent = size → 2 ^ abi.bits ∣ failures) ∧
        (sent ≠ size → ¬ (2 ^ abi.bits : Int) ∣ size - sent + failures) := by
  have same : abi.sizeOf ((sent : Int) - failures) = abi.sizeOf size ↔
      (2 ^ abi.bits : Int) ∣ size - sent + failures := by
    rw [sizeOf_eq_iff, ← Int.dvd_neg]
    apply iff_of_eq
    congr 1
    omega
  unfold checkCopied
  by_cases divides : (2 ^ abi.bits : Int) ∣ size - sent + failures
  · rw [if_neg (not_not_intro (same.mpr divides))]
    by_cases whole : sent = size
    · subst whole
      rw [Int.sub_self, Int.zero_add] at divides
      rw [if_pos rfl]
      refine iff_of_true rfl ⟨fun _ => ?_, fun different => absurd rfl different⟩
      apply Int.natCast_dvd_natCast.mp
      rw [Int.natCast_pow]
      exact divides
    · rw [if_neg whole]
      exact iff_of_false (fun same => by cases same) fun given => given.2 whole divides
  · rw [if_pos fun counted => divides (same.mp counted)]
    by_cases whole : sent = size
    · subst whole
      rw [Int.sub_self, Int.zero_add] at divides
      rw [if_pos rfl]
      refine iff_of_false (fun same => by cases same) fun given => divides ?_
      have multiple := Int.natCast_dvd_natCast.mpr (given.1 rfl)
      rw [Int.natCast_pow] at multiple
      exact multiple
    · rw [if_neg whole]
      exact iff_of_true rfl ⟨fun impossible => absurd impossible whole, fun _ => divides⟩

theorem Counted.keepsOrUndoes {transfers : Transfers abi} {size last : Nat}
    (counted : transfers.Counted size last) (ns : MountNamespace) :
    transfers.KeepsOrUndoes size ns := by
  obtain ⟨ends, whole, short⟩ := counted
  obtain ⟨fuel, some⟩ := transfers.copyLoop_ends_iff.mpr ⟨last, ends.ended⟩
  obtain ⟨⟨other, copied⟩, ended⟩ := Option.isSome_iff_exists.mp some
  obtain ⟨ends', count⟩ := transfers.copyLoop_ended ended
  obtain rfl := ends.unique ends'
  refine ⟨fuel, last, copied, ended, ?_⟩
  unfold copyFile
  rw [ended, count]
  exact congrArg Option.some ((checkCopied_eq_iff size _ _ ns).mpr ⟨whole, short⟩)

/-- For any results of `sendfile` the file is kept or undone as it should be exactly if
the loop is left and the failures before that do not falsify the count. -/
theorem keeps_or_undoes_iff (size : Nat) (ns : MountNamespace) :
    transfers.KeepsOrUndoes size ns ↔ ∃ last, transfers.Counted size last := by
  constructor
  · intro given
    obtain ⟨fuel, last, copied, ended, result⟩ := given
    obtain ⟨ends, counted⟩ := transfers.copyLoop_ended ended
    unfold copyFile at result
    rw [ended, counted] at result
    obtain ⟨whole, short⟩ := (checkCopied_eq_iff size _ _ ns).mp (Option.some.inj result)
    exact ⟨last, ends, whole, short⟩
  · intro given
    obtain ⟨last, counted⟩ := given
    exact counted.keepsOrUndoes ns

def fullTmpfs : Transfers .ilp32 where
  returned index := if index = 0 then some 4096 else none
  ssize := by
    intro index sent sentOne
    split at sentOne
    · cases sentOne
      decide
    · cases sentOne

theorem fullTmpfs_never_left :
    fullTmpfs.Settles ∧ (∀ fuel, fullTmpfs.copyLoop fuel = none) ∧
      ¬ fullTmpfs.KeepsOrUndoes 8192 rootfs := by
  have endless : ∀ fuel, fullTmpfs.copyLoop fuel = none := by
    intro fuel
    by_contra left
    obtain ⟨last, ended⟩ := fullTmpfs.copyLoop_ends_iff.mp
      ⟨fuel, Option.isSome_iff_ne_none.mpr left⟩
    change (if last = 0 then some 4096 else none) = some 0 at ended
    split at ended
    · cases ended
    · cases ended
  refine ⟨⟨1, .inr ?_⟩, endless, ?_⟩
  · intro index later
    exact if_neg (Nat.ne_of_gt later)
  · intro given
    obtain ⟨fuel, last, copied, ended, _⟩ := given
    rw [endless fuel] at ended
    cases ended

end Transfers

/-! ### Calls that do not fail -/

def sentBefore (sendfile : Nat → Nat → Nat) (count size : Nat) : Nat → Nat
  | 0 => 0
  | index + 1 =>
      let sent := sentBefore sendfile count size index
      let most := min count (size - sent)
      sent + min (sendfile index most) most

section WithoutFailures

variable {sendfile : Nat → Nat → Nat} {count size : Nat}

theorem sentBefore_le (index : Nat) : sentBefore sendfile count size index ≤ size := by
  induction index with
  | zero => exact Nat.zero_le size
  | succ index ih =>
      rw [sentBefore]
      omega

theorem sentBefore_mono (index : Nat) :
    sentBefore sendfile count size index ≤ sentBefore sendfile count size (index + 1) := by
  rw [sentBefore]
  exact Nat.le_add_right _ _

/-- There is a first call that sends nothing, and not more calls before it than bytes. -/
theorem exists_last (sendfile : Nat → Nat → Nat) (count size : Nat) :
    ∃ last, last ≤ size ∧
      sentBefore sendfile count size (last + 1) = sentBefore sendfile count size last ∧
      ∀ index, index < last →
        sentBefore sendfile count size index < sentBefore sendfile count size (index + 1) := by
  by_contra none
  have counted : ∀ index, index ≤ size + 1 → index ≤ sentBefore sendfile count size index ∧
      ∀ earlier, earlier < index →
        sentBefore sendfile count size earlier < sentBefore sendfile count size (earlier + 1) := by
    intro index
    induction index with
    | zero =>
        exact fun _ => ⟨Nat.zero_le _, fun _ impossible => absurd impossible (Nat.not_lt_zero _)⟩
    | succ index ih =>
        intro inside
        obtain ⟨enough, before⟩ := ih (Nat.le_of_succ_le inside)
        have more : sentBefore sendfile count size index <
            sentBefore sendfile count size (index + 1) := by
          apply Nat.lt_of_le_of_ne (sentBefore_mono index)
          intro same
          exact none ⟨index, Nat.le_of_succ_le_succ inside, same.symm, before⟩
        refine ⟨Nat.lt_of_le_of_lt enough more, ?_⟩
        intro earlier inside
        rcases Nat.lt_succ_iff_lt_or_eq.mp inside with before' | rfl
        · exact before earlier before'
        · exact more
  have above := (counted (size + 1) (Nat.le_refl _)).1
  have below := @sentBefore_le sendfile count size (size + 1)
  omega

theorem sendAll_sentBefore {last : Nat}
    (ended : sentBefore sendfile count size (last + 1) = sentBefore sendfile count size last)
    (before : ∀ index, index < last →
      sentBefore sendfile count size index < sentBefore sendfile count size (index + 1))
    {fuel index : Nat} (inside : index ≤ last) (enough : last < index + fuel) :
    sendAll sendfile count size fuel index (sentBefore sendfile count size index) =
      sentBefore sendfile count size last := by
  induction fuel generalizing index with
  | zero => omega
  | succ fuel ih =>
      have next : sentBefore sendfile count size (index + 1) =
          sentBefore sendfile count size index + min
            (sendfile index (min count (size - sentBefore sendfile count size index)))
            (min count (size - sentBefore sendfile count size index)) := rfl
      rw [sendAll, ← next]
      rcases Nat.lt_or_eq_of_le inside with earlier | rfl
      · have more := before index earlier
        rw [if_pos (by omega)]
        exact ih earlier (by omega)
      · rw [if_neg (by omega)]

end WithoutFailures

/-- The calls for a file of a size that `ssize_t` can count. -/
def fileTransfers {abi : Abi} (sendfile : Nat → Nat → Nat) (size : Nat)
    (small : size < abi.signBit) : Transfers abi where
  returned index := some (sentBefore sendfile (abi.sizeOf size) size (index + 1) -
    sentBefore sendfile (abi.sizeOf size) size index)
  ssize := by
    intro index sent same
    have inside := @sentBefore_le sendfile (abi.sizeOf size) size (index + 1)
    have counted := Option.some.inj same
    omega

section FileTransfers

variable {abi : Abi} {sendfile : Nat → Nat → Nat} {size : Nat} (small : size < abi.signBit)

theorem transferred_fileTransfers (index : Nat) :
    (fileTransfers sendfile size small).transferred index =
      sentBefore sendfile (abi.sizeOf size) size index := by
  induction index with
  | zero => rfl
  | succ index ih =>
      have more := @sentBefore_mono sendfile (abi.sizeOf size) size index
      rw [Transfers.transferred, ih]
      simp only [fileTransfers, Option.getD_some]
      omega

theorem failed_fileTransfers (index : Nat) :
    (fileTransfers sendfile size small).failed index = 0 := by
  induction index with
  | zero => rfl
  | succ index ih =>
      rw [Transfers.failed, ih]
      rfl

/-- The loop without failures is the loop of `copyRegular`. -/
theorem endsAt_fileTransfers :
    ∃ last, (fileTransfers sendfile size small).EndsAt last ∧
      (fileTransfers sendfile size small).transferred last =
        sendAll sendfile (abi.sizeOf size) size (size + 1) 0 0 := by
  obtain ⟨last, inside, ended, before⟩ := exists_last sendfile (abi.sizeOf size) size
  have all := @sendAll_sentBefore sendfile (abi.sizeOf size) size last ended before (size + 1) 0
    (Nat.zero_le last) (by omega)
  refine ⟨last, ⟨?_, ?_⟩, (transferred_fileTransfers small last).trans all.symm⟩
  · change some (sentBefore sendfile (abi.sizeOf size) size (last + 1) -
      sentBefore sendfile (abi.sizeOf size) size last) = some 0
    rw [ended, Nat.sub_self]
  · intro index earlier nothing
    have more := before index earlier
    have sent := Option.some.inj nothing
    omega

/-- Without failures the file is kept exactly if all of it has been sent. -/
theorem fileTransfers_keepsOrUndoes (ns : MountNamespace) :
    (fileTransfers sendfile size small).KeepsOrUndoes size ns := by
  obtain ⟨last, ends, sent⟩ := @endsAt_fileTransfers abi sendfile size small
  have inside := @sendAll_le sendfile (abi.sizeOf size) size (size + 1) 0 0 (Nat.zero_le size)
  refine Transfers.Counted.keepsOrUndoes ⟨ends, ?_, ?_⟩ ns
  · intro _
    rw [failed_fileTransfers]
    exact Nat.dvd_zero _
  · rw [failed_fileTransfers, sent]
    intro different divides
    have modulus : ((2 ^ abi.bits : Nat) : Int) = 2 ^ abi.bits := Int.natCast_pow 2 abi.bits
    have bound : (2 : Int) ^ abi.bits ≤
        size - sendAll sendfile (abi.sizeOf size) size (size + 1) 0 0 :=
      Int.le_of_dvd (by omega) (by simpa using divides)
    rcases abi.modulus_signBit with ⟨counted, half⟩ | ⟨counted, half⟩
    all_goals
      rw [← modulus, counted] at bound
      omega

end FileTransfers

/-- What `copyRegular` compares is what the loop has counted. -/
theorem copyLoop_sentOf {abi : Abi} (calls : SbinCalls) (sfile : Text) (bytes : List UInt8)
    (small : bytes.length < abi.signBit) :
    ∃ fuel last, (fileTransfers (calls.sendfile sfile) bytes.length small).copyLoop fuel =
      some (last, abi.sizeOf (sentOf abi calls sfile bytes)) := by
  obtain ⟨last, ends, sent⟩ := @endsAt_fileTransfers abi (calls.sendfile sfile) bytes.length small
  obtain ⟨fuel, some⟩ := (Transfers.copyLoop_ends_iff _).mpr ⟨last, ends.ended⟩
  obtain ⟨⟨other, copied⟩, ended⟩ := Option.isSome_iff_exists.mp some
  obtain ⟨ends', count⟩ := Transfers.copyLoop_ended _ ended
  obtain rfl := ends.unique ends'
  rw [failed_fileTransfers, sent, Int.natCast_zero, Int.sub_zero] at count
  refine ⟨fuel, last, ?_⟩
  rw [ended, count]
  rfl

end SuperBootimg.Concrete.Hidesu
