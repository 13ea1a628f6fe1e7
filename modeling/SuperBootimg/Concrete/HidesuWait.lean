/-
`disableSu` in hidesu.c as a whole: the process is let run and stopped again until it
has a mount namespace of its own, and then served in that namespace.
-/

import SuperBootimg.RetryLoop
import SuperBootimg.Concrete.HidesuEvents
import SuperBootimg.Concrete.HidesuUnmounts

namespace SuperBootimg.Concrete.Hidesu

open RetryLoop

structure NsName where
  name : Text
  named : name ≠ []
  fits : name.length ≤ 255
  deriving DecidableEq

structure Recorded where
  zygoteMntNs : Text
  zygote64MntNs : Text

def isStillZygoteNs (recorded : Recorded) (link : Option NsName) : Int :=
  match link with
  | none => -1
  | some ns =>
      let buffer := ns.name.take 255
      if buffer.length < 1 then -1
      else if buffer = recorded.zygoteMntNs ∨ buffer = recorded.zygote64MntNs then 1 else 0

/-- How the calls of `disableSu` end; the link is read again and again. -/
structure Answers where
  stat : Bool
  readlink : Nat → Option NsName
  openNs : Bool
  setns : Bool
  umount2 : Umount2
  mounts : Option Text

structure Disabled where
  ret : Nat
  signals : List Signal

variable (recorded : Recorded) (answers : Answers)

def waitOnce (index : Nat) (signals : List Signal) : Bool × List Signal :=
  if isStillZygoteNs recorded (answers.readlink index) ≠ 0 then (false, signals ++ [.cont, .stop])
  else (true, signals)

/-- What `disableSu` returns once the wait is over. -/
def served : Nat :=
  if answers.openNs then
    if answers.setns then (unmountAll answers.umount2 answers.mounts).ret else 3
  else 2

def disableSu (fuel : Nat) : Option Disabled :=
  if answers.stat then
    (retry (waitOnce recorded answers) fuel 0 []).map fun ended =>
      { ret := served answers, signals := ended.2 }
  else some { ret := 1, signals := [] }

/-- The signals of the loop body, with those of `disableSu` in the place of its call. -/
def Effect.signals (within : List Signal) : Effect → List Signal
  | .kill _ signal => [signal]
  | .disableSu _ => within

theorem signals_handleEvent (disabled : Disabled) {buffer : Text} {event : Scanned}
    (scanned : sscanf buffer = some event) (member : isListed event.processName = true) :
    (handleEvent buffer).flatMap (Effect.signals disabled.signals) =
      .stop :: disabled.signals ++ [.cont] := by
  unfold handleEvent
  rw [scanned]
  simp only [member, if_true]
  rfl

/-! ### The wait -/

def Recorded.Own (recorded : Recorded) (ns : NsName) : Prop :=
  ns.name ≠ recorded.zygoteMntNs ∧ ns.name ≠ recorded.zygote64MntNs

variable {recorded answers}

theorem isStillZygoteNs_eq_zero_iff (link : Option NsName) :
    isStillZygoteNs recorded link = 0 ↔ ∃ ns, link = some ns ∧ recorded.Own ns := by
  cases link with
  | none =>
      constructor
      · intro impossible
        cases impossible
      · intro given
        obtain ⟨_, impossible, _⟩ := given
        cases impossible
  | some ns =>
      have whole : ns.name.take 255 = ns.name := List.take_of_length_le ns.fits
      have some : ¬ ns.name.length < 1 := by
        have positive := List.length_pos_iff.mpr ns.named
        omega
      unfold isStillZygoteNs Recorded.Own
      simp only [whole, if_neg some, Option.some.injEq, exists_eq_left']
      by_cases zygote : ns.name = recorded.zygoteMntNs ∨ ns.name = recorded.zygote64MntNs
      · rw [if_pos zygote, ← not_or]
        exact iff_of_false (by decide) (not_not_intro zygote)
      · rw [if_neg zygote, ← not_or]
        exact iff_of_true rfl zygote

theorem waitOnce_fst (index : Nat) (signals : List Signal) :
    (waitOnce recorded answers index signals).1 =
      decide (isStillZygoteNs recorded (answers.readlink index) = 0) := by
  unfold waitOnce
  by_cases own : isStillZygoteNs recorded (answers.readlink index) = 0
  · rw [if_neg (not_not_intro own), decide_eq_true own]
  · rw [if_pos own, decide_eq_false own]

/-- Every turn of the loop lets the process run and stops it. -/
theorem wait_signals {fuel last : Nat} {signals : List Signal}
    (ended : retry (waitOnce recorded answers) fuel 0 [] = some (last, signals)) :
    signals = (List.replicate last [Signal.cont, Signal.stop]).flatten := by
  have turns : ∀ index signals next,
      signals = (List.replicate index [Signal.cont, Signal.stop]).flatten →
      waitOnce recorded answers index signals = (false, next) →
      next = (List.replicate (index + 1) [Signal.cont, Signal.stop]).flatten := by
    intro index signals next same again
    unfold waitOnce at again
    split at again
    · rw [List.replicate_succ', List.flatten_append, ← same]
      exact (Prod.mk.inj again).2.symm
    · cases again
  obtain ⟨before, _, same, success⟩ := retry_invariant turns rfl ended
  unfold waitOnce at success
  split at success
  · cases success
  · rw [← same]
    exact (Prod.mk.inj success).2.symm

/-- The wait ends as soon as the process is seen in a namespace of its own. -/
theorem wait_ends_iff :
    (∃ fuel, (retry (waitOnce recorded answers) fuel 0 []).isSome = true) ↔
      ∃ index ns, answers.readlink index = some ns ∧ recorded.Own ns := by
  rw [retry_ends_iff waitOnce_fst]
  simp only [Nat.zero_le, true_and, decide_eq_true_eq, isStillZygoteNs_eq_zero_iff]

theorem disableSu_isSome_iff (fuel : Nat) :
    (disableSu recorded answers fuel).isSome = true ↔
      answers.stat = false ∨ (retry (waitOnce recorded answers) fuel 0 []).isSome = true := by
  unfold disableSu
  cases answers.stat with
  | false => exact iff_of_true rfl (.inl rfl)
  | true =>
      rw [if_pos rfl, Option.isSome_map]
      exact (or_iff_right Bool.noConfusion).symm

theorem disableSu_signals {fuel : Nat} {disabled : Disabled}
    (returned : disableSu recorded answers fuel = some disabled) :
    ∃ count, disabled.signals = (List.replicate count [Signal.cont, Signal.stop]).flatten := by
  unfold disableSu at returned
  split at returned
  · obtain ⟨⟨last, signals⟩, ended, rfl⟩ := Option.map_eq_some_iff.mp returned
    exact ⟨last, wait_signals ended⟩
  · cases returned
    exact ⟨0, rfl⟩

theorem disableSu_returns_iff :
    (∃ fuel disabled, disableSu recorded answers fuel = some disabled) ↔
      answers.stat = false ∨ ∃ index ns, answers.readlink index = some ns ∧ recorded.Own ns := by
  simp only [← Option.isSome_iff_exists, disableSu_isSome_iff, ← wait_ends_iff]
  constructor
  · intro given
    obtain ⟨fuel, ended⟩ := given
    exact ended.imp_right fun ended => ⟨fuel, ended⟩
  · intro given
    rcases given with missing | ⟨fuel, ended⟩
    · exact ⟨0, .inl missing⟩
    · exact ⟨fuel, .inr ended⟩

/-- The wait ends, and the loop body that called `disableSu` for an event leaves the process
running. -/
structure LeavesRunning (recorded : Recorded) (answers : Answers) : Prop where
  returns : ∃ fuel disabled, disableSu recorded answers fuel = some disabled
  running : ∀ fuel disabled, disableSu recorded answers fuel = some disabled →
    ∀ buffer event, sscanf buffer = some event → isListed event.processName = true →
      ∃ count, (handleEvent buffer).flatMap (Effect.signals disabled.signals) =
        .stop :: (List.replicate count [Signal.cont, Signal.stop]).flatten ++ [.cont]

/-- From some point on there is nothing left to wait for. -/
def Settles (recorded : Recorded) (answers : Answers) : Prop :=
  ∃ point, ∀ index, point ≤ index →
    answers.readlink index = none ∨ ∃ ns, answers.readlink index = some ns ∧ recorded.Own ns

/-- `disableSu` returns unless the process goes away before it is seen in a namespace of
its own. -/
theorem leaves_running_iff (recorded : Recorded) (answers : Answers) :
    LeavesRunning recorded answers ↔
      answers.stat = false ∨ ∃ index ns, answers.readlink index = some ns ∧ recorded.Own ns := by
  rw [← disableSu_returns_iff]
  constructor
  · intro given
    exact given.returns
  · intro given
    refine ⟨given, ?_⟩
    intro fuel disabled returned buffer event scanned member
    obtain ⟨count, same⟩ := disableSu_signals returned
    refine ⟨count, ?_⟩
    rw [signals_handleEvent disabled scanned member, same]

def exited : Answers :=
  { stat := true
    readlink := fun _ => none
    openNs := false
    setns := false
    umount2 := fun _ _ => false
    mounts := none }

theorem exited_waited_for :
    Settles ⟨"mnt:[4026531841]".toList, []⟩ exited ∧
      ¬ LeavesRunning ⟨"mnt:[4026531841]".toList, []⟩ exited := by
  refine ⟨⟨0, fun _ _ => .inl rfl⟩, ?_⟩
  intro given
  rcases disableSu_returns_iff.mp given.returns with missing | ⟨_, _, impossible, _⟩
  · cases missing
  · cases impossible

end SuperBootimg.Concrete.Hidesu
