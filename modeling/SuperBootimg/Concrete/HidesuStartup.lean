/-
hidesu.c up to its event loop, with the mounts of every namespace: main covers /sbin in
its own namespace and then looks for the zygotes, whose namespaces it enters to do the
same. Each step takes the outcome of the calls it makes.
-/

import Mathlib.Logic.Function.Basic
import SuperBootimg.GuardedRuns
import SuperBootimg.Concrete.SbinTmpfs

namespace SuperBootimg.Concrete.Hidesu

open GuardedRuns

structure Attempt where
  /-- The namespace that the link names. -/
  readlink : Option MntNs
  /-- The namespace that is opened. -/
  openNs : Option MntNs
  setns : Bool
  sbin : SbinCalls

inductive Outcome
  | sbin (calls : SbinCalls)
  | readlink (ok : Bool)
  /-- Whether `getPidOfProc` finds a process. -/
  | pid (found : Bool)
  | attempt (attempt : Attempt)

inductive StartPhase
  | makeSbinTmpfs
  | readInitNs
  | findZygote
  | prepareZygoteNs (which : Zygote)
  | findZygote64 (i : Nat)
  | eventLoop
  | returned (code : Nat)
  deriving DecidableEq

structure Startup where
  phase : StartPhase
  mntNs : MntNs
  names : Names
  mounts : MntNs → MountNamespace

def Names.get (names : Names) : Zygote → Option MntNs
  | .zygote => names.zygote
  | .zygote64 => names.zygote64

section Steps

variable (abi : Abi)

def Startup.sbinTmpfs (state : Startup) (calls : SbinCalls) : Nat × Startup :=
  let (ret, after) := makeSbinTmpfs abi calls (state.mounts state.mntNs)
  (ret, { state with mounts := Function.update state.mounts state.mntNs after })

def prepareZygoteNs (which : Zygote) (attempt : Attempt) (state : Startup) : Int × Startup :=
  match attempt.readlink with
  | none => (-1, state)
  | some ns =>
      let state := { state with names := state.names.set which (some ns) }
      if some ns = state.names.init then (-1, state)
      else
        match attempt.openNs with
        | none => (0, state)
        | some fd =>
            let state := if attempt.setns then { state with mntNs := fd } else state
            (0, (state.sbinTmpfs abi attempt.sbin).2)

def afterZygote : Zygote → StartPhase
  | .zygote => .findZygote64 0
  | .zygote64 => .eventLoop

def startStep (state : Startup) (outcome : Outcome) : Option Startup :=
  match state.phase, outcome with
  | .makeSbinTmpfs, .sbin calls =>
      let (ret, next) := state.sbinTmpfs abi calls
      some { next with phase := if ret ≠ 0 then .returned 1 else .readInitNs }
  | .readInitNs, .readlink ok =>
      if ok then
        some { state with
          names := { state.names with init := some state.mntNs }
          phase := .findZygote }
      else some { state with phase := .returned 1 }
  | .findZygote, .pid found =>
      if found then some { state with phase := .prepareZygoteNs .zygote } else some state
  | .prepareZygoteNs which, .attempt attempt =>
      let (ret, next) := prepareZygoteNs abi which attempt state
      if ret ≠ 0 then some next else some { next with phase := afterZygote which }
  | .findZygote64 i, .pid found =>
      if found then some { state with phase := .prepareZygoteNs .zygote64 }
      else if i < 50 then some { state with phase := .findZygote64 (i + 1) }
      else some { state with names := state.names.set .zygote64 none, phase := .eventLoop }
  | _, _ => none

/-- No call made behind the comparison fails: the namespace that has been recorded is opened
and entered, and makeSbinTmpfs finds a mount there or can make one. -/
def Attempt.succeeds (attempt : Attempt) (state : Startup) (ns : MntNs) : Bool :=
  attempt.openNs == some ns && attempt.setns && attempt.sbin.succeed abi (state.mounts ns)

/-- Every attempt that gets past the comparison succeeds. -/
def covering (state : Startup) (outcome : Outcome) : Bool :=
  match state.phase, outcome with
  | .prepareZygoteNs _, .attempt attempt =>
      match attempt.readlink with
      | none => true
      | some ns => some ns == state.names.init || attempt.succeeds abi state ns
  | _, _ => true

/-- `prepareZygoteNs` returns 0 only behind a setns into the namespace it has recorded, which
is not that of init, and behind a makeSbinTmpfs that has returned 0 there. -/
def ReturnsAfter (which : Zygote) (attempt : Attempt) (state : Startup) : Prop :=
  (prepareZygoteNs abi which attempt state).1 = 0 →
    ∃ ns, (prepareZygoteNs abi which attempt state).2.names.get which = some ns ∧
      some ns ≠ state.names.init ∧ attempt.openNs = some ns ∧ attempt.setns = true ∧
      (makeSbinTmpfs abi attempt.sbin (state.mounts ns)).1 = 0

end Steps

/-! ### What holds at the event loop -/

structure Startup.Starts (state : Startup) : Prop where
  phase : state.phase = .makeSbinTmpfs
  names : state.names = ⟨none, none, none⟩

/-- The namespace recorded for a zygote is not that of init, and has its own /sbin. -/
def Startup.Covered (state : Startup) (which : Zygote) : Prop :=
  ∀ ns, state.names.get which = some ns →
    some ns ≠ state.names.init ∧ sbinPoint ∈ (state.mounts ns).points

/-- What is seen in /sbin is a directory as a file system gives it, in every namespace. -/
def Startup.Listed (state : Startup) : Prop :=
  ∀ ns, Hidesu.Listed (state.mounts ns).sbinTree

structure Startup.Ready (state : Startup) : Prop where
  recorded : state.names.zygote ≠ none
  covered : ∀ which, state.Covered which

def Startup.OnTheWay (state : Startup) : Prop :=
  match state.phase with
  | .findZygote64 _ => state.names.zygote ≠ none ∧ state.Covered .zygote
  | .prepareZygoteNs .zygote64 => state.names.zygote ≠ none ∧ state.Covered .zygote
  | .eventLoop => state.Ready
  | _ => True

variable {abi : Abi}

theorem sbinTmpfs_kept {state : Startup} (calls : SbinCalls) {ns : MntNs}
    (mounted : sbinPoint ∈ (state.mounts ns).points) :
    sbinPoint ∈ ((state.sbinTmpfs abi calls).2.mounts ns).points := by
  unfold Startup.sbinTmpfs
  simp only
  by_cases same : ns = state.mntNs
  · subst same
    rw [Function.update_self]
    exact (makeSbinTmpfs_points abi calls _).kept mounted
  · rw [Function.update_of_ne same]
    exact mounted

theorem sbinTmpfs_covers {state : Startup} {calls : SbinCalls}
    (success : (makeSbinTmpfs abi calls (state.mounts state.mntNs)).1 = 0) :
    sbinPoint ∈ ((state.sbinTmpfs abi calls).2.mounts state.mntNs).points := by
  unfold Startup.sbinTmpfs
  simp only
  rw [Function.update_self]
  exact (makeSbinTmpfs_points abi calls _).mounted success

theorem sbinTmpfs_listed {state : Startup} (calls : SbinCalls) (listed : state.Listed) :
    (state.sbinTmpfs abi calls).2.Listed := by
  intro ns
  unfold Startup.sbinTmpfs
  simp only
  by_cases same : ns = state.mntNs
  · subst same
    rw [Function.update_self]
    exact makeSbinTmpfs_listed abi calls (listed _)
  · rw [Function.update_of_ne same]
    exact listed ns

theorem prepareZygoteNs_listed {which : Zygote} {attempt : Attempt} {state : Startup}
    (listed : state.Listed) : (prepareZygoteNs abi which attempt state).2.Listed := by
  unfold prepareZygoteNs
  split
  · exact listed
  · simp only
    split
    · exact listed
    · split
      · exact listed
      · cases attempt.setns with
        | true => exact sbinTmpfs_listed attempt.sbin listed
        | false => exact sbinTmpfs_listed attempt.sbin listed

structure Prepared (which : Zygote) (state : Startup) (result : Int × Startup) : Prop where
  phase : result.2.phase = state.phase
  init : result.2.names.init = state.names.init
  other : ∀ asked, asked ≠ which → result.2.names.get asked = state.names.get asked
  kept : ∀ ns, sbinPoint ∈ (state.mounts ns).points → sbinPoint ∈ (result.2.mounts ns).points
  done : result.1 = 0 → ∃ ns, result.2.names.get which = some ns ∧ some ns ≠ state.names.init ∧
    sbinPoint ∈ (result.2.mounts ns).points

theorem names_set (names : Names) (which : Zygote) (mntNs : Option MntNs) :
    (names.set which mntNs).init = names.init ∧ (names.set which mntNs).get which = mntNs ∧
      ∀ asked, asked ≠ which → (names.set which mntNs).get asked = names.get asked := by
  cases which with
  | zygote =>
      refine ⟨rfl, rfl, fun asked differs => ?_⟩
      cases asked with
      | zygote => exact absurd rfl differs
      | zygote64 => rfl
  | zygote64 =>
      refine ⟨rfl, rfl, fun asked differs => ?_⟩
      cases asked with
      | zygote => rfl
      | zygote64 => exact absurd rfl differs

theorem prepareZygoteNs_prepared {which : Zygote} {attempt : Attempt} {state : Startup}
    (listed : state.Listed)
    (succeeds : ∀ ns, attempt.readlink = some ns → some ns ≠ state.names.init →
      attempt.succeeds abi state ns = true) :
    Prepared which state (prepareZygoteNs abi which attempt state) := by
  unfold prepareZygoteNs
  cases read : attempt.readlink with
  | none =>
      refine ⟨rfl, rfl, fun _ _ => rfl, fun _ mounted => mounted, ?_⟩
      intro impossible
      cases impossible
  | some ns =>
      obtain ⟨init, recorded, other⟩ := names_set state.names which (some ns)
      simp only
      by_cases same : some ns = (state.names.set which (some ns)).init
      · rw [if_pos same]
        refine ⟨rfl, init, other, fun _ mounted => mounted, ?_⟩
        intro impossible
        cases impossible
      · rw [if_neg same]
        rw [init] at same
        have success := succeeds ns read same
        unfold Attempt.succeeds at success
        rw [Bool.and_eq_true, Bool.and_eq_true, beq_iff_eq,
          ← makeSbinTmpfs_zero_iff abi attempt.sbin (listed ns)] at success
        obtain ⟨⟨opened, entered⟩, covered⟩ := success
        simp only [opened, entered, if_true]
        constructor
        case phase => rfl
        case init => exact init
        case other => exact other
        case kept => exact fun ns mounted => sbinTmpfs_kept attempt.sbin mounted
        case done => exact fun _ => ⟨ns, recorded, same, sbinTmpfs_covers covered⟩

/-! ### When it returns 0 -/

/-- It returns 0 whenever it gets past the comparison. -/
theorem prepareZygoteNs_zero_iff (which : Zygote) (attempt : Attempt) (state : Startup) :
    (prepareZygoteNs abi which attempt state).1 = 0 ↔
      ∃ ns, attempt.readlink = some ns ∧ some ns ≠ state.names.init := by
  have failed : (-1 : Int) ≠ 0 := by decide
  unfold prepareZygoteNs
  cases attempt.readlink with
  | none => exact iff_of_false failed (fun given => by cases given.choose_spec.1)
  | some ns =>
      have init := (names_set state.names which (some ns)).1
      simp only [init, Option.some.injEq, exists_eq_left']
      by_cases same : some ns = state.names.init
      · rw [if_pos same]
        exact iff_of_false failed (not_not_intro same)
      · rw [if_neg same]
        cases attempt.openNs with
        | none => exact iff_of_true rfl same
        | some fd => exact iff_of_true rfl same

theorem prepareZygoteNs_recorded {which : Zygote} {attempt : Attempt} {state : Startup}
    {ns : MntNs} (read : attempt.readlink = some ns) :
    (prepareZygoteNs abi which attempt state).2.names.get which = some ns := by
  have recorded := (names_set state.names which (some ns)).2.1
  unfold prepareZygoteNs
  rw [read]
  simp only
  split
  · exact recorded
  · cases attempt.openNs with
    | none => exact recorded
    | some fd =>
        cases attempt.setns with
        | true => exact recorded
        | false => exact recorded

/-- The result tells of a namespace that has been entered and covered exactly when no call
behind the comparison fails. -/
theorem returnsAfter_iff (which : Zygote) (attempt : Attempt) {state : Startup}
    (listed : state.Listed) :
    ReturnsAfter abi which attempt state ↔ ∀ ns, attempt.readlink = some ns →
      some ns ≠ state.names.init → attempt.succeeds abi state ns = true := by
  have meaning : ∀ ns, attempt.succeeds abi state ns = true ↔ attempt.openNs = some ns ∧
      attempt.setns = true ∧ (makeSbinTmpfs abi attempt.sbin (state.mounts ns)).1 = 0 := by
    intro ns
    unfold Attempt.succeeds
    rw [Bool.and_eq_true, Bool.and_eq_true, beq_iff_eq, makeSbinTmpfs_zero_iff abi _ (listed ns),
      and_assoc]
  unfold ReturnsAfter
  rw [prepareZygoteNs_zero_iff]
  constructor
  · intro given ns read differs
    obtain ⟨other, recorded, _, calls⟩ := given ⟨ns, read, differs⟩
    rw [prepareZygoteNs_recorded read] at recorded
    cases recorded
    exact (meaning ns).mpr calls
  · intro given passed
    obtain ⟨ns, read, differs⟩ := passed
    exact ⟨ns, prepareZygoteNs_recorded read, differs, (meaning ns).mp (given ns read differs)⟩

theorem covering_attempt_iff {which : Zygote} {attempt : Attempt} {state : Startup}
    (phase : state.phase = .prepareZygoteNs which) :
    covering abi state (.attempt attempt) = true ↔ ∀ ns, attempt.readlink = some ns →
      some ns ≠ state.names.init → attempt.succeeds abi state ns = true := by
  unfold covering
  simp only [phase]
  cases attempt.readlink with
  | none => exact iff_of_true rfl (fun ns impossible => by cases impossible)
  | some ns =>
      simp only [Bool.or_eq_true, beq_iff_eq, Option.some.injEq, forall_eq']
      exact Decidable.or_iff_not_imp_left

/-! ### Steps and runs -/

theorem Prepared.covered {which : Zygote} {state : Startup} {result : Int × Startup}
    (prepared : Prepared which state result) (success : result.1 = 0) : result.2.Covered which := by
  obtain ⟨ns, recorded, differs, mounted⟩ := prepared.done success
  intro other found
  rw [recorded] at found
  cases found
  rw [prepared.init]
  exact ⟨differs, mounted⟩

theorem Prepared.other_covered {which asked : Zygote} {state : Startup} {result : Int × Startup}
    (prepared : Prepared which state result) (differs : asked ≠ which)
    (covered : state.Covered asked) : result.2.Covered asked := by
  intro ns found
  rw [prepared.other asked differs] at found
  obtain ⟨own, mounted⟩ := covered ns found
  rw [prepared.init]
  exact ⟨own, prepared.kept ns mounted⟩

/-- An attempt that has succeeded covers its zygote; one that has failed is made again. -/
theorem Prepared.onTheWay {which : Zygote} {state next : Startup} {result : Int × Startup}
    (prepared : Prepared which state result) (phase : state.phase = .prepareZygoteNs which)
    (way : state.OnTheWay)
    (taken : (if result.1 ≠ 0 then some result.2
      else some { result.2 with phase := afterZygote which }) = some next) : next.OnTheWay := by
  have others : which = .zygote64 → result.2.names.zygote ≠ none ∧ result.2.Covered .zygote := by
    rintro rfl
    unfold Startup.OnTheWay at way
    rw [phase] at way
    refine ⟨?_, prepared.other_covered (by decide) way.2⟩
    intro none
    exact way.1 ((prepared.other .zygote (by decide)).symm.trans none)
  by_cases success : result.1 = 0
  · rw [if_neg (not_not_intro success)] at taken
    cases taken
    obtain ⟨ns, recorded, _⟩ := prepared.done success
    cases which with
    | zygote =>
        refine ⟨?_, prepared.covered success⟩
        intro none
        exact Option.some_ne_none ns (recorded.symm.trans none)
    | zygote64 =>
        obtain ⟨first, covered⟩ := others rfl
        refine ⟨first, ?_⟩
        intro which
        cases which with
        | zygote => exact covered
        | zygote64 => exact prepared.covered success
  · rw [if_pos success] at taken
    cases taken
    unfold Startup.OnTheWay
    rw [prepared.phase, phase]
    cases which with
    | zygote => trivial
    | zygote64 => exact others rfl

/-- A step of which every attempt succeeds keeps what holds on the way. -/
theorem startStep_onTheWay {state next : Startup} {outcome : Outcome} (listed : state.Listed)
    (way : state.OnTheWay)
    (meeting : covering abi state outcome = true)
    (taken : startStep abi state outcome = some next) : next.OnTheWay := by
  unfold startStep at taken
  split at taken
  case h_1 calls phase =>
    have phases : next.phase = .returned 1 ∨ next.phase = .readInitNs := by
      rw [← Option.some.inj taken]
      exact ite_eq_or_eq _ _ _
    unfold Startup.OnTheWay
    rcases phases with same | same
    · rw [same]
      trivial
    · rw [same]
      trivial
  case h_2 ok phase =>
    split at taken
    · cases taken
      trivial
    · cases taken
      trivial
  case h_3 found phase =>
    split at taken
    · cases taken
      trivial
    · cases taken
      exact way
  case h_4 which attempt phase =>
    have succeeds := (covering_attempt_iff phase).mp meeting
    have prepared := @prepareZygoteNs_prepared abi which attempt state listed succeeds
    generalize prepareZygoteNs abi which attempt state = result at taken prepared
    exact prepared.onTheWay phase way taken
  case h_5 i found phase =>
    unfold Startup.OnTheWay at way
    rw [phase] at way
    split at taken
    · cases taken
      exact way
    · split at taken
      · cases taken
        exact way
      · cases taken
        refine ⟨way.1, ?_⟩
        intro which
        cases which with
        | zygote => exact way.2
        | zygote64 =>
            intro ns impossible
            cases impossible
  case h_6 =>
    cases taken

theorem startStep_listed {state next : Startup} {outcome : Outcome} (listed : state.Listed)
    (taken : startStep abi state outcome = some next) : next.Listed := by
  unfold startStep at taken
  split at taken
  case h_1 calls phase =>
    cases taken
    exact sbinTmpfs_listed calls listed
  case h_2 ok phase =>
    split at taken
    · cases taken
      exact listed
    · cases taken
      exact listed
  case h_3 found phase =>
    split at taken
    · cases taken
      exact listed
    · cases taken
      exact listed
  case h_4 which attempt phase =>
    have after := @prepareZygoteNs_listed abi which attempt state listed
    simp only at taken
    split at taken
    · cases taken
      exact after
    · cases taken
      exact after
  case h_5 i found phase =>
    split at taken
    · cases taken
      exact listed
    · split at taken
      · cases taken
        exact listed
      · cases taken
        exact listed
  case h_6 =>
    cases taken

/-- Whenever no call behind a comparison fails, the event loop is reached with both zygotes
covered; on the way there `prepareZygoteNs` means what it returns exactly as long as that
is so. -/
theorem event_loop_ready {state final : Startup} {outcomes : List Outcome} (starts : state.Starts)
    (listed : state.Listed) (meeting : meets (startStep abi) (covering abi) state outcomes = true)
    (reached : run (startStep abi) state outcomes = some final) :
    (final.phase = .eventLoop → final.Ready) ∧
      ∀ which, final.phase = .prepareZygoteNs which → ∀ attempt,
        ReturnsAfter abi which attempt final ↔ covering abi final (.attempt attempt) = true := by
  have initially : state.OnTheWay := by
    unfold Startup.OnTheWay
    rw [starts.phase]
    trivial
  have kept : ∀ state outcome next, state.Listed ∧ state.OnTheWay →
      covering abi state outcome = true → startStep abi state outcome = some next →
      next.Listed ∧ next.OnTheWay :=
    fun state outcome next both met taken =>
      ⟨startStep_listed both.1 taken, startStep_onTheWay both.1 both.2 met taken⟩
  obtain ⟨finalListed, way⟩ := invariant_of_meets kept ⟨listed, initially⟩ meeting reached
  constructor
  · intro looping
    unfold Startup.OnTheWay at way
    rw [looping] at way
    exact way
  · intro which phase attempt
    rw [returnsAfter_iff which attempt finalListed, covering_attempt_iff phase]

def booted : Startup :=
  { phase := .makeSbinTmpfs
    mntNs := 0
    names := ⟨none, none, none⟩
    mounts := fun _ => rootfs }

def outcomesWith (attempt : Attempt) : List Outcome :=
  [.sbin succeeding, .readlink true, .pid true, .attempt attempt] ++
    List.replicate 51 (.pid false)

def entered : Attempt :=
  { readlink := some 1
    openNs := some 1
    setns := true
    sbin := succeeding }

theorem entered_ready :
    ∃ final, run (startStep .ilp32) booted (outcomesWith entered) = some final ∧
      final.Ready := by
  have looping : (run (startStep .ilp32) booted (outcomesWith entered)).map Startup.phase =
      some .eventLoop := by
    decide +kernel
  obtain ⟨final, reached, phase⟩ := Option.map_eq_some_iff.mp looping
  exact ⟨final, reached, (event_loop_ready ⟨rfl, rfl⟩ (fun _ => rootfs_listed) (by decide +kernel)
    reached).1 phase⟩

def vanished : Attempt :=
  { entered with openNs := none }

theorem vanished_not_ready :
    ∃ final, run (startStep .ilp32) booted (outcomesWith vanished) = some final ∧
      final.phase = .eventLoop ∧ ¬ final.Ready := by
  have looping : (run (startStep .ilp32) booted (outcomesWith vanished)).map
      (fun final => (final.phase, final.names.get .zygote, (final.mounts 1).points)) =
      some (.eventLoop, some 1, []) := by
    decide +kernel
  obtain ⟨final, reached, same⟩ := Option.map_eq_some_iff.mp looping
  simp only [Prod.mk.injEq] at same
  refine ⟨final, reached, same.1, ?_⟩
  intro ready
  have mounted := (ready.covered .zygote 1 same.2.1).2
  rw [same.2.2] at mounted
  cases mounted

end SuperBootimg.Concrete.Hidesu
