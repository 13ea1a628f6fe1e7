/-
The namespaces in which disableSu unmounts. While the names recorded at start-up are
those of the zygotes that matter, and no pid is handed on at the wrong moment, they are
neither that of init nor that of a running zygote.
-/

import SuperBootimg.Concrete.HidesuSystem

namespace SuperBootimg.Concrete.Hidesu

open GuardedRuns

/-! ### Shared namespaces -/

theorem sharedNs_iff (processes : ProcessTable) (mntNs : MntNs) :
    sharedNs processes mntNs = true ↔ mntNs = initMntNs ∨ ∃ pid process,
      processes.lookup pid = some process ∧ process.role.isZygote = true ∧
        process.mntNs = mntNs := by
  unfold sharedNs
  rw [Bool.or_eq_true, beq_iff_eq, List.any_eq_true]
  constructor
  · intro shared
    rcases shared with same | ⟨entry, member, found⟩
    · exact .inl same
    · rw [Bool.and_eq_true, beq_iff_eq] at found
      exact .inr ⟨entry.1, entry.2, AList.mem_lookup_iff.mpr member, found.1, found.2⟩
  · intro shared
    rcases shared with same | ⟨pid, process, running, zygote, same⟩
    · exact .inl same
    · refine .inr ⟨⟨pid, process⟩, AList.mem_lookup_iff.mp running, ?_⟩
      rw [Bool.and_eq_true, beq_iff_eq]
      exact ⟨zygote, same⟩

theorem lookup_insert_cases {processes : ProcessTable} {pid other : Pid}
    {process found : Process}
    (running : (processes.insert pid process).lookup other = some found) :
    (other = pid ∧ found = process) ∨ (other ≠ pid ∧ processes.lookup other = some found) := by
  by_cases same : other = pid
  · rw [same, AList.lookup_insert] at running
    exact .inl ⟨same, (Option.some.inj running).symm⟩
  · rw [AList.lookup_insert_ne same] at running
    exact .inr ⟨same, running⟩

theorem lookup_erase_some {processes : ProcessTable} {pid other : Pid} {found : Process}
    (running : (processes.erase pid).lookup other = some found) :
    processes.lookup other = some found := by
  by_cases same : other = pid
  · rw [same, AList.lookup_erase] at running
    cases running
  · rw [AList.lookup_erase_ne same] at running
    exact running

theorem sharedNs_insert {processes : ProcessTable} {pid : Pid} {process : Process}
    {mntNs : MntNs} (shared : sharedNs (processes.insert pid process) mntNs = true) :
    (process.role.isZygote = true ∧ process.mntNs = mntNs) ∨
      sharedNs processes mntNs = true := by
  rw [sharedNs_iff] at shared ⊢
  rcases shared with same | ⟨other, found, running, zygote, same⟩
  · exact .inr (.inl same)
  · rcases lookup_insert_cases running with ⟨_, rfl⟩ | ⟨_, before⟩
    · exact .inl ⟨zygote, same⟩
    · exact .inr (.inr ⟨other, found, before, zygote, same⟩)

theorem sharedNs_erase {processes : ProcessTable} {pid : Pid} {mntNs : MntNs}
    (shared : sharedNs (processes.erase pid) mntNs = true) :
    sharedNs processes mntNs = true := by
  rw [sharedNs_iff] at shared ⊢
  rcases shared with same | ⟨other, found, running, zygote, same⟩
  · exact .inl same
  · exact .inr ⟨other, found, lookup_erase_some running, zygote, same⟩

/-! ### The condition on the steps -/

/-- When the wait of `disableSu` looks at a pid, its namespace is one that is recorded or
one that is not shared, and until it is opened no process in a shared namespace takes
the pid. -/
def System.spares (system : System) : Action → Bool
  | .start _ pid => match system.hidesu.phase with
      | .openNs opening => opening != pid
      | _ => true
  | .fork _ pid _ => match system.hidesu.phase with
      | .openNs opening => opening != pid
      | _ => true
  | .spawn pid mntNs _ => match system.hidesu.phase with
      | .openNs opening => opening != pid || !sharedNs system.processes mntNs
      | _ => true
  | .hidesu _ => match system.hidesu.phase with
      | .waitOwnNs pid => (system.processes.lookup pid).all fun process =>
          system.hidesu.names.isZygoteNs process.mntNs ||
            !sharedNs system.processes process.mntNs
      | _ => true
  | _ => true

/-! ### The invariant -/

/-- The namespace `disableSu` has chosen, from the end of its wait on. -/
def System.aims (system : System) (mntNs : MntNs) : Prop :=
  match system.hidesu.phase with
  | .openNs pid => ∃ process, system.processes.lookup pid = some process ∧
      process.mntNs = mntNs
  | .setNs fd _ => fd = mntNs
  | .unmountSbin _ => system.hidesu.mntNs = mntNs
  | .openMounts _ => system.hidesu.mntNs = mntNs
  | .readMounts => system.hidesu.mntNs = mntNs
  | _ => False

structure Separate (system : System) : Prop where
  init : initMntNs < system.made
  known : ∀ pid process, system.processes.lookup pid = some process →
    process.mntNs < system.made
  aimed : ∀ mntNs, system.aims mntNs →
    mntNs < system.made ∧ sharedNs system.processes mntNs = false

theorem System.aims_cases (before : System) {after : System} {mntNs : MntNs}
    (aims : after.aims mntNs) (same : after.hidesu = before.hidesu) :
    before.aims mntNs ∨ ∃ pid found, before.hidesu.phase = .openNs pid ∧
      after.processes.lookup pid = some found ∧ found.mntNs = mntNs := by
  unfold System.aims at aims ⊢
  rw [same] at aims
  cases phase : before.hidesu.phase with
  | openNs pid =>
      rw [phase] at aims
      obtain ⟨found, running, same⟩ := aims
      exact .inr ⟨pid, found, rfl, running, same⟩
  | _ =>
      rw [phase] at aims
      exact .inl aims

theorem System.aims_openNs {system : System} {pid : Pid} {process : Process}
    (phase : system.hidesu.phase = .openNs pid)
    (running : system.processes.lookup pid = some process) : system.aims process.mntNs := by
  unfold System.aims
  rw [phase]
  exact ⟨process, running, rfl⟩

theorem Separate.initially {system : System} (starts : system.Starts) : Separate system := by
  constructor
  case init => exact starts.init
  case known => exact starts.known
  case aimed =>
    intro mntNs aims
    unfold System.aims at aims
    rw [starts.phase] at aims
    exact absurd aims id

theorem Separate.made_unshared {system : System} (separate : Separate system) :
    sharedNs system.processes system.made = false := by
  apply Bool.eq_false_iff.mpr
  intro shared
  rcases (sharedNs_iff _ _).mp shared with same | ⟨pid, process, running, _, same⟩
  · exact absurd separate.init (by rw [same]; exact Nat.lt_irrefl _)
  · exact absurd (separate.known pid process running) (by rw [same]; exact Nat.lt_irrefl _)

/-- A process takes a pid, or changes under its pid. A zygote takes a new namespace or
stays in its own, and no process turns up in a shared one behind the pid to be opened. -/
theorem Separate.insert {system : System} (separate : Separate system) {pid : Pid}
    {process : Process} {events : List Event} {made : Nat} (grows : system.made ≤ made)
    (known : process.mntNs < made)
    (zygote : process.role.isZygote = true →
      system.made ≤ process.mntNs ∨ sharedNs system.processes process.mntNs = true)
    (spared : system.hidesu.phase = .openNs pid →
      sharedNs (system.processes.insert pid process) process.mntNs = false) :
    Separate { system with
      processes := system.processes.insert pid process
      events := events
      made := made } := by
  have keeps : ∀ mntNs, mntNs < system.made → sharedNs system.processes mntNs = false →
      sharedNs (system.processes.insert pid process) mntNs = false := by
    intro mntNs below unshared
    apply Bool.eq_false_iff.mpr
    intro shared
    rcases sharedNs_insert shared with ⟨zygoteRole, same⟩ | before
    · rcases zygote zygoteRole with new | before
      · rw [same] at new
        exact absurd below (Nat.not_lt.mpr new)
      · rw [same, unshared] at before
        exact Bool.false_ne_true before
    · rw [unshared] at before
      exact Bool.false_ne_true before
  have kept : ∀ mntNs, system.aims mntNs → mntNs < made ∧
      sharedNs (system.processes.insert pid process) mntNs = false := by
    intro mntNs aims
    obtain ⟨below, unshared⟩ := separate.aimed mntNs aims
    exact ⟨Nat.lt_of_lt_of_le below grows, keeps mntNs below unshared⟩
  constructor
  case init => exact Nat.lt_of_lt_of_le separate.init grows
  case known =>
    intro other found running
    rcases lookup_insert_cases running with ⟨_, rfl⟩ | ⟨_, before⟩
    · exact known
    · exact Nat.lt_of_lt_of_le (separate.known other found before) grows
  case aimed =>
    intro mntNs aims
    rcases system.aims_cases aims rfl with
      before | ⟨opening, found, phase, running, same⟩
    · exact kept mntNs before
    · rw [← same]
      rcases lookup_insert_cases running with ⟨samePid, rfl⟩ | ⟨_, before⟩
      · rw [samePid] at phase
        exact ⟨known, spared phase⟩
      · exact kept _ (System.aims_openNs phase before)

theorem Separate.exit {system : System} (separate : Separate system) (pid : Pid) :
    Separate { system with processes := system.processes.erase pid } := by
  constructor
  case init => exact separate.init
  case known =>
    intro other found running
    exact separate.known other found (lookup_erase_some running)
  case aimed =>
    intro mntNs aims
    have before : system.aims mntNs := by
      rcases system.aims_cases aims rfl with
        before | ⟨opening, found, phase, running, rfl⟩
      · exact before
      · exact System.aims_openNs phase (lookup_erase_some running)
    obtain ⟨below, unshared⟩ := separate.aimed mntNs before
    refine ⟨below, Bool.eq_false_iff.mpr ?_⟩
    intro shared
    rw [sharedNs_erase shared] at unshared
    exact absurd unshared Bool.noConfusion

/-! ### Steps of hidesu -/

def Phase.aiming : Phase → Bool
  | .openNs _ => true
  | .setNs _ _ => true
  | .unmountSbin _ => true
  | .openMounts _ => true
  | .readMounts => true
  | _ => false

theorem System.aims_aiming {system : System} {mntNs : MntNs} (aims : system.aims mntNs) :
    system.hidesu.phase.aiming = true := by
  unfold System.aims at aims
  cases phase : system.hidesu.phase <;> rw [phase] at aims <;> first | rfl | exact absurd aims id

theorem Program.resume_aiming (hidesu : Program) : hidesu.resume.phase.aiming = false := by
  unfold Program.resume
  cases hidesu.feof with
  | false => rfl
  | true => rfl

theorem Program.handle_aiming (hidesu : Program) : hidesu.handle.phase.aiming = false := by
  unfold Program.handle
  split
  · split
    · rfl
    · exact hidesu.resume_aiming
  · exact hidesu.resume_aiming

theorem Program.prepared_aiming (hidesu : Program) (which : Zygote) :
    (hidesu.prepared which).phase.aiming = false := by
  cases which with
  | zygote => rfl
  | zygote64 => rfl

def System.chooses (system : System) (mntNs : MntNs) : Prop :=
  ∃ pid process, system.hidesu.phase = .waitOwnNs pid ∧
    system.processes.lookup pid = some process ∧ process.mntNs = mntNs ∧
    system.hidesu.names.isZygoteNs mntNs = false

/-- What a step of hidesu leaves alone, and how a namespace comes to be chosen. -/
structure Moves (before after : System) : Prop where
  processes : after.processes = before.processes
  made : after.made = before.made
  aims : ∀ mntNs, after.aims mntNs → before.aims mntNs ∨ before.chooses mntNs

theorem Moves.quiet {before after : System} (processes : after.processes = before.processes)
    (made : after.made = before.made) (quiet : after.hidesu.phase.aiming = false) :
    Moves before after := by
  constructor
  case processes => exact processes
  case made => exact made
  case aims =>
    intro mntNs aims
    rw [System.aims_aiming aims] at quiet
    exact absurd quiet Bool.noConfusion

theorem System.goesOn_quiet {system after : System} {next : Program}
    (quiet : next.phase.aiming = false) (taken : system.goesOn next = some after) :
    Moves system after := by
  cases taken
  exact .quiet rfl rfl quiet

theorem System.goesOn_aiming {system after : System} {next : Program}
    (aims : ∀ mntNs, System.aims { system with hidesu := next } mntNs →
      system.aims mntNs ∨ system.chooses mntNs)
    (taken : system.goesOn next = some after) : Moves system after := by
  cases taken
  exact ⟨rfl, rfl, aims⟩

theorem System.goesOn_kept {system after : System} {next : Program}
    (kept : ∀ mntNs, System.aims { system with hidesu := next } mntNs → system.aims mntNs)
    (taken : system.goesOn next = some after) : Moves system after :=
  System.goesOn_aiming (fun mntNs aims => .inl (kept mntNs aims)) taken

theorem System.hidesuStep_moves {system after : System} {result : Result}
    (taken : system.hidesuStep result = some after) : Moves system after := by
  unfold System.hidesuStep at taken
  cases phase : system.hidesu.phase with
  | start =>
      simp only [phase] at taken
      split at taken <;> exact System.goesOn_quiet rfl taken
  | findZygote =>
      simp only [phase] at taken
      split at taken
      · exact System.goesOn_quiet rfl taken
      · exact System.goesOn_quiet (by rw [phase]; rfl) taken
  | prepareZygoteNs which pid =>
      simp only [phase] at taken
      split at taken
      · exact System.goesOn_quiet (by rw [phase]; rfl) taken
      · split at taken
        · exact System.goesOn_quiet rfl taken
        · exact System.goesOn_quiet rfl taken
  | joinZygoteNs which pid =>
      simp only [phase] at taken
      split at taken <;> exact System.goesOn_quiet (Program.prepared_aiming _ which) taken
  | findZygote64 i =>
      simp only [phase] at taken
      split at taken
      · exact System.goesOn_quiet rfl taken
      · split at taken <;> exact System.goesOn_quiet rfl taken
  | loop =>
      simp only [phase] at taken
      split at taken
      · exact System.goesOn_quiet (Program.handle_aiming _) taken
      · cases taken
      · cases taken
        exact .quiet rfl rfl (Program.handle_aiming _)
  | disableSu pid =>
      simp only [phase] at taken
      split at taken
      · exact System.goesOn_quiet (Program.resume_aiming _) taken
      · exact System.goesOn_quiet rfl taken
  | waitOwnNs pid =>
      simp only [phase] at taken
      cases running : system.processes.lookup pid with
      | none =>
          simp only [running] at taken
          exact System.goesOn_quiet (by rw [phase]; rfl) taken
      | some process =>
          simp only [running] at taken
          cases still : system.hidesu.names.isZygoteNs process.mntNs with
          | true =>
              rw [still, if_pos rfl] at taken
              exact System.goesOn_quiet (by rw [phase]; rfl) taken
          | false =>
              rw [still, if_neg Bool.false_ne_true] at taken
              apply System.goesOn_aiming ?_ taken
              intro mntNs aims
              obtain ⟨found, same, rfl⟩ := aims
              rw [running] at same
              cases same
              exact .inr ⟨pid, process, phase, running, rfl, still⟩
  | openNs pid =>
      simp only [phase] at taken
      split at taken
      · rename_i process running
        apply System.goesOn_kept ?_ taken
        intro mntNs aims
        simp only [System.aims, phase]
        exact ⟨process, running, aims⟩
      · exact System.goesOn_quiet (Program.resume_aiming _) taken
  | setNs fd pid =>
      simp only [phase] at taken
      split at taken
      · apply System.goesOn_kept ?_ taken
        intro mntNs aims
        simp only [System.aims, phase]
        exact aims
      · exact System.goesOn_quiet (Program.resume_aiming _) taken
  | unmountSbin pid =>
      simp only [phase] at taken
      apply System.goesOn_kept ?_ taken
      intro mntNs aims
      simp only [System.aims, phase]
      exact aims
  | openMounts pid =>
      simp only [phase] at taken
      split at taken
      · apply System.goesOn_kept ?_ taken
        intro mntNs aims
        simp only [System.aims, phase]
        exact aims
      · exact System.goesOn_quiet (Program.resume_aiming _) taken
  | readMounts =>
      simp only [phase] at taken
      split at taken
      · apply System.goesOn_kept ?_ taken
        intro mntNs aims
        exact aims
      · exact System.goesOn_quiet (Program.resume_aiming _) taken
  | ended =>
      simp only [phase] at taken
      cases taken

theorem System.chooses_unshared {system : System} {result : Result}
    (spares : system.spares (.hidesu result) = true) {mntNs : MntNs}
    (chooses : system.chooses mntNs) : sharedNs system.processes mntNs = false := by
  obtain ⟨pid, process, phase, running, rfl, missed⟩ := chooses
  unfold System.spares at spares
  simp only [phase, running, Option.all_some, missed, Bool.false_or] at spares
  rw [Bool.not_eq_true'] at spares
  exact spares

theorem Separate.hidesu {system after : System} (separate : Separate system) {result : Result}
    (spares : system.spares (.hidesu result) = true)
    (taken : system.hidesuStep result = some after) : Separate after := by
  have moves := System.hidesuStep_moves taken
  constructor
  case init =>
    rw [moves.made]
    exact separate.init
  case known =>
    rw [moves.processes, moves.made]
    exact separate.known
  case aimed =>
    intro mntNs aims
    rw [moves.processes, moves.made]
    rcases moves.aims mntNs aims with before | chooses
    · exact separate.aimed mntNs before
    · have unshared := System.chooses_unshared spares chooses
      obtain ⟨pid, process, _, running, rfl, _⟩ := chooses
      exact ⟨separate.known pid process running, unshared⟩

/-! ### Steps of the system -/

theorem Separate.start {system after : System} (separate : Separate system) {which : Zygote}
    {pid : Pid} (spares : system.spares (.start which pid) = true)
    (taken : system.step (.start which pid) = some after) : Separate after := by
  unfold System.step at taken
  dsimp only at taken
  split at taken
  · cases taken
    refine separate.insert (Nat.le_succ _) (Nat.lt_succ_self _) (fun _ => .inl (Nat.le_refl _)) ?_
    intro phase
    simp [System.spares, phase] at spares
  · cases taken

theorem Separate.fork {system after : System} (separate : Separate system) {zygote pid : Pid}
    {processName : Text} (spares : system.spares (.fork zygote pid processName) = true)
    (taken : system.step (.fork zygote pid processName) = some after) : Separate after := by
  unfold System.step at taken
  dsimp only at taken
  split at taken
  · cases taken
  · rename_i parent running
    split at taken
    · cases taken
      refine separate.insert (Nat.le_refl _) (separate.known zygote parent running) nofun ?_
      intro phase
      simp [System.spares, phase] at spares
    · cases taken

theorem Separate.unshare {system after : System} (separate : Separate system) {pid : Pid}
    (taken : system.step (.unshare pid) = some after) : Separate after := by
  unfold System.step at taken
  dsimp only at taken
  split at taken
  · cases taken
  · rename_i process running
    split at taken
    · rename_i role
      cases taken
      refine separate.insert (Nat.le_succ _) (Nat.lt_succ_self _) ?_ ?_
      · intro zygote
        rw [role] at zygote
        cases zygote
      · intro _
        apply Bool.eq_false_iff.mpr
        intro shared
        rcases sharedNs_insert shared with ⟨zygote, _⟩ | before
        · rw [role] at zygote
          cases zygote
        · rw [separate.made_unshared] at before
          cases before
    · cases taken

theorem Separate.rename {system after : System} (separate : Separate system) {pid : Pid}
    {cmdline : Text} (taken : system.step (.rename pid cmdline) = some after) :
    Separate after := by
  unfold System.step at taken
  dsimp only at taken
  split at taken
  · cases taken
  · rename_i process running
    cases taken
    have own : process.role.isZygote = true →
        sharedNs system.processes process.mntNs = true := by
      intro zygote
      exact (sharedNs_iff _ _).mpr (.inr ⟨pid, process, running, zygote, rfl⟩)
    refine separate.insert (Nat.le_refl _) (separate.known pid process running)
      (fun zygote => .inr (own zygote)) ?_
    intro phase
    have unshared := (separate.aimed _ (System.aims_openNs phase running)).2
    apply Bool.eq_false_iff.mpr
    intro shared
    rcases sharedNs_insert shared with ⟨zygote, _⟩ | before
    · rw [own zygote] at unshared
      cases unshared
    · rw [before] at unshared
      cases unshared

theorem Separate.spawn {system after : System} (separate : Separate system) {pid : Pid}
    {mntNs : MntNs} {cmdline : Text} (spares : system.spares (.spawn pid mntNs cmdline) = true)
    (taken : system.step (.spawn pid mntNs cmdline) = some after) : Separate after := by
  unfold System.step at taken
  dsimp only at taken
  split at taken
  · rename_i free
    cases taken
    refine separate.insert (Nat.le_refl _) free.2 nofun ?_
    intro phase
    simp [System.spares, phase] at spares
    apply Bool.eq_false_iff.mpr
    intro shared
    rcases sharedNs_insert shared with ⟨zygote, _⟩ | before
    · cases zygote
    · rw [spares] at before
      cases before
  · cases taken

theorem Separate.step {system after : System} (action : Action) (separate : Separate system)
    (spares : system.spares action = true) (taken : system.step action = some after) :
    Separate after := by
  cases action with
  | start which pid => exact separate.start spares taken
  | fork zygote pid processName => exact separate.fork spares taken
  | unshare pid => exact separate.unshare taken
  | rename pid cmdline => exact separate.rename taken
  | spawn pid mntNs cmdline => exact separate.spawn spares taken
  | exit pid =>
      unfold System.step at taken
      dsimp only at taken
      split at taken
      · cases taken
      · cases taken
        exact separate.exit pid
  | hidesu result => exact separate.hidesu spares taken

/-! ### Behind the wait -/

/-- Whatever lives behind the pid when it is opened, `/sbin` is unmounted there. -/
theorem System.openNs_unmounts (system : System) {pid : Pid} {process : Process}
    (phase : system.hidesu.phase = .openNs pid)
    (running : system.processes.lookup pid = some process) :
    ∃ final, run System.step system [.hidesu .ok, .hidesu .ok] = some final ∧
      final.processes = system.processes ∧ final.hidesu.mntNs = process.mntNs ∧
      final.umount2 .ok = some "/sbin".toList := by
  have opened : system.step (.hidesu .ok) =
      system.goesOn { system.hidesu with phase := .setNs process.mntNs pid } := by
    simp only [System.step, System.hidesuStep, phase, running]
  refine ⟨{ system with
    hidesu := { system.hidesu with mntNs := process.mntNs, phase := .unmountSbin pid } },
    ?_, rfl, rfl, rfl⟩
  unfold run
  rw [opened]
  rfl

/-- A pid in a namespace that is not recorded is not waited for, shared or not. -/
theorem System.waitOwnNs_unmounts {system : System} {pid : Pid} {process : Process}
    (phase : system.hidesu.phase = .waitOwnNs pid)
    (running : system.processes.lookup pid = some process)
    (missed : system.hidesu.names.isZygoteNs process.mntNs = false) :
    ∃ final, run System.step system (List.replicate 3 (.hidesu .ok)) = some final ∧
      final.processes = system.processes ∧ final.hidesu.mntNs = process.mntNs ∧
      final.umount2 .ok = some "/sbin".toList := by
  have left : system.step (.hidesu .ok) =
      some { system with hidesu := { system.hidesu with phase := .openNs pid } } := by
    simp only [System.step, System.hidesuStep, System.goesOn, phase, running, missed,
      Bool.false_eq_true, if_false]
  obtain ⟨final, reached, kept, own, issued⟩ := System.openNs_unmounts
    { system with hidesu := { system.hidesu with phase := .openNs pid } } rfl running
  refine ⟨final, ?_, kept, own, issued⟩
  change (system.step (.hidesu .ok)).bind _ = _
  rw [left]
  exact reached

/-! ### Runs -/

theorem System.umount2_aims {system : System} {result : Result} {path : Text}
    (issued : system.umount2 result = some path) : system.aims system.hidesu.mntNs := by
  unfold System.umount2 at issued
  unfold System.aims
  split at issued
  · rename_i phase
    rw [phase]
  · rename_i phase
    rw [phase]
  · cases issued

/-- In a run of which every step spares the shared namespaces, every `umount2` of
`disableSu` is made in a namespace that is neither that of init nor that of a running
zygote. -/
theorem unmounts_in_private_namespace {booted final : System} (starts : booted.Starts)
    {actions : List Action} (spares : meets System.step System.spares booted actions = true)
    (reached : run System.step booted actions = some final) {result : Result} {path : Text}
    (issued : final.umount2 result = some path) :
    final.hidesu.mntNs ≠ initMntNs ∧ ∀ pid process,
      final.processes.lookup pid = some process → process.role.isZygote = true →
        process.mntNs ≠ final.hidesu.mntNs := by
  have separate : Separate final := invariant_of_meets
    (fun _ action _ before met taken => before.step action met taken)
    (Separate.initially starts) spares reached
  have unshared := (separate.aimed _ (System.umount2_aims issued)).2
  have apart : ¬ sharedNs final.processes final.hidesu.mntNs = true := by
    rw [unshared]
    exact Bool.false_ne_true
  rw [sharedNs_iff] at apart
  constructor
  · intro same
    exact apart (.inl same)
  · intro pid process running zygote same
    exact apart (.inr ⟨pid, process, running, zygote, same⟩)

def bootedSystem : System where
  processes := ((∅ : ProcessTable).insert 2 ⟨.zygote .zygote, "zygote".toList, 1⟩).insert 3
    ⟨.zygote .zygote64, "zygote64".toList, 2⟩
  events := []
  made := 3
  hidesu := ⟨.start, initMntNs, ⟨none, none, none⟩, none, false⟩

theorem bootedSystem_starts : bootedSystem.Starts := by
  constructor
  case known =>
    intro pid process running
    rcases lookup_insert_cases running with ⟨_, rfl⟩ | ⟨_, before⟩
    · decide
    · rcases lookup_insert_cases before with ⟨_, rfl⟩ | ⟨_, none⟩
      · decide
      · rw [AList.lookup_empty] at none
        cases none
  all_goals decide

def setUp : List Action :=
  List.replicate 7 (.hidesu .ok)

def serve : List Action :=
  List.replicate 5 (.hidesu .ok)

def appStart : List Action :=
  setUp ++ [.fork 2 10 "com.att.tv".toList, .unshare 10] ++ serve

theorem appStart_unmounts_privately :
    ∃ final, run System.step bootedSystem appStart = some final ∧
      final.umount2 .ok = some "/sbin".toList ∧
      final.hidesu.mntNs ≠ initMntNs ∧ ∀ pid process,
        final.processes.lookup pid = some process → process.role.isZygote = true →
          process.mntNs ≠ final.hidesu.mntNs := by
  have unmounts : (run System.step bootedSystem appStart).map (fun final => final.umount2 .ok) =
      some (some "/sbin".toList) := by decide
  obtain ⟨final, reached, issued⟩ := Option.map_eq_some_iff.mp unmounts
  exact ⟨final, reached, issued, unmounts_in_private_namespace bootedSystem_starts
    (by decide) reached issued⟩

def zygoteRestart : List Action :=
  setUp ++ [.exit 2, .start .zygote 4, .fork 4 10 "com.att.tv".toList] ++ serve

theorem zygoteRestart_unmounts_in_zygote :
    bootedSystem.Starts ∧ ∃ final, run System.step bootedSystem zygoteRestart = some final ∧
      final.umount2 .ok = some "/sbin".toList ∧
      ∃ process, final.processes.lookup 4 = some process ∧
        process.role = .zygote .zygote ∧ process.mntNs = final.hidesu.mntNs := by
  have unmounts : (run System.step bootedSystem zygoteRestart).map (fun final =>
      (final.umount2 .ok, final.processes.lookup 4, final.hidesu.mntNs)) =
      some (some "/sbin".toList, some ⟨.zygote .zygote, "zygote".toList, 3⟩, 3) := by decide
  obtain ⟨final, reached, facts⟩ := Option.map_eq_some_iff.mp unmounts
  obtain ⟨issued, others⟩ := Prod.mk.inj facts
  obtain ⟨running, own⟩ := Prod.mk.inj others
  exact ⟨bootedSystem_starts, final, reached, issued, _, running, rfl, own.symm⟩

end SuperBootimg.Concrete.Hidesu
