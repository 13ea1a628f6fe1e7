/-
What hidesu.c is for: however often /sbin has been covered in the namespace of a zygote, an
app that disableSu has been called for sees the /sbin of the root file system, with nothing
mounted under /system/.
-/

import Mathlib.Data.List.Count
import SuperBootimg.Concrete.HidesuUnmounts
import SuperBootimg.Concrete.SbinTmpfs

namespace SuperBootimg.Concrete.Hidesu

/-! ### Covering /sbin again and again -/

def coverings (abi : Abi) (made : List SbinCalls) (ns : MountNamespace) : MountNamespace :=
  made.foldl (fun ns calls => (makeSbinTmpfs abi calls ns).2) ns

/-- At most one mount has been added, on /sbin and of a device of its own. -/
structure CoveredOnce (ns after : MountNamespace) : Prop where
  rootDevice : after.rootDevice = ns.rootDevice
  sbin : after.sbin = ns.sbin
  mounts : after.mounts = ns.mounts ∨ ∃ mounted, mounted.point = sbinPoint ∧
    mounted.device ≠ ns.rootDevice ∧ after.mounts = mounted :: ns.mounts

section Covering

variable {abi : Abi} {ns after : MountNamespace}

theorem sbinDevice_bare (bare : sbinPoint ∉ ns.points) : ns.sbinDevice = ns.rootDevice := by
  rw [MountNamespace.mem_points_iff, not_not] at bare
  unfold MountNamespace.sbinDevice
  rw [bare]

theorem sbinTree_bare (bare : sbinPoint ∉ ns.points) : ns.sbinTree = ns.sbin := by
  rw [MountNamespace.mem_points_iff, not_not] at bare
  unfold MountNamespace.sbinTree
  rw [bare]

theorem CoveredOnce.refl (ns : MountNamespace) : CoveredOnce ns ns :=
  ⟨rfl, rfl, .inl rfl⟩

/-- A call on a bare /sbin mounts one file system, or none. -/
theorem makeSbinTmpfs_bare {calls : SbinCalls} (listed : Listed ns.sbin)
    (bare : sbinPoint ∉ ns.points) (own : calls.device ≠ ns.rootDevice) :
    CoveredOnce ns (makeSbinTmpfs abi calls ns).2 := by
  rw [← sbinTree_bare bare] at listed
  obtain ⟨tree, outcome, _⟩ := makeSbinTmpfs_outcomes abi calls listed (sbinDevice_bare bare)
  rw [outcome]
  split
  · split
    · split
      · split
        · exact ⟨rfl, rfl, .inr ⟨⟨sbinPoint, calls.device, tree⟩, rfl, own, rfl⟩⟩
        · exact .refl ns
      · exact .refl ns
    · exact .refl ns
  · exact .refl ns

/-- The device of /sbin keeps further calls from mounting anything. -/
theorem makeSbinTmpfs_covered {calls : SbinCalls} {mounted : Mounted} {rest : List Mounted}
    (point : mounted.point = sbinPoint) (own : mounted.device ≠ after.rootDevice)
    (mounts : after.mounts = mounted :: rest) : (makeSbinTmpfs abi calls after).2 = after := by
  have top : after.top sbinPoint = some mounted := by
    unfold MountNamespace.top
    rw [mounts]
    exact List.find?_cons_of_pos (beq_iff_eq.mpr point)
  have device : after.sbinDevice = mounted.device := by
    unfold MountNamespace.sbinDevice
    rw [top]
  unfold makeSbinTmpfs
  rw [if_pos (by rw [device]; exact own.symm)]

theorem CoveredOnce.again {calls : SbinCalls} (listed : Listed ns.sbin)
    (bare : sbinPoint ∉ ns.points) (own : calls.device ≠ ns.rootDevice)
    (covered : CoveredOnce ns after) :
    CoveredOnce ns (makeSbinTmpfs abi calls after).2 := by
  rcases covered.mounts with same | ⟨mounted, point, device, mounts⟩
  · have whole : after = ns := by
      obtain ⟨device, sbin, mounts⟩ := after
      cases ns
      cases covered.rootDevice
      cases covered.sbin
      cases same
      rfl
    rw [whole]
    exact makeSbinTmpfs_bare listed bare own
  · rw [makeSbinTmpfs_covered point (by rw [covered.rootDevice]; exact device) mounts]
    exact covered

/-- Mounts on /sbin do not pile up. -/
theorem coverings_once {made : List SbinCalls} (listed : Listed ns.sbin)
    (bare : sbinPoint ∉ ns.points) (own : ∀ calls, calls ∈ made → calls.device ≠ ns.rootDevice) :
    CoveredOnce ns (coverings abi made ns) := by
  unfold coverings
  induction made using List.reverseRecOn with
  | nil => exact .refl ns
  | append_singleton made calls ih =>
      rw [List.foldl_append]
      have before := ih fun earlier member => own earlier (List.mem_append_left _ member)
      exact before.again listed bare (own calls (List.mem_append_right _ List.mem_cons_self))

theorem CoveredOnce.count_sbin (bare : sbinPoint ∉ ns.points) (covered : CoveredOnce ns after) :
    after.points.count sbinPoint ≤ 1 := by
  have none := List.count_eq_zero_of_not_mem bare
  unfold MountNamespace.points at none ⊢
  rcases covered.mounts with same | ⟨mounted, point, _, mounts⟩
  · rw [same, none]
    exact Nat.zero_le 1
  · rw [mounts, List.map_cons, point, List.count_cons_self, none]

/-- Other mounts are as before. -/
theorem CoveredOnce.count_other (covered : CoveredOnce ns after) {point : Text}
    (other : point ≠ sbinPoint) : after.points.count point = ns.points.count point := by
  unfold MountNamespace.points
  rcases covered.mounts with same | ⟨mounted, sbin, _, mounts⟩
  · rw [same]
  · rw [mounts, List.map_cons, sbin, List.count_cons_of_ne other.symm]

end Covering

/-! ### What is unmounted for an app -/

/-- The namespace of an app behind the calls of `umount2` made so far and some more, of which
those that fail change nothing. -/
def unmounted (umount2 : Umount2) : List Text → List Text → MountNamespace → MountNamespace
  | _, [], ns => ns
  | made, call :: rest, ns =>
      unmounted umount2 (made ++ [call]) rest
        (if umount2 made call then ns.umount2 call else ns)

section Unmounted

variable {umount2 : Umount2}

theorem unmounted_root (made calls : List Text) (ns : MountNamespace) :
    (unmounted umount2 made calls ns).sbin = ns.sbin := by
  induction calls generalizing made ns with
  | nil => rfl
  | cons call rest ih =>
      rw [unmounted, ih]
      split
      · rfl
      · rfl

/-- Where every call succeeds, each takes one mount away. -/
theorem count_unmounted {made calls : List Text}
    (succeeded : ∀ before target after, calls = before ++ target :: after →
      umount2 (made ++ before) target = true) (ns : MountNamespace) (point : Text) :
    (unmounted umount2 made calls ns).points.count point =
      ns.points.count point - calls.count point := by
  have points : (unmounted umount2 made calls ns).points = ns.points.diff calls := by
    induction calls generalizing made ns with
    | nil => rfl
    | cons call rest ih =>
        have first := succeeded [] call rest rfl
        rw [List.append_nil] at first
        rw [unmounted, if_pos first, ih, MountNamespace.umount2_points, List.diff_cons]
        intro before target after split
        rw [List.append_assoc]
        exact succeeded (call :: before) target after (congrArg (call :: ·) split)
  rw [points, List.count_diff]

/-- A result of 0 tells that no call has failed. -/
theorem unmountAll_succeeded {table : List Mount}
    (returned : (unmountAll umount2 (some (printed table))).ret = 0) :
    ∀ before target after,
      (unmountAll umount2 (some (printed table))).calls = before ++ target :: after →
        umount2 ([] ++ before) target = true := by
  have bits : ∀ index, (unmountAll umount2 (some (printed table))).ret.testBit index = false := by
    intro index
    rw [returned, Nat.zero_testBit]
  have low := bits 2
  have high := bits 4
  rw [unmountAll_printed] at low high ⊢
  obtain ⟨calls, sbin, system⟩ := @foldl_umount umount2 (table.filterMap Mount.unmounted)
    (Unmounts.umount umount2 { calls := [], ret := 0 } "/sbin".toList 4)
  rw [sbin] at low
  rw [← Bool.not_eq_true, system, not_or] at high
  intro before target after split
  rw [calls] at split
  rw [List.nil_append]
  cases before with
  | nil =>
      cases split
      -- only the first call leaves the bit 4
      cases answer : umount2 [] "/sbin".toList with
      | true => rfl
      | false =>
          unfold Unmounts.umount at low
          rw [answer] at low
          exact absurd low (by decide)
  | cons first before =>
      obtain ⟨rfl, others⟩ := List.cons.inj split
      apply eq_true_of_ne_false
      intro failed
      exact high.2 ⟨before, target, after, others, failed⟩

end Unmounted

def uncovered (umount2 : Umount2) (table : List Mount) (app : MountNamespace) : MountNamespace :=
  unmounted umount2 [] (unmountAll umount2 (some (printed table))).calls app

/-- The mount table is that of the app without its /sbin, and shows the mounts under /system/
by their names and in one piece each. -/
structure Readable (app : MountNamespace) (table : List Mount) : Prop where
  shown : (table.map Mount.point).Perm (app.umount2 sbinPoint).points
  plain : ∀ mount, mount ∈ table → ∀ target, systemPoint mount.point = some target →
    Unescaped mount.point ∧ mount.InOnePiece

theorem calls_of_readable {app : MountNamespace} {table : List Mount}
    (readable : Readable app table) (umount2 : Umount2) :
    (unmountAll umount2 (some (printed table))).calls =
      sbinPoint :: (table.map Mount.point).filterMap systemPoint := by
  have same : table.filterMap Mount.unmounted =
      table.filterMap fun mount => systemPoint mount.point :=
    List.filterMap_congr fun mount member =>
      (unmounted_eq_iff mount).mpr (readable.plain mount member)
  rw [unmountAll_printed, (foldl_umount _ _).1, same, List.filterMap_map]
  rfl

theorem count_filterMap_systemPoint (points : List Text) (point : Text) :
    (points.filterMap systemPoint).count point =
      if systemPoint point = none then 0 else points.count point := by
  induction points with
  | nil => exact (ite_self _).symm
  | cons first rest ih =>
      cases found : systemPoint first with
      | none =>
          rw [List.filterMap_cons_none found, ih]
          by_cases same : first = point
          · rw [← same, if_pos found, if_pos found]
          · rw [List.count_cons_of_ne same]
      | some target =>
          rw [List.filterMap_cons_some found, systemPoint_some found]
          by_cases same : first = point
          · have away : systemPoint first ≠ none := by
              rw [found]
              exact Option.some_ne_none _
            rw [← same] at ih ⊢
            rw [List.count_cons_self, ih, if_neg away, if_neg away, List.count_cons_self]
          · rw [List.count_cons_of_ne same, List.count_cons_of_ne same, ih]

/-- What `disableSu` leaves of the mounts of an app. -/
theorem count_disabled {app : MountNamespace} {table : List Mount}
    {umount2 : Umount2} (readable : Readable app table) (once : app.points.count sbinPoint ≤ 1)
    (returned : (unmountAll umount2 (some (printed table))).ret = 0) (point : Text) :
    (uncovered umount2 table app).points.count point =
      if point = sbinPoint ∨ systemPoint point ≠ none then 0 else app.points.count point := by
  have listed := readable.shown.count_eq point
  rw [MountNamespace.umount2_points] at listed
  unfold uncovered
  rw [count_unmounted (unmountAll_succeeded returned), calls_of_readable readable]
  by_cases sbin : point = sbinPoint
  · rw [sbin, if_pos (.inl rfl), List.count_cons_self]
    omega
  · rw [List.count_erase_of_ne sbin] at listed
    rw [List.count_cons_of_ne (Ne.symm sbin), count_filterMap_systemPoint, listed]
    by_cases system : systemPoint point = none
    · rw [if_pos system, if_neg (not_or.mpr ⟨sbin, not_not_intro system⟩), Nat.sub_zero]
    · rw [if_neg system, if_pos (.inr system), Nat.sub_self]

/-- An app has the mounts of its zygote, and more of its own. -/
def forked (added : List Mounted) (zygote : MountNamespace) : MountNamespace :=
  { zygote with mounts := added ++ zygote.mounts }

theorem count_forked (added : List Mounted) (zygote : MountNamespace) (point : Text) :
    (forked added zygote).points.count point =
      (added.map Mounted.point).count point + zygote.points.count point := by
  unfold MountNamespace.points forked
  rw [List.map_append, List.count_append]

/-- However often /sbin has been covered, `disableSu` uncovers it for an app where none of its
calls of `umount2` fails: the app sees the /sbin of the root file system, and only the mounts on
/sbin and under /system/ are gone. Mounts below /sbin, which `MNT_DETACH` takes along, are not
spoken of. -/
theorem app_uncovered (abi : Abi) (ns : MountNamespace) (made : List SbinCalls)
    (added : List Mounted) (umount2 : Umount2) (table : List Mount) (listed : Listed ns.sbin)
    (bare : sbinPoint ∉ ns.points) (own : ∀ calls, calls ∈ made → calls.device ≠ ns.rootDevice)
    (elsewhere : ∀ mounted, mounted ∈ added → mounted.point ≠ sbinPoint)
    (readable : Readable (forked added (coverings abi made ns)) table)
    (returned : (unmountAll umount2 (some (printed table))).ret = 0) :
    (uncovered umount2 table (forked added (coverings abi made ns))).sbinTree = ns.sbin ∧
      ∀ point, ¬ sbinPoint ++ ['/'] <+: point →
        (uncovered umount2 table (forked added (coverings abi made ns))).points.count point =
          if point = sbinPoint ∨ systemPoint point ≠ none then 0
          else (forked added ns).points.count point := by
  have covered := @coverings_once abi ns made listed bare own
  have absent : sbinPoint ∉ added.map Mounted.point := by
    intro member
    obtain ⟨mounted, inside, same⟩ := List.mem_map.mp member
    exact elsewhere mounted inside same
  have once : (forked added (coverings abi made ns)).points.count sbinPoint ≤ 1 := by
    rw [count_forked, List.count_eq_zero_of_not_mem absent, Nat.zero_add]
    exact covered.count_sbin bare
  have counts := count_disabled readable once returned
  constructor
  · have gone := counts sbinPoint
    rw [if_pos (.inl rfl), List.count_eq_zero] at gone
    rw [sbinTree_bare gone]
    exact (unmounted_root _ _ _).trans covered.sbin
  · intro point _
    rw [counts point]
    by_cases sbin : point = sbinPoint
    · rw [if_pos (.inl sbin), if_pos (.inl sbin)]
    · rw [count_forked, count_forked, covered.count_other sbin]

def threeStarts : List SbinCalls :=
  [{ succeeding with bindMount := false }, succeeding, { succeeding with device := 2 }]

def suMount : Mounted :=
  ⟨"/system/bin/su".toList, 7, .empty⟩

theorem app_uncovered_rootfs :
    (uncovered (fun _ _ => true) [boundMount]
      (forked [suMount] (coverings .ilp32 threeStarts rootfs))).sbinTree = rootfs.sbin := by
  have shown : ([boundMount].map Mount.point).Perm
      ((forked [suMount] (coverings .ilp32 threeStarts rootfs)).umount2 sbinPoint).points := by
    decide +kernel
  refine (app_uncovered .ilp32 rootfs threeStarts [suMount] (fun _ _ => true) [boundMount]
    rootfs_listed List.not_mem_nil (by decide) (by decide) ⟨shown, ?_⟩ (by decide +kernel)).1
  intro mount member target _
  rw [List.mem_singleton.mp member]
  exact ⟨(mangle_eq_self_iff _).mp (by decide), by decide⟩

end SuperBootimg.Concrete.Hidesu
