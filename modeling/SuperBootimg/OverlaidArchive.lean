/-
Archives that are unpacked entry by entry, so that the last entry of a name counts, and
updates that put new entries behind an archive.
-/

import Mathlib.Data.Option.Basic

namespace SuperBootimg.OverlaidArchive

variable {α β : Type}

abbrev Archive (α β : Type) := List (α × β)

variable [DecidableEq α]

/-- Later entries overwrite the files of earlier ones. -/
def unpacked (archive : Archive α β) (name : α) : Option β :=
  archive.foldl (fun found entry => if entry.1 = name then some entry.2 else found) none

/-- The named files; none of them may be missing. -/
def archived (files : α → Option β) : List α → Option (Archive α β)
  | [] => some []
  | name :: rest =>
      (files name).bind fun content => (archived files rest).map ((name, content) :: ·)

theorem foldl_unpacked (archive : Archive α β) (name : α) (found : Option β) :
    archive.foldl (fun found entry => if entry.1 = name then some entry.2 else found) found =
      (unpacked archive name).or found := by
  unfold unpacked
  induction archive generalizing found with
  | nil => exact (Option.none_or).symm
  | cons entry rest ih =>
      rw [List.foldl_cons, List.foldl_cons, ih]
      by_cases same : entry.1 = name
      · rw [if_pos same, if_pos same, ih (some entry.2), Option.or_assoc, Option.some_or]
      · rw [if_neg same, if_neg same]

theorem unpacked_append (first second : Archive α β) (name : α) :
    unpacked (first ++ second) name = (unpacked second name).or (unpacked first name) := by
  have both := foldl_unpacked second name (unpacked first name)
  rw [← both]
  unfold unpacked
  rw [List.foldl_append]

theorem unpacked_cons (entry : α × β) (rest : Archive α β) (name : α) :
    unpacked (entry :: rest) name =
      (unpacked rest name).or (if entry.1 = name then some entry.2 else none) :=
  unpacked_append [entry] rest name

/-- Entries may be taken out where all of a name stay. -/
theorem unpacked_filter {keep : α × β → Bool} {name : α} (archive : Archive α β)
    (kept : ∀ content, keep (name, content) = true) :
    unpacked (archive.filter keep) name = unpacked archive name := by
  induction archive with
  | nil => rfl
  | cons entry rest ih =>
      rw [unpacked_cons]
      by_cases same : entry.1 = name
      · have stays : keep entry = true := by
          rw [← kept entry.2, ← same]
        rw [List.filter_cons_of_pos stays, unpacked_cons, ih]
      · rw [if_neg same, Option.or_none, ← ih, List.filter_cons]
        split
        · rw [unpacked_cons, if_neg same, Option.or_none]
        · rfl

/-- What has been archived is unpacked as it was. -/
theorem unpacked_archived {files : α → Option β} {names : List α} {archive : Archive α β}
    (packed : archived files names = some archive) (name : α) :
    unpacked archive name = if name ∈ names then files name else none := by
  induction names generalizing archive with
  | nil =>
      cases packed
      rfl
  | cons first rest ih =>
      obtain ⟨content, there, others⟩ := Option.bind_eq_some_iff.mp packed
      obtain ⟨later, behind, rfl⟩ := Option.map_eq_some_iff.mp others
      rw [unpacked_cons, ih behind]
      by_cases same : first = name
      · rw [if_pos same, if_pos (List.mem_cons.mpr (.inl same.symm)), ← same, there]
        split
        · exact Option.some_or
        · exact Option.none_or
      · rw [if_neg same, Option.or_none]
        by_cases inside : name ∈ rest
        · rw [if_pos inside, if_pos (List.mem_cons_of_mem _ inside)]
        · have outside : name ∉ first :: rest :=
            fun member => (List.mem_cons.mp member).elim (fun equal => same equal.symm) inside
          rw [if_neg inside, if_neg outside]

omit [DecidableEq α] in
theorem isSome_of_archived {files : α → Option β} {names : List α} {archive : Archive α β}
    (packed : archived files names = some archive) {name : α} (member : name ∈ names) :
    (files name).isSome = true := by
  induction names generalizing archive with
  | nil => cases member
  | cons first rest ih =>
      obtain ⟨content, there, others⟩ := Option.bind_eq_some_iff.mp packed
      obtain ⟨later, behind, _⟩ := Option.map_eq_some_iff.mp others
      rcases List.mem_cons.mp member with rfl | inside
      · rw [there]
        rfl
      · exact ih behind inside

omit [DecidableEq α] in
theorem archived_isSome {files : α → Option β} {names : List α}
    (there : ∀ name, name ∈ names → (files name).isSome = true) :
    (archived files names).isSome = true := by
  induction names with
  | nil => rfl
  | cons first rest ih =>
      obtain ⟨content, found⟩ := Option.isSome_iff_exists.mp (there first List.mem_cons_self)
      have later := ih fun name member => there name (List.mem_cons_of_mem _ member)
      obtain ⟨archive, others⟩ := Option.isSome_iff_exists.mp later
      rw [archived, found, Option.bind_some, others]
      rfl

/-- New entries behind an archive that keeps the other files. -/
theorem unpacked_update {files : α → Option β} {names : List α} {kept new : Archive α β}
    (packed : archived files names = some new) (name : α) :
    unpacked (kept ++ new) name = if name ∈ names then files name else unpacked kept name := by
  rw [unpacked_append, unpacked_archived packed]
  by_cases member : name ∈ names
  · obtain ⟨content, there⟩ := Option.isSome_iff_exists.mp (isSome_of_archived packed member)
    rw [if_pos member, if_pos member, there, Option.some_or]
  · rw [if_neg member, if_neg member, Option.none_or]

end SuperBootimg.OverlaidArchive
