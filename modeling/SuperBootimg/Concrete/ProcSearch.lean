/-
getPidOfProc of hidesu.c on the entries of /proc, with the buffer in which a command line
is read and compared. It finds the process that the model of the system finds.
-/

import SuperBootimg.Concrete.HidesuEvents

namespace SuperBootimg.Concrete.Hidesu.Proc

open FormatScan

/-- An entry of /proc with the bytes of its cmdline, if they can be read. -/
structure DirEntry where
  dName : Text
  cmdline : Option Text
  deriving DecidableEq

/-- `dir->d_name[0]<'0' || dir->d_name[0]>'9'` -/
def DirEntry.skipped (entry : DirEntry) : Bool :=
  match entry.dName with
  | [] => true
  | first :: _ => !first.isDigit

def strtoul (abi : Abi) (text : Text) : Nat :=
  match scanDigits text with
  | none => 0
  | some (value, _) => min value (2 ^ abi.bits - 1)

/-- A blank behind the name is overwritten. -/
def cutBehind (cmd buffer : Text) : Text :=
  if cmd.length < buffer.length ∧ buffer[cmd.length]? = some ' ' then
    buffer.set cmd.length '\x00'
  else buffer

/-- What is compared with the name; of a longer command line 255 bytes are read. -/
def compared (cmd bytes : Text) : Text :=
  cString (cutBehind cmd (bytes.take 255))

def search (abi : Abi) (cmd : Text) : List DirEntry → Nat
  | [] => 0
  | entry :: rest =>
      if entry.skipped then search abi cmd rest
      else
        match entry.cmdline with
        | none => search abi cmd rest
        | some bytes =>
            if compared cmd bytes = cmd then strtoul abi entry.dName else search abi cmd rest

/-- No directory is opened where `opendir` fails. -/
def getPidOfProc (abi : Abi) (sd : Option (List DirEntry)) (cmd : Text) : Nat :=
  match sd with
  | none => 0
  | some entries => search abi cmd entries

/-! ### The comparison -/

section Comparison

variable {cmd bytes : Text}

theorem cString_append (plain : '\x00' ∉ cmd) (rest : Text) :
    cString (cmd ++ rest) = cmd ++ cString rest := by
  apply List.takeWhile_append_of_pos
  intro symbol member
  rw [bne_iff_ne]
  rintro rfl
  exact plain member

theorem cString_front (bytes : Text) : cString bytes <+: bytes :=
  List.takeWhile_prefix _

theorem cString_cons_eq_nil_iff (symbol : Char) (rest : Text) :
    cString (symbol :: rest) = [] ↔ symbol = '\x00' := by
  by_cases ends : symbol = '\x00'
  · rw [ends]
    exact ⟨fun _ => rfl, fun _ => rfl⟩
  · have taken : cString (symbol :: rest) = symbol :: cString rest :=
      List.takeWhile_cons_of_pos (bne_iff_ne.mpr ends)
    rw [taken]
    exact ⟨fun impossible => absurd impossible (List.cons_ne_nil _ _), fun same => absurd same ends⟩

theorem blank_prefix_iff (symbol : Char) (rest : Text) :
    [' '] <+: cString (symbol :: rest) ↔ symbol = ' ' := by
  by_cases ends : symbol = '\x00'
  · rw [(cString_cons_eq_nil_iff symbol rest).mpr ends, List.prefix_nil, ends]
    decide
  · have taken : cString (symbol :: rest) = symbol :: cString rest :=
      List.takeWhile_cons_of_pos (bne_iff_ne.mpr ends)
    rw [taken, List.cons_prefix_cons]
    exact ⟨fun front => front.1.symm, fun same => ⟨same.symm, List.nil_prefix⟩⟩

theorem take_cutBehind (cmd buffer : Text) :
    (cutBehind cmd buffer).take cmd.length = buffer.take cmd.length := by
  unfold cutBehind
  split
  · exact List.take_set_of_le (Nat.le_refl _)
  · rfl

theorem prefix_of_compared (same : compared cmd bytes = cmd) : cmd <+: bytes := by
  have front := cString_front (cutBehind cmd (bytes.take 255))
  unfold compared at same
  rw [same] at front
  have whole := List.prefix_iff_eq_take.mp front
  rw [take_cutBehind] at whole
  exact (List.prefix_iff_eq_take.mpr whole).trans (List.take_prefix _ _)

theorem prefix_of_called (called : isCalled cmd (cString bytes) = true) : cmd <+: bytes := by
  unfold isCalled at called
  rw [Bool.or_eq_true, beq_iff_eq, List.isPrefixOf_iff_prefix] at called
  rcases called with same | blank
  · rw [← same]
    exact cString_front bytes
  · exact ((List.prefix_append cmd [' ']).trans blank).trans (cString_front bytes)

theorem compared_self (plain : '\x00' ∉ cmd) (short : cmd.length < 255) :
    compared cmd cmd = cmd := by
  have same : cutBehind cmd cmd = cmd := if_neg fun longer => Nat.lt_irrefl _ longer.1
  have whole := cString_append plain []
  unfold compared
  rw [List.append_nil] at whole
  rw [List.take_of_length_le (Nat.le_of_lt short), same, whole]
  exact List.append_nil _

/-- The symbol behind the name decides. -/
theorem compared_append (plain : '\x00' ∉ cmd) (short : cmd.length < 255) (symbol : Char)
    (rest : Text) :
    compared cmd (cmd ++ symbol :: rest) = cmd ↔ symbol = ' ' ∨ symbol = '\x00' := by
  obtain ⟨room, size⟩ : ∃ room, 255 = cmd.length + (room + 1) := ⟨254 - cmd.length, by omega⟩
  have read : (cmd ++ symbol :: rest).take 255 = cmd ++ symbol :: rest.take room := by
    rw [size, List.take_length_add_append, List.take_succ_cons]
  have behind : (cmd ++ symbol :: rest.take room)[cmd.length]? = some symbol := by
    rw [List.getElem?_append_right (Nat.le_refl _), Nat.sub_self]
    rfl
  have longer : cmd.length < (cmd ++ symbol :: rest.take room).length := by
    rw [List.length_append, List.length_cons]
    omega
  unfold compared cutBehind
  rw [read, behind]
  by_cases blank : symbol = ' '
  · have cut : (cmd ++ symbol :: rest.take room).set cmd.length '\x00' =
        cmd ++ '\x00' :: rest.take room := by
      rw [List.set_append_right _ _ (Nat.le_refl _), Nat.sub_self, List.set_cons_zero]
    rw [if_pos ⟨longer, congrArg some blank⟩, cut, cString_append plain]
    exact ⟨fun _ => .inl blank, fun _ => List.append_nil _⟩
  · rw [if_neg fun found => blank (Option.some.inj found.2), cString_append plain,
      List.append_right_eq_self, cString_cons_eq_nil_iff, or_iff_right blank]

/-- The buffer has room for the name and the symbol behind it. -/
theorem compared_eq_iff (plain : '\x00' ∉ cmd) (short : cmd.length < 255) :
    compared cmd bytes = cmd ↔ isCalled cmd (cString bytes) = true := by
  by_cases front : cmd <+: bytes
  · obtain ⟨rest, rfl⟩ := front
    unfold isCalled
    rw [cString_append plain, Bool.or_eq_true, beq_iff_eq, List.isPrefixOf_iff_prefix,
      List.append_right_eq_self, List.prefix_append_right_inj]
    cases rest with
    | nil =>
        rw [List.append_nil]
        exact ⟨fun _ => .inl rfl, fun _ => compared_self plain short⟩
    | cons symbol rest =>
        rw [compared_append plain short, cString_cons_eq_nil_iff, blank_prefix_iff, or_comm]
  · constructor
    · exact fun same => absurd (prefix_of_compared same) front
    · exact fun called => absurd (prefix_of_called called) front

end Comparison

/-! ### The listing -/

/-- Entries that show running processes one after the other, with the first word of their
command lines and what follows it. Other entries are passed over, among them processes that
are gone when their file is opened. -/
inductive Listing : List DirEntry → List (Pid × Text) → Prop
  | nil : Listing [] []
  | other {entry : DirEntry} {rest : List DirEntry} {running : List (Pid × Text)}
      (unread : entry.skipped = true ∨ entry.cmdline = none) (later : Listing rest running) :
      Listing (entry :: rest) running
  | process {pid : Pid} {bytes : Text} {rest : List DirEntry} {running : List (Pid × Text)}
      (positive : 0 < pid) (signed : pid < 2 ^ 31) (later : Listing rest running) :
      Listing (⟨Nat.toDigits 10 pid, some bytes⟩ :: rest) ((pid, cString bytes) :: running)

def Shows (processes : ProcessTable) (entries : List DirEntry) : Prop :=
  ∃ running, Listing entries running ∧ running.Pairwise (fun one next => one.1 < next.1) ∧
    running.Perm (processes.entries.map fun entry => (entry.1, entry.2.cmdline))

section Search

variable {abi : Abi} {cmd : Text}

/-- A pid is read back from its name. -/
theorem strtoul_toDigits {pid : Pid} (signed : pid < 2 ^ 31) :
    strtoul abi (Nat.toDigits 10 pid) = pid := by
  have read := @scanDigits_digits pid [] (fun _ _ impossible => by cases impossible)
  rw [List.append_nil] at read
  have room : pid ≤ 2 ^ abi.bits - 1 := by
    apply Nat.le_trans (Nat.le_of_lt signed)
    cases abi <;> decide
  unfold strtoul
  rw [read]
  exact Nat.min_eq_left room

theorem not_skipped (pid : Pid) (cmdline : Option Text) :
    DirEntry.skipped ⟨Nat.toDigits 10 pid, cmdline⟩ = false := by
  unfold DirEntry.skipped
  cases name : Nat.toDigits 10 pid with
  | nil => exact absurd name Nat.toDigits_ne_nil
  | cons first rest =>
      have member : first ∈ Nat.toDigits 10 pid := by
        rw [name]
        exact List.mem_cons_self
      simp only [Nat.isDigit_of_mem_toDigits (by decide) (by decide) member, Bool.not_true]

/-- The search ends at the first process that is called so. -/
theorem search_eq (plain : '\x00' ∉ cmd) (short : cmd.length < 255) {entries : List DirEntry}
    {running : List (Pid × Text)} (listing : Listing entries running) :
    search abi cmd entries =
      ((running.find? fun process => isCalled cmd process.2).map Prod.fst).getD 0 := by
  induction listing with
  | nil => rfl
  | @other entry rest running unread later ih =>
      rw [← ih, search]
      rcases unread with skipped | gone
      · rw [if_pos skipped]
      · rw [gone]
        exact ite_self _
  | @process pid bytes rest running positive signed later ih =>
      rw [search, not_skipped, if_neg Bool.false_ne_true]
      simp only
      by_cases called : isCalled cmd (cString bytes) = true
      · have first : ((pid, cString bytes) :: running).find? (fun process =>
            isCalled cmd process.2) = some (pid, cString bytes) := List.find?_cons_of_pos called
        rw [if_pos ((compared_eq_iff plain short).mpr called), strtoul_toDigits signed, first]
        rfl
      · have next : ((pid, cString bytes) :: running).find? (fun process =>
            isCalled cmd process.2) = running.find? (fun process => isCalled cmd process.2) :=
          List.find?_cons_of_neg called
        rw [if_neg (mt (compared_eq_iff plain short).mp called), ih, next]

theorem Listing.positive {entries : List DirEntry} {running : List (Pid × Text)}
    (listing : Listing entries running) {process : Pid × Text} (member : process ∈ running) :
    process.1 ≠ 0 := by
  induction listing with
  | nil => cases member
  | other _ _ ih => exact ih member
  | process positive _ _ ih =>
      rcases List.mem_cons.mp member with rfl | later
      · exact Nat.ne_of_gt positive
      · exact ih later

end Search

theorem min?_eq_of_perm {first second : List Nat} (perm : first.Perm second) :
    first.min? = second.min? := by
  cases least : second.min? with
  | none =>
      rw [List.min?_eq_none_iff] at least
      rw [least] at perm
      rw [List.perm_nil.mp perm]
      rfl
  | some value =>
      rw [List.min?_eq_some_iff] at least ⊢
      exact ⟨perm.mem_iff.mpr least.1, fun other member => least.2 other (perm.mem_iff.mp member)⟩

/-- The first process in ascending order is the one with the least pid. -/
theorem find?_eq_min? {processes : ProcessTable} {running : List (Pid × Text)}
    (ascending : running.Pairwise fun one next => one.1 < next.1)
    (perm : running.Perm (processes.entries.map fun entry => (entry.1, entry.2.cmdline)))
    (cmd : Text) :
    (running.find? fun process => isCalled cmd process.2).map Prod.fst =
      Hidesu.getPidOfProc processes cmd := by
  have sorted : ((running.filter fun process => isCalled cmd process.2).map
      Prod.fst).Pairwise fun one next => min one next = one := by
    rw [List.pairwise_map]
    exact (ascending.filter _).imp fun less => Nat.min_eq_left (Nat.le_of_lt less)
  have same : ((running.filter fun process => isCalled cmd process.2).map Prod.fst).Perm
      ((processes.entries.filter fun entry => isCalled cmd entry.2.cmdline).map Sigma.fst) := by
    have filtered := (perm.filter fun process => isCalled cmd process.2).map Prod.fst
    rw [List.filter_map, List.map_map] at filtered
    exact filtered
  calc
    (running.find? fun process => isCalled cmd process.2).map Prod.fst =
        ((running.filter fun process => isCalled cmd process.2).map Prod.fst).head? := by
      rw [List.head?_map, List.head?_filter]
    _ = ((running.filter fun process => isCalled cmd process.2).map Prod.fst).min? :=
      (List.min?_eq_head? sorted).symm
    _ = Hidesu.getPidOfProc processes cmd := min?_eq_of_perm same

/-- The search through /proc finds the process with the least pid among those that are called
so, and 0 means that there is none. -/
theorem getPidOfProc_eq (abi : Abi) {processes : ProcessTable} {entries : List DirEntry}
    (shows : Shows processes entries) {cmd : Text} (plain : '\x00' ∉ cmd)
    (short : cmd.length < 255) :
    Hidesu.getPidOfProc processes cmd =
      if getPidOfProc abi (some entries) cmd = 0 then none
      else some (getPidOfProc abi (some entries) cmd) := by
  obtain ⟨running, listing, ascending, perm⟩ := shows
  have found := @search_eq abi _ plain short _ _ listing
  change _ = if search abi cmd entries = 0 then none else some (search abi cmd entries)
  rw [← find?_eq_min? ascending perm cmd, found]
  cases first : running.find? fun process => isCalled cmd process.2 with
  | none => rfl
  | some process =>
      have positive := listing.positive (List.mem_of_find?_eq_some first)
      exact (if_neg positive).symm

def zygotes : ProcessTable :=
  ((AList.singleton 1 ⟨.other, "/init".toList, 0⟩).insert 200
    ⟨.zygote .zygote64, "zygote64".toList, 1⟩).insert 201 ⟨.zygote .zygote, "zygote".toList, 2⟩

def zygotesProc : List DirEntry := [
  ⟨Nat.toDigits 10 1, some "/init".toList⟩,
  ⟨Nat.toDigits 10 200, some "zygote64".toList⟩,
  ⟨Nat.toDigits 10 201, some "zygote\x00--start\x00".toList⟩,
  ⟨"self".toList, none⟩]

theorem zygotes_shown : Shows zygotes zygotesProc :=
  ⟨_, .process (by decide) (by decide) (.process (by decide) (by decide)
      (.process (by decide) (by decide) (.other (.inl rfl) .nil))),
    by decide, by decide +kernel⟩

theorem getPidOfProc_zygotes :
    Hidesu.getPidOfProc zygotes "zygote".toList = some 201 :=
  (getPidOfProc_eq .lp64 zygotes_shown (by decide) (by decide)).trans (by decide +kernel)

end SuperBootimg.Concrete.Hidesu.Proc
