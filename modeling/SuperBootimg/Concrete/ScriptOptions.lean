/-
The options of changes.sh. Words are read one after the other, and each of them sets one
of the modes or none.
-/

import SuperBootimg.Concrete.FstabLines

namespace SuperBootimg.Concrete.Scripts

open Sepolicy (Text isBlank)
open Fstab (NocryptMode)

inductive SelinuxMode
  | user
  | power
  | eng
  deriving DecidableEq

@[ext] structure Modes where
  selinuxmode : SelinuxMode
  noverity : Bool
  nocrypt : NocryptMode
  keeprecovery : Bool
  hidesu : Bool
  permissivesysinit : Bool
  deriving DecidableEq

def defaultModes : Modes :=
  { selinuxmode := .user
    noverity := false
    nocrypt := .crypt
    keeprecovery := false
    hidesu := false
    permissivesysinit := false }

/-- The words in front of the branches of `case $1`. -/
inductive OptionWord
  | eng | power | user | noverity | verity | nocryptAll | nocrypt | crypt | keeprecovery | hidesu
  | permissivesysinit
  deriving DecidableEq

def OptionWord.word : OptionWord → String
  | .eng => "eng"
  | .power => "power"
  | .user => "user"
  | .noverity => "noverity"
  | .verity => "verity"
  | .nocryptAll => "nocrypt_all"
  | .nocrypt => "nocrypt"
  | .crypt => "crypt"
  | .keeprecovery => "keeprecovery"
  | .hidesu => "hidesu"
  | .permissivesysinit => "permissivesysinit"

def OptionWord.all : List OptionWord :=
  [.eng, .power, .user, .noverity, .verity, .nocryptAll, .nocrypt, .crypt, .keeprecovery, .hidesu,
    .permissivesysinit]

def branch (word : Text) : Option OptionWord :=
  OptionWord.all.find? fun option => option.word.toList == word

def readOption (modes : Modes) (word : Text) : Modes :=
  match branch word with
  | some .eng => { modes with selinuxmode := .eng }
  | some .power => { modes with selinuxmode := .power }
  | some .user => { modes with selinuxmode := .user }
  | some .noverity => { modes with noverity := true }
  | some .verity => { modes with noverity := false }
  | some .nocryptAll => { modes with nocrypt := .nocryptAll }
  | some .nocrypt => { modes with nocrypt := .nocrypt }
  | some .crypt => { modes with nocrypt := .crypt }
  | some .keeprecovery => { modes with keeprecovery := true }
  | some .hidesu => { modes with hidesu := true }
  | some .permissivesysinit => { modes with permissivesysinit := true }
  | none => modes

def readOptions (arguments : List Text) : Modes :=
  arguments.foldl readOption defaultModes

/-! ### What the words set -/

theorem branch_word (option : OptionWord) : branch option.word.toList = some option := by
  cases option <;> decide +kernel

theorem branch_eq_some {word : Text} {option : OptionWord} (found : branch word = some option) :
    word = option.word.toList := by
  have same := List.find?_some found
  exact (beq_iff_eq.mp same).symm

def setBy {γ : Type} (sets : OptionWord → Option γ) (word : Text) : Option γ :=
  (branch word).bind sets

def lastSet {γ : Type} (sets : OptionWord → Option γ) (initial : γ) (arguments : List Text) : γ :=
  (arguments.filterMap (setBy sets)).getLast?.getD initial

def setsSelinuxmode : OptionWord → Option SelinuxMode
  | .eng => some .eng
  | .power => some .power
  | .user => some .user
  | _ => none

def setsNoverity : OptionWord → Option Bool
  | .noverity => some true
  | .verity => some false
  | _ => none

def setsNocrypt : OptionWord → Option NocryptMode
  | .nocryptAll => some .nocryptAll
  | .nocrypt => some .nocrypt
  | .crypt => some .crypt
  | _ => none

theorem foldl_lastSet {σ γ : Type} {update : σ → Text → σ} {field : σ → γ}
    {sets : OptionWord → Option γ}
    (assigns : ∀ state word,
      field (update state word) = (setBy sets word).getD (field state))
    (state : σ) (arguments : List Text) :
    field (arguments.foldl update state) = lastSet sets (field state) arguments := by
  unfold lastSet
  induction arguments using List.reverseRecOn with
  | nil => rfl
  | append_singleton arguments word ih =>
      rw [List.foldl_append, List.filterMap_append]
      change field (update (arguments.foldl update state) word) = _
      rw [assigns, ih]
      cases set : setBy sets word with
      | none =>
          rw [List.filterMap_cons_none set, List.filterMap_nil, List.append_nil]
          rfl
      | some value =>
          rw [List.filterMap_cons_some set, List.filterMap_nil, List.getLast?_concat]
          rfl

/-- An option that no word takes back is on exactly when its word is there. -/
theorem foldl_flag {field : Modes → Bool} {option : OptionWord}
    (assigns : ∀ modes word, field (readOption modes word) =
      (decide (branch word = some option) || field modes))
    (modes : Modes) (arguments : List Text) :
    field (arguments.foldl readOption modes) =
      (decide (option.word.toList ∈ arguments) || field modes) := by
  induction arguments generalizing modes with
  | nil => rfl
  | cons word rest ih =>
      rw [List.foldl_cons, ih, assigns, ← Bool.or_assoc, Bool.or_comm (decide _) (decide _)]
      congr 1
      by_cases same : word = option.word.toList
      · simp [same, branch_word]
      · have other : branch word ≠ some option := fun found => same (branch_eq_some found)
        have different : option.word.toList ≠ word := fun equal => same equal.symm
        simp [other, different]

theorem readOption_eq (modes : Modes) (word : Text) :
    readOption modes word =
      { selinuxmode := (setBy setsSelinuxmode word).getD modes.selinuxmode
        noverity := (setBy setsNoverity word).getD modes.noverity
        nocrypt := (setBy setsNocrypt word).getD modes.nocrypt
        keeprecovery := decide (branch word = some .keeprecovery) || modes.keeprecovery
        hidesu := decide (branch word = some .hidesu) || modes.hidesu
        permissivesysinit :=
          decide (branch word = some .permissivesysinit) || modes.permissivesysinit } := by
  unfold readOption setBy
  cases branch word with
  | none => rfl
  | some option => cases option <;> rfl

theorem readOptions_selinuxmode (arguments : List Text) :
    (readOptions arguments).selinuxmode = lastSet setsSelinuxmode .user arguments :=
  foldl_lastSet (fun modes word => congrArg Modes.selinuxmode (readOption_eq modes word)) _ _

theorem readOptions_permissivesysinit (arguments : List Text) :
    (readOptions arguments).permissivesysinit =
      decide ("permissivesysinit".toList ∈ arguments) := by
  unfold readOptions
  rw [foldl_flag fun modes word => congrArg Modes.permissivesysinit (readOption_eq modes word)]
  exact Bool.or_false _

/-- Every group of options is decided by its last word, whatever the other words are. -/
theorem readOptions_eq (arguments : List Text) :
    readOptions arguments =
      { selinuxmode := lastSet setsSelinuxmode .user arguments
        noverity := lastSet setsNoverity false arguments
        nocrypt := lastSet setsNocrypt .crypt arguments
        keeprecovery := decide ("keeprecovery".toList ∈ arguments)
        hidesu := decide ("hidesu".toList ∈ arguments)
        permissivesysinit := decide ("permissivesysinit".toList ∈ arguments) } := by
  have fields := readOption_eq
  apply Modes.ext
  · exact readOptions_selinuxmode arguments
  · exact foldl_lastSet (fun modes word => congrArg Modes.noverity (fields modes word)) _ _
  · exact foldl_lastSet (fun modes word => congrArg Modes.nocrypt (fields modes word)) _ _
  · unfold readOptions
    rw [foldl_flag fun modes word => congrArg Modes.keeprecovery (fields modes word)]
    exact Bool.or_false _
  · unfold readOptions
    rw [foldl_flag fun modes word => congrArg Modes.hidesu (fields modes word)]
    exact Bool.or_false _
  · exact readOptions_permissivesysinit arguments

/-- What make-zip.sh writes into config.txt. -/
example : readOptions (FieldSplitting.fields isBlank "eng verity crypt\n".toList) =
    { defaultModes with selinuxmode := .eng } := by
  decide +kernel

end SuperBootimg.Concrete.Scripts
