/-
The files of the ramdisk while changes.sh edits them. The programs behind sepolicy-inject
and the commands that touch no file of the ramdisk are arbitrary.
-/

import SuperBootimg.LineRewriting
import SuperBootimg.ScriptTriples
import SuperBootimg.Concrete.FstabLines
import SuperBootimg.Concrete.InitRcEdit
import SuperBootimg.Concrete.ChangesScript

namespace SuperBootimg.Concrete.Scripts

open ExitOnError LineRewriting RegularSearch
open ExitOnError.Command (steps forEach onlyIf)
open Sepolicy (Text)
open Initramfs (isWordSymbol)

def substituted (rule : Rule Char) (text : Text) : Text :=
  onLines '\n' (substitute isWordSymbol rule) text

def Edit.apply : Edit → Text → Text
  | .dropDataFlag key => substituted (Fstab.dataRule key)
  | .dropFlag key => substituted (Fstab.allRule key)
  | .dropVerify => substituted Fstab.verifyRule
  | .mountWritable => substituted Fstab.roRule
  | .replace old new => substituted (.plain (.literal old) new)
  | .disableRecovery => InitRc.appendBehind InitRc.recoveryAddress InitRc.disabledLine
  | .chmodSbin hidesu => InitRc.appendBehind InitRc.initAddress (InitRc.chmodLine hidesu)

/-- What else the commands of changes.sh depend on. -/
structure Tools (σ : Type) where
  /-- a file of `$scriptdir/bin` -/
  program : Text → Text
  /-- sepolicy-inject on a policy -/
  inject : Text → Injection → Text → σ → Bool × Text × σ
  act : Action → σ → Bool × σ

/-- The files by name, in a file system with room for more. -/
structure Ramdisk (σ : Type) where
  files : Text → Option Text
  other : σ

namespace Ramdisk

variable {σ : Type} (tools : Tools σ)

def write (ramdisk : Ramdisk σ) (name text : Text) : Ramdisk σ :=
  { ramdisk with files := Function.update ramdisk.files name (some text) }

/-- Writes what becomes of a file, which has to be there. -/
def rewrite (source target : Text) (change : Text → Text) (ramdisk : Ramdisk σ) :
    Bool × Ramdisk σ :=
  match ramdisk.files source with
  | none => (false, ramdisk)
  | some text => (true, ramdisk.write target (change text))

def inject (suffix : Text) (injection : Injection) (ramdisk : Ramdisk σ) : Bool × Ramdisk σ :=
  match ramdisk.files "sepolicy".toList with
  | none => (false, ramdisk)
  | some policy =>
      ((tools.inject suffix injection policy ramdisk.other).1,
        { ramdisk.write "sepolicy" (tools.inject suffix injection policy ramdisk.other).2.1 with
          other := (tools.inject suffix injection policy ramdisk.other).2.2 })

def act (action : Action) (ramdisk : Ramdisk σ) : Bool × Ramdisk σ :=
  match action with
  | .inject suffix injection => inject tools suffix injection ramdisk
  | .isFile name => ((ramdisk.files name).isSome, ramdisk)
  | .install program name => (true, ramdisk.write name (tools.program program))
  | .copy source target => rewrite source target id ramdisk
  | .chmod _ name => ((ramdisk.files name).isSome, ramdisk)
  | .sed edit name => rewrite name name edit.apply ramdisk
  | .append text name => (true, ramdisk.write name ((ramdisk.files name).getD [] ++ text))
  | .overwrite text name => (true, ramdisk.write name text)
  | action =>
      ((tools.act action ramdisk.other).1,
        { ramdisk with other := (tools.act action ramdisk.other).2 })

end Ramdisk

/-! ### One file -/

def Action.touches : Action → Option Text
  | .inject _ _ => some "sepolicy".toList
  | .install _ name | .copy _ name | .sed _ name | .append _ name | .overwrite _ name => some name
  | _ => none

section Files

variable {σ : Type} {tools : Tools σ}

theorem write_same (ramdisk : Ramdisk σ) (name text : Text) :
    (ramdisk.write name text).files name = some text :=
  Function.update_self _ _ _

theorem write_other (ramdisk : Ramdisk σ) {name other : Text} (text : Text)
    (different : other ≠ name) : (ramdisk.write name text).files other = ramdisk.files other :=
  Function.update_of_ne different _ _

theorem rewrite_other (source : Text) {target name : Text} (change : Text → Text)
    (different : name ≠ target) (ramdisk : Ramdisk σ) :
    (ramdisk.rewrite source target change).2.files name = ramdisk.files name := by
  unfold Ramdisk.rewrite
  cases ramdisk.files source with
  | none => rfl
  | some text => exact write_other ramdisk _ different

theorem inject_other (suffix : Text) (injection : Injection) {name : Text}
    (different : name ≠ "sepolicy".toList) (ramdisk : Ramdisk σ) :
    (ramdisk.inject tools suffix injection).2.files name = ramdisk.files name := by
  unfold Ramdisk.inject
  cases ramdisk.files "sepolicy".toList with
  | none => rfl
  | some policy => exact write_other ramdisk _ different

theorem act_untouched {action : Action} {name : Text} (untouched : action.touches ≠ some name)
    (ramdisk : Ramdisk σ) : (ramdisk.act tools action).2.files name = ramdisk.files name := by
  have different : ∀ {touched : Text}, some touched ≠ some name → name ≠ touched :=
    fun other same => other (congrArg some same.symm)
  cases action with
  | inject suffix injection => exact inject_other _ _ (different untouched) ramdisk
  | copy source target => exact rewrite_other _ _ (different untouched) ramdisk
  | sed edit touched => exact rewrite_other _ _ (different untouched) ramdisk
  | install _ _ | append _ _ | overwrite _ _ => exact write_other ramdisk _ (different untouched)
  | _ => rfl

def Has (name : Text) (content : Option Text) (ramdisk : Ramdisk σ) : Prop :=
  ramdisk.files name = content

variable {name : Text} {content : Option Text}

theorem has_kept {command : Command Action}
    (untouched : ∀ action, action ∈ command.possible → action.touches ≠ some name) :
    Leaves (Ramdisk.act tools) (Has name content) command (Has name content) :=
  .kept fun action possible ramdisk has =>
    (act_untouched (untouched action possible) ramdisk).trans has

/-- What a run of any kind leaves of a file that its commands do not touch. -/
theorem untouched_run {command : Command Action}
    (untouched : ∀ action, action ∈ command.possible → action.touches ≠ some name)
    (checked : Bool) (ramdisk : Ramdisk σ) :
    (run (Ramdisk.act tools) command checked ramdisk).state.files name = ramdisk.files name := by
  have kept : ∀ action, action ∈ command.possible → ∀ after : Ramdisk σ,
      Has name (ramdisk.files name) after →
      Has name (ramdisk.files name) (after.act tools action).2 :=
    fun action possible after has => (act_untouched (untouched action possible) after).trans has
  exact invariant_run kept checked rfl

theorem rewrite_leaves {action : Action} {target : Text} {change : Text → Text}
    (rewrites : ∀ ramdisk : Ramdisk σ,
      ramdisk.act tools action = ramdisk.rewrite name target change) :
    Leaves (Ramdisk.act tools) (Has name content) (.simple action)
      (Has target (content.map change)) := by
  apply Leaves.simple
  intro ramdisk has success
  rw [rewrites] at success ⊢
  unfold Has at has ⊢
  unfold Ramdisk.rewrite at success ⊢
  rw [has] at success ⊢
  cases content with
  | none => cases success
  | some text => exact write_same _ _ _

theorem has_sed (edit : Edit) :
    Leaves (Ramdisk.act tools) (Has name content) (.simple (.sed edit name))
      (Has name (content.map edit.apply)) :=
  rewrite_leaves fun _ => rfl

theorem has_copy (target : Text) :
    Leaves (Ramdisk.act tools) (Has name content) (.simple (.copy name target))
      (Has target content) := by
  have copied : Leaves (Ramdisk.act tools) (Has name content) (.simple (.copy name target))
      (Has target (content.map id)) := rewrite_leaves fun _ => rfl
  rw [Option.map_id_apply] at copied
  exact copied

/-- Behind an edit of a file that is not there nothing is done. -/
theorem missing_sed (edit : Edit) (after : Ramdisk σ → Prop) :
    Leaves (Ramdisk.act tools) (Has name none) (.simple (.sed edit name)) after := by
  apply Leaves.simple
  intro ramdisk has success
  have failed : ramdisk.act tools (.sed edit name) = (false, ramdisk) := by
    change ramdisk.rewrite name name edit.apply = _
    unfold Ramdisk.rewrite
    rw [has]
  rw [failed] at success
  cases success

theorem has_append {old : Text} (text : Text) :
    Leaves (Ramdisk.act tools) (Has name (some old)) (.simple (.append text name))
      (Has name (some (old ++ text))) := by
  apply Leaves.simple
  intro ramdisk has _
  change (ramdisk.write name ((ramdisk.files name).getD [] ++ text)).files name = _
  rw [write_same, has]
  rfl

/-! ### Files that are there -/

def There (name : Text) (ramdisk : Ramdisk σ) : Prop :=
  (ramdisk.files name).isSome = true

/-- A command behind which a file is there. -/
def Action.provides (name : Text) : Action → Bool
  | .inject _ _ => decide (name = "sepolicy".toList)
  | .install _ file | .sed _ file | .append _ file | .overwrite _ file => decide (name = file)
  | .copy source _ => decide (name = source)
  | _ => false

theorem there_write (ramdisk : Ramdisk σ) (file text : Text) (there : There name ramdisk) :
    There name (ramdisk.write file text) := by
  unfold There at there ⊢
  by_cases same : name = file
  · rw [same, write_same]
    rfl
  · rw [write_other ramdisk text same]
    exact there

/-- No command takes a file away. -/
theorem there_kept (action : Action) (ramdisk : Ramdisk σ) (there : There name ramdisk) :
    There name (ramdisk.act tools action).2 := by
  have rewritten : ∀ source target change,
      There name (ramdisk.rewrite source target change).2 := by
    intro source target change
    unfold Ramdisk.rewrite
    split
    · exact there
    · exact there_write ramdisk _ _ there
  cases action with
  | inject suffix injection =>
      change There name (ramdisk.inject tools suffix injection).2
      unfold Ramdisk.inject
      split
      · exact there
      · exact there_write ramdisk _ _ there
  | copy source target => exact rewritten _ _ _
  | sed edit file => exact rewritten _ _ _
  | install _ _ | append _ _ | overwrite _ _ => exact there_write ramdisk _ _ there
  | _ => exact there

theorem there_provided {action : Action} (provides : action.provides name = true)
    (ramdisk : Ramdisk σ) (success : (ramdisk.act tools action).1 = true) :
    There name (ramdisk.act tools action).2 := by
  have written : ∀ text, There name (ramdisk.write name text) := fun text =>
    congrArg Option.isSome (write_same ramdisk name text)
  have rewritten : ∀ target change, (ramdisk.rewrite name target change).1 = true →
      There name ramdisk := by
    intro target change success
    unfold Ramdisk.rewrite at success
    unfold There
    cases content : ramdisk.files name with
    | none =>
        rw [content] at success
        cases success
    | some text => rfl
  cases action with
  | inject suffix injection =>
      cases of_decide_eq_true provides
      refine there_kept _ _ ?_
      change (ramdisk.inject tools suffix injection).1 = true at success
      unfold Ramdisk.inject at success
      unfold There
      cases content : ramdisk.files "sepolicy".toList with
      | none =>
          rw [content] at success
          cases success
      | some policy => rfl
  | copy source target =>
      cases of_decide_eq_true provides
      exact there_kept _ _ (rewritten _ _ success)
  | sed edit file =>
      cases of_decide_eq_true provides
      exact there_kept _ _ (rewritten _ _ success)
  | install _ _ | append _ _ | overwrite _ _ =>
      cases of_decide_eq_true provides
      exact written _
  | _ => cases provides

/-- Behind a script that is sure to provide a file, the file is there. -/
theorem there_ensured {command : Command Action} {before : Ramdisk σ → Prop}
    (ensured : command.ensures (Action.provides name) = true) :
    Leaves (Ramdisk.act tools) before command (There name) :=
  .of_ensured ensured (fun _ provides => there_provided provides)
    fun action _ => there_kept action

end Files

end SuperBootimg.Concrete.Scripts
