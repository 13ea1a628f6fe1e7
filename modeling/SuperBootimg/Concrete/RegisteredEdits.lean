/-
Only what is in INITRAMFS_FILES gets into the new ramdisk: changes.sh calls addFile for
every file that it edits.
-/

import SuperBootimg.AnsweredCommands
import SuperBootimg.Concrete.PolicyRuns

namespace SuperBootimg.Concrete.Scripts

open ExitOnError
open ExitOnError.Command (steps forEach onlyIf)
open Sepolicy (Text)

/-- The call that an edit needs, for edits of other files than the policy. -/
def Action.asks : Action → Option Action
  | .install _ name | .chmod _ name | .sed _ name | .append _ name | .overwrite _ name =>
      some (.addFile name)
  | _ => none

variable {σ : Type} {act : Action → σ → Bool × σ}

theorem su_answers (program : Text) : Answers act Action.asks (steps [
    .simple (.install program "sbin/su"),
    .simple (.addFile "sbin/su"),
    .simple (.chmod "0755" "sbin/su")]) := by
  apply Answers.of_ensured _ (ensures_listed (List.mem_cons_of_mem _ List.mem_cons_self))
  intro action possible
  simp only [steps, Command.possible, List.mem_append, List.mem_singleton] at possible
  rcases possible with rfl | rfl | rfl
  · exact .inr rfl
  · exact .inl rfl
  · exact .inr rfl

theorem silent_of_forAll {command : Command Action}
    (silent : command.forAll (fun action => decide (action.asks = none)) = true) :
    Answers act Action.asks command :=
  .of_silent fun _ possible => of_decide_eq_true (accepts_of_possible silent possible)

theorem policyChanges_answers (version : Version) (modes : Modes) :
    Answers act Action.asks (policyChanges version modes) :=
  silent_of_forAll rfl

theorem samsungChanges_answers : Answers act Action.asks samsungChanges :=
  silent_of_forAll rfl

theorem fstabChange_answers (modes : Modes) (name : Text) :
    Answers act Action.asks (fstabChange modes name) := by
  apply Answers.of_ensured _ (ensures_listed (List.mem_cons_of_mem _ (List.mem_cons_of_mem _
    (List.mem_cons_of_mem _ List.mem_cons_self))))
  intro action possible
  rcases fstabChange_possible modes possible with rfl | ⟨edit, rfl⟩ | rfl
  · exact .inl rfl
  · exact .inr rfl
  · exact .inl rfl

theorem fstabChanges_answers (modes : Modes) (fstabs : List Text) :
    Answers act Action.asks (fstabChanges modes fstabs) := by
  apply Answers.flagged
  apply Answers.steps
  intro command member
  obtain ⟨name, _, rfl⟩ := List.mem_map.mp member
  exact fstabChange_answers modes name

theorem kernelChanges_answers (unsupportedSelinux : Bool) :
    Answers act Action.asks (kernelChanges unsupportedSelinux) := by
  apply Answers.flagged
  have init : Answers act Action.asks (steps [
      .simple (.sed (.replace "%s/enforce" "/xxenforce") "init"),
      .simple (.sed (.replace "/sys/fs/selinux/checkreqprot" "/dev_fs_selinux_checkreqprot")
        "init"),
      .simple (.sed (.replace "Initializing SELinux " "Initializing FFFinux ") "init"),
      .simple (.addFile "init")]) := by
    apply Answers.of_ensured _ (ensures_listed (List.mem_cons_of_mem _ (List.mem_cons_of_mem _
      (List.mem_cons_of_mem _ List.mem_cons_self))))
    intro action possible
    simp only [steps, Command.possible, List.mem_append, List.mem_singleton] at possible
    rcases possible with rfl | rfl | rfl | rfl
    case inr.inr.inr => exact .inl rfl
    all_goals exact .inr rfl
  have xxenforce : Answers act Action.asks (steps [
      .simple (.overwrite "1" "xxenforce"),
      .simple (.addFile "xxenforce")]) := by
    apply Answers.of_ensured _ (ensures_listed (List.mem_cons_of_mem _ List.mem_cons_self))
    intro action possible
    simp only [steps, Command.possible, List.mem_append, List.mem_singleton] at possible
    rcases possible with rfl | rfl
    · exact .inr rfl
    · exact .inl rfl
  exact .append (List.cons_ne_nil _ _) (List.cons_ne_nil _ _) init xxenforce

/-- The edits of init.rc are registered behind the last of them. -/
theorem initRcChanges_answers (version : Version) (modes : Modes) (unsupportedSelinux : Bool) :
    Answers act Action.asks (steps (initRcChanges version modes unsupportedSelinux)) := by
  have last : .simple (.addFile "init.rc") ∈ initRcChanges version modes unsupportedSelinux := by
    simp only [initRcChanges, List.mem_cons, true_or, or_true]
  apply Answers.but_for (ensures_listed last)
  have edit : ∀ {action : Action}, action.asks = some (.addFile "init.rc") →
      Answers act (others Action.asks (.addFile "init.rc")) (.simple action) := by
    intro action asked
    apply Answers.of_silent
    intro other possible
    rw [List.mem_singleton.mp possible]
    exact others_none (.inr asked)
  apply Answers.steps
  intro command member
  simp only [initRcChanges, List.mem_cons, List.not_mem_nil, or_false] at member
  rcases member with rfl | rfl | rfl | rfl | rfl | rfl | rfl
  · exact .flagged (edit rfl)
  · exact .conditional (fun _ impossible => nomatch impossible) (edit rfl) (edit rfl)
  · exact edit rfl
  · exact .conditional (fun _ impossible => nomatch impossible) (edit rfl) (edit rfl)
  · exact edit rfl
  · apply Answers.flagged
    have hidesu : Answers act (others Action.asks (.addFile "init.rc")) (steps [
        .simple (.install "hidesu" "sbin/hidesu"),
        .simple (.addFile "sbin/hidesu"),
        .simple (.chmod "0750" "sbin/hidesu")]) := by
      apply Answers.of_ensured _ (ensures_listed (List.mem_cons_of_mem _ List.mem_cons_self))
      intro action possible
      simp only [steps, Command.possible, List.mem_append, List.mem_singleton] at possible
      rcases possible with rfl | rfl | rfl
      · exact others_some rfl
      · exact .inl (others_none (.inl rfl))
      · exact others_some rfl
    have allowed : Answers act (others Action.asks (.addFile "init.rc")) (steps [
        allow version [.init] [.su] .process [.transition],
        allow version [.rootfs] [.tmpfs] .filesystem [.associate]]) := by
      apply Answers.of_silent
      intro action possible
      have silent : (steps [allow version [.init] [.su] .process [.transition],
          allow version [.rootfs] [.tmpfs] .filesystem [.associate]]).forAll
          (fun action => decide (action.asks = none)) = true := rfl
      exact others_none (.inl (of_decide_eq_true (accepts_of_possible silent possible)))
    have service : Answers act (others Action.asks (.addFile "init.rc")) (steps [
        .simple (.append "service hidesu /sbin/hidesu\n\tclass main\n" "init.rc"),
        .simple (.append "\tseclabel u:r:su:s0\n" "init.rc"),
        .simple (.append "\n\n" "init.rc")]) :=
      .seq (edit rfl) (.seq (edit rfl) (edit rfl))
    exact .append (List.cons_ne_nil _ _) (List.cons_ne_nil _ _) hidesu
      (.append (List.cons_ne_nil _ _) (List.cons_ne_nil _ _) allowed service)
  · apply Answers.of_silent
    intro action possible
    rw [List.mem_singleton.mp possible]
    exact others_none (.inl rfl)

theorem superuserRc_answers : Answers act Action.asks
    (onlyIf (.simple (.isFile "init.superuser.rc")) (steps [
      .simple (.overwrite "\n" "init.superuser.rc"),
      .simple (.addFile "init.superuser.rc")])) := by
  apply Answers.conditional
  · intro action possible
    rw [List.mem_singleton.mp possible]
    rfl
  · apply Answers.of_ensured _ (ensures_listed (List.mem_cons_of_mem _ List.mem_cons_self))
    intro action possible
    simp only [steps, Command.possible, List.mem_append, List.mem_singleton] at possible
    rcases possible with rfl | rfl
    · exact .inr rfl
    · exact .inl rfl
  · apply Answers.of_silent
    intro action impossible
    cases impossible

theorem changes_answers (setting : Setting) (arguments : List Text) :
    Answers act Action.asks (changes setting arguments) := by
  have policy : Answers act Action.asks (onlyIf
      (.andAlso (.status (!setting.unsupportedSelinux)) (.simple (.isFile "sepolicy")))
      (policyChanges setting.version (readOptions arguments))) := by
    apply Answers.conditional _ (policyChanges_answers _ _)
    · exact .of_silent fun _ impossible => nomatch impossible
    · intro action possible
      have silent : (Command.andAlso (.status (!setting.unsupportedSelinux))
          (.simple (Action.isFile "sepolicy"))).forAll
          (fun action => decide (action.asks = none)) = true := rfl
      exact of_decide_eq_true (accepts_of_possible silent possible)
  have early : Answers act Action.asks (steps ([
      .simple (.install ("su-" ++ setting.architecture) "sbin/su"),
      .simple (.addFile "sbin/su"),
      .simple (.chmod "0755" "sbin/su")] ++ [
      onlyIf (.andAlso (.status (!setting.unsupportedSelinux)) (.simple (.isFile "sepolicy")))
        (policyChanges setting.version (readOptions arguments)),
      fstabChanges (readOptions arguments) setting.fstabs])) :=
    .append (List.cons_ne_nil _ _) (List.cons_ne_nil _ _) (su_answers _)
      (.seq policy (fstabChanges_answers _ _))
  have late : Answers act Action.asks
      (steps (laterChanges setting (readOptions arguments))) :=
    .append (List.cons_ne_nil _ _) (List.cons_ne_nil _ _)
      (.append (List.cons_ne_nil _ _) (List.cons_ne_nil _ _)
        (.seq samsungChanges_answers (kernelChanges_answers _)) (initRcChanges_answers _ _ _))
      superuserRc_answers
  exact .append (List.cons_ne_nil _ _) (List.cons_ne_nil _ _) early late

/-- Where changes.sh goes on, it has called addFile for every file of the ramdisk that it has
edited, but for the policy. -/
theorem edits_registered (act : Action → σ → Bool × σ) (setting : Setting)
    (arguments : List Text) (state : σ)
    (goesOn : (run act (changes setting arguments) true state).ending ≠ .stopped)
    (action call : Action)
    (done : action ∈ performed (run act (changes setting arguments) true state).log)
    (asked : action.asks = some call) :
    call ∈ performed (run act (changes setting arguments) true state).log := by
  exact changes_answers setting arguments state goesOn action done call asked

theorem edits_registered_once :
    .addFile "init.rc".toList ∈
      performed (run succeeding (changes plainSetting ["eng".toList]) true ()).log := by
  have goesOn : (run succeeding (changes plainSetting ["eng".toList]) true ()).ending ≠
      .stopped := by
    decide +kernel
  have appended : (changes plainSetting ["eng".toList]).ensures (fun action =>
      decide (action.asks = some (.addFile "init.rc".toList))) = true := by
    decide +kernel
  obtain ⟨action, done, asked⟩ := @ensures_performed _ _ succeeding _ _ () appended goesOn
  exact edits_registered succeeding plainSetting ["eng".toList] () goesOn action _ done
    (of_decide_eq_true asked)

end SuperBootimg.Concrete.Scripts
