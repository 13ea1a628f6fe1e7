/-
changes.sh behind its options: the rules for su, and the files that it edits.
-/

import SuperBootimg.Concrete.ScriptOptions
import SuperBootimg.Concrete.SuRights

namespace SuperBootimg.Concrete.Scripts

open ExitOnError
open ExitOnError.Command (steps forEach onlyIf)
open Sepolicy (Text)

/-! ### The policy -/

section

variable (version : Version) (modes : Modes)

def userPolicy : List (Command Action) := [
  inject version (.createType .su),
  inject version (.createType .suDevice),
  inject version (.createType .suDaemon),
  inject version (.autoTransition .suDaemon .device .file .suDevice),
  inject version (.autoTransition .suDaemon .device .dir .suDevice),
  allow version [.suDevice] [.tmpfs] .filesystem [.associate],
  allowSuClient version .shell,
  allowSuClient version .untrustedApp,
  allowSuClient version .platformApp,
  allowSuClient version .systemApp,
  allowSuClient version .su,
  .andAlso (atLeast version 24) (allowSuClient version .privApp),
  .andAlso (inject version (.findType .ssdTool))
    (allowSuClient version .ssdTool),
  allow version [.init] [.suDaemon] .process [.transition],
  noaudit version [.init] [.suDaemon] .process [.rlimitinh, .siginh, .noatsecure],
  suDaemonRights version,
  allowLog version .su,
  suRights version .su,
  suL0 version .su,
  suL1 version .su,
  suL3 version .su,
  inject version (.addAttribute .mlstrustedobject .suDevice),
  inject version (.addAttribute .mlstrustedsubject .suDaemon),
  inject version (.addAttribute .mlstrustedsubject .su)]

def powerRights : Command Action :=
  steps [
    suL6 version,
    suL8 version .su,
    suL9 version .su]

def powerPolicy : Command Action :=
  onlyIf (.status (decide (modes.selinuxmode = .power ∨ modes.selinuxmode = .eng)))
    (powerRights version)

def engPolicy : Command Action :=
  onlyIf (.status (decide (modes.selinuxmode = .eng)))
    (inject version (.permissive .su))

def sysinitPolicy : Command Action :=
  onlyIf (.status modes.permissivesysinit)
    (inject version (.permissive .sysinit))

def policyChanges : Command Action :=
  steps (userPolicy version ++
    [powerPolicy version modes, engPolicy version modes, sysinitPolicy version modes])

/-! ### The files -/

def fstabChange (name : Text) : Command Action :=
  steps [
    .simple (.copy name (name ++ ".orig")),
    .conditional (.status (decide (modes.nocrypt = .nocrypt)))
      (steps [
        .simple (.sed (.dropDataFlag "encryptable=") name),
        .simple (.sed (.dropDataFlag "forceencrypt=") name),
        .simple (.sed (.dropDataFlag "forcefdeorfbe=") name)])
      (onlyIf (.status (decide (modes.nocrypt = .nocryptAll))) (steps [
        .simple (.sed (.dropFlag "encryptable=") name),
        .simple (.sed (.dropFlag "forceencrypt=") name),
        .simple (.sed (.dropFlag "forcefdeorfbe=") name)])),
    onlyIf (.status modes.noverity) (steps [
      .simple (.sed .dropVerify name),
      .simple (.sed .mountWritable name)]),
    .simple (.addFile name)]

/-- A copy, edits in place, and the call of addFile. -/
theorem fstabChange_possible {name : Text} {action : Action}
    (possible : action ∈ (fstabChange modes name).possible) :
    action = .copy name (name ++ ".orig") ∨ (∃ edit, action = .sed edit name) ∨
      action = .addFile name := by
  simp only [fstabChange, onlyIf, steps, Command.possible, List.mem_append, List.mem_cons,
    List.mem_ite_nil_left, List.not_mem_nil, and_false, or_false, false_or] at possible
  rcases possible with rfl | (⟨_, rfl | rfl | rfl⟩ | ⟨_, _, rfl | rfl | rfl⟩) |
    ⟨_, rfl | rfl⟩ | rfl
  case inl => exact .inl rfl
  case inr.inr.inr => exact .inr (.inr rfl)
  all_goals exact .inr (.inl ⟨_, rfl⟩)

def fstabChanges (fstabs : List Text) : Command Action :=
  onlyIf (.status (decide (modes.nocrypt ≠ .crypt) || modes.noverity))
    (forEach fstabs (fstabChange modes))

def samsungDomains : List PolicyType :=
  [.policyloaderApp, .systemServer, .systemApp, .installd, .init, .ueventd, .runas, .drsd,
    .debuggerd, .vold, .zygote, .auditd, .servicemanager, .itsonbs, .commonplatformappdomain]

def samsungChanges : Command Action :=
  onlyIf (.simple (.inject [] (.findType .knoxSystemApp))) (steps [
    .simple (.inject [] (.forbid .init .kernel .security [.loadPolicy])),
    forEach samsungDomains fun domain => steps [
      .orElse (.simple (.inject [] (.forbid domain .securitySpotaFile .dir [.read, .write])))
        (.status true),
      .orElse (.simple (.inject [] (.forbid domain .securitySpotaFile .file [.read, .write])))
        (.status true)],
    .simple (.inject [] (.automatic .su))])

def kernelChanges (unsupportedSelinux : Bool) : Command Action :=
  onlyIf (.status unsupportedSelinux) (steps [
    .simple (.sed (.replace "%s/enforce" "/xxenforce") "init"),
    .simple (.sed (.replace "/sys/fs/selinux/checkreqprot" "/dev_fs_selinux_checkreqprot") "init"),
    .simple (.sed (.replace "Initializing SELinux " "Initializing FFFinux ") "init"),
    .simple (.addFile "init"),
    .simple (.overwrite "1" "xxenforce"),
    .simple (.addFile "xxenforce")])

def initRcChanges (unsupportedSelinux : Bool) : List (Command Action) := [
  onlyIf (.status (!modes.keeprecovery)) (.simple (.sed .disableRecovery "init.rc")),
  .conditional (.status modes.hidesu)
    (.simple (.sed (.chmodSbin true) "init.rc"))
    (.simple (.sed (.chmodSbin false) "init.rc")),
  .simple (.append "service su /sbin/su --daemon\n\tclass main\n" "init.rc"),
  .conditional (.status (!unsupportedSelinux))
    (.simple (.append "\tseclabel u:r:su_daemon:s0\n" "init.rc"))
    (.simple (.append "\tseclabel u:r:kernel:s0\n" "init.rc")),
  .simple (.append "\n\n" "init.rc"),
  onlyIf (.status modes.hidesu) (steps [
    .simple (.install "hidesu" "sbin/hidesu"),
    .simple (.addFile "sbin/hidesu"),
    .simple (.chmod "0750" "sbin/hidesu"),
    allow version [.init] [.su] .process [.transition],
    allow version [.rootfs] [.tmpfs] .filesystem [.associate],
    .simple (.append "service hidesu /sbin/hidesu\n\tclass main\n" "init.rc"),
    .simple (.append "\tseclabel u:r:su:s0\n" "init.rc"),
    .simple (.append "\n\n" "init.rc")]),
  .simple (.addFile "init.rc")]

end

/-- What changes.sh finds: DST_ARCH, UNSUPPORTED_SELINUX, and the names that `fstab*`
stands for. -/
structure Setting where
  version : Version
  architecture : Text
  unsupportedSelinux : Bool
  fstabs : List Text

def superuserChanges : Command Action :=
  onlyIf (.simple (.isFile "init.superuser.rc")) (steps [
    .simple (.overwrite "\n" "init.superuser.rc"),
    .simple (.addFile "init.superuser.rc")])

/-- What changes.sh does behind the edit of the fstabs. -/
def laterChanges (setting : Setting) (modes : Modes) : List (Command Action) :=
  [samsungChanges, kernelChanges setting.unsupportedSelinux] ++
    initRcChanges setting.version modes setting.unsupportedSelinux ++ [superuserChanges]

def changes (setting : Setting) (arguments : List Text) : Command Action :=
  steps ([
    .simple (.install ("su-" ++ setting.architecture) "sbin/su"),
    .simple (.addFile "sbin/su"),
    .simple (.chmod "0755" "sbin/su"),
    -- One test in the script, which has no effect on files.
    onlyIf (.andAlso (.status (!setting.unsupportedSelinux)) (.simple (.isFile "sepolicy")))
      (policyChanges setting.version (readOptions arguments)),
    fstabChanges (readOptions arguments) setting.fstabs] ++
    laterChanges setting (readOptions arguments))

end SuperBootimg.Concrete.Scripts
