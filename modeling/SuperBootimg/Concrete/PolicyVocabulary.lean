/-
The words of the policy that the scripts name, and the invocations of sepolicy-inject that
the scripts make with them. The shell passes on the words that are written here.
-/

import Mathlib.Data.List.Nodup
import SuperBootimg.Concrete.SepolicyRules

namespace SuperBootimg.Concrete.Scripts

open FieldSplitting
open Sepolicy (Text Name isBlank allowInvocations noauditInvocations invocation argument)

/-! ### Words of the policy -/

/-- Types and attributes, and the targets that stand for all types of an attribute. -/
inductive PolicyType
  | su | suDaemon | suDevice | suExec | shell | untrustedApp | platformApp | systemApp
  | privApp | ssdTool | init | kernel | rootfs | tmpfs | device | devpts | fuse | labeledfs
  | blockDevice | untrustedAppDevpts | systemFile | systemDataFile | appDataFile
  | dalvikcacheDataFile | shellDataFile | netDataFile | storageFile | mntUserFile
  | mediaserverTmpfs | shellExec | zygoteExec | toolboxExec | logcatExec | logd | logdrSocket
  | logdwSocket | systemServer | servicemanager | surfaceflinger | mediaserver | audioserver
  | activityService | gatekeeperService | knoxSystemApp | sysinit | mlstrustedobject
  | mlstrustedsubject | netdomain | bluetoothdomain | securitySpotaFile | policyloaderApp
  | installd | ueventd | runas | drsd | debuggerd | vold | zygote | auditd | itsonbs
  | commonplatformappdomain
  /-- `=service_manager_type` -/
  | serviceManagerTypes
  /-- `=service_manager_type-gatekeeper_service` -/
  | otherServiceManagerTypes
  deriving DecidableEq

inductive ObjectClass
  | binder | blkFile | capability | capability2 | chrFile | dir | fd | fifoFile | file
  | filesystem | lnkFile | netlinkRouteSocket | process | rawipSocket | security
  | serviceManager | sockFile | system | tcpSocket | udpSocket | unixDgramSocket
  | unixStreamSocket
  deriving DecidableEq

inductive Permission
  | accept | addName | append | associate | bind | call | chown | connect | connectto
  | create | dacOverride | entrypoint | execmem | execute | executeNoTrans | find | fork
  | getattr | getopt | getsched | ioctl | list | listen | loadPolicy | lock | mounton
  | netAdmin | netRaw | nlmsgRead | nlmsgWrite | noatsecure | openFile | ptrace | read
  | relabelfrom | relabelto | remount | removeName | rename | rlimitinh | search | sendto
  | setattr | setexec | setfscreate | setgid | setopt | setpgid | setsched | setuid
  | shutdown | sigchld | siginh | signal | sysAdmin | sysNice | sysPtrace | syslog
  | syslogMod | syslogRead | transfer | transition | unlink | unmount | use | write
  deriving DecidableEq

def PolicyType.word : PolicyType → String
  | .su => "su"
  | .suDaemon => "su_daemon"
  | .suDevice => "su_device"
  | .suExec => "su_exec"
  | .shell => "shell"
  | .untrustedApp => "untrusted_app"
  | .platformApp => "platform_app"
  | .systemApp => "system_app"
  | .privApp => "priv_app"
  | .ssdTool => "ssd_tool"
  | .init => "init"
  | .kernel => "kernel"
  | .rootfs => "rootfs"
  | .tmpfs => "tmpfs"
  | .device => "device"
  | .devpts => "devpts"
  | .fuse => "fuse"
  | .labeledfs => "labeledfs"
  | .blockDevice => "block_device"
  | .untrustedAppDevpts => "untrusted_app_devpts"
  | .systemFile => "system_file"
  | .systemDataFile => "system_data_file"
  | .appDataFile => "app_data_file"
  | .dalvikcacheDataFile => "dalvikcache_data_file"
  | .shellDataFile => "shell_data_file"
  | .netDataFile => "net_data_file"
  | .storageFile => "storage_file"
  | .mntUserFile => "mnt_user_file"
  | .mediaserverTmpfs => "mediaserver_tmpfs"
  | .shellExec => "shell_exec"
  | .zygoteExec => "zygote_exec"
  | .toolboxExec => "toolbox_exec"
  | .logcatExec => "logcat_exec"
  | .logd => "logd"
  | .logdrSocket => "logdr_socket"
  | .logdwSocket => "logdw_socket"
  | .systemServer => "system_server"
  | .servicemanager => "servicemanager"
  | .surfaceflinger => "surfaceflinger"
  | .mediaserver => "mediaserver"
  | .audioserver => "audioserver"
  | .activityService => "activity_service"
  | .gatekeeperService => "gatekeeper_service"
  | .knoxSystemApp => "knox_system_app"
  | .sysinit => "sysinit"
  | .mlstrustedobject => "mlstrustedobject"
  | .mlstrustedsubject => "mlstrustedsubject"
  | .netdomain => "netdomain"
  | .bluetoothdomain => "bluetoothdomain"
  | .securitySpotaFile => "security_spota_file"
  | .policyloaderApp => "policyloader_app"
  | .installd => "installd"
  | .ueventd => "ueventd"
  | .runas => "runas"
  | .drsd => "drsd"
  | .debuggerd => "debuggerd"
  | .vold => "vold"
  | .zygote => "zygote"
  | .auditd => "auditd"
  | .itsonbs => "itsonbs"
  | .commonplatformappdomain => "commonplatformappdomain"
  | .serviceManagerTypes => "=service_manager_type"
  | .otherServiceManagerTypes => "=service_manager_type-gatekeeper_service"

def ObjectClass.word : ObjectClass → String
  | .binder => "binder"
  | .blkFile => "blk_file"
  | .capability => "capability"
  | .capability2 => "capability2"
  | .chrFile => "chr_file"
  | .dir => "dir"
  | .fd => "fd"
  | .fifoFile => "fifo_file"
  | .file => "file"
  | .filesystem => "filesystem"
  | .lnkFile => "lnk_file"
  | .netlinkRouteSocket => "netlink_route_socket"
  | .process => "process"
  | .rawipSocket => "rawip_socket"
  | .security => "security"
  | .serviceManager => "service_manager"
  | .sockFile => "sock_file"
  | .system => "system"
  | .tcpSocket => "tcp_socket"
  | .udpSocket => "udp_socket"
  | .unixDgramSocket => "unix_dgram_socket"
  | .unixStreamSocket => "unix_stream_socket"

def Permission.word : Permission → String
  | .accept => "accept"
  | .addName => "add_name"
  | .append => "append"
  | .associate => "associate"
  | .bind => "bind"
  | .call => "call"
  | .chown => "chown"
  | .connect => "connect"
  | .connectto => "connectto"
  | .create => "create"
  | .dacOverride => "dac_override"
  | .entrypoint => "entrypoint"
  | .execmem => "execmem"
  | .execute => "execute"
  | .executeNoTrans => "execute_no_trans"
  | .find => "find"
  | .fork => "fork"
  | .getattr => "getattr"
  | .getopt => "getopt"
  | .getsched => "getsched"
  | .ioctl => "ioctl"
  | .list => "list"
  | .listen => "listen"
  | .loadPolicy => "load_policy"
  | .lock => "lock"
  | .mounton => "mounton"
  | .netAdmin => "net_admin"
  | .netRaw => "net_raw"
  | .nlmsgRead => "nlmsg_read"
  | .nlmsgWrite => "nlmsg_write"
  | .noatsecure => "noatsecure"
  | .openFile => "open"
  | .ptrace => "ptrace"
  | .read => "read"
  | .relabelfrom => "relabelfrom"
  | .relabelto => "relabelto"
  | .remount => "remount"
  | .removeName => "remove_name"
  | .rename => "rename"
  | .rlimitinh => "rlimitinh"
  | .search => "search"
  | .sendto => "sendto"
  | .setattr => "setattr"
  | .setexec => "setexec"
  | .setfscreate => "setfscreate"
  | .setgid => "setgid"
  | .setopt => "setopt"
  | .setpgid => "setpgid"
  | .setsched => "setsched"
  | .setuid => "setuid"
  | .shutdown => "shutdown"
  | .sigchld => "sigchld"
  | .siginh => "siginh"
  | .signal => "signal"
  | .sysAdmin => "sys_admin"
  | .sysNice => "sys_nice"
  | .sysPtrace => "sys_ptrace"
  | .syslog => "syslog"
  | .syslogMod => "syslog_mod"
  | .syslogRead => "syslog_read"
  | .transfer => "transfer"
  | .transition => "transition"
  | .unlink => "unlink"
  | .unmount => "unmount"
  | .use => "use"
  | .write => "write"

theorem PolicyType.word_valid (type : PolicyType) : Name.valid type.word.toList = true := by
  cases type <;> rfl

theorem ObjectClass.word_valid (objectClass : ObjectClass) :
    Name.valid objectClass.word.toList = true := by
  cases objectClass <;> rfl

theorem Permission.word_valid (permission : Permission) :
    Name.valid permission.word.toList = true := by
  cases permission <;> rfl

def PolicyType.name (type : PolicyType) : Name :=
  .of type.word type.word_valid

def ObjectClass.name (objectClass : ObjectClass) : Name :=
  .of objectClass.word objectClass.word_valid

def Permission.name (permission : Permission) : Name :=
  .of permission.word permission.word_valid

def PolicyType.all : List PolicyType :=
  [.su, .suDaemon, .suDevice, .suExec, .shell, .untrustedApp, .platformApp, .systemApp,
    .privApp, .ssdTool, .init, .kernel, .rootfs, .tmpfs, .device, .devpts, .fuse, .labeledfs,
    .blockDevice, .untrustedAppDevpts, .systemFile, .systemDataFile, .appDataFile,
    .dalvikcacheDataFile, .shellDataFile, .netDataFile, .storageFile, .mntUserFile,
    .mediaserverTmpfs, .shellExec, .zygoteExec, .toolboxExec, .logcatExec, .logd, .logdrSocket,
    .logdwSocket, .systemServer, .servicemanager, .surfaceflinger, .mediaserver, .audioserver,
    .activityService, .gatekeeperService, .knoxSystemApp, .sysinit, .mlstrustedobject,
    .mlstrustedsubject, .netdomain, .bluetoothdomain, .securitySpotaFile, .policyloaderApp,
    .installd, .ueventd, .runas, .drsd, .debuggerd, .vold, .zygote, .auditd, .itsonbs,
    .commonplatformappdomain, .serviceManagerTypes, .otherServiceManagerTypes]

theorem PolicyType.mem_all (type : PolicyType) : type ∈ PolicyType.all := by
  cases type <;> decide

theorem PolicyType.words_nodup : (PolicyType.all.map PolicyType.word).Nodup := by
  decide +kernel

theorem PolicyType.word_injective : Function.Injective PolicyType.word :=
  fun first second =>
    List.inj_on_of_nodup_map PolicyType.words_nodup first.mem_all second.mem_all

def ObjectClass.all : List ObjectClass :=
  [.binder, .blkFile, .capability, .capability2, .chrFile, .dir, .fd, .fifoFile, .file,
    .filesystem, .lnkFile, .netlinkRouteSocket, .process, .rawipSocket, .security,
    .serviceManager, .sockFile, .system, .tcpSocket, .udpSocket, .unixDgramSocket,
    .unixStreamSocket]

theorem ObjectClass.mem_all (objectClass : ObjectClass) : objectClass ∈ ObjectClass.all := by
  cases objectClass <;> decide

theorem ObjectClass.words_nodup : (ObjectClass.all.map ObjectClass.word).Nodup := by
  decide +kernel

theorem ObjectClass.word_injective : Function.Injective ObjectClass.word :=
  fun first second =>
    List.inj_on_of_nodup_map ObjectClass.words_nodup first.mem_all second.mem_all

def Permission.all : List Permission :=
  [.accept, .addName, .append, .associate, .bind, .call, .chown, .connect, .connectto, .create,
    .dacOverride, .entrypoint, .execmem, .execute, .executeNoTrans, .find, .fork, .getattr,
    .getopt, .getsched, .ioctl, .list, .listen, .loadPolicy, .lock, .mounton, .netAdmin,
    .netRaw, .nlmsgRead, .nlmsgWrite, .noatsecure, .openFile, .ptrace, .read, .relabelfrom,
    .relabelto, .remount, .removeName, .rename, .rlimitinh, .search, .sendto, .setattr,
    .setexec, .setfscreate, .setgid, .setopt, .setpgid, .setsched, .setuid, .shutdown,
    .sigchld, .siginh, .signal, .sysAdmin, .sysNice, .sysPtrace, .syslog, .syslogMod,
    .syslogRead, .transfer, .transition, .unlink, .unmount, .use, .write]

theorem Permission.mem_all (permission : Permission) : permission ∈ Permission.all := by
  cases permission <;> decide

theorem Permission.words_nodup : (Permission.all.map Permission.word).Nodup := by
  decide +kernel

theorem Permission.word_injective : Function.Injective Permission.word :=
  fun first second =>
    List.inj_on_of_nodup_map Permission.words_nodup first.mem_all second.mem_all

/-! ### Invocations -/

inductive Injection
  | grant (source target : PolicyType) (objectClass : ObjectClass) (permissions : List Permission)
  /-- `--not` -/
  | forbid (source target : PolicyType) (objectClass : ObjectClass)
      (permissions : List Permission)
  /-- `-z` -/
  | createType (type : PolicyType)
  /-- `-f`: files that source creates in container get another type -/
  | autoTransition (source container : PolicyType) (objectClass : ObjectClass)
      (result : PolicyType)
  /-- `-a` -/
  | addAttribute (attributeType type : PolicyType)
  /-- `-Z` -/
  | permissive (type : PolicyType)
  /-- `--auto` -/
  | automatic (type : PolicyType)
  /-- `-e` -/
  | findType (type : PolicyType)
  | findClass (objectClass : ObjectClass)
  deriving DecidableEq

/-- Options with an argument each, and the file behind them. -/
def optionWords (options : List (String × Text)) : List Text :=
  (options.flatMap fun option => [option.1.toList, option.2]) ++
    ["-P".toList, "sepolicy".toList]

def permissionList (permissions : List Permission) : Text :=
  joined ',' (permissions.map fun permission => permission.name.text)

def Injection.arguments : Injection → List Text
  | .grant source target objectClass permissions =>
      optionWords [("-s", source.name.text), ("-t", target.name.text),
        ("-c", objectClass.name.text), ("-p", permissionList permissions)]
  | .forbid source target objectClass permissions =>
      "--not".toList :: optionWords [("-s", source.name.text), ("-t", target.name.text),
        ("-c", objectClass.name.text), ("-p", permissionList permissions)]
  | .createType type => optionWords [("-z", type.name.text)]
  | .autoTransition source container objectClass result =>
      optionWords [("-s", source.name.text), ("-f", container.name.text),
        ("-c", objectClass.name.text), ("-t", result.name.text)]
  | .addAttribute attributeType type =>
      optionWords [("-a", attributeType.name.text), ("-s", type.name.text)]
  | .permissive type => optionWords [("-Z", type.name.text)]
  | .automatic type => "--auto".toList :: optionWords [("-s", type.name.text)]
  | .findType type => "-e".toList :: optionWords [("-s", type.name.text)]
  | .findClass objectClass => "-e".toList :: optionWords [("-c", objectClass.name.text)]

/-! ### What the shell passes on -/

theorem invocation_eq (source target : PolicyType) (objectClass : ObjectClass)
    {permissions : Text} (single : fields isBlank permissions = [permissions]) :
    invocation source.name.text target.name.text objectClass.name.text permissions =
      optionWords [("-s", source.name.text), ("-t", target.name.text),
        ("-c", objectClass.name.text), ("-p", permissions)] := by
  unfold invocation
  rw [Sepolicy.fields_name, Sepolicy.fields_name, Sepolicy.fields_name, single]
  rfl

theorem permissionList_single {permissions : List Permission} (some : permissions ≠ []) :
    fields isBlank (permissionList permissions) = [permissionList permissions] := by
  have names : permissions.map Permission.name ≠ [] :=
    fun empty => some (List.map_eq_nil_iff.mp empty)
  have single := (Sepolicy.permission_list names).1
  rw [List.map_map] at single
  exact single

theorem permissionList_singleton (permission : Permission) :
    permissionList [permission] = permission.name.text := by
  unfold permissionList joined
  exact List.intercalate_singleton

/-- The loops of `allow` over the words of its arguments. -/
theorem allowInvocations_words (sources targets : List PolicyType) (objectClass : ObjectClass)
    {permissions : List Permission} (some : permissions ≠ []) :
    allowInvocations (argument (sources.map PolicyType.name))
        (argument (targets.map PolicyType.name)) objectClass.name.text
        (argument (permissions.map Permission.name)) =
      sources.flatMap fun source => targets.map fun target =>
        (Injection.grant source target objectClass permissions).arguments := by
  have passed : ∀ source target : PolicyType,
      invocation source.name.text target.name.text objectClass.name.text
          (joined ',' (permissions.map fun permission => permission.name.text)) =
        (Injection.grant source target objectClass permissions).arguments :=
    fun source target => invocation_eq source target objectClass (permissionList_single some)
  unfold allowInvocations
  simp only [Sepolicy.fields_argument, Sepolicy.translate_echo_argument, List.map_map,
    List.flatMap_map, Function.comp_def, passed]

/-- The loops of `noaudit`, which pass one permission at a time. -/
theorem noauditInvocations_words (sources targets : List PolicyType) (objectClass : ObjectClass)
    (permissions : List Permission) :
    noauditInvocations (argument (sources.map PolicyType.name))
        (argument (targets.map PolicyType.name)) objectClass.name.text
        (argument (permissions.map Permission.name)) =
      sources.flatMap fun source => targets.flatMap fun target => permissions.map fun permission =>
        (Injection.grant source target objectClass [permission]).arguments := by
  have passed : ∀ (source target : PolicyType) (permission : Permission),
      invocation source.name.text target.name.text objectClass.name.text permission.name.text =
        (Injection.grant source target objectClass [permission]).arguments := by
    intro source target permission
    rw [invocation_eq source target objectClass (Sepolicy.fields_name permission.name),
      ← permissionList_singleton]
    rfl
  unfold noauditInvocations
  simp only [Sepolicy.fields_argument, List.map_map, List.flatMap_map, Function.comp_def, passed]

end SuperBootimg.Concrete.Scripts
