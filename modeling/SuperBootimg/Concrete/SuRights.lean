/-
The functions of su-communication.sh and rights.sh. `$1` is the domain that a function
is called for.
-/

import SuperBootimg.Concrete.ScriptActions

namespace SuperBootimg.Concrete.Scripts

open ExitOnError
open ExitOnError.Command (steps onlyIf)

variable (version : Version) (domain : PolicyType)

/-! ### su-communication.sh -/

def allowSuClient : Command Action :=
  .call (steps [
    allow version [domain] [.rootfs] .file [.executeNoTrans, .execute],
    .andAlso (atLeast version 24) (allowFSR version [domain] [.rootfs]),
    allow version [domain] [.suDaemon] .unixStreamSocket [.connectto, .getopt],
    allow version [domain] [.suDevice] .dir [.search, .read],
    allow version [domain] [.suDevice] .sockFile [.read, .write],
    allow version [.suDaemon] [domain] .fd [.use],
    allow version [.suDaemon] [domain] .fifoFile [.read, .write, .getattr, .ioctl],
    allow version [.suDaemon] [domain] .dir [.search],
    allow version [.suDaemon] [domain] .file [.read, .openFile],
    allow version [.suDaemon] [domain] .lnkFile [.read],
    allow version [.suDaemon] [.suDaemon] .capability [.sysPtrace],
    allow version [.su] [domain] .fd [.use],
    allow version [.su] [domain] .fifoFile [.read, .write]])

def suDaemonTo : Command Action :=
  .call (steps [
    allow version [.suDaemon] [domain] .process [.transition],
    noaudit version [.suDaemon] [domain] .process [.siginh, .rlimitinh, .noatsecure]])

def suDaemonRights : Command Action :=
  .call (steps [
    allow version [.suDaemon] [.rootfs] .file [.entrypoint],
    allow version [.suDaemon] [.suDaemon] .dir [.search, .read],
    allow version [.suDaemon] [.suDaemon] .file [.read, .write, .openFile],
    allow version [.suDaemon] [.suDaemon] .lnkFile [.read],
    allow version [.suDaemon] [.suDaemon] .unixDgramSocket [.create, .connect, .write],
    allow version [.suDaemon] [.suDaemon] .unixStreamSocket createStreamSocketPerms,
    allow version [.suDaemon] [.devpts] .chrFile [.read, .write, .openFile, .getattr],
    .orElse
      (allow version [.suDaemon] [.untrustedAppDevpts] .chrFile
        [.read, .write, .openFile, .getattr])
      (.status true),
    allow version [.suDaemon] [.suDaemon] .capability [.setuid, .setgid],
    allow version [.suDaemon] [.appDataFile] .dir [.getattr, .search, .write, .addName],
    allow version [.suDaemon] [.appDataFile] .file [.getattr, .read, .openFile, .lock],
    allow version [.suDaemon] [.suDaemon] .capability [.dacOverride],
    allow version [.suDaemon] [.suDaemon] .process [.fork, .sigchld],
    .orElse
      (allow version [.suDaemon] [.toolboxExec] .file
        [.execute, .read, .openFile, .executeNoTrans])
      (.status true),
    allow version [.suDaemon] [.device] .dir [.write, .addName],
    allow version [.suDaemon] [.suDevice] .dir [.create, .setattr, .removeName, .addName],
    allow version [.suDaemon] [.suDevice] .sockFile [.create, .unlink],
    allow version [.suDaemon] [.zygoteExec] .file [.execute, .read, .openFile, .executeNoTrans],
    allow version [.suDaemon] [.zygoteExec] .lnkFile [.read, .getattr],
    allow version [.suDaemon] [.suDevice] .dir [.search, .write, .addName],
    allow version [.suDaemon] [.suDaemon] .process [.setexec],
    allow version [.suDaemon] [.shellExec] .file [.execute, .read, .openFile],
    allow version [.suDaemon] [.suDaemon] .capability [.chown],
    suDaemonTo version .su])

/-! ### rights.sh -/

/-- "Enable the app to write to logs" -/
def allowLog : Command Action :=
  .call (steps [
    .orElse (allow version [domain] [.logdwSocket] .sockFile [.write]) (.status true),
    onlyIf (allow version [domain] [.logd] .unixDgramSocket [.sendto]) (steps [
      allow version [.logd] [domain] .dir [.search],
      allow version [.logd] [domain] .file [.read, .openFile, .getattr]]),
    allow version [domain] [domain] .dir [.search, .read],
    allow version [domain] [domain] .unixDgramSocket [.create, .connect, .write],
    allow version [domain] [domain] .lnkFile [.read],
    allow version [domain] [domain] .file [.read],
    .orElse (allow version [domain] [.toolboxExec] .file [.read]) (.status true),
    allow version [domain] [.devpts] .chrFile [.read, .write, .openFile]])

/-- "Rights to be added for services/apps to talk (back) to su" -/
def suBackL0 : Command Action :=
  .call (steps [
    .andAlso (atLeast version 20)
      (allow version [.systemServer] [domain] .binder [.call, .transfer]),
    allow version [.untrustedApp] [.su] .unixStreamSocket (rwSocketPerms ++ [.connectto]),
    allow version [.surfaceflinger] [.su] .process [.sigchld]])

def suBackL6 : Command Action :=
  .call (steps [
    allowFSRWX version [.surfaceflinger] [.appDataFile],
    inject version (.addAttribute .mlstrustedsubject .surfaceflinger)])

def suBind : Command Action :=
  .call (steps [
    allow version [.suDaemon] [.suExec] .file [.mounton, .read],
    allowFSRWX version [.suDaemon] [.suDevice],
    allow version [.suDaemon] [.suDevice] .file [.relabelfrom],
    allow version [.suDaemon] [.systemFile] .file [.relabelto]])

/-- "This is the vital minimum for su to open a uid 0 shell" -/
def suRights : Command Action :=
  .call (steps [
    allow version [domain] [.suDaemon] .fd [.use],
    allow version [domain] [.suDaemon] .process [.sigchld],
    allow version [domain] [.suDaemon] .unixStreamSocket [.read, .write],
    allow version [.suDaemon] [.suDaemon] .capability [.sysAdmin],
    allow version [.servicemanager] [domain] .dir [.search, .read],
    allow version [.servicemanager] [domain] .file [.openFile, .read],
    allow version [.servicemanager] [domain] .process [.getattr],
    allow version [.servicemanager] [domain] .binder [.transfer],
    .andAlso (atLeast version 20) (allow version [.systemServer] [.su] .binder [.call]),
    allow version [domain]
      [.shellExec, .zygoteExec, .dalvikcacheDataFile, .rootfs, .systemFile] .file
      (rxFilePerms ++ [.entrypoint]),
    allow version [domain] [.dalvikcacheDataFile, .rootfs, .systemFile] .lnkFile [.read, .getattr],
    allow version [domain] [.dalvikcacheDataFile, .rootfs, .systemFile] .dir rDirPerms,
    .andAlso (atLeast version 23)
      (allow version [domain] [.toolboxExec] .file (rxFilePerms ++ [.entrypoint])),
    allow version [domain] [.devpts] .chrFile [.getattr, .ioctl],
    .andAlso (atLeast version 20)
      (allow version [domain] [.systemServer, .servicemanager] .binder [.call, .transfer]),
    .andAlso (atLeast version 23)
      (allow version [domain] [.activityService] .serviceManager [.find]),
    .conditional (atLeast version 20)
      (allow version [domain] [.untrustedAppDevpts] .chrFile
        [.read, .write, .openFile, .getattr, .ioctl])
      (allow version [domain] [.devpts] .chrFile
        [.read, .write, .openFile, .getattr, .ioctl]),
    allow version [domain] [domain] .file rwxFilePerms,
    allow version [domain] [domain] .unixStreamSocket createStreamSocketPerms,
    allow version [domain] [domain] .process
      [.sigchld, .setpgid, .setsched, .fork, .signal, .execmem, .getsched],
    allow version [domain] [domain] .fifoFile rwFilePerms])

def suReadLogs : Command Action :=
  .call (steps [
    allow version [domain] [.kernel] .system [.syslogRead, .syslogMod],
    allow version [domain] [domain] .capability2 [.syslog],
    onlyIf (atLeast version 20) (steps [
      allow version [domain] [.logdrSocket] .sockFile [.write],
      allow version [domain] [.logd] .unixStreamSocket ([.connectto] ++ rwSocketPerms)]),
    onlyIf (atLeast version 22)
      (allow version [domain] [.logcatExec] .file [.getattr, .execute])])

def suToApps : Command Action :=
  .call (steps [
    allow version [domain] [.untrustedApp] .fifoFile [.ioctl, .getattr],
    allow version [domain] [.appDataFile] .dir [.search, .getattr],
    allow version [domain] [.appDataFile] .file
      [.getattr, .execute, .read, .openFile, .executeNoTrans]])

def suFirewall : Command Action :=
  .call (steps [
    suToApps version domain,
    allow version [domain] [domain] .unixStreamSocket createStreamSocketPerms,
    allow version [domain] [domain] .rawipSocket createSocketPerms,
    allow version [domain] [domain] .udpSocket createSocketPerms,
    allow version [domain] [domain] .tcpSocket createSocketPerms,
    allow version [domain] [domain] .capability [.netRaw, .netAdmin],
    allow version [domain] [domain] .netlinkRouteSocket [.nlmsgWrite]])

def suMiscL0 : Command Action :=
  .call (steps [
    .andAlso (atLeast version 20)
      (allow version [domain] [.servicemanager] .serviceManager [.list]),
    allow version [domain] [domain] .capability [.sysNice]])

def suServicesL1 : Command Action :=
  .call (.conditional (atLeast version 23)
    (allow version [domain] [.otherServiceManagerTypes] .serviceManager [.find])
    (onlyIf (atLeast version 20)
      (allow version [domain] [.serviceManagerTypes] .serviceManager [.find])))

def suMiscL1 : Command Action :=
  .call (steps [
    allowFSRWX version [domain] [.shellDataFile],
    onlyIf (atLeast version 20) (steps [
      .andAlso (atLeast version 23) (allowFSR version [domain] [.storageFile, .mntUserFile]),
      .andAlso (atLeast version 20) (allowFSR version [domain] [.fuse])]),
    allow version [domain] [domain] .process [.ptrace]])

def suNetworkL0 : Command Action :=
  .call (steps [
    inject version (.addAttribute .netdomain .su),
    inject version (.addAttribute .bluetoothdomain .su)])

def suNetworkL1 : Command Action :=
  .call (steps [
    allow version [domain] [domain] .netlinkRouteSocket
      [.create, .setopt, .bind, .getattr, .write, .nlmsgRead, .read],
    .andAlso (atLeast version 20) (allowFSR version [.su] [.netDataFile]),
    .status true])

def suMiscL6 : Command Action :=
  .call (steps [
    .andAlso (atLeast version 24)
      (allow version [.audioserver] [.audioserver] .process [.execmem]),
    .status true])

def suMiscL8 : Command Action :=
  .call (steps [
    allow version [domain] [.systemFile] .file [.mounton],
    allow version [domain] [domain] .capability [.sysAdmin]])

def suMiscL9 : Command Action :=
  .call (steps [
    allow version [domain] [.labeledfs] .filesystem [.remount, .unmount],
    allow version [domain] [.rootfs] .filesystem [.remount],
    allowFSRW version [domain] [.blockDevice],
    allow version [domain] [.blockDevice] .blkFile rwFilePerms,
    allow version [domain] [domain] .capability [.sysAdmin]])

def suMiscL3 : Command Action :=
  .call (allow version [.mediaserver] [.mediaserverTmpfs] .file [.execute])

def suL0 : Command Action :=
  .call (steps [
    suBackL0 version domain,
    suMiscL0 version domain,
    suReadLogs version domain,
    suNetworkL0 version])

def suL1 : Command Action :=
  .call (steps [
    suMiscL1 version domain,
    suServicesL1 version domain,
    suNetworkL1 version domain])

def suL3 : Command Action :=
  .call (steps [
    suFirewall version domain,
    suBind version,
    suMiscL3 version])

def suL6 : Command Action :=
  .call (steps [
    suBackL6 version,
    suMiscL6 version])

def suL8 : Command Action :=
  .call (suMiscL8 version domain)

def suL9 : Command Action :=
  .call (steps [
    suMiscL9 version domain,
    allowFSRW version [.suDaemon] [.suDaemon],
    allowFSRW version [.suDaemon] [.systemDataFile],
    allow version [.suDaemon] [.labeledfs] .filesystem [.associate],
    allow version [.suDaemon] [.suDaemon] .process [.setfscreate],
    allow version [.suDaemon] [.tmpfs] .filesystem [.associate],
    allow version [.suDaemon] [.suDaemon] .file [.relabelfrom],
    allow version [.suDaemon] [.systemFile] .file [.mounton]])

end SuperBootimg.Concrete.Scripts
