/-
hidesu.c among the processes it watches: zygotes, apps and other processes come and go,
each in a mount namespace, while hidesu records the namespaces of the zygotes and then
serves the am_proc_start events. Signals and the contents of the mounts are left out.
-/

import SuperBootimg.GuardedRuns
import Mathlib.Data.List.AList

namespace SuperBootimg.Concrete.Hidesu

open GuardedRuns

abbrev Text := List Char
abbrev Pid := Nat

/-- Number of a mount namespace, which the links /proc/<pid>/ns/mnt name. -/
abbrev MntNs := Nat

def initMntNs : MntNs := 0

/-! ### Processes -/

inductive Zygote
  | zygote
  | zygote64
  deriving DecidableEq

def Zygote.cmdline : Zygote → Text
  | .zygote => "zygote".toList
  | .zygote64 => "zygote64".toList

inductive Role
  | zygote (which : Zygote)
  | app
  | other
  deriving DecidableEq

def Role.isZygote : Role → Bool
  | .zygote _ => true
  | _ => false

structure Process where
  role : Role
  cmdline : Text
  mntNs : MntNs
  deriving DecidableEq

abbrev ProcessTable := AList fun _ : Pid => Process

/-- The namespace is that of init or of a zygote that is running. -/
def sharedNs (processes : ProcessTable) (mntNs : MntNs) : Bool :=
  mntNs == initMntNs || processes.entries.any fun entry =>
    entry.2.role.isZygote && entry.2.mntNs == mntNs

/-- A line of the event log; only its pid and its process name are used. -/
structure Event where
  pid : Pid
  processName : Text
  deriving DecidableEq

/-! ### State of hidesu -/

/-- `init_mnt_ns`, `zygote_mnt_ns` and `zygote64_mnt_ns`, which are empty at first. -/
structure Names where
  init : Option MntNs
  zygote : Option MntNs
  zygote64 : Option MntNs
  deriving DecidableEq

def Names.set (names : Names) (which : Zygote) (mntNs : Option MntNs) : Names :=
  match which with
  | .zygote => { names with zygote := mntNs }
  | .zygote64 => { names with zygote64 := mntNs }

def Names.isZygoteNs (names : Names) (mntNs : MntNs) : Bool :=
  some mntNs == names.zygote || some mntNs == names.zygote64

/-- What hidesu does next; a pid stands for the path /proc/<pid>/ns/mnt in its buffer. -/
inductive Phase
  | start
  | findZygote
  | prepareZygoteNs (which : Zygote) (pid : Pid)
  | joinZygoteNs (which : Zygote) (pid : Pid)
  | findZygote64 (i : Nat)
  | loop
  | disableSu (pid : Pid)
  | waitOwnNs (pid : Pid)
  | openNs (pid : Pid)
  | setNs (fd : MntNs) (pid : Pid)
  | unmountSbin (pid : Pid)
  | openMounts (pid : Pid)
  | readMounts
  | ended
  deriving DecidableEq

structure Program where
  phase : Phase
  mntNs : MntNs
  names : Names
  buffer : Option Event
  feof : Bool
  deriving DecidableEq

structure System where
  processes : ProcessTable
  events : List Event
  /-- Number of the namespaces made so far. -/
  made : Nat
  hidesu : Program

/-- hidesu has just been started, among any processes and with any events logged. -/
structure System.Starts (system : System) : Prop where
  phase : system.hidesu.phase = .start
  own : system.hidesu.mntNs = initMntNs
  names : system.hidesu.names = ⟨none, none, none⟩
  buffer : system.hidesu.buffer = none
  feof : system.hidesu.feof = false
  init : initMntNs < system.made
  known : ∀ pid process, system.processes.lookup pid = some process →
    process.mntNs < system.made

/-! ### Steps of hidesu -/

def listed : List Text :=
  ["com.google.android.gms.unstable", "com.att.tv", "com.bskyb.skygo",
    "com.starfinanz.smob.android.sbanking", "com.starfinanz.smob.android.sfinanzstatus",
    "com.starfinanz.smob.android.sfinanzstatus.tablet",
    "com.airwatch.androidagent"].map String.toList

def isCalled (cmd cmdline : Text) : Bool :=
  cmdline == cmd || (cmd ++ [' ']).isPrefixOf cmdline

/-- The entries of /proc are read in ascending order. -/
def getPidOfProc (processes : ProcessTable) (cmd : Text) : Option Pid :=
  ((processes.entries.filter fun entry => isCalled cmd entry.2.cmdline).map Sigma.fst).min?

def systemMount (line : Text) : Option Text :=
  match line.dropWhile (· != ' ') with
  | [] => none
  | _ :: p =>
      let point := p.takeWhile (· != ' ')
      if point.length = p.length then none
      else if 8 < point.length && "/system/".toList.isPrefixOf point then some point
      else none

/-- How the system call of a step ends, where it is not determined by the system. -/
inductive Result
  | ok
  | failed
  | line (text : Text)
  | eof
  deriving DecidableEq

namespace Program

def resume (hidesu : Program) : Program :=
  { hidesu with phase := if hidesu.feof then .ended else .loop }

def handle (hidesu : Program) : Program :=
  match hidesu.buffer with
  | some event =>
      if event.processName ∈ listed then { hidesu with phase := .disableSu event.pid }
      else hidesu.resume
  | none => hidesu.resume

def prepared (hidesu : Program) : Zygote → Program
  | .zygote => { hidesu with phase := .findZygote64 0 }
  | .zygote64 => { hidesu with phase := .loop }

end Program

namespace System

def goesOn (system : System) (next : Program) : Option System :=
  some { system with hidesu := next }

def hidesuStep (system : System) (result : Result) : Option System :=
  let hidesu := system.hidesu
  match hidesu.phase with
  | .start =>
      if result = .ok then
        system.goesOn { hidesu with
          names := { hidesu.names with init := some hidesu.mntNs }
          phase := .findZygote }
      else system.goesOn { hidesu with phase := .ended }
  | .findZygote =>
      match getPidOfProc system.processes "zygote".toList with
      | some pid => system.goesOn { hidesu with phase := .prepareZygoteNs .zygote pid }
      | none => system.goesOn hidesu
  | .prepareZygoteNs which pid =>
      match system.processes.lookup pid with
      | none => system.goesOn hidesu
      | some process =>
          let read := { hidesu with names := hidesu.names.set which (some process.mntNs) }
          if some process.mntNs = hidesu.names.init then system.goesOn read
          else system.goesOn { read with phase := .joinZygoteNs which pid }
  | .joinZygoteNs which pid =>
      match system.processes.lookup pid, result with
      | some process, .ok => system.goesOn ({ hidesu with mntNs := process.mntNs }.prepared which)
      | _, _ => system.goesOn (hidesu.prepared which)
  | .findZygote64 i =>
      match getPidOfProc system.processes "zygote64".toList with
      | some pid => system.goesOn { hidesu with phase := .prepareZygoteNs .zygote64 pid }
      | none =>
          if i < 50 then system.goesOn { hidesu with phase := .findZygote64 (i + 1) }
          else system.goesOn { hidesu with
            names := hidesu.names.set .zygote64 none
            phase := .loop }
  | .loop =>
      match result, system.events with
      -- at the end of the stream the buffer keeps the last line, which is served again
      | .eof, _ => system.goesOn { hidesu with feof := true }.handle
      | _, [] => none
      | _, event :: rest =>
          some { system with
            events := rest
            hidesu := { hidesu with buffer := some event }.handle }
  | .disableSu pid =>
      match system.processes.lookup pid with
      | none => system.goesOn hidesu.resume
      | some _ => system.goesOn { hidesu with phase := .waitOwnNs pid }
  | .waitOwnNs pid =>
      match system.processes.lookup pid with
      | none => system.goesOn hidesu
      | some process =>
          if hidesu.names.isZygoteNs process.mntNs then system.goesOn hidesu
          else system.goesOn { hidesu with phase := .openNs pid }
  | .openNs pid =>
      match system.processes.lookup pid, result with
      | some process, .ok => system.goesOn { hidesu with phase := .setNs process.mntNs pid }
      | _, _ => system.goesOn hidesu.resume
  | .setNs fd pid =>
      if result = .ok then system.goesOn { hidesu with mntNs := fd, phase := .unmountSbin pid }
      else system.goesOn hidesu.resume
  | .unmountSbin pid => system.goesOn { hidesu with phase := .openMounts pid }
  | .openMounts pid =>
      match system.processes.lookup pid, result with
      | some _, .ok => system.goesOn { hidesu with phase := .readMounts }
      | _, _ => system.goesOn hidesu.resume
  | .readMounts =>
      match result with
      | .line _ => system.goesOn hidesu
      | _ => system.goesOn hidesu.resume
  | .ended => none

def umount2 (system : System) (result : Result) : Option Text :=
  match system.hidesu.phase, result with
  | .unmountSbin _, _ => some "/sbin".toList
  | .readMounts, .line text => systemMount text
  | _, _ => none

/-! ### Steps of the system -/

end System

inductive Action
  /-- A zygote starts, in a namespace of its own. -/
  | start (which : Zygote) (pid : Pid)
  /-- A zygote forks an app, whose start is logged. -/
  | fork (zygote pid : Pid) (processName : Text)
  /-- An app gets a namespace of its own. -/
  | unshare (pid : Pid)
  | rename (pid : Pid) (cmdline : Text)
  /-- Any other process takes a pid. -/
  | spawn (pid : Pid) (mntNs : MntNs) (cmdline : Text)
  | exit (pid : Pid)
  | hidesu (result : Result)
  deriving DecidableEq

namespace System

def step (system : System) : Action → Option System
  | .start which pid =>
      if system.processes.lookup pid = none then
        some { system with
          processes := system.processes.insert pid ⟨.zygote which, which.cmdline, system.made⟩
          made := system.made + 1 }
      else none
  | .fork zygote pid processName =>
      match system.processes.lookup zygote with
      | none => none
      | some parent =>
          if parent.role.isZygote ∧ system.processes.lookup pid = none then
            some { system with
              processes := system.processes.insert pid ⟨.app, parent.cmdline, parent.mntNs⟩
              events := system.events ++ [⟨pid, processName⟩] }
          else none
  | .unshare pid =>
      match system.processes.lookup pid with
      | none => none
      | some process =>
          if process.role = .app then
            some { system with
              processes := system.processes.insert pid { process with mntNs := system.made }
              made := system.made + 1 }
          else none
  | .rename pid cmdline =>
      match system.processes.lookup pid with
      | none => none
      | some process =>
          some { system with
            processes := system.processes.insert pid { process with cmdline := cmdline } }
  | .spawn pid mntNs cmdline =>
      if system.processes.lookup pid = none ∧ mntNs < system.made then
        some { system with
          processes := system.processes.insert pid ⟨.other, cmdline, mntNs⟩ }
      else none
  | .exit pid =>
      if system.processes.lookup pid = none then none
      else some { system with processes := system.processes.erase pid }
  | .hidesu result => system.hidesuStep result

end System

end SuperBootimg.Concrete.Hidesu
