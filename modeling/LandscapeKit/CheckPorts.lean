import LandscapeKit.ConfigFlare
import LandscapeKit.MirrorDnf
import LandscapeKit.ReleaseDownload
import LandscapeKit.ServiceProcess
import Mathlib.Data.List.Sort

/-!
Who is on a port, asked twice. `lkit check` looks for the first holder of every listening socket;
the conflict check looks for every process that holds any socket of the port.
-/

namespace LandscapeKit.Check.Ports

open Text Service.Identity

section Host

/-- The files of `/proc/net`. -/
inductive Table where
  | tcp
  | tcp6
  | udp
  | udp6
deriving DecidableEq

def Table.isTcp : Table → Bool
  | .tcp | .tcp6 => true
  | .udp | .udp6 => false

/-- An entry of `/proc/<pid>/fd`: its listing can break off, and its link can be unreadable. -/
inductive FdEntry where
  | failed
  | unreadable
  | link (target : Text)
deriving DecidableEq

structure ProcDir where
  pid : UInt32
  comm : Option Text
  fds : Option (List FdEntry)

/-- What can be read at one instant. The directories stand in the order of their listing. -/
structure Host where
  table : Table → Option Text
  processes : List ProcDir
  readProcess : UInt32 → Option Process

/-- The installation that the stored state describes. -/
structure Installation where
  root : CanonicalRoot
  state : InstallState

end Host

section Numbers

/-- `u16::from_str_radix(_, 16)`. -/
def parseHexU16 (text : Text) : Option UInt16 :=
  let digits := (stripLead ['+'] text).getD text
  if digits = [] then none
  else
    ((digits.foldlM (fun n c => (Config.hexDigit c).map (16 * n + ·)) 0).filter
      (· < 2 ^ 16)).map UInt16.ofNat

/-- `str::trim_start_matches`; `fuel` bounds how often the pattern is taken off. -/
def trimStartMatches (pattern : Text) : (fuel : ℕ) → Text → Text
  | 0, text => text
  | fuel + 1, text =>
    match stripLead pattern text with
    | none => text
    | some rest => trimStartMatches pattern fuel rest

end Numbers

section PortCheck

/-- Who listens, as far as it decides what is reported. -/
inductive ListenerOwner where
  | managed
  | managedDigestDrift
  | externalInstance
  | foreign
  | unreadable
deriving DecidableEq

structure Listener where
  protocol : Table
  address : Text
  port : UInt16
  process : Option (Text × UInt32)
  owner : ListenerOwner
deriving DecidableEq

inductive Status where
  | pass
  | warning
  | error
  | unknown
deriving DecidableEq

inductive Value where
  | notListening (port : UInt16)
  | heldByManagedInstance (port : UInt16)
  | occupied (port : UInt16)
  | unknown (port : UInt16)
deriving DecidableEq

inductive Reason where
  | free
  | managedInstanceDigestDrift
  | managedInstanceExpected
  | externalInstanceListening
  | anotherServiceListening
  | unableReadAllListenerTables
deriving DecidableEq

inductive Suggestion where
  | none
  | runRepairBinary
  | takeoverOrStopInstance
  | stopServiceOrMovePort
  | runAsRoot
deriving DecidableEq

inductive Detail where
  | usedBy (protocol : Table) (address : Text) (port : UInt16) (comm : Text) (pid : UInt32)
  | ownerUnreadable (protocol : Table) (address : Text) (port : UInt16)
  | unableReadListenerInformation (table : Table)
deriving DecidableEq

structure CheckResult where
  status : Status
  value : Value
  reason : Reason
  suggestion : Suggestion
  details : List Detail
deriving DecidableEq

/-- One line of a table: a TCP socket counts when it listens. -/
def listenerOf (port : UInt16) (isTcp : Bool) (line : Text) : Option (Text × ℕ) :=
  match Hostnet.splitWhitespace line with
  | _ :: localAddress :: _ :: state :: _ :: _ :: _ :: _ :: _ :: inode :: _ =>
    if isTcp && state ≠ "0A".toList then none
    else
      (rsplitOnce ':' localAddress).bind fun (addr, portHex) =>
        (parseHexU16 portHex).bind fun localPort =>
          if localPort ≠ port then none
          else (Download.parseU64 inode).map fun inode => (addr, inode)
  | _ => none

/-- The first line is the heading. -/
def parseProcNet (raw : Text) (port : UInt16) (isTcp : Bool) : List (Text × ℕ) :=
  (Mirror.Dnf.lines raw).tail.filterMap (listenerOf port isTcp)

def socketInode (target : Text) : Option ℕ :=
  (stripLead "socket:[".toList target).bind fun rest =>
    if rest.getLast? = some ']' then Download.parseU64 rest.dropLast else none

/-- An entry that cannot be listed is passed over. -/
def ProcDir.shows (dir : ProcDir) (inode : ℕ) : Bool :=
  match dir.fds with
  | none => false
  | some entries => entries.any fun entry =>
      match entry with
      | .link target => socketInode target = some inode
      | _ => false

def findProcess (host : Host) (inode : ℕ) : Option (Text × UInt32) :=
  (host.processes.find? (·.shows inode)).map fun dir =>
    ((dir.comm.map Mirror.trim).getD [], dir.pid)

def looksLikeLandscapeWebserver (process : Process) (comm : Text) : Bool :=
  (fileName process.exeLink).any (containsText "landscape-webserver".toList) ||
    "landscape-webse".toList.isPrefixOf comm

def classifyProcess (process : Process) (comm : Text) (installed : Option Installation) :
    ListenerOwner :=
  let rest : ListenerOwner :=
    if looksLikeLandscapeWebserver process comm then .externalInstance else .foreign
  match installed with
  | none => rest
  | some installation =>
    if isManaged process installation.root installation.state then .managed
    else if isManagedRelaxed process installation.root installation.state then .managedDigestDrift
    else rest

def classifyListener (host : Host) (installed : Option Installation) :
    Option (Text × UInt32) → ListenerOwner
  | none => .unreadable
  | some (comm, pid) =>
    match host.readProcess pid with
    | none => .unreadable
    | some view => classifyProcess view comm installed

def listenerDetail (listener : Listener) : Detail :=
  match listener.process with
  | some (comm, pid) => .usedBy listener.protocol listener.address listener.port comm pid
  | none => .ownerUnreadable listener.protocol listener.address listener.port

def isOurs (owner : ListenerOwner) : Bool := owner = .managed || owner = .managedDigestDrift

def buildPortResult (port : UInt16) (listeners : List Listener) : CheckResult :=
  if listeners = [] then ⟨.pass, .notListening port, .free, .none, []⟩
  else if listeners.all fun listener => isOurs listener.owner then
    if listeners.any fun listener => listener.owner = .managedDigestDrift then
      ⟨.warning, .heldByManagedInstance port, .managedInstanceDigestDrift, .runRepairBinary,
        listeners.map listenerDetail⟩
    else
      ⟨.pass, .heldByManagedInstance port, .managedInstanceExpected, .none,
        listeners.map listenerDetail⟩
  else if listeners.all fun listener => listener.owner = .externalInstance then
    ⟨.error, .occupied port, .externalInstanceListening, .takeoverOrStopInstance,
      listeners.map listenerDetail⟩
  else
    ⟨.error, .occupied port, .anotherServiceListening, .stopServiceOrMovePort,
      listeners.map listenerDetail⟩

def files (includeUdp : Bool) : List Table :=
  [.tcp, .tcp6] ++ if includeUdp then [.udp, .udp6] else []

variable (host : Host) (installed : Option Installation) (port : UInt16) (includeUdp : Bool)

def readErrors : List Table := (files includeUdp).filter fun table => (host.table table).isNone

def listeners : List Listener :=
  (files includeUdp).flatMap fun table =>
    match host.table table with
    | none => []
    | some raw =>
      (parseProcNet raw port table.isTcp).map fun (address, inode) =>
        let process := findProcess host inode
        ⟨table, address, port, process, classifyListener host installed process⟩

def portCheck : CheckResult :=
  let found := listeners host installed port includeUdp
  let errors := readErrors host includeUdp
  let result := buildPortResult port found
  let details := result.details ++ errors.map .unableReadListenerInformation
  if found = [] ∧ errors ≠ [] then
    ⟨.unknown, .unknown port, .unableReadAllListenerTables, .runAsRoot, details⟩
  else { result with details := details }

/-- The port is reported as free, or as held by the managed instance. -/
def CheckResult.passes (result : CheckResult) : Bool :=
  match result.value with
  | .notListening _ | .heldByManagedInstance _ => true
  | .occupied _ | .unknown _ => false

end PortCheck

section Conflicts

inductive Protocol where
  | tcp
  | udp
deriving DecidableEq

def Protocol.tables : Protocol → List Table
  | .tcp => [.tcp, .tcp6]
  | .udp => [.udp, .udp6]

inductive InstallError where
  | processConflict (ports : List (Protocol × UInt16)) (pids : List UInt32)
deriving DecidableEq

/-- One line of a table: the state is not looked at. -/
def socketOf (line : Text) : Option (Text × UInt16 × ℕ) :=
  match Hostnet.splitWhitespace line with
  | _ :: localAddress :: _ :: _ :: _ :: _ :: _ :: _ :: _ :: inode :: _ =>
    (Download.parseU64 inode).bind fun inode =>
      (rsplitOnce ':' localAddress).bind fun (address, portHex) =>
        (parseHexU16 portHex).map fun port => (address, port, inode)
  | _ => none

/-- A table that cannot be read has no sockets. -/
def netSockets (host : Host) (kind : Protocol) : List (Text × UInt16 × ℕ) :=
  kind.tables.flatMap fun table =>
    match host.table table with
    | none => []
    | some content => (Mirror.Dnf.lines content).tail.filterMap socketOf

/-- No process holds inode 0. -/
def matchingInodes (port : UInt16) (sockets : List (Text × UInt16 × ℕ)) : List ℕ :=
  sockets.filterMap fun (_, socketPort, inode) =>
    if socketPort = port ∧ inode ≠ 0 then some inode else none

/-- The inode in a link, whatever marks of a socket stand around it. -/
def fdInode (target : Text) : Option ℕ :=
  let rest := trimStartMatches "socket:[".toList target.length target
  Download.parseU64 (rest.reverse.dropWhile (· = ']')).reverse

/-- An entry that cannot be listed makes the whole directory unreadable. -/
def fdInodes (dir : ProcDir) : Option (List ℕ) :=
  dir.fds.bind fun entries =>
    if .failed ∈ entries then none
    else some (entries.filterMap fun entry =>
      match entry with
      | .link target => fdInode target
      | _ => none)

def pidsForPorts (host : Host) (ports : List (Protocol × UInt16)) : List UInt32 :=
  let inodes := ports.flatMap fun (kind, port) => matchingInodes port (netSockets host kind)
  if inodes = [] then []
  else
    ((host.processes.filterMap fun dir =>
      (fdInodes dir).bind fun held =>
        if held.any (· ∈ inodes) then some dir.pid else none).insertionSort (· ≤ ·)).dedup

/-- A process that is the installation's own, its digest aside when it may have drifted. -/
def isConfirmed (host : Host) (installation : Installation) (allowShaDrift : Bool) (pid : UInt32) :
    Bool :=
  match host.readProcess pid with
  | none => false
  | some process =>
    isManaged process installation.root installation.state ||
      (allowShaDrift && isManagedRelaxed process installation.root installation.state)

def checkConflictsWith (host : Host) (installation : Installation)
    (ports : List (Protocol × UInt16)) (allowShaDrift : Bool) :
    Except InstallError (List UInt32) :=
  let pids := pidsForPorts host ports
  let managed := pids.filter (isConfirmed host installation allowShaDrift)
  let unidentified := pids.filter fun pid => !isConfirmed host installation allowShaDrift pid
  if unidentified ≠ [] then .error (.processConflict ports unidentified) else .ok managed

def checkConflicts (host : Host) (installation : Installation)
    (ports : List (Protocol × UInt16)) : Except InstallError (List UInt32) :=
  checkConflictsWith host installation ports false

def checkConflictsRelaxed (host : Host) (installation : Installation)
    (ports : List (Protocol × UInt16)) : Except InstallError (List UInt32) :=
  checkConflictsWith host installation ports true

/-- Where nothing is installed, every process on a port is a conflict. -/
def checkHostConflicts (host : Host) (installed : Option Installation)
    (ports : List (Protocol × UInt16)) (allowShaDrift : Bool) :
    Except InstallError (List UInt32) :=
  match installed with
  | some installation =>
    if allowShaDrift then checkConflictsRelaxed host installation ports
    else checkConflicts host installation ports
  | none =>
    let pids := pidsForPorts host ports
    if pids ≠ [] then .error (.processConflict ports pids) else .ok []

end Conflicts

end LandscapeKit.Check.Ports
