import LandscapeKit.LibFaults
import LandscapeKit.LibFiles
import Mathlib.Algebra.Group.Nat.Defs

/-!
The transaction file of a deployment operation and the machine it runs on
(`deployment/transaction/mod.rs`, `deployment/transaction/file.rs`,
`deployment/layout.rs`, `deployment/state.rs`). The host answers every request to the
operating system and to the service manager; an answer may be an error, and the process may
be cut off at any request.
-/

namespace LandscapeKit.Deploy

open Faults

inductive InstallError
  | parameterUsage (reason : String)
  | userRefused (reason : String)
  | preflight (reason : String)
  | corruptedState (reason : String)
  | corruptedTransaction (reason : String)
  | blockedByTransaction (reason : String)
  | activationDrift (reason : String)
  | dangerousDirectory (reason : String)
  | unsupportedPlatform (reason : String)
  | releaseExists (version : String)
  | serviceNotRunning (reason : String)
  | invalidBackup (reason : String)
  | exportFailed (reason : String)
  | systemd (reason : String)
  | healthCheck (reason : String)
  | resolvBackup (reason : String)
  | stateWrite (reason : String)
  | repository (reason : String)
  | frontendSource (reason : String)
  | io (reason : String)
deriving DecidableEq

inductive Operation
  | install
  | repair
  | switch
  | restore
  | uninstall
  | reinit
  | migrate
deriving DecidableEq

def Operation.key : Operation → String
  | .install => "install"
  | .repair => "repair"
  | .switch => "switch"
  | .restore => "restore"
  | .uninstall => "uninstall"
  | .reinit => "reinit"
  | .migrate => "migrate"

inductive Phase
  | preparing
  | prepared
  | stopping
  | activating
  | verifying
  | awaitingNetworkConfirmation
  | finalizing
  | rollingBack
  | committed
  | rolledBack
  | failed
deriving DecidableEq

namespace Phase

def key : Phase → String
  | .preparing => "preparing"
  | .prepared => "prepared"
  | .stopping => "stopping"
  | .activating => "activating"
  | .verifying => "verifying"
  | .awaitingNetworkConfirmation => "awaiting_network_confirmation"
  | .finalizing => "finalizing"
  | .rollingBack => "rolling_back"
  | .committed => "committed"
  | .rolledBack => "rolled_back"
  | .failed => "failed"

def isTerminal : Phase → Bool
  | .committed | .rolledBack | .failed => true
  | _ => false

def isNetworkPending : Phase → Bool
  | .awaitingNetworkConfirmation | .finalizing | .rollingBack => true
  | _ => false

end Phase

structure BackupRef where
  backupId : String
  path : Path
  sha256 : String
deriving DecidableEq

structure StaticBackupRef where
  path : Path
  target : Path
deriving DecidableEq

inductive RegistrationKind
  | missing
  | symlink
deriving DecidableEq

structure ServiceBefore where
  registration : RegistrationKind
  enabled : Bool
  active : Bool
deriving DecidableEq

structure HostServiceBefore where
  unit : String
  installed : Bool
  active : Bool
  enableState : String
deriving DecidableEq

structure LegacyUnitBefore where
  unit : String
  active : Bool
  enableState : String
  fileMoved : Bool
  filePath : Option Path
  fileBackup : Option Path
deriving DecidableEq

structure NetworkTakeoverTransaction where
  hostServices : List HostServiceBefore
  confirmationDeadline : ℕ
  rollbackService : String
  rollbackTimer : String
  bootRollbackService : String
  recoveryBinary : Path
  pendingState : Path
deriving DecidableEq

structure TransactionFile where
  transactionId : String
  operation : Operation
  phase : Phase
  fromVersion : Option String
  targetVersion : Option String
  previousCurrent : Option Path
  targetRelease : Option Path
  backup : Option BackupRef
  restoreBackup : Option BackupRef
  noBackup : Bool
  staticBackup : Option StaticBackupRef
  systemdBefore : Option ServiceBefore
  resolvConfBackup : Option Path
  networkTakeover : Option NetworkTakeoverTransaction
  legacyUnit : Option LegacyUnitBefore
deriving DecidableEq

namespace TransactionFile

/-- The fields no constructor sets. -/
def blank (transactionId : String) (operation : Operation) : TransactionFile where
  transactionId := transactionId
  operation := operation
  phase := .preparing
  fromVersion := none
  targetVersion := none
  previousCurrent := none
  targetRelease := none
  backup := none
  restoreBackup := none
  noBackup := false
  staticBackup := none
  systemdBefore := none
  resolvConfBackup := none
  networkTakeover := none
  legacyUnit := none

def newInstall (id version : String) : TransactionFile :=
  { blank id .install with
    targetVersion := some version
    targetRelease := some ["releases", version] }

def newSwitch (id fromVersion targetVersion : String) : TransactionFile :=
  { blank id .switch with
    fromVersion := some fromVersion
    targetVersion := some targetVersion
    previousCurrent := some ["releases", fromVersion]
    targetRelease := some ["releases", targetVersion] }

def newRestore (id fromVersion targetVersion : String) : TransactionFile :=
  { blank id .restore with
    fromVersion := some fromVersion
    targetVersion := some targetVersion
    previousCurrent := some ["releases", fromVersion]
    targetRelease := some ["releases", targetVersion] }

def newRepair (id : String) (version : Option String) : TransactionFile :=
  { blank id .repair with
    fromVersion := version
    targetVersion := version }

def newRepairBinary (id version : String) : TransactionFile := newRepair id (some version)
def newRepairStatic (id : String) : TransactionFile := newRepair id none
def newObservationRepair (id : String) : TransactionFile := newRepair id none

def newMigrate (id version : String) : TransactionFile :=
  { blank id .migrate with
    targetVersion := some version
    targetRelease := some ["releases", version] }

def newUninstall (id version : String) : TransactionFile :=
  { blank id .uninstall with
    fromVersion := some version
    previousCurrent := some ["releases", version] }

def newReinit (id version : String) : TransactionFile :=
  { blank id .reinit with fromVersion := some version }

/-- Neither empty nor a dot segment. -/
def isSafePart (part : String) : Bool := part ≠ "" && part ≠ "." && part ≠ ".."

def isSafeRelative (p : Path) : Bool := p ≠ [] && p.all isSafePart

def isSha256 (value : String) : Bool :=
  value.length = 64 && value.toList.all fun c => c.isDigit || ('a' ≤ c && c ≤ 'f')

def isSafeUnitName (value : String) : Bool :=
  value ≠ "" && value.length ≤ 255 &&
    value.toList.all fun c =>
      c.isAlphanum || c = ':' || c = '_' || c = '-' || c = '.' || c = '@'

/-- Every path a transaction records, in the order they are checked. -/
def recordedPaths (t : TransactionFile) : List Path :=
  [t.previousCurrent, t.targetRelease, t.backup.map fun b => b.path,
    t.restoreBackup.map fun b => b.path, t.staticBackup.map fun b => b.path,
    t.staticBackup.map fun b => b.target, t.resolvConfBackup,
    t.networkTakeover.map fun n => n.recoveryBinary,
    t.networkTakeover.map fun n => n.pendingState].reduceOption

def mayLackBackup (t : TransactionFile) : Bool := t.phase = .preparing || t.phase = .failed

def hasNetwork (t : TransactionFile) : Bool := t.networkTakeover.isSome

/-- A takeover whose units cannot be unit names. -/
def hasUnsafeUnit (t : TransactionFile) : Bool :=
  t.networkTakeover.any fun n =>
    !(List.all [n.rollbackService, n.rollbackTimer, n.bootRollbackService] isSafeUnitName)

def lacksBothVersions (t : TransactionFile) : Bool :=
  t.fromVersion.isNone || t.targetVersion.isNone || t.previousCurrent.isNone ||
    t.targetRelease.isNone

/-- A repair that only observes records neither a backup nor a version. -/
def isObservation (t : TransactionFile) : Bool :=
  t.backup.isNone && t.staticBackup.isNone && t.fromVersion.isNone && t.targetVersion.isNone &&
    t.previousCurrent.isNone && t.targetRelease.isNone

/-- What a migration may record of the unit it replaces. -/
def legacyUnitErrors (u : LegacyUnitBefore) : List (Bool × String) :=
  [(!isSafeUnitName u.unit, "invalid legacy unit name " ++ u.unit),
    (u.fileBackup.any fun p => !isSafeRelative p, "unsafe legacy unit backup path"),
    (u.fileMoved && (u.filePath.isNone || u.fileBackup.isNone),
      "a moved legacy unit must record both file_path and file_backup")]

/-- The checks of one operation: each entry is a condition that must not hold, with the
reason that is given when it does. -/
def operationErrors (t : TransactionFile) : List (Bool × String) :=
  match t.operation with
  | .install =>
    [(t.backup.isSome || t.restoreBackup.isSome || t.staticBackup.isSome,
        "install transaction must not record backups or static backups"),
      (t.fromVersion.isSome || t.previousCurrent.isSome,
        "install transaction must not record a previous version"),
      (t.targetVersion.isNone || t.targetRelease.isNone,
        "install transaction must record the target version and release"),
      (t.hasUnsafeUnit, "invalid network recovery unit name")]
  | .switch =>
    [(t.hasNetwork, "switch transaction must not record network takeover state"),
      (t.restoreBackup.isSome, "switch transaction must not record restore_backup"),
      (t.noBackup && t.backup.isSome, "no-backup switch must not record a .lkb backup"),
      (t.backup.isNone && !t.noBackup && !t.mayLackBackup,
        "switch transaction must record a .lkb backup unless it is still preparing, already failed, or an explicitly allowed no-backup switch"),
      (t.staticBackup.isSome, "switch transaction must not record static backups"),
      (t.lacksBothVersions,
        "switch transaction must record both versions and both release paths")]
  | .restore =>
    [(t.hasNetwork, "restore transaction must not record network takeover state"),
      (t.staticBackup.isSome, "restore transaction must not record static backups"),
      (t.noBackup && t.backup.isSome,
        "no-backup restore must not record a .lkb protection backup"),
      (t.restoreBackup.isNone && !t.mayLackBackup,
        "restore transaction must record the target backup unless it is still preparing or already failed"),
      (t.lacksBothVersions,
        "restore transaction must record both versions and both release paths")]
  | .repair =>
    [(t.hasNetwork, "repair transaction must not record network takeover state"),
      (t.noBackup || t.restoreBackup.isSome,
        "repair transaction must not record no_backup or restore_backup"),
      (!t.isObservation && t.backup.isSome = t.staticBackup.isSome && !t.mayLackBackup,
        "repair transaction must record exactly one of a .lkb backup or a static backup unless it is still preparing, already failed, or a pure observation repair with neither"),
      (t.backup.isSome && (t.fromVersion.isNone || t.targetVersion.isNone),
        "repair with a .lkb backup must record both versions"),
      (t.staticBackup.isSome && (t.fromVersion.isSome || t.targetVersion.isSome),
        "static repair must not record version changes")]
  | .uninstall =>
    [(t.hasNetwork, "uninstall transaction must not record network takeover state"),
      (t.restoreBackup.isSome || t.staticBackup.isSome,
        "uninstall transaction must not record restore backups or static backups"),
      (t.noBackup && t.backup.isSome,
        "no-backup uninstall must not record a .lkb protection backup"),
      (t.backup.isNone && !t.noBackup && !t.mayLackBackup,
        "uninstall transaction must record a .lkb protection backup unless it is still preparing, already failed, or an explicitly allowed no-backup uninstall"),
      (t.fromVersion.isNone || t.previousCurrent.isNone,
        "uninstall transaction must record the current version and release"),
      (t.targetVersion.isSome || t.targetRelease.isSome,
        "uninstall transaction must not record a target version")]
  | .migrate =>
    [(t.hasNetwork, "migrate transaction must not record network takeover state"),
      (t.restoreBackup.isSome || t.staticBackup.isSome,
        "migrate transaction must not record restore backups or static backups"),
      (t.noBackup, "migrate transaction must not record no_backup"),
      (t.fromVersion.isSome || t.previousCurrent.isSome,
        "migrate transaction must not record a previous version"),
      (t.targetVersion.isNone || t.targetRelease.isNone,
        "migrate transaction must record the target version and release"),
      (t.backup.isNone && !t.mayLackBackup,
        "migrate transaction must record the migration backup unless it is still preparing or already failed")] ++
      t.legacyUnit.elim [] legacyUnitErrors
  | .reinit =>
    [(t.restoreBackup.isSome || t.staticBackup.isSome,
        "reinit transaction must not record restore backups or static backups"),
      (t.noBackup && t.backup.isSome,
        "no-backup reinit must not record a .lkb protection backup"),
      (t.backup.isNone && !t.noBackup && !t.mayLackBackup,
        "reinit transaction must record a .lkb protection backup unless it is still preparing, already failed, or an explicitly allowed no-backup reinit"),
      (t.fromVersion.isNone, "reinit transaction must record the current version"),
      (t.targetVersion.isSome || t.targetRelease.isSome || t.previousCurrent.isSome,
        "reinit transaction must not record a target version or release"),
      (t.hasUnsafeUnit, "invalid network recovery unit name")]

def validationErrors (t : TransactionFile) : List (Bool × String) :=
  t.recordedPaths.map (fun p => (!isSafeRelative p, "unsafe transaction path")) ++
    [(t.backup.any fun b => !isSha256 b.sha256,
        "backup sha256 must be 64 lowercase hex characters"),
      (t.restoreBackup.any fun b => !isSha256 b.sha256,
        "restore_backup sha256 must be 64 lowercase hex characters")] ++
    t.operationErrors

/-- `validate_transaction`: the first check that is not passed. -/
def validate (t : TransactionFile) : Option InstallError :=
  (t.validationErrors.find? fun check => check.1).map fun check => .corruptedTransaction check.2

end TransactionFile

/-- A component of a version: no sign, no leading zero, and it fits 64 bits. -/
def isVersionNumber (digits : List Char) : Bool :=
  digits ≠ [] && digits.all Char.isDigit && (digits.head? ≠ some '0' || digits.length = 1) &&
    digits.foldl (fun n c => n * 10 + (c.toNat - '0'.toNat)) 0 < 2 ^ 64

/-- `parse_stable_version`: three numbers, with neither a pre-release nor a build part. -/
def isStableVersion (version : String) : Bool :=
  match version.toList.splitOn '.' with
  | [major, minor, patch] => [major, minor, patch].all isVersionNumber
  | _ => false

inductive StateServiceManager
  | systemd
  | openrc
  | sysvinit
deriving DecidableEq

structure Asset where
  sha256 : String
  size : ℕ
deriving DecidableEq

inductive InitStatus
  | pending
  | complete
deriving DecidableEq

structure InstallState where
  activeVersion : String
  webserver : Asset
  staticArchive : Asset
  status : InitStatus
  lockPresent : Bool
  manager : StateServiceManager
  lastTransactionId : Option String
deriving DecidableEq

/-- What a regular file holds, as far as the workflows read it back. -/
inductive Document
  | text (s : String)
  | state (s : InstallState)
deriving DecidableEq

/-! The two places everything lives in: the lkit territory, and the landscape root in its
default position below it. -/

namespace Layout

def root : Path := ["landscape"]
def data : Path := root ++ ["data"]
def current : Path := root ++ ["current"]
def releases : Path := root ++ ["releases"]
def release (version : String) : Path := releases ++ [version]
def service : Path := root ++ ["service"]
def unitOrigin : Path := service ++ ["landscape-router.service"]
def statePath : Path := ["state", "install-state.json"]
def transactions : Path := ["transactions"]
def transactionDir (id : String) : Path := transactions ++ [id]
def previousData (id : String) : Path := transactionDir id ++ ["previous-data"]
def failedData (id : String) : Path := transactionDir id ++ ["failed-data"]
def backups : Path := ["backups"]
def backupDir (id : String) : Path := backups ++ [id]
def resolvBackupDir (id : String) : Path := backupDir id ++ ["host", "resolv.conf"]
def snapshotPath (id : String) : Path := backupDir id ++ ["previous-state.json"]
def runDir : Path := ["run"]
def currentTmp : Path := runDir ++ [".current.tmp"]
def systemUnits : Path := ["etc", "systemd", "system"]
def webserverBinary : String := "landscape-webserver"

end Layout

/-- One systemd unit as `systemctl` shows it. -/
structure UnitState where
  present : Bool
  masked : Bool
  enableState : String
  active : Bool
deriving DecidableEq

/-- `is-enabled`: a mask hides what lies under it. -/
def UnitState.isEnabled (u : UnitState) : String :=
  if u.masked then "masked" else u.enableState

def routerUnit : String := "landscape-router.service"

/-- `restore_registration`: the registration and the enable state, and nothing else. -/
def ServiceBefore.register (b : ServiceBefore) (u : UnitState) : UnitState :=
  { u with
    present := b.registration = .symlink
    enableState := if b.enabled then "enabled" else "disabled" }

structure Machine where
  files : Files Document
  units : String → UnitState

inductive Verb
  | start
  | stop
  | enable
  | enableRuntime
  | disable
  | mask
  | unmask
deriving DecidableEq

def Verb.apply (v : Verb) (u : UnitState) : UnitState :=
  match v with
  | .start => { u with active := true }
  | .stop => { u with active := false }
  | .enable => { u with enableState := "enabled" }
  | .enableRuntime => { u with enableState := "enabled-runtime" }
  | .disable => { u with enableState := "disabled" }
  | .mask => { u with masked := true }
  | .unmask => { u with masked := false }

/-- Steps that look at the host or talk to it and change none of what is modelled. -/
inductive Check
  | checkInitialization
  | verifyCurrentBackend
  | token
  | buildInitConfig
  | waitForStartup
  | observeStable
  | clearSelectedLanAddresses
  | clearInheritedWanIpv4
  | verifyInterfaces
  | verifyLive
  | resolvRestore
  | daemonReload
  | query
  | readTransactions
  | createLog
  | appendLog
  | ensureNotCancelled
  | checkInterrupted
  | confirmInstanceStopped
  | confirmMigrate
  | verifyBackendIdentity
  | verifyLkb
  | setPermissions
  | downcast
  | compareVersions
deriving DecidableEq

/-- Requests to the operating system, to the service manager and to the network. The index
is the type of what a successful request brings back. -/
inductive Act : Type → Type
  | check (c : Check) : Act Unit
  | createDirAll (p : Path) : Act Unit
  | removeDirAll (p : Path) : Act Unit
  | removeFile (p : Path) : Act Unit
  | rename (p q : Path) : Act Unit
  | copyTree (p q : Path) : Act Unit
  | copyFile (p q : Path) : Act Unit
  | writeFile (p : Path) (d : Document) : Act Unit
  | symlink (target p : Path) : Act Unit
  | readFile (p : Path) : Act Unit
  | writeTransaction : Act Unit
  | removeTransaction : Act Unit
  | systemctl (v : Verb) (unit : String) : Act Unit
  | writeUnit (unit : String) : Act Unit
  | removeUnit (unit : String) : Act Unit
  | restoreRegistration (b : ServiceBefore) : Act Unit
  | mainPid : Act ℕ
  | now : Act ℕ
  | accepted : Act Bool
  | resolvBackup (dir : Path) : Act Unit
  | writeUnitOrigin : Act String
  | installRecoveryBinary (p : Path) : Act Unit
  | buildRelease (version : String) : Act (Asset × Asset)
  | fetchStatic (dir : Path) : Act Asset
  | fetchFromSource (dir : Path) : Act Unit
  | fetchWebserver (dir : Path) : Act Asset
  | exportConfig : Act String
  | createBackup : Act BackupRef
  | createMigrationBackup (dir : Path) : Act BackupRef
  | extractLkb (dir : Path) : Act Unit
  | hashFile (p : Path) : Act Asset
  | resolveLegacyUnits : Act (List String)
  | fragmentPath (unit : String) : Act Path

namespace Machine

def setFiles (m : Machine) (files : Files Document) : Machine := { m with files := files }

def setUnit (m : Machine) (unit : String) (u : UnitState) : Machine :=
  { m with units := Function.update m.units unit u }

/-- Take over from another machine what lies under some paths. -/
def graftFiles (m other : Machine) (dirs : List Path) : Machine :=
  m.setFiles (dirs.foldl (fun fs p => fs.graft p other.files) m.files)

/-- What is left of a request that would make `u` of a unit: the registration, the enable
state, the mask and the activity are each changed or not, as `other` has it. -/
def graftUnit (m other : Machine) (unit : String) (u : UnitState) : Machine :=
  let old := m.units unit
  let seen := other.units unit
  m.setUnit unit {
    present := if seen.present = u.present then u.present else old.present
    masked := if seen.masked = u.masked then u.masked else old.masked
    enableState := if seen.enableState = u.enableState then u.enableState else old.enableState
    active := if seen.active = u.active then u.active else old.active }

end Machine

namespace Act

variable {α : Type}

/-- Where a request that is not a single file operation may write. -/
def area : Act α → List Path
  | resolvBackup dir => [dir]
  | writeUnitOrigin => [Layout.unitOrigin]
  | installRecoveryBinary p => [p]
  | buildRelease version =>
    [Layout.release version, Layout.releases ++ [".install-" ++ version ++ ".tmp"]]
  | fetchStatic dir => [dir]
  | fetchFromSource dir => [dir]
  | fetchWebserver dir => [dir]
  | createBackup => [Layout.backups]
  | createMigrationBackup dir => [dir, Layout.backups]
  | extractLkb dir => [dir]
  | _ => []

/-- Where a request may change or take away what is there. Creating a directory does
neither. -/
def touches : Act α → List Path
  | removeDirAll p => [p]
  | removeFile p => [p]
  | rename p q => [p, q]
  | copyTree _ q => [q]
  | copyFile _ q => [q]
  | writeFile p _ => [p]
  | symlink _ p => [p]
  | act => act.area

/-- The machine after a request that was carried out. A request that brings in content of
its own leaves in its area what `out` has there. -/
def done (act : Act α) (out m : Machine) : Machine :=
  match act with
  | createDirAll p => m.setFiles (m.files.makeDirs p)
  | removeDirAll p => m.setFiles (m.files.remove p)
  | removeFile p => m.setFiles (m.files.erase p)
  | rename p q => m.setFiles (m.files.move p q)
  | copyTree p q => m.setFiles (m.files.copy p q)
  | copyFile p q =>
    match m.files p with
    | some n => m.setFiles (m.files.put q n)
    | none => m
  | writeFile p d => m.setFiles (m.files.put p (.file d))
  | symlink target p => m.setFiles (m.files.put p (.link target))
  | systemctl v unit => m.setUnit unit (v.apply (m.units unit))
  | writeUnit unit => m.setUnit unit { m.units unit with present := true }
  | removeUnit unit => m.setUnit unit { m.units unit with present := false }
  | restoreRegistration b => m.setUnit routerUnit (b.register (m.units routerUnit))
  | act => m.graftFiles out act.area

/-- What a request may leave behind when it fails or is cut off before it is done. Renames
and writes through a temporary file happen or do not happen; removing a tree can stop in the
middle, a copy can be left with any content, and a unit between its old state and the new. -/
def partly (act : Act α) (out m : Machine) : Machine :=
  match act with
  | removeDirAll p => m.setFiles (m.files.removePart p out.files)
  | copyTree _ q => m.graftFiles out [q]
  | copyFile _ q => m.graftFiles out [q]
  | systemctl v unit => m.graftUnit out unit (v.apply (m.units unit))
  | writeUnit unit => m.graftUnit out unit { m.units unit with present := true }
  | removeUnit unit => m.graftUnit out unit { m.units unit with present := false }
  | restoreRegistration b => m.graftUnit out routerUnit (b.register (m.units routerUnit))
  | act => m.graftFiles out act.area

end Act

/-- How a request ends. A process that is cut off may have had the request carried out. -/
inductive Reply (α : Type)
  | ok (a : α)
  | err (e : InstallError)
  | crash (carriedOut : Bool)

/-- The host: how it answers each request, with a state of its own to decide by. -/
structure Host (H : Type) where
  answer : {α : Type} → Act α → Machine → H → Reply α × Machine × H

/-- An answer of the right kind for every request. -/
def Act.sample {α : Type} : Act α → α
  | check _ | createDirAll _ | removeDirAll _ | removeFile _ | rename _ _ | copyTree _ _
  | copyFile _ _ | writeFile _ _ | symlink _ _ | readFile _ | writeTransaction
  | removeTransaction | systemctl _ _ | writeUnit _ | removeUnit _ | restoreRegistration _
  | resolvBackup _ | installRecoveryBinary _ | fetchFromSource _ | extractLkb _ => ()
  | mainPid => 1
  | now => 0
  | accepted => true
  | writeUnitOrigin => ""
  | buildRelease _ => (⟨"", 0⟩, ⟨"", 0⟩)
  | fetchStatic _ => ⟨"", 0⟩
  | fetchWebserver _ => ⟨"", 0⟩
  | exportConfig => ""
  | createBackup => ⟨"b", ["backups", "b.lkb"], String.ofList (List.replicate 64 'a')⟩
  | createMigrationBackup _ => ⟨"b", ["backups", "b.lkb"], String.ofList (List.replicate 64 'a')⟩
  | hashFile _ => ⟨"", 0⟩
  | resolveLegacyUnits => []
  | fragmentPath _ => []

/-- A host that carries out every request, except those `refuses` or `cuts` picks. -/
def Host.scripted (refuses cuts : {α : Type} → Act α → Bool) : Host Unit where
  answer act m _ :=
    if refuses act then (.err (.io "refused"), m, ())
    else if cuts act then (.crash true, m, ())
    else (.ok act.sample, m, ())

/-- Which call wrote the transaction file. The calls that write a phase the run has already
left behind have names of their own. -/
inductive Call
  | begin
  | markPhase
  | persist
  /-- `reinit_installation` recording the takeover after `verifying`. -/
  | takeoverPersist
  /-- `run_migrate_switch` recording the old unit after `stopping`. -/
  | stoppingPersist
  /-- `network rollback` marking `failed` after the reinit rollback marked `rolled_back`. -/
  | failedAfterRollback
deriving DecidableEq

structure Write where
  call : Call
  phase : Phase
deriving DecidableEq

/-- The local variables of a workflow that its error path reads. -/
structure Locals where
  transaction : TransactionFile
  activated : Bool
  stoppingStarted : Bool

structure World (H : Type) where
  machine : Machine
  /-- The transaction file `transactions/<id>.json`. -/
  transaction : Option TransactionFile
  /-- Every write of that file, oldest first. -/
  writes : List Write
  locals : Locals
  host : H

def World.phase? {H : Type} (w : World H) : Option Phase := w.transaction.map fun t => t.phase

/-- A workflow, or a part of one. -/
abbrev Flow (H : Type) := Prog (World H) InstallError

namespace Host

variable {H α : Type} (host : Host H)

def perform (act : Act α) : Flow H α := fun w =>
  match host.answer act w.machine w.host with
  | (.ok a, out, h) => (.ok a, { w with machine := act.done out w.machine, host := h })
  | (.err e, out, h) => (.err e, { w with machine := act.partly out w.machine, host := h })
  | (.crash carriedOut, out, h) =>
    (.crash, { w with
      machine := if carriedOut then act.done out w.machine else act.partly out w.machine
      host := h })

def check (c : Check) : Flow H Unit := host.perform (.check c)

def getMachine : Flow H Machine := do
  let w ← Prog.read
  pure w.machine

def getTransaction : Flow H TransactionFile := do
  let w ← Prog.read
  pure w.locals.transaction

def getActivated : Flow H Bool := do
  let w ← Prog.read
  pure w.locals.activated

def getStoppingStarted : Flow H Bool := do
  let w ← Prog.read
  pure w.locals.stoppingStarted

/-- An assignment to a field of the workflow's own `transaction`. -/
def setTransaction (f : TransactionFile → TransactionFile) : Flow H Unit :=
  Prog.modify fun w => { w with locals := { w.locals with transaction := f w.locals.transaction } }

def setActivated : Flow H Unit :=
  Prog.modify fun w => { w with locals := { w.locals with activated := true } }

def setStoppingStarted : Flow H Unit :=
  Prog.modify fun w => { w with locals := { w.locals with stoppingStarted := true } }

def startWith (t : TransactionFile) : Flow H Unit :=
  Prog.modify fun w => { w with locals := ⟨t, false, false⟩ }

/-- `write_transaction`: a temporary file that replaces the old one in a single rename. -/
def writeTransaction (call : Call) (t : TransactionFile) : Flow H Unit := fun w =>
  match t.validate with
  | some e => (.err e, w)
  | none =>
    let stored := { w with transaction := some t, writes := w.writes ++ [⟨call, t.phase⟩] }
    match host.answer .writeTransaction w.machine w.host with
    | (.ok _, _, h) => (.ok (), { stored with host := h })
    | (.err e, _, h) => (.err e, { w with host := h })
    | (.crash carriedOut, _, h) => (.crash, { (if carriedOut then stored else w) with host := h })

/-- Take the transaction file away, as `purge_root` does for the files of its root. -/
def removeTransaction : Flow H Unit := fun w =>
  match host.answer .removeTransaction w.machine w.host with
  | (.ok _, _, h) => (.ok (), { w with transaction := none, host := h })
  | (.err e, _, h) => (.err e, { w with host := h })
  | (.crash carriedOut, _, h) =>
    (.crash, { (if carriedOut then { w with transaction := none } else w) with host := h })

/-- `mark_phase` writes a copy with the new phase; the caller's transaction keeps its own. -/
def markPhaseAs (call : Call) (t : TransactionFile) (phase : Phase) : Flow H Unit := do
  host.check .appendLog
  host.writeTransaction call { t with phase := phase }

def markPhase (t : TransactionFile) (phase : Phase) : Flow H Unit :=
  host.markPhaseAs .markPhase t phase

def persist (t : TransactionFile) : Flow H Unit := host.writeTransaction .persist t

def findUnfinished : Flow H (Option TransactionFile) := do
  host.check .readTransactions
  let w ← Prog.read
  match w.transaction with
  | none => pure none
  | some t =>
    match t.validate with
    | some e => Prog.fail e
    | none => pure (if t.phase.isTerminal then none else some t)

/-- `begin`, with the other transactions of the territory left to the host's answer. -/
def beginTransaction (t : TransactionFile) : Flow H Unit := do
  match t.validate with
  | some e => Prog.fail e
  | none =>
    let unfinished ← host.findUnfinished
    match unfinished with
    | some _ => Prog.fail (.blockedByTransaction "another unfinished transaction already exists")
    | none =>
      host.check .createLog
      host.writeTransaction .begin t

end Host

end LandscapeKit.Deploy
