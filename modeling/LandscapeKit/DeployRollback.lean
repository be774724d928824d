import LandscapeKit.DeployTransaction

/-!
The steps the workflows share, and the rollbacks (`backup/rollback.rs`,
`workflows/restore/rollback.rs`, `workflows/reinit.rs`, `workflows/migrate/rollback.rs`,
`deployment/transaction/cleanup.rs`, `network/takeover.rs`). Every `?` of the source is a
bind, every `let _ =` an `ignore`.
-/

namespace LandscapeKit.Deploy

open Faults

/-- A path as it is printed in a message. -/
def display (p : Path) : String := "/".intercalate p

def checkCurrent (files : Files Document) (activeVersion : String) : Option InstallError :=
  match files Layout.current with
  | none => some (.corruptedState "current is missing")
  | some (.link target) =>
    if files (Layout.root ++ target) = none then
      some (.corruptedState "current is a broken symbolic link")
    else if files Layout.releases = none then
      some (.corruptedState "releases is missing or is a broken symbolic link")
    else if ¬ Layout.releases <+: Layout.root ++ target then
      some (.activationDrift
        ("current points to " ++ display (Layout.root ++ target) ++ " instead of a release"))
    else if Layout.root ++ target ≠ Layout.release activeVersion then
      some (.activationDrift
        ("current points to " ++ display (Layout.root ++ target) ++
          " but the active version is " ++ activeVersion))
    else none
  | some _ => some (.corruptedState "current is not a symbolic link")

namespace Host

variable {H : Type} (host : Host H)

def pathExists (p : Path) : Flow H Bool := do
  let m ← getMachine
  pure (m.files p).isSome

def readDocument (p : Path) : Flow H Document := do
  host.perform (.readFile p)
  let m ← getMachine
  match m.files p with
  | some (.file d) => pure d
  | _ => Prog.fail (.io (display p ++ ": no such file"))

def writeState (s : InstallState) : Flow H Unit := do
  host.perform (.createDirAll Layout.statePath.dropLast)
  host.perform (.writeFile Layout.statePath (.state s))

def loadState : Flow H (Option InstallState) := do
  host.perform (.readFile Layout.statePath)
  let m ← getMachine
  match m.files Layout.statePath with
  | none => pure none
  | some (.file (.state s)) =>
    match checkCurrent m.files s.activeVersion with
    | some e => Prog.fail e
    | none => pure (some s)
  | some _ => Prog.fail (.corruptedState (display Layout.statePath ++ " is not a valid install state"))

def writeStateSnapshot (id : String) (s : InstallState) : Flow H Unit := do
  host.perform (.createDirAll (Layout.backupDir id))
  host.perform (.writeFile (Layout.snapshotPath id) (.state s))

def readStateSnapshot (id : String) : Flow H InstallState := do
  let read ← Prog.attempt (host.readDocument (Layout.snapshotPath id))
  match read with
  | .ok (.state s) => pure s
  | .ok (.text _) =>
    Prog.fail (.corruptedTransaction
      (display (Layout.snapshotPath id) ++ " is not a valid state snapshot"))
  | .error _ =>
    Prog.fail (.corruptedTransaction
      ("transaction backup snapshot " ++ display (Layout.snapshotPath id) ++ " is missing"))

def stopAndWait : Flow H Unit := do
  host.perform (.systemctl .stop routerUnit)
  host.check .query

def start : Flow H Unit := host.perform (.systemctl .start routerUnit)

def registerAndEnable : Flow H Unit := do
  host.perform (.writeUnit routerUnit)
  host.perform (.systemctl .enable routerUnit)

def requirePid (message : String) : Flow H Unit := do
  let pid ← host.perform .mainPid
  if pid = 0 then Prog.fail (.systemd message) else pure ()

def healthy : Flow H Unit := do
  host.check .waitForStartup
  host.check .observeStable

def isActive (unit : String) : Flow H Bool := do
  host.check .query
  let m ← getMachine
  pure (m.units unit).active

def isEnabled (unit : String) : Flow H String := do
  host.check .query
  let m ← getMachine
  pure (m.units unit).isEnabled

def captureBefore : Flow H ServiceBefore := do
  host.check .query
  let m ← getMachine
  pure {
    registration := if (m.units routerUnit).present then .symlink else .missing
    enabled := (m.units routerUnit).isEnabled = "enabled"
    active := (m.units routerUnit).active }

def restoreBefore (before : ServiceBefore) : Flow H Unit := do
  host.perform (.restoreRegistration before)
  if before.active then host.start
  else do
    let active ← Prog.attempt (host.isActive routerUnit)
    match active with
    | .ok true => host.perform (.systemctl .stop routerUnit)
    | _ => pure ()

def resolvRestore (backup : Option Path) : Flow H Unit :=
  Prog.onlyIf backup.isSome (host.check .resolvRestore)

/-- `capture_before` and the backup of `/etc/resolv.conf`, recorded in the workflow's
transaction. -/
def recordBefore (id : String) : Flow H Unit := do
  let before ← host.captureBefore
  setTransaction fun t => { t with systemdBefore := some before }
  host.perform (.resolvBackup (Layout.resolvBackupDir id))
  setTransaction fun t => { t with resolvConfBackup := some (Layout.resolvBackupDir id) }

/-- Put the link `current` in place through a temporary link. -/
def restoreCurrent (target : Path) : Flow H Unit := do
  host.perform (.createDirAll Layout.runDir)
  Prog.ignore (host.perform (.removeFile Layout.currentTmp))
  host.perform (.symlink target Layout.currentTmp)
  host.perform (.rename Layout.currentTmp Layout.current)

/-- The middle of `move_data_aside`: what the last attempt left of `data` goes, and `data`
itself is moved only when no attempt has moved it yet. -/
def setAside (data aside : Path) : Flow H Unit := do
  let m ← getMachine
  if m.files aside ≠ none then
    Prog.onlyIf (m.files data).isSome (host.perform (.removeDirAll data))
  else
    Prog.onlyIf (m.files data).isSome (host.perform (.rename data aside))

def moveDataAside (data aside : Path) : Flow H Unit := do
  host.perform (.createDirAll aside.dropLast)
  host.setAside data aside
  host.perform (.createDirAll data)

/-- The middle of `restore_previous_data`. -/
def putBack (data previous : Path) : Flow H Unit := do
  let m ← getMachine
  if m.files previous ≠ none then do
    Prog.onlyIf (m.files data).isSome (host.perform (.removeDirAll data))
    host.perform (.rename previous data)
  else if m.files data = none then
    Prog.fail (.corruptedTransaction
      ("neither " ++ display data ++ " nor " ++ display previous ++
        " exists; cannot restore previous data"))
  else pure ()

def restorePreviousData (data previous : Path) : Flow H Unit := do
  host.putBack data previous
  host.perform (.createDirAll data)

def replaceRelease (release replaced : Path) : Flow H Unit := do
  let present ← pathExists release
  Prog.onlyIf present do
    Prog.ignore (host.perform (.removeDirAll replaced))
    host.perform (.rename release replaced)

def requireFile (p : Path) (message : String) : Flow H Unit := do
  let m ← getMachine
  if m.files.isFile p then pure () else Prog.fail (.invalidBackup message)

def requireDir (p : Path) (message : String) : Flow H Unit := do
  let m ← getMachine
  if m.files.isDir p then pure () else Prog.fail (.invalidBackup message)

def rebuildReleaseFromBackup (txDir : Path) (version : String) (restoreDir : Path) :
    Flow H Unit := do
  let release := Layout.release version
  host.replaceRelease release (txDir ++ ["replaced-release"])
  host.perform (.createDirAll release)
  requireFile (restoreDir ++ [Layout.webserverBinary]) "backup is missing landscape-webserver"
  host.perform (.copyFile (restoreDir ++ [Layout.webserverBinary])
    (release ++ [Layout.webserverBinary]))
  host.check .setPermissions
  requireDir (restoreDir ++ ["static"]) "backup is missing the static directory"
  host.perform (.copyTree (restoreDir ++ ["static"]) (release ++ ["static"]))
  requireFile (restoreDir ++ ["static.zip"]) "backup is missing static.zip"
  host.perform (.copyFile (restoreDir ++ ["static.zip"]) (release ++ ["static.zip"]))

/-- Copy `geo_tmp` and the init configuration of an unpacked backup into `data`. -/
def restoreDataFromBackup (restoreDir : Path) : Flow H Unit := do
  let m ← getMachine
  Prog.onlyIf (m.files.isDir (restoreDir ++ ["geo_tmp"]))
    (host.perform (.copyTree (restoreDir ++ ["geo_tmp"]) (Layout.data ++ ["geo_tmp"])))
  let config ← host.readDocument (restoreDir ++ ["landscape_init.toml"])
  host.perform (.writeFile (Layout.data ++ ["landscape_init.toml"]) config)

/-- The state that a rollback from the `.lkb` commits. -/
def buildRestoredState (t : TransactionFile) (version : String) (snapshot : InstallState)
    (restoreDir : Path) : Flow H InstallState := do
  let webserver ← host.perform (.hashFile (restoreDir ++ [Layout.webserverBinary]))
  let _ ← host.readDocument Layout.unitOrigin
  pure { snapshot with
    activeVersion := version
    webserver := webserver
    status := .complete
    lockPresent := true
    manager := .systemd
    lastTransactionId := some t.transactionId }

def orCorrupted {α : Type} (field : Option α) (message : String) : Flow H α :=
  match field with
  | some a => pure a
  | none => Prog.fail (.corruptedTransaction message)

/-- A health check of `rollback_switch`: its failure is recorded before it is returned. -/
def healthOrFailed (t : TransactionFile) (c : Check) : Flow H Unit := do
  let result ← Prog.attempt (host.check c)
  match result with
  | .ok () => pure ()
  | .error e => do
    Prog.ignore (host.markPhase t .failed)
    Prog.fail e

/-- The steps of `rollback_switch` from the stop to the restored link `current`. -/
def restoreFromBackup (t : TransactionFile) (snapshot : InstallState) (isSystemd : Bool) :
    Flow H InstallState := do
  Prog.onlyIf isSystemd host.stopAndWait
  let txDir := Layout.transactionDir t.transactionId
  host.perform (.createDirAll txDir)
  host.moveDataAside Layout.data (Layout.failedData t.transactionId)
  let backup ← orCorrupted t.backup "switch transaction is missing its .lkb backup reference"
  host.perform (.readFile backup.path)
  let restoreDir := txDir ++ ["restore"]
  Prog.ignore (host.perform (.removeDirAll restoreDir))
  host.perform (.extractLkb restoreDir)
  let version ← orCorrupted t.fromVersion "switch transaction is missing from_version"
  host.rebuildReleaseFromBackup txDir version restoreDir
  host.restoreDataFromBackup restoreDir
  host.restoreCurrent ["releases", version]
  host.buildRestoredState t version snapshot restoreDir

/-- Bring the restored service up as far as its main pid. -/
def startRestored (isSystemd : Bool) : Flow H Unit :=
  Prog.onlyIf isSystemd do
    host.registerAndEnable
    host.start
    host.requirePid "restored service did not produce a main pid"

/-- The health checks of `rollback_switch`. -/
def verifyRestored (t : TransactionFile) (isSystemd : Bool) : Flow H Unit :=
  Prog.onlyIf isSystemd do
    host.healthOrFailed t .waitForStartup
    host.healthOrFailed t .observeStable

/-- Write the state of before and close the transaction. -/
def commitRollback (t : TransactionFile) (state : InstallState) : Flow H Unit := do
  host.writeState state
  host.markPhase t .rolledBack

/-- The steps of `rollback_switch` before its health checks. -/
def reinstate (t : TransactionFile) (snapshot : InstallState) (isSystemd : Bool) :
    Flow H InstallState := do
  let state ← host.restoreFromBackup t snapshot isSystemd
  host.startRestored isSystemd
  pure state

def rollbackSwitch (t : TransactionFile) (snapshot : InstallState) : Flow H Unit := do
  host.markPhase t .rollingBack
  let isSystemd : Bool := snapshot.manager = .systemd
  let state ← host.reinstate t snapshot isSystemd
  host.verifyRestored t isSystemd
  host.commitRollback t state

/-- The part of `rollback_no_backup` that runs under systemd, with the answer to whether
the service was active before. -/
def restoreServiceNoBackup (t : TransactionFile) : Flow H Bool := do
  host.stopAndWait
  let before ← orCorrupted t.systemdBefore "no-backup switch transaction is missing systemd_before"
  host.perform (.restoreRegistration before)
  host.resolvRestore t.resolvConfBackup
  pure before.active

/-- `wasActive` of `rollback_no_backup`; without systemd no service is touched. -/
def restoreServiceState (t : TransactionFile) (isSystemd : Bool) : Flow H Bool :=
  if isSystemd then host.restoreServiceNoBackup t else pure false

/-- The steps of `rollback_no_backup` after its first mark and before its last. -/
def reinstateNoBackup (t : TransactionFile) (previous : InstallState) : Flow H Unit := do
  let isSystemd : Bool := previous.manager = .systemd
  let wasActive ← host.restoreServiceState t isSystemd
  let target ← orCorrupted t.previousCurrent
    "no-backup switch transaction is missing previous_current"
  host.restoreCurrent target
  Prog.onlyIf (isSystemd && wasActive) do
    host.start
    host.requirePid "restored service did not produce a main pid"
    host.healthy
  host.writeState { previous with lastTransactionId := some t.transactionId }

def rollbackNoBackup (t : TransactionFile) (previous : InstallState) : Flow H Unit := do
  host.markPhase t .rollingBack
  host.reinstateNoBackup t previous
  host.markPhase t .rolledBack

def restoreReplacedReleaseIfSameVersion (t : TransactionFile) : Flow H Unit :=
  if t.previousCurrent ≠ t.targetRelease then pure ()
  else do
    let m ← getMachine
    let replaced := Layout.transactionDir t.transactionId ++ ["replaced-release"]
    Prog.onlyIf (m.files.isDir replaced) do
      let target ← orCorrupted t.targetRelease "restore transaction is missing target_release"
      Prog.onlyIf (m.files (Layout.root ++ target)).isSome
        (host.perform (.removeDirAll (Layout.root ++ target)))
      host.perform (.rename replaced (Layout.root ++ target))

/-- The branch of `rollback_restore_inner` in which the old data can still be found. -/
def rollbackRestoreInPlace (t : TransactionFile) (snapshot : InstallState) (isSystemd : Bool) :
    Flow H Unit := do
  let previous := Layout.previousData t.transactionId
  host.restoreReplacedReleaseIfSameVersion t
  let target ← orCorrupted t.previousCurrent "restore transaction is missing previous_current"
  host.restoreCurrent target
  let moved ← pathExists previous
  Prog.onlyIf moved (host.restorePreviousData Layout.data previous)
  let wasActive := t.systemdBefore.any (fun before => before.active)
  Prog.onlyIf (isSystemd && wasActive) do
    host.start
    host.requirePid "restored service did not produce a main pid"
    host.healthy
  host.writeState { snapshot with lastTransactionId := some t.transactionId }
  host.markPhase t .rolledBack

def restoreServiceRegistration (t : TransactionFile) : Flow H Unit :=
  match t.systemdBefore with
  | none => pure ()
  | some before => do
    host.perform (.restoreRegistration before)
    host.resolvRestore t.resolvConfBackup

def rollbackRestoreInner (t : TransactionFile) : Flow H Unit := do
  let snapshot ← host.readStateSnapshot t.transactionId
  let isSystemd : Bool := snapshot.manager = .systemd
  Prog.onlyIf isSystemd host.stopAndWait
  host.restoreServiceRegistration t
  let moved ← pathExists (Layout.previousData t.transactionId)
  let present ← pathExists Layout.data
  if moved || present then host.rollbackRestoreInPlace t snapshot isSystemd
  else if t.backup.isSome then host.rollbackSwitch t snapshot
  else host.rollbackNoBackup t snapshot

/-- Run the work of a rollback between `rolling_back` and, when it fails, `failed`. -/
def rollbackAround (t : TransactionFile) (inner : Flow H Unit) : Flow H Unit := do
  host.markPhase t .rollingBack
  let result ← Prog.attempt inner
  match result with
  | .ok () => pure ()
  | .error e => do
    Prog.ignore (host.markPhase t .failed)
    Prog.fail e

def rollbackRestore (t : TransactionFile) : Flow H Unit :=
  host.rollbackAround t (host.rollbackRestoreInner t)

def rollbackReinitInner (t : TransactionFile) : Flow H Unit := do
  host.stopAndWait
  host.resolvRestore t.resolvConfBackup
  host.restorePreviousData Layout.data (Layout.previousData t.transactionId)
  host.start
  host.requirePid "restored service did not produce a main pid"
  host.healthy
  let snapshot ← host.readStateSnapshot t.transactionId
  host.writeState { snapshot with lastTransactionId := some t.transactionId }
  host.markPhase t .rolledBack

def rollbackReinit (t : TransactionFile) : Flow H Unit :=
  host.rollbackAround t (host.rollbackReinitInner t)

/-- What `restore_host_service` does to get back to a recorded enable state. -/
def enableVerb : String → Option Verb
  | "enabled" | "linked" | "alias" => some .enable
  | "enabled-runtime" | "linked-runtime" => some .enableRuntime
  | "masked" | "masked-runtime" => some .mask
  | _ => none

def applyEnableState (unit state : String) : Flow H Unit :=
  match enableVerb state with
  | some verb => host.perform (.systemctl verb unit)
  | none => pure ()

def restoreHostService (before : HostServiceBefore) : Flow H Unit :=
  Prog.onlyIf before.installed do
    host.perform (.systemctl .unmask before.unit)
    host.applyEnableState before.unit before.enableState
    host.perform (.systemctl (if before.active then .start else .stop) before.unit)

/-- The states in which `stop_disable_mask_host_service` disables a unit. -/
def isEnabledState (state : String) : Bool :=
  state = "enabled" || state = "enabled-runtime" || state = "linked" ||
    state = "linked-runtime" || state = "alias"

def stopDisableMaskHostService (before : HostServiceBefore) : Flow H Unit :=
  Prog.onlyIf before.installed do
    host.perform (.systemctl .stop before.unit)
    Prog.onlyIf (isEnabledState before.enableState) (host.perform (.systemctl .disable before.unit))
    host.perform (.systemctl .mask before.unit)

def stopHostServices (network : NetworkTakeoverTransaction) : Flow H Unit := do
  host.check .downcast
  Prog.forEach host.stopDisableMaskHostService network.hostServices.reverse

/-- `stop`, unless it is the rollback service itself that runs, and `disable`. -/
def retireUnit (runningRollback : Bool) (unit : String) : Flow H Unit := do
  Prog.onlyIf (!runningRollback) (Prog.ignore (host.perform (.systemctl .stop unit)))
  Prog.ignore (host.perform (.systemctl .disable unit))

def removeRecoveryUnits (network : NetworkTakeoverTransaction) (runningRollback : Bool) :
    Flow H Unit := do
  Prog.forEach (host.retireUnit runningRollback)
    [network.rollbackTimer, network.bootRollbackService]
  Prog.onlyIf (!runningRollback)
    (Prog.ignore (host.perform (.systemctl .stop network.rollbackService)))
  Prog.forEach (fun unit => Prog.ignore (host.perform (.removeUnit unit)))
    [network.rollbackTimer, network.rollbackService, network.bootRollbackService]
  host.check .daemonReload
  Prog.ignore (host.perform (.removeFile (Layout.root ++ network.recoveryBinary)))

def cleanupFailedTakeover (network : NetworkTakeoverTransaction) : Flow H Unit := do
  host.check .downcast
  Prog.forEach host.restoreHostService network.hostServices
  host.removeRecoveryUnits network false

def restoreRecordedService (t : TransactionFile) : Flow H Unit :=
  match t.systemdBefore with
  | none => pure ()
  | some before => do
    host.restoreBefore before
    host.resolvRestore t.resolvConfBackup

/-- `let _ = remove_dir_all`, for a path the transaction may not record. -/
def discard (path : Option Path) : Flow H Unit :=
  match path with
  | some p => Prog.ignore (host.perform (.removeDirAll p))
  | none => pure ()

def removeTargetRelease (t : TransactionFile) : Flow H Unit := do
  host.discard (t.targetRelease.map fun target => Layout.root ++ target)
  host.discard (t.targetVersion.map fun version =>
    Layout.releases ++ [".install-" ++ version ++ ".tmp"])

def removeCurrentOfTarget (t : TransactionFile) : Flow H Unit := do
  let m ← getMachine
  Prog.onlyIf (t.targetRelease.any fun target => m.files Layout.current = some (.link target))
    (Prog.ignore (host.perform (.removeFile Layout.current)))

def cleanupFailedFirstInstall (t : TransactionFile) : Flow H Unit := do
  host.restoreRecordedService t
  host.removeTargetRelease t
  Prog.ignore (host.perform (.removeFile Layout.currentTmp))
  host.removeCurrentOfTarget t
  Prog.ignore (host.perform (.removeFile (Layout.data ++ ["landscape_init.toml"])))
  Prog.ignore (host.perform (.removeFile Layout.statePath))

def cleanupMigratedRoot : Flow H Unit := do
  Prog.ignore (host.perform (.removeDirAll Layout.data))
  Prog.ignore (host.perform (.removeDirAll Layout.service))
  Prog.ignore (host.perform (.removeDirAll (Layout.root ++ ["state"])))

/-- Put a moved unit file back in its place. -/
def returnLegacyFile (before : LegacyUnitBefore) : Flow H Unit := do
  let backup ← orCorrupted before.fileBackup "moved legacy unit is missing file_backup"
  let file ← orCorrupted before.filePath "moved legacy unit is missing file_path"
  host.perform (.rename backup file)
  host.check .daemonReload

def restoreLegacyUnit (t : TransactionFile) : Flow H Unit := do
  host.check .downcast
  match t.legacyUnit with
  | none => pure ()
  | some before => do
    Prog.onlyIf before.fileMoved (host.returnLegacyFile before)
    host.restoreHostService ⟨before.unit, true, before.active, before.enableState⟩

def rollbackMigrateInner (t : TransactionFile) : Flow H Unit := do
  host.check .downcast
  host.cleanupFailedFirstInstall t
  host.restoreLegacyUnit t
  host.cleanupMigratedRoot
  host.markPhase t .rolledBack

def rollbackMigrate (t : TransactionFile) : Flow H Unit :=
  host.rollbackAround t (host.rollbackMigrateInner t)

end Host

end LandscapeKit.Deploy
