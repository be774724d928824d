import LandscapeKit.DeployTakeover

/-!
The workflows (`workflows/install`, `workflows/switch.rs`, `workflows/restore`,
`workflows/reinit.rs`, `workflows/migrate`, `workflows/repair.rs`, `workflows/uninstall`),
from the creation of their transaction on. Each runs a block of steps and has an error path
that depends on how far the block came.
-/

namespace LandscapeKit.Deploy

open Faults

namespace Host

variable {H : Type} (host : Host H)

def withErrorPath (block : Flow H Unit) (onError : Flow H Unit) : Flow H Unit := do
  let result ← Prog.attempt block
  match result with
  | .ok () => pure ()
  | .error e => do
    onError
    Prog.fail e

/-- `mark_phase` of the workflow's own transaction. -/
def mark (phase : Phase) : Flow H Unit := do
  let t ← getTransaction
  host.markPhase t phase

def persistOwn (call : Call) : Flow H Unit := do
  let t ← getTransaction
  host.writeTransaction call t

def markFailed : Flow H Unit := Prog.ignore (host.mark .failed)

/-- Ask the user to stop an instance lkit does not manage. -/
def askToStop : Flow H Unit := do
  let accepted ← host.perform .accepted
  if accepted then pure ()
  else Prog.fail (.userRefused "user refused to stop the running instance")

/-- The error path before activation: the service goes back to what was recorded, and the
transaction is over either way. -/
def abandonBeforeActivation : Flow H Unit := do
  let t ← getTransaction
  Prog.ignore (host.restoreRecordedService t)
  host.markFailed

/-- Export the running configuration and pack it into a `.lkb`. The export has to come from
the version that is recorded as running. -/
def exportAndBackup (state : InstallState) : Flow H Unit := do
  host.check .token
  let exported ← host.perform .exportConfig
  if exported ≠ state.activeVersion then
    Prog.fail (.exportFailed
      ("exported version " ++ exported ++ " does not match the running version " ++
        state.activeVersion))
  else do
    let backup ← host.perform .createBackup
    setTransaction fun t => { t with backup := some backup }

def createProtectionBackup (state : InstallState) : Flow H Unit := do
  host.check .checkInitialization
  host.check .verifyCurrentBackend
  host.exportAndBackup state

/-- The protection backup of `restore`, `reinit` and `uninstall`: without one the workflow
ends here, unless `--allow-no-backup` was given. -/
def protect (state : InstallState) (allowNoBackup : Bool) : Flow H Unit := do
  let result ← Prog.attempt (host.createProtectionBackup state)
  match result with
  | .ok () => pure ()
  | .error e =>
    if allowNoBackup then setTransaction fun t => { t with noBackup := true }
    else do
      host.markFailed
      Prog.fail e

/-- `capture_before` and the copy of `/etc/resolv.conf`, for the workflow's transaction. -/
def recordOwnBefore : Flow H Unit := do
  let t ← getTransaction
  host.recordBefore t.transactionId

/-- Start the service and see it through the health checks. -/
def startAndVerify (message : String) : Flow H Unit := do
  host.start
  host.mark .verifying
  host.requirePid message
  host.healthy

def registerStartAndVerify : Flow H Unit := do
  host.registerAndEnable
  host.startAndVerify "service did not produce a main pid after start"

def activateCurrent (version : String) : Flow H Unit :=
  host.restoreCurrent ["releases", version]

/-- Write the new state and commit. -/
def commit (state : InstallState) : Flow H Unit := do
  host.writeState state
  host.mark .committed

section Install

def buildState (version : String) (built : Asset × Asset) : InstallState where
  activeVersion := version
  webserver := built.1
  staticArchive := built.2
  status := .complete
  lockPresent := true
  manager := .systemd
  lastTransactionId := none

def recordTakeover (takeover : NetworkTakeoverTransaction) : Flow H Unit :=
  setTransaction fun t => { t with networkTakeover := some takeover }

def refreshDeadline (confirmTimeout : ℕ) : Flow H Unit := do
  let t ← getTransaction
  match t.networkTakeover with
  | none => pure ()
  | some takeover => do
    let now ← host.perform .now
    recordTakeover { takeover with confirmationDeadline := now + confirmTimeout }

/-- Arm the recovery units, and only then take the host's services away. -/
def takeOver : Flow H Unit := do
  let t ← getTransaction
  match t.networkTakeover with
  | none => pure ()
  | some takeover => do
    host.armRecovery takeover
    host.mark .stopping
    host.stopHostServices takeover
    host.check .clearSelectedLanAddresses

/-- A takeover waits for its confirmation; any other install is complete. -/
def commitInstall (state : InstallState) : Flow H Unit := do
  let t ← getTransaction
  match t.networkTakeover with
  | none => host.commit state
  | some takeover => do
    host.writePendingState takeover state
    host.mark .awaitingNetworkConfirmation

def writeInitConfig (config : String) : Flow H Unit := do
  host.perform (.createDirAll Layout.data)
  host.perform (.writeFile (Layout.data ++ ["landscape_init.toml"]) (.text config))

/-- Everything before `prepared`. The unit origin is written before what was there is
recorded in the transaction. -/
def prepareInstall (version config : String) (confirmTimeout : ℕ) : Flow H (Asset × Asset) := do
  let built ← host.perform (.buildRelease version)
  host.check .buildInitConfig
  host.writeInitConfig config
  let before ← host.captureBefore
  let t ← getTransaction
  host.perform (.resolvBackup (Layout.resolvBackupDir t.transactionId))
  let _ ← host.perform .writeUnitOrigin
  setTransaction fun t => { t with
    systemdBefore := some before
    resolvConfBackup := some (Layout.resolvBackupDir t.transactionId) }
  host.refreshDeadline confirmTimeout
  host.persistOwn .persist
  pure built

def installBlock (version config : String) (confirmTimeout : ℕ) : Flow H Unit := do
  let built ← host.prepareInstall version config confirmTimeout
  host.mark .prepared
  host.takeOver
  host.mark .activating
  host.activateCurrent version
  host.registerStartAndVerify
  host.commitInstall (buildState version built)

/-- The error path of a takeover install. When its cleanup fails the file is left as it is,
for `network rollback`. -/
def abandonTakeover (takeover : NetworkTakeoverTransaction) : Flow H Unit := do
  let t ← getTransaction
  Prog.ignore (host.mark .rollingBack)
  let cleanup ← Prog.attempt (do
    host.cleanupFailedFirstInstall t
    host.cleanupFailedTakeover takeover)
  match cleanup with
  | .ok () => host.markFailed
  | .error _ => pure ()

def abandonInstall : Flow H Unit := do
  let t ← getTransaction
  match t.networkTakeover with
  | some takeover => host.abandonTakeover takeover
  | none => do
    Prog.ignore (host.cleanupFailedFirstInstall t)
    host.markFailed

def planTakeover (id : String) (network : Bool) (confirmTimeout : ℕ) : Flow H Unit :=
  Prog.onlyIf network do
    let takeover ← host.prepareTakeover id confirmTimeout
    recordTakeover takeover

def beginOwn : Flow H Unit := do
  let t ← getTransaction
  host.beginTransaction t

/-- `first_install_impl`; `network` says whether there is a network plan. -/
def firstInstall (id version config : String) (network : Bool) (confirmTimeout : ℕ) :
    Flow H Unit := do
  startWith (.newInstall id version)
  host.planTakeover id network confirmTimeout
  host.beginOwn
  withErrorPath (host.installBlock version config confirmTimeout) host.abandonInstall

end Install

section Switch

/-- `build_switched_state`, which records systemd whatever was recorded before. -/
def buildSwitchedState (previous : InstallState) (version id : String) (built : Asset × Asset)
    (lockPresent : Bool) : InstallState where
  activeVersion := version
  webserver := built.1
  staticArchive := built.2
  status := previous.status
  lockPresent := lockPresent
  manager := .systemd
  lastTransactionId := some id

def initLock : Path := Layout.data ++ ["landscape_init.lock"]

def commitSwitch (previous : InstallState) (version id : String) (built : Asset × Asset) :
    Flow H Unit := do
  let m ← getMachine
  host.commit (buildSwitchedState previous version id built (m.files.isFile initLock))

/-- Stop the managed service, or have the user stop what he runs himself. -/
def stopForSwitch (isSystemd : Bool) : Flow H Unit :=
  if isSystemd then do
    host.mark .stopping
    host.stopAndWait
  else host.askToStop

def prepareSwitch (state : InstallState) (id target : String) (isSystemd serviceStopped : Bool) :
    Flow H (Asset × Asset) := do
  let built ← host.perform (.buildRelease target)
  Prog.onlyIf (!serviceStopped) (host.exportAndBackup state)
  Prog.onlyIf isSystemd do
    host.recordBefore id
    let _ ← host.perform .writeUnitOrigin
    pure ()
  Prog.onlyIf (!serviceStopped) (host.writeStateSnapshot id state)
  pure built

def switchBlock (state : InstallState) (id target : String) (isSystemd serviceStopped : Bool) :
    Flow H Unit := do
  let built ← host.prepareSwitch state id target isSystemd serviceStopped
  host.mark .prepared
  host.stopForSwitch isSystemd
  host.mark .activating
  setActivated
  host.activateCurrent target
  Prog.onlyIf isSystemd host.registerStartAndVerify
  host.commitSwitch state target id built

/-- The rollback a failed switch runs; what it returns only decides the exit code. -/
def rollbackFailedSwitch (state : InstallState) : Flow H Unit := do
  let t ← getTransaction
  if t.backup.isSome then Prog.ignore (host.rollbackSwitch t state)
  else Prog.ignore (host.rollbackNoBackup t state)

def abandonSwitch (state : InstallState) (isSystemd : Bool) : Flow H Unit := do
  let activated ← getActivated
  if isSystemd && activated then host.rollbackFailedSwitch state
  else Prog.onlyIf (!activated) host.abandonBeforeActivation

/-- Whether the managed service is down, which only a no-backup switch may find. -/
def serviceStopped (isSystemd : Bool) : Flow H Bool :=
  if isSystemd then do
    let active ← host.isActive routerUnit
    pure (!active)
  else pure false

/-- Only a newer version is switched to; which of two different ones is newer is left to the
comparison of the host. -/
def requireUpgrade (active target : String) : Flow H Unit :=
  if !isStableVersion active then
    Prog.fail (.corruptedState ("invalid active version: " ++ active))
  else if target = active then
    Prog.fail (.parameterUsage "the target version is already active")
  else host.check .compareVersions

def switchVersion (state : InstallState) (id target : String) (allowNoBackup : Bool) :
    Flow H Unit := do
  let isSystemd : Bool := state.manager = .systemd
  host.requireUpgrade state.activeVersion target
  host.check .checkInitialization
  host.check .verifyCurrentBackend
  let stopped ← host.serviceStopped isSystemd
  if stopped && !allowNoBackup then
    Prog.fail (.serviceNotRunning
      "the managed service is stopped; start it with `systemctl start landscape-router.service` and retry, or re-run with --allow-no-backup to switch without a configuration snapshot")
  else do
    startWith { TransactionFile.newSwitch id state.activeVersion target with noBackup := stopped }
    host.beginOwn
    withErrorPath (host.switchBlock state id target isSystemd stopped)
      (host.abandonSwitch state isSystemd)

end Switch

section Restore

/-- Where the backup to restore comes from: `--backup` or `--file`. -/
inductive BackupSource
  | id (backupId sha256 : String)
  | file (backupId content : String)

/-- Settle which `.lkb` is restored. A file from outside is first copied into the
transaction's directory and checked there. -/
def resolveRestoreBackup (id : String) (source : BackupSource) : Flow H BackupRef :=
  match source with
  | .id backupId sha256 => pure ⟨backupId, Layout.backups ++ [backupId ++ ".lkb"], sha256⟩
  | .file backupId content => do
    let copied := Layout.transactionDir id ++ ["target-backup.lkb"]
    host.perform (.createDirAll (Layout.transactionDir id))
    host.perform (.writeFile copied (.text content))
    host.perform (.readFile copied)
    host.check .verifyLkb
    let hash ← host.perform (.hashFile copied)
    pure ⟨backupId, copied, hash.sha256⟩

def buildUnpackedState (version id : String) (restoreDir : Path) : Flow H InstallState := do
  let webserver ← host.perform (.hashFile (restoreDir ++ [Layout.webserverBinary]))
  let staticArchive ← host.perform (.hashFile (restoreDir ++ ["static.zip"]))
  pure {
    activeVersion := version
    webserver := webserver
    staticArchive := staticArchive
    status := .complete
    lockPresent := true
    manager := .systemd
    lastTransactionId := some id }

/-- The steps of `restore_version` up to the unpacked backup, each failing with the file at
`preparing`. -/
def prepareRestore (state : InstallState) (id : String) (source : BackupSource)
    (allowNoBackup isSystemd : Bool) : Flow H Unit := do
  let backup ← host.resolveRestoreBackup id source
  setTransaction fun t => { t with restoreBackup := some backup }
  host.persistOwn .persist
  host.protect state allowNoBackup
  host.persistOwn .persist
  Prog.onlyIf isSystemd do
    host.recordOwnBefore
    host.persistOwn .persist
    let _ ← host.readDocument Layout.unitOrigin
    pure ()
  host.writeStateSnapshot id state
  Prog.ignore (host.perform (.removeDirAll (Layout.transactionDir id ++ ["restore"])))
  withErrorPath (host.perform (.extractLkb (Layout.transactionDir id ++ ["restore"])))
    host.markFailed
  host.mark .prepared

/-- Stop the managed service; a foreign instance needs a confirmation only when one was not
given on the command line. -/
def stopForRestore (isSystemd interactive : Bool) : Flow H Unit :=
  if isSystemd then do
    host.mark .stopping
    host.stopAndWait
  else Prog.onlyIf interactive host.askToStop

def restoreBlock (id target : String) (isSystemd interactive : Bool) : Flow H Unit := do
  let txDir := Layout.transactionDir id
  let restoreDir := txDir ++ ["restore"]
  host.stopForRestore isSystemd interactive
  host.mark .activating
  setActivated
  host.perform (.createDirAll txDir)
  host.moveDataAside Layout.data (Layout.previousData id)
  host.rebuildReleaseFromBackup txDir target restoreDir
  host.restoreDataFromBackup restoreDir
  host.restoreCurrent ["releases", target]
  Prog.onlyIf isSystemd host.registerStartAndVerify
  let newState ← host.buildUnpackedState target id restoreDir
  host.commit newState

def abandonRestore (isSystemd : Bool) : Flow H Unit := do
  let activated ← getActivated
  let t ← getTransaction
  if isSystemd && activated then Prog.ignore (host.rollbackRestore t)
  else Prog.onlyIf (!activated) host.abandonBeforeActivation

def restoreVersion (state : InstallState) (id target : String) (source : BackupSource)
    (allowNoBackup interactive : Bool) : Flow H Unit := do
  let isSystemd : Bool := state.manager = .systemd
  startWith (.newRestore id state.activeVersion target)
  host.beginOwn
  host.prepareRestore state id source allowNoBackup isSystemd
  withErrorPath (host.restoreBlock id target isSystemd interactive)
    (host.abandonRestore isSystemd)

end Restore

section Reinit

def buildReinitState (previous : InstallState) (id : String) (lockPresent : Bool) :
    InstallState :=
  { previous with
    status := .complete
    lockPresent := lockPresent
    manager := .systemd
    lastTransactionId := some id }

/-- The steps of `reinit_installation` before `prepared`, each failing with the file at
`preparing`. -/
def prepareReinit (state : InstallState) (id : String) (allowNoBackup : Bool) : Flow H Unit := do
  host.protect state allowNoBackup
  host.persistOwn .persist
  host.recordOwnBefore
  host.persistOwn .persist
  let _ ← host.readDocument Layout.unitOrigin
  host.writeStateSnapshot id state
  host.check .buildInitConfig
  host.mark .prepared

/-- Record the takeover, write the state it will commit, and arm the recovery units. The
workflow's own transaction still has the phase it was created with, and that is what this
`persist` writes. -/
def armReinit (state : InstallState) (id : String) (confirmTimeout : ℕ) : Flow H Unit := do
  let m ← getMachine
  let takeover ← host.prepareTakeover id confirmTimeout
  recordTakeover takeover
  host.persistOwn .takeoverPersist
  host.writePendingState takeover (buildReinitState state id (m.files.isFile initLock))
  host.armRecovery takeover
  host.mark .awaitingNetworkConfirmation

/-- Move the old data away and start on an empty directory with the new configuration. -/
def startAfresh (id config : String) : Flow H Unit := do
  host.perform (.createDirAll (Layout.transactionDir id))
  host.moveDataAside Layout.data (Layout.previousData id)
  host.writeInitConfig config
  host.check .clearSelectedLanAddresses
  host.startAndVerify "reinit did not produce a main pid after start"

def reinitBlock (state : InstallState) (id config : String) (confirmTimeout : ℕ) :
    Flow H Unit := do
  host.mark .stopping
  host.stopAndWait
  host.mark .activating
  setActivated
  host.startAfresh id config
  host.armReinit state id confirmTimeout

def abandonReinit : Flow H Unit := do
  let activated ← getActivated
  let t ← getTransaction
  if activated then Prog.ignore (host.rollbackReinit t)
  else host.abandonBeforeActivation

def reinitInstallation (state : InstallState) (id config : String) (allowNoBackup : Bool)
    (confirmTimeout : ℕ) : Flow H Unit := do
  startWith (.newReinit id state.activeVersion)
  host.beginOwn
  host.prepareReinit state id allowNoBackup
  withErrorPath (host.reinitBlock state id config confirmTimeout) host.abandonReinit

end Reinit

end Host

end LandscapeKit.Deploy
