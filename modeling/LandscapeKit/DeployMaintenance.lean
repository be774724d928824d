import LandscapeKit.DeployWorkflows

/-!
The workflows that keep an installation (`workflows/migrate`, `workflows/repair.rs`) and the
one that removes it (`workflows/uninstall`).
-/

namespace LandscapeKit.Deploy

open Faults

namespace Host

variable {H : Type} (host : Host H)

section Migrate

/-- `prepare_migration`: only the backup of the old deployment, nothing is stopped yet. -/
def prepareMigration (id version : String) : Flow H Unit := do
  startWith (.newMigrate id version)
  host.beginOwn
  withErrorPath (do
    let backup ← host.perform (.createMigrationBackup (Layout.transactionDir id))
    setTransaction fun t => { t with backup := some backup }
    host.persistOwn .persist
    host.check .checkInterrupted
    host.check .confirmMigrate
    host.mark .prepared) host.markFailed

def loadPreparedTransaction (id : String) : Flow H TransactionFile := do
  let unfinished ← host.findUnfinished
  match unfinished with
  | none =>
    Prog.fail (.corruptedTransaction ("prepared migration transaction " ++ id ++
      " is not present; it may have been recovered as failed — run `lkit migrate` again"))
  | some t =>
    if t.transactionId ≠ id then
      Prog.fail (.blockedByTransaction ("another unfinished transaction " ++ t.transactionId ++
        " is present; cannot continue migration transaction " ++ id))
    else if t.operation ≠ .migrate then
      Prog.fail (.corruptedTransaction ("transaction " ++ t.transactionId ++ " is a " ++
        t.operation.key ++ " transaction, not a migration"))
    else if t.phase ≠ .prepared then
      Prog.fail (.corruptedTransaction ("migration transaction " ++ t.transactionId ++
        " is in phase " ++ t.phase.key ++ " instead of prepared"))
    else if t.backup = none ∨ t.targetVersion = none then
      Prog.fail (.corruptedTransaction
        "prepared migration transaction must record the migration backup and target version")
    else pure t

/-- Move the unit file away, so that the managed unit can be registered in its place. -/
def moveLegacyFile (id : String) (before : HostServiceBefore) (fragment : Path) :
    Flow H LegacyUnitBefore := do
  let backup := Layout.transactionDir id ++ ["legacy-unit", before.unit]
  host.perform (.createDirAll backup.dropLast)
  host.perform (.rename fragment backup)
  host.check .daemonReload
  pure ⟨before.unit, before.active, before.enableState, true, some fragment, some backup⟩

def maskLegacyUnit (before : HostServiceBefore) : Flow H LegacyUnitBefore := do
  host.perform (.systemctl .mask before.unit)
  pure ⟨before.unit, before.active, before.enableState, false, none, none⟩

def stopLegacyUnit (id unit : String) : Flow H LegacyUnitBefore := do
  let before ← host.inspectHostService unit
  if before.installed = false then
    Prog.fail (.parameterUsage ("unit " ++ unit ++ " is not installed"))
  else do
    let fragment ← host.perform (.fragmentPath unit)
    host.perform (.systemctl .stop unit)
    Prog.onlyIf (isEnabledState before.enableState) (host.perform (.systemctl .disable unit))
    if Layout.systemUnits <+: fragment then host.moveLegacyFile id before fragment
    else host.maskLegacyUnit before

/-- Anything that is there and is not a symbolic link. -/
def isPlain (files : Files Document) (p : Path) : Bool :=
  match files p with
  | none => false
  | some (.link _) => false
  | some _ => true

/-- The unit of the old deployment, when it stands where the managed unit is registered. -/
def preemptRegistrationConflict (id : String) : Flow H (Option LegacyUnitBefore) := do
  let units ← host.perform .resolveLegacyUnits
  match units with
  | [unit] =>
    if unit ≠ routerUnit then pure none
    else do
      let fragment ← host.perform (.fragmentPath unit)
      let m ← getMachine
      if fragment = Layout.systemUnits ++ [unit] ∧ isPlain m.files fragment then do
        let before ← host.stopLegacyUnit id unit
        pure (some before)
      else pure none
  | _ => pure none

def stopLegacyInstance (id : String) (available : Bool) : Flow H (Option LegacyUnitBefore) :=
  if available then do
    let units ← host.perform .resolveLegacyUnits
    match units with
    | [] => do
      host.check .confirmInstanceStopped
      pure none
    | [unit] => do
      let before ← host.stopLegacyUnit id unit
      pure (some before)
    | _ =>
      Prog.fail (.parameterUsage ("multiple systemd units serve the old deployment: " ++
        ", ".intercalate units ++ "; stop or remove all but one manually and retry"))
  else do
    host.check .confirmInstanceStopped
    pure none

/-- Record the old unit and persist. The transaction was loaded at `prepared`, and that is
the phase this `persist` writes. -/
def recordLegacyUnit (legacy : Option LegacyUnitBefore) : Flow H Unit := do
  setTransaction fun t => { t with legacyUnit := legacy.or t.legacyUnit }
  host.persistOwn .stoppingPersist

/-- The part of `run_migrate_switch` under `stopping`. -/
def stopOldInstance (id : String) (available : Bool) : Flow H Unit := do
  let preempted ← host.preemptRegistrationConflict id
  Prog.onlyIf preempted.isSome (host.recordLegacyUnit preempted)
  host.recordOwnBefore
  host.persistOwn .stoppingPersist
  let t ← getTransaction
  Prog.onlyIf t.legacyUnit.isNone do
    let legacy ← host.stopLegacyInstance id available
    host.recordLegacyUnit legacy
  host.check .confirmInstanceStopped

/-- The part of `run_migrate_switch` under `activating`, up to the link `current`. -/
def rebuildFromMigrationBackup (id version : String) : Flow H Unit := do
  let txDir := Layout.transactionDir id
  let restoreDir := txDir ++ ["restore"]
  let t ← getTransaction
  let backup ← orCorrupted t.backup
    "prepared migration transaction is missing the migration backup"
  host.perform (.readFile backup.path)
  Prog.ignore (host.perform (.removeDirAll restoreDir))
  host.perform (.extractLkb restoreDir)
  host.rebuildReleaseFromBackup txDir version restoreDir
  host.perform (.createDirAll Layout.data)
  host.restoreDataFromBackup restoreDir
  host.restoreCurrent ["releases", version]

def runMigrateSwitch (id version : String) (available : Bool) : Flow H Unit := do
  host.check .ensureNotCancelled
  host.mark .stopping
  setStoppingStarted
  host.stopOldInstance id available
  host.check .ensureNotCancelled
  host.mark .activating
  host.rebuildFromMigrationBackup id version
  host.check .ensureNotCancelled
  let _ ← host.perform .writeUnitOrigin
  host.registerStartAndVerify
  host.check .ensureNotCancelled
  let newState ← host.buildUnpackedState version id
    (Layout.transactionDir id ++ ["restore"])
  host.commit newState

/-- The rollback of a switch that had started to stop things works on the file as it is now. -/
def rollbackStartedMigration (id : String) : Flow H Unit := do
  let unfinished ← host.findUnfinished
  match unfinished with
  | none => Prog.fail (.corruptedTransaction
      ("migration transaction " ++ id ++ " disappeared before the rollback"))
  | some latest => Prog.ignore (host.rollbackMigrate latest)

def abandonMigration (prepared : TransactionFile) : Flow H Unit := do
  let started ← getStoppingStarted
  if started then host.rollbackStartedMigration prepared.transactionId
  else Prog.ignore (host.markPhase prepared .failed)

def migrateSwitchOutcome (id : String) (available : Bool) : Flow H Unit := do
  let prepared ← host.loadPreparedTransaction id
  let version ← orCorrupted prepared.targetVersion
    "migrate transaction is missing target_version"
  startWith prepared
  withErrorPath (host.runMigrateSwitch id version available) (host.abandonMigration prepared)

def migrate (id version : String) (available : Bool) : Flow H Unit := do
  host.prepareMigration id version
  host.migrateSwitchOutcome id available

end Migrate

section Repair

/-- The custom frontend source could not be read: ask for the official pages instead. -/
def fallBackToOfficial (interactive : Bool) (txDir : Path) : Flow H (Option Asset) := do
  let fallback ← if interactive then host.perform .accepted else pure false
  if fallback then do
    let asset ← host.perform (.fetchStatic txDir)
    pure (some asset)
  else Prog.fail (.frontendSource
    "use `lkit repair static --official` to restore the official frontend pages")

def fetchFrontend (interactive : Bool) (txDir : Path) : Flow H (Option Asset) := do
  let fetched ← Prog.attempt (host.perform (.fetchFromSource txDir))
  match fetched with
  | .ok () => pure none
  | .error _ => host.fallBackToOfficial interactive txDir

/-- The static pages of a repair; `some` when the official ones were fetched. -/
def fetchStaticPages (custom interactive : Bool) (txDir : Path) : Flow H (Option Asset) :=
  if custom then host.fetchFrontend interactive txDir
  else do
    let asset ← host.perform (.fetchStatic txDir)
    pure (some asset)

def replaceFile (source target tmp : Path) : Flow H Unit := do
  host.perform (.copyFile source tmp)
  host.perform (.rename tmp target)

def refreshVersionStaticZip (version : String) (downloaded : Path) : Flow H Unit :=
  host.replaceFile downloaded (Layout.release version ++ ["static.zip"])
    (Layout.release version ++ ["static.zip.tmp"])

/-- Put the new pages in the place of the old ones, or the old ones back. -/
def swapStatic (live new replaced : Path) : Flow H Unit := do
  host.perform (.rename live replaced)
  withErrorPath (host.perform (.rename new live))
    (Prog.ignore (host.perform (.rename replaced live)))

def repairStaticBlock (state : InstallState) (id : String) (custom interactive : Bool) :
    Flow H Unit := do
  let txDir := Layout.transactionDir id
  let live := Layout.release state.activeVersion ++ ["static"]
  host.perform (.createDirAll txDir)
  let official ← host.fetchStaticPages custom interactive txDir
  Prog.onlyIf official.isSome
    (host.refreshVersionStaticZip state.activeVersion (txDir ++ ["static.zip"]))
  host.perform (.copyTree live (txDir ++ ["static-backup"]))
  setTransaction fun t => { t with staticBackup := some {
    path := txDir ++ ["static-backup"]
    target := ["releases", state.activeVersion, "static"] } }
  host.mark .prepared
  host.mark .activating
  setActivated
  host.swapStatic live (txDir ++ ["static"]) (txDir ++ ["static-replaced"])
  host.commit { state with
    staticArchive := official.getD state.staticArchive
    lastTransactionId := some id }

def restoreStatic (live backup : Path) : Flow H Unit := do
  Prog.ignore (host.perform (.removeDirAll live))
  host.perform (.copyTree backup live)

/-- The error path of `repair_static` after activation. -/
def rollbackStatic (live backup : Path) : Flow H Unit := do
  let restored ← Prog.attempt (host.restoreStatic live backup)
  match restored with
  | .ok () => Prog.ignore (host.mark .rolledBack)
  | .error _ => host.markFailed

def abandonRepairStatic (state : InstallState) (id : String) : Flow H Unit := do
  let activated ← getActivated
  if activated then
    host.rollbackStatic (Layout.release state.activeVersion ++ ["static"])
      (Layout.transactionDir id ++ ["static-backup"])
  else host.markFailed

def repairStatic (state : InstallState) (id : String) (custom interactive : Bool) :
    Flow H Unit := do
  startWith (.newRepairStatic id)
  host.beginOwn
  withErrorPath (host.repairStaticBlock state id custom interactive)
    (host.abandonRepairStatic state id)

def replaceBinary (target source tmp : Path) : Flow H Unit := do
  host.perform (.copyFile source tmp)
  host.check .setPermissions
  withErrorPath (host.perform (.rename tmp target))
    (Prog.ignore (host.perform (.removeFile tmp)))

def binaryTmp (version : String) : Path :=
  Layout.release version ++ [".landscape-webserver.tmp"]

def prepareRepairBinary (state : InstallState) (id : String) (isSystemd : Bool) :
    Flow H Asset := do
  let txDir := Layout.transactionDir id
  host.perform (.createDirAll txDir)
  host.perform (.createDirAll (txDir ++ ["new-binary"]))
  let built ← host.perform (.fetchWebserver (txDir ++ ["new-binary"]))
  host.check .verifyBackendIdentity
  host.perform (.copyFile (Layout.release state.activeVersion ++ [Layout.webserverBinary])
    (txDir ++ ["repaired-binary"]))
  host.exportAndBackup state
  Prog.onlyIf isSystemd do
    host.recordOwnBefore
    let _ ← host.readDocument Layout.unitOrigin
    pure ()
  host.writeStateSnapshot id state
  pure built

def repairBinaryBlock (state : InstallState) (id : String) (isSystemd : Bool) : Flow H Unit := do
  let built ← host.prepareRepairBinary state id isSystemd
  host.mark .prepared
  host.stopForSwitch isSystemd
  host.mark .activating
  setActivated
  host.replaceBinary (Layout.release state.activeVersion ++ [Layout.webserverBinary])
    (Layout.transactionDir id ++ ["new-binary", Layout.webserverBinary])
    (binaryTmp state.activeVersion)
  Prog.onlyIf isSystemd (host.startAndVerify "service did not produce a main pid after start")
  host.commitSwitch state state.activeVersion id (built, state.staticArchive)

def abandonRepairBinary (state : InstallState) (isSystemd : Bool) : Flow H Unit := do
  let activated ← getActivated
  let t ← getTransaction
  if isSystemd && activated then Prog.ignore (host.rollbackSwitch t state)
  else Prog.onlyIf (!activated) host.markFailed

def repairBinary (state : InstallState) (id : String) : Flow H Unit := do
  let isSystemd : Bool := state.manager = .systemd
  host.check .checkInitialization
  startWith (.newRepairBinary id state.activeVersion)
  host.beginOwn
  withErrorPath (host.repairBinaryBlock state id isSystemd)
    (host.abandonRepairBinary state isSystemd)

def observeInitialization (state : InstallState) (id : String) : Flow H Unit := do
  startWith (.newObservationRepair id)
  host.beginOwn
  withErrorPath (do
    host.check .checkInitialization
    let m ← getMachine
    if m.files.isFile initLock && m.files.isFile (Layout.data ++ ["landscape.toml"]) then
      host.commit { state with
        status := .complete
        lockPresent := true
        lastTransactionId := some id }
    else Prog.fail (.corruptedState
      "the initialization lock or persistent config disappeared during the observation repair"))
    host.markFailed

end Repair

section Uninstall

/-- Take the registration away, once it is known to be the managed one. -/
def unregister : Flow H Unit := do
  host.check .query
  let enabled ← host.isEnabled routerUnit
  Prog.onlyIf (enabled = "enabled") (host.perform (.systemctl .disable routerUnit))
  host.perform (.removeUnit routerUnit)

def isActiveOrFalse : Flow H Bool := do
  let active ← Prog.attempt (host.isActive routerUnit)
  match active with
  | .ok active => pure active
  | .error _ => pure false

def deactivateService : Flow H Unit := do
  host.check .query
  let m ← getMachine
  let running ← host.isActiveOrFalse
  Prog.onlyIf ((m.units routerUnit).present || running) do
    let active ← host.isActive routerUnit
    Prog.onlyIf active host.stopAndWait
    host.check .query
    let m ← getMachine
    Prog.onlyIf (m.units routerUnit).present host.unregister

def deactivate : Flow H Unit := do
  host.deactivateService
  host.check .daemonReload

def removeManagedContents (keepData : Bool) : Flow H Unit := do
  host.removePathIfPresent Layout.current
  host.removePathIfPresent Layout.releases
  host.removePathIfPresent Layout.service
  Prog.onlyIf (!keepData) (host.removePathIfPresent Layout.data)
  host.removePathIfPresent Layout.statePath

/-- `complete_uninstall`, the way an interrupted uninstall is carried to its end. It does not
know of `--keep-data`. -/
def completeUninstall (t : TransactionFile) : Flow H Unit := do
  Prog.onlyIf t.systemdBefore.isSome host.deactivate
  host.removeManagedContents false

def prepareUninstall (state : InstallState) (allowNoBackup isSystemd : Bool) : Flow H Unit := do
  host.protect state allowNoBackup
  host.persistOwn .persist
  Prog.onlyIf isSystemd do
    host.recordOwnBefore
    host.persistOwn .persist

def stopForUninstall (isSystemd interactive : Bool) : Flow H Unit :=
  if isSystemd then do
    host.mark .stopping
    host.deactivate
  else Prog.onlyIf interactive host.askToStop

def uninstallBlock (isSystemd interactive keepData : Bool) : Flow H Unit := do
  host.stopForUninstall isSystemd interactive
  host.mark .activating
  host.removeManagedContents keepData

def uninstallInstallation (state : InstallState) (id : String)
    (allowNoBackup interactive keepData : Bool) : Flow H Unit := do
  let isSystemd : Bool := state.manager = .systemd
  startWith (.newUninstall id state.activeVersion)
  host.beginOwn
  host.prepareUninstall state allowNoBackup isSystemd
  withErrorPath (host.uninstallBlock isSystemd interactive keepData) host.markFailed
  host.mark .committed
  Prog.ignore host.removeTransaction

end Uninstall

end Host

end LandscapeKit.Deploy
