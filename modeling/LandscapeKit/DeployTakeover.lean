import LandscapeKit.DeployRollback

/-!
The network takeover (`network/takeover.rs` and the strict half of
`deployment/transaction/cleanup.rs`): the recovery units that are armed before the host's own
network services go away, the confirmation that retires them, and `network rollback`.
-/

namespace LandscapeKit.Deploy

open Faults

/-- The services a takeover may have to replace. -/
def hostServiceUnits : List String :=
  ["NetworkManager.service", "networking.service", "firewalld.service",
    "systemd-resolved.service"]

namespace NetworkTakeoverTransaction

/-- The record `prepare_transaction` builds: the units carry the id of their transaction. -/
def ofId (id : String) (hostServices : List HostServiceBefore) (deadline : ℕ) :
    NetworkTakeoverTransaction where
  hostServices := hostServices
  confirmationDeadline := deadline
  rollbackService := "lkit-network-" ++ id ++ "-rollback.service"
  rollbackTimer := "lkit-network-" ++ id ++ "-rollback.timer"
  bootRollbackService := "lkit-network-" ++ id ++ "-boot-rollback.service"
  recoveryBinary := ["service", "lkit-network-recovery"]
  pendingState := ["transactions", id, "pending-install-state.json"]

def recoveryUnits (network : NetworkTakeoverTransaction) : List String :=
  [network.rollbackTimer, network.rollbackService, network.bootRollbackService]

end NetworkTakeoverTransaction

namespace Host

variable {H : Type} (host : Host H)

/-- `inspect_host_service`. A masked unit counts as installed: its load state is `masked`. -/
def inspectHostService (unit : String) : Flow H HostServiceBefore := do
  host.check .query
  let m ← getMachine
  let u := m.units unit
  let installed := u.present || u.masked
  pure {
    unit := unit
    installed := installed
    active := installed && u.active
    enableState := if installed then u.isEnabled else "not-found" }

def inspectHostServices : List String → Flow H (List HostServiceBefore)
  | [] => pure []
  | unit :: units => do
    let before ← host.inspectHostService unit
    let rest ← inspectHostServices units
    pure (before :: rest)

def prepareTakeover (id : String) (confirmTimeout : ℕ) : Flow H NetworkTakeoverTransaction := do
  host.check .downcast
  let hostServices ← host.inspectHostServices hostServiceUnits
  let now ← host.perform .now
  pure (.ofId id hostServices (now + confirmTimeout))

def writeSystemUnit (unit : String) : Flow H Unit := do
  let m ← getMachine
  if (m.units unit).present then
    Prog.fail (.systemd ("refusing to overwrite foreign recovery unit " ++ unit))
  else host.perform (.writeUnit unit)

def armRecovery (network : NetworkTakeoverTransaction) : Flow H Unit := do
  let recovery := Layout.root ++ network.recoveryBinary
  host.perform (.createDirAll recovery.dropLast)
  host.perform (.installRecoveryBinary recovery)
  host.check .setPermissions
  host.check .downcast
  host.writeSystemUnit network.rollbackService
  host.writeSystemUnit network.rollbackTimer
  host.writeSystemUnit network.bootRollbackService
  host.check .daemonReload
  host.perform (.systemctl .enable network.bootRollbackService)
  host.perform (.systemctl .enable network.rollbackTimer)
  host.perform (.systemctl .start network.rollbackTimer)

def writePendingState (network : NetworkTakeoverTransaction) (s : InstallState) : Flow H Unit := do
  host.perform (.createDirAll network.pendingState.dropLast)
  host.perform (.writeFile network.pendingState (.state s))

def requireUnfinished (message : String) : Flow H TransactionFile := do
  let unfinished ← host.findUnfinished
  match unfinished with
  | some t => pure t
  | none => Prog.fail (.parameterUsage message)

/-- The checks a takeover has to pass before its confirmation is written down. -/
def verifyTakeover (network : NetworkTakeoverTransaction) : Flow H Unit := do
  let now ← host.perform .now
  if network.confirmationDeadline < now then
    Prog.fail (.parameterUsage
      "network confirmation deadline has expired; wait for automatic rollback or run `lkit network rollback`")
  else do
    host.check .verifyInterfaces
    host.check .verifyLive
    let pid ← host.perform .mainPid
    if pid = 0 then Prog.fail (.healthCheck "Landscape has no running MainPID")
    else do
      host.check .waitForStartup
      host.check .clearInheritedWanIpv4

def readPendingState (network : NetworkTakeoverTransaction) : Flow H InstallState := do
  let document ← host.readDocument network.pendingState
  match document with
  | .state s => pure s
  | .text _ => Prog.fail (.corruptedState "pending install state is invalid")

/-- The second half of `confirm`, which a confirmation that was cut off runs again. -/
def finalizeTakeover (t : TransactionFile) (network : NetworkTakeoverTransaction) :
    Flow H Unit := do
  host.removeRecoveryUnits network false
  let s ← host.readPendingState network
  host.writeState { s with lastTransactionId := some t.transactionId }
  host.markPhase t .committed
  Prog.ignore (host.perform (.removeFile network.pendingState))

def confirm : Flow H Unit := do
  let t ← host.requireUnfinished "no network takeover is awaiting confirmation"
  if t.phase ≠ .awaitingNetworkConfirmation ∧ t.phase ≠ .finalizing then
    Prog.fail (.blockedByTransaction
      ("transaction " ++ t.transactionId ++ " is " ++ t.phase.key ++
        ", not awaiting network confirmation"))
  else do
    let network ← orCorrupted t.networkTakeover "pending transaction has no network takeover state"
    host.check .downcast
    let finalizing := { t with phase := .finalizing }
    if t.phase = .awaitingNetworkConfirmation then do
      host.verifyTakeover network
      host.persist finalizing
      host.finalizeTakeover finalizing network
    else host.finalizeTakeover t network

def validateNetworkTakeoverRollback (t : TransactionFile) : Flow H Unit := do
  if t.operation ≠ .install ∨ t.networkTakeover = none ∨ ¬ t.phase.isNetworkPending then
    Prog.fail (.blockedByTransaction
      ("transaction " ++ t.transactionId ++ " is not an uncommitted network takeover install"))
  else if t.fromVersion.isSome || t.previousCurrent.isSome || t.backup.isSome then
    Prog.fail (.corruptedTransaction
      "network takeover rollback would affect an already committed installation")
  else do
    let state ← host.loadState
    let m ← getMachine
    if state.isSome then
      Prog.fail (.corruptedTransaction
        "network takeover rollback would affect an already committed installation")
    else if (m.files Layout.data).isSome && !m.files.isDir Layout.data then
      Prog.fail (.dangerousDirectory (display Layout.data ++ " is not a real data directory"))
    else pure ()

def restoreUncommittedNetworkSystemd (t : TransactionFile) : Flow H Unit := do
  host.validateNetworkTakeoverRollback t
  host.restoreRecordedService t

def validateCurrentForTarget (targetRelease : Option Path) : Flow H Bool := do
  let m ← getMachine
  match m.files Layout.current with
  | none => pure false
  | some (.link target) =>
    if some target = targetRelease then pure true
    else Prog.fail (.corruptedTransaction
      ("current points to " ++ display target ++ " instead of the network takeover target"))
  | some _ =>
    Prog.fail (.corruptedTransaction "current is not a symbolic link during network rollback")

def removePathIfPresent (p : Path) : Flow H Unit := do
  let m ← getMachine
  match m.files p with
  | none => pure ()
  | some .dir => host.perform (.removeDirAll p)
  | some _ => host.perform (.removeFile p)

def removeRecorded (path : Option Path) : Flow H Unit :=
  match path with
  | some p => host.removePathIfPresent p
  | none => pure ()

def cleanupUncommittedNetworkInstall (t : TransactionFile) : Flow H Unit := do
  host.validateNetworkTakeoverRollback t
  let currentPresent ← validateCurrentForTarget t.targetRelease
  Prog.onlyIf currentPresent (host.perform (.removeFile Layout.current))
  host.removeRecorded (t.targetRelease.map fun target => Layout.root ++ target)
  host.removeRecorded (t.targetVersion.map fun version =>
    Layout.releases ++ [".install-" ++ version ++ ".tmp"])
  host.removePathIfPresent Layout.currentTmp
  host.removePathIfPresent Layout.statePath
  host.removeRecorded (t.networkTakeover.map fun network => network.pendingState)
  host.removePathIfPresent Layout.data

def rollbackNetworkInstall (t : TransactionFile) (network : NetworkTakeoverTransaction)
    (automatic : Bool) : Flow H Unit := do
  host.restoreUncommittedNetworkSystemd t
  host.check .downcast
  Prog.forEach host.restoreHostService network.hostServices
  host.removeRecoveryUnits network automatic
  host.cleanupUncommittedNetworkInstall t

def rollbackNetworkReinit (t : TransactionFile) (network : NetworkTakeoverTransaction)
    (automatic : Bool) : Flow H Unit := do
  host.rollbackReinitInner t
  host.check .downcast
  host.removeRecoveryUnits network automatic

/-- The name under which the last `mark_phase` of `network rollback` is recorded. -/
def failedCall : Flow H Call := do
  let w ← Prog.read
  pure (if w.transaction.any (fun t => t.phase = .rolledBack) then .failedAfterRollback
    else .markPhase)

/-- The work of `network rollback` between its two marks. -/
def rollbackNetworkInner (t : TransactionFile) (network : NetworkTakeoverTransaction)
    (automatic : Bool) : Flow H Unit :=
  match t.operation with
  | .install => host.rollbackNetworkInstall t network automatic
  | .reinit => host.rollbackNetworkReinit t network automatic
  | other =>
    Prog.fail (.blockedByTransaction
      ("network rollback does not handle " ++ other.key ++ " transactions"))

/-- `rollback`, after the guards: `t` is the transaction as it was found. -/
def rollbackTakeover (t : TransactionFile) (network : NetworkTakeoverTransaction)
    (automatic : Bool) : Flow H Unit := do
  host.markPhase t .rollingBack
  let result ← Prog.attempt (host.rollbackNetworkInner t network automatic)
  match result with
  | .ok () => host.markPhase t .rolledBack
  | .error e => do
    let call ← failedCall
    Prog.ignore (host.markPhaseAs call t .failed)
    Prog.fail e

def networkRollback (automatic : Bool) : Flow H Unit := do
  let t ← host.requireUnfinished "no network takeover is available to roll back"
  let network ← orCorrupted t.networkTakeover "unfinished transaction has no network takeover state"
  if (t.operation ≠ .install ∧ t.operation ≠ .reinit) ∨ ¬ t.phase.isNetworkPending then
    Prog.fail (.blockedByTransaction
      ("transaction " ++ t.transactionId ++ " is " ++ t.phase.key ++
        "; network rollback only handles an uncommitted confirmation phase"))
  else host.rollbackTakeover t network automatic

end Host

end LandscapeKit.Deploy
