import LandscapeKit.DeployMaintenance

/-!
`recover_interrupted` (`deployment/transaction/recovery.rs`): what the next command, or the
daemon, does with a transaction file that was left at a phase that is not terminal.
-/

namespace LandscapeKit.Deploy

open Faults

namespace Host

variable {H : Type} (host : Host H)

def restorePreActivation (t : TransactionFile) : Flow H Unit :=
  match t.systemdBefore with
  | none => pure ()
  | some before => host.restoreBefore before

def removeTransactionDir (t : TransactionFile) : Flow H Unit :=
  Prog.ignore (host.perform (.removeDirAll (Layout.transactionDir t.transactionId)))

/-- The phase that no branch of a recovery handles. -/
def refuseTerminal (t : TransactionFile) : Flow H Unit :=
  Prog.fail (.blockedByTransaction (t.operation.key ++ " transaction in terminal phase " ++
    t.phase.key ++ " cannot be recovered"))

/-- Clean up, undo the takeover, and end the install as `failed`. -/
def cleanUpInstall (t : TransactionFile) : Flow H Unit :=
  match t.networkTakeover with
  | none => do
    withErrorPath (host.cleanupFailedFirstInstall t) (Prog.ignore (host.markPhase t .failed))
    host.markPhase t .failed
  | some network => do
    host.cleanupFailedFirstInstall t
    host.cleanupFailedTakeover network
    host.markPhase t .failed

/-- `load_state(root).ok().flatten()`. -/
def stateOrNone : Flow H (Option InstallState) := do
  let state ← Prog.attempt host.loadState
  match state with
  | .ok s => pure s
  | .error _ => pure none

def recoverInstall (t : TransactionFile) : Flow H Unit :=
  if t.networkTakeover.isSome && t.phase.isNetworkPending then
    Prog.fail (.blockedByTransaction ("network takeover " ++ t.transactionId ++ " is " ++
      t.phase.key ++ "; use `lkit network confirm` or `lkit network rollback`"))
  else do
    let state ← host.stateOrNone
    if state.any (fun s => s.activeVersion = t.targetVersion.getD "") then
      host.markPhase t .committed
    else host.cleanUpInstall t

/-- The rollback of a switch by the kind of backup it took. -/
def recoverActivatedSwitch (t : TransactionFile) : Flow H Unit :=
  if t.backup.isSome then do
    let snapshot ← host.readStateSnapshot t.transactionId
    if snapshot.manager = .systemd then host.rollbackSwitch t snapshot
    else do
      let previous ← orCorrupted t.previousCurrent
        "switch transaction is missing previous_current"
      host.restoreCurrent previous
      host.markPhase t .failed
  else if t.noBackup then do
    let state ← host.loadState
    match state with
    | none =>
      Prog.fail (.corruptedState "install state disappeared during the no-backup switch")
    | some previous => host.rollbackNoBackup t previous
  else Prog.fail (.corruptedTransaction
    "switch transaction in a non-terminal phase must record a .lkb backup or no_backup")

def recoverSwitch (t : TransactionFile) : Flow H Unit :=
  match t.phase with
  | .preparing => do
    host.removeTargetRelease t
    host.markPhase t .failed
  | .prepared | .stopping => do
    host.restorePreActivation t
    host.removeTargetRelease t
    host.markPhase t .failed
  | .activating | .verifying | .rollingBack => host.recoverActivatedSwitch t
  | _ => refuseTerminal t

def recoverBinaryRepair (t : TransactionFile) : Flow H Unit := do
  let snapshot ← host.readStateSnapshot t.transactionId
  if snapshot.manager = .systemd then host.rollbackSwitch t snapshot
  else do
    let version ← orCorrupted t.fromVersion "binary repair transaction is missing from_version"
    host.replaceBinary (Layout.release version ++ [Layout.webserverBinary])
      (Layout.transactionDir t.transactionId ++ ["repaired-binary"]) (binaryTmp version)
    host.markPhase t .failed

def recoverStaticRepair (t : TransactionFile) : Flow H Unit := do
  let backup ← orCorrupted t.staticBackup "static repair transaction is missing static_backup"
  host.restoreStatic (Layout.root ++ backup.target) backup.path
  host.markPhase t .failed

def recoverActivatedRepair (t : TransactionFile) : Flow H Unit :=
  if t.backup.isSome then host.recoverBinaryRepair t
  else if t.staticBackup.isSome then host.recoverStaticRepair t
  else host.markPhase t .failed

def recoverRepair (t : TransactionFile) : Flow H Unit :=
  match t.phase with
  | .preparing => do
    host.removeTransactionDir t
    host.markPhase t .failed
  | .prepared | .stopping => do
    host.restorePreActivation t
    host.removeTransactionDir t
    host.markPhase t .failed
  | .activating | .verifying | .rollingBack => host.recoverActivatedRepair t
  | _ => refuseTerminal t

def recoverRestore (t : TransactionFile) : Flow H Unit :=
  match t.phase with
  | .preparing => do
    host.removeTransactionDir t
    host.markPhase t .failed
  | .prepared | .stopping => do
    host.restorePreActivation t
    host.removeTransactionDir t
    host.markPhase t .failed
  | .activating | .verifying | .rollingBack => host.rollbackRestore t
  | _ => refuseTerminal t

def recoverUninstall (t : TransactionFile) : Flow H Unit :=
  match t.phase with
  | .preparing => host.markPhase t .failed
  | .prepared | .stopping | .activating => do
    host.completeUninstall t
    host.markPhase t .committed
    Prog.ignore host.removeTransaction
  | _ => refuseTerminal t

def recoverReinit (t : TransactionFile) : Flow H Unit :=
  match t.phase with
  | .awaitingNetworkConfirmation | .finalizing | .rollingBack =>
    Prog.fail (.blockedByTransaction ("network reinit " ++ t.transactionId ++ " is " ++
      t.phase.key ++ "; use `lkit network confirm` or `lkit network rollback`"))
  | .preparing => do
    host.removeTransactionDir t
    host.markPhase t .failed
  | .prepared | .stopping => do
    host.restorePreActivation t
    host.resolvRestore t.resolvConfBackup
    host.removeTransactionDir t
    host.markPhase t .failed
  | .activating | .verifying => host.rollbackReinit t
  | _ => refuseTerminal t

def recoverMigrate (t : TransactionFile) : Flow H Unit :=
  match t.phase with
  | .preparing => host.markPhase t .failed
  | .prepared | .stopping => do
    host.restoreLegacyUnit t
    host.restorePreActivation t
    host.markPhase t .failed
  | .activating | .verifying | .rollingBack => host.rollbackMigrate t
  | _ => refuseTerminal t

def recoverTransaction (t : TransactionFile) : Flow H Unit :=
  match t.operation with
  | .install => host.recoverInstall t
  | .switch => host.recoverSwitch t
  | .repair => host.recoverRepair t
  | .restore => host.recoverRestore t
  | .uninstall => host.recoverUninstall t
  | .reinit => host.recoverReinit t
  | .migrate => host.recoverMigrate t

def recoverInterrupted : Flow H Unit := do
  let unfinished ← host.findUnfinished
  match unfinished with
  | none => pure ()
  | some t => host.recoverTransaction t

/-- `recovery_cycle` of the daemon, which leaves a pending takeover to `network confirm` and
`network rollback`. -/
def recoveryCycle : Flow H Unit := do
  let unfinished ← host.findUnfinished
  match unfinished with
  | none => pure ()
  | some t =>
    if t.phase.isNetworkPending && t.networkTakeover.isSome then pure ()
    else host.recoverTransaction t

end Host

end LandscapeKit.Deploy
