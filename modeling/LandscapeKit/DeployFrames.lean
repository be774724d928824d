import LandscapeKit.DeployRecovery

/-!
What the parts of a workflow leave alone. A frame is a relation between the state a program
begins with and the state it leaves, however it ends; a program has the frames that all of
its requests have.
-/

namespace LandscapeKit.Deploy

open Faults

set_option synthInstance.maxSize 65536

variable {H α : Type}

/-! Reading and deciding changes nothing, whatever the frame. -/

namespace Frame

variable {R : World H → World H → Prop} [Std.Refl R] [IsTrans (World H) R]

instance getMachine : Within R (Host.getMachine : Flow H Machine) := by
  unfold Host.getMachine
  infer_instance

instance getTransaction : Within R (Host.getTransaction : Flow H TransactionFile) := by
  unfold Host.getTransaction
  infer_instance

instance getActivated : Within R (Host.getActivated : Flow H Bool) := by
  unfold Host.getActivated
  infer_instance

instance getStoppingStarted : Within R (Host.getStoppingStarted : Flow H Bool) := by
  unfold Host.getStoppingStarted
  infer_instance

instance orCorrupted (field : Option α) (message : String) :
    Within R (Host.orCorrupted field message : Flow H α) := by
  unfold Host.orCorrupted
  split <;> infer_instance

omit [IsTrans (World H) R] in
theorem orCorrupted_bind {β : Type} {field : Option α} {message : String} {rest : α → Flow H β}
    (h : ∀ a, field = some a → Within R (rest a)) :
    Within R ((Host.orCorrupted field message : Flow H α) >>= rest) := by
  cases field with
  | none => exact Within.stops inferInstance fun _ _ _ hok => by cases hok
  | some a =>
    have hrest : Within R (rest a) := h a rfl
    exact ⟨fun w => hrest.rel w⟩

instance pathExists (p : Path) : Within R (Host.pathExists p : Flow H Bool) := by
  unfold Host.pathExists
  infer_instance

instance requireFile (p : Path) (message : String) :
    Within R (Host.requireFile p message : Flow H Unit) := by
  unfold Host.requireFile
  infer_instance

instance requireDir (p : Path) (message : String) :
    Within R (Host.requireDir p message : Flow H Unit) := by
  unfold Host.requireDir
  infer_instance

end Frame

/-- A frame that every check and every request to the service manager has. -/
class ServiceFrame (R : World H → World H → Prop) (host : Host H) : Prop where
  check : ∀ c, Within R (host.check c)
  systemctl : ∀ v unit, Within R (host.perform (.systemctl v unit))
  writeUnit : ∀ unit, Within R (host.perform (.writeUnit unit))
  removeUnit : ∀ unit, Within R (host.perform (.removeUnit unit))
  restoreRegistration : ∀ b, Within R (host.perform (.restoreRegistration b))
  mainPid : Within R (host.perform .mainPid)

namespace ServiceFrame

attribute [instance] check systemctl writeUnit removeUnit restoreRegistration mainPid

variable {R : World H → World H → Prop} [Std.Refl R] [IsTrans (World H) R]
variable (host : Host H) [ServiceFrame R host]

instance stopAndWait : Within R host.stopAndWait := by
  unfold Host.stopAndWait
  infer_instance

instance start : Within R host.start := by
  unfold Host.start
  infer_instance

instance registerAndEnable : Within R host.registerAndEnable := by
  unfold Host.registerAndEnable
  infer_instance

instance requirePid (message : String) : Within R (host.requirePid message) := by
  unfold Host.requirePid
  infer_instance

instance healthy : Within R host.healthy := by
  unfold Host.healthy
  infer_instance

instance isActive (unit : String) : Within R (host.isActive unit) := by
  unfold Host.isActive
  infer_instance

instance isEnabled (unit : String) : Within R (host.isEnabled unit) := by
  unfold Host.isEnabled
  infer_instance

instance captureBefore : Within R host.captureBefore := by
  unfold Host.captureBefore
  infer_instance

instance restoreBefore (before : ServiceBefore) : Within R (host.restoreBefore before) := by
  unfold Host.restoreBefore
  refine Within.andThen inferInstance fun _ => ?_
  split
  · infer_instance
  · refine Within.andThen inferInstance fun r => ?_
    split <;> infer_instance

instance resolvRestore (backup : Option Path) : Within R (host.resolvRestore backup) := by
  unfold Host.resolvRestore
  infer_instance

instance restoreServiceState (t : TransactionFile) (isSystemd : Bool) :
    Within R (host.restoreServiceState t isSystemd) := by
  unfold Host.restoreServiceState Host.restoreServiceNoBackup
  infer_instance

instance restoreServiceRegistration (t : TransactionFile) :
    Within R (host.restoreServiceRegistration t) := by
  unfold Host.restoreServiceRegistration
  split <;> infer_instance

instance restoreRecordedService (t : TransactionFile) :
    Within R (host.restoreRecordedService t) := by
  unfold Host.restoreRecordedService
  split <;> infer_instance

instance restorePreActivation (t : TransactionFile) : Within R (host.restorePreActivation t) := by
  unfold Host.restorePreActivation
  split <;> infer_instance

instance restoreHostService (before : HostServiceBefore) :
    Within R (host.restoreHostService before) := by
  unfold Host.restoreHostService
  have h : ∀ unit state, Within R (host.applyEnableState unit state) := by
    intro unit state
    unfold Host.applyEnableState
    split <;> infer_instance
  infer_instance

instance stopHostServices (network : NetworkTakeoverTransaction) :
    Within R (host.stopHostServices network) := by
  unfold Host.stopHostServices Host.stopDisableMaskHostService
  infer_instance

end ServiceFrame

class HostFrame (R : World H → World H → Prop) (host : Host H) : Prop where
  perform : ∀ {α : Type} (act : Act α), Within R (host.perform act)

namespace HostFrame

attribute [instance] perform

variable {R : World H → World H → Prop} [Std.Refl R] [IsTrans (World H) R]
variable (host : Host H) [HostFrame R host]

omit [Std.Refl R] [IsTrans (World H) R] in
instance : ServiceFrame R host :=
  ⟨fun c => perform (.check c), fun _ _ => inferInstance, fun _ => inferInstance,
    fun _ => inferInstance, fun _ => inferInstance, inferInstance⟩

instance readDocument (p : Path) : Within R (host.readDocument p) := by
  unfold Host.readDocument
  refine Within.andThen inferInstance fun _ => Within.andThen inferInstance fun m => ?_
  split <;> infer_instance

instance writeState (s : InstallState) : Within R (host.writeState s) := by
  unfold Host.writeState
  infer_instance

instance loadState : Within R host.loadState := by
  unfold Host.loadState
  refine Within.andThen inferInstance fun _ => Within.andThen inferInstance fun m => ?_
  split
  · infer_instance
  · split <;> infer_instance
  · infer_instance

instance writeStateSnapshot (id : String) (s : InstallState) :
    Within R (host.writeStateSnapshot id s) := by
  unfold Host.writeStateSnapshot
  infer_instance

instance readStateSnapshot (id : String) : Within R (host.readStateSnapshot id) := by
  unfold Host.readStateSnapshot
  refine Within.andThen inferInstance fun r => ?_
  split <;> infer_instance

instance restoreCurrent (target : Path) : Within R (host.restoreCurrent target) := by
  unfold Host.restoreCurrent
  infer_instance

instance moveDataAside (data aside : Path) : Within R (host.moveDataAside data aside) := by
  unfold Host.moveDataAside Host.setAside
  infer_instance

instance restorePreviousData (data previous : Path) :
    Within R (host.restorePreviousData data previous) := by
  unfold Host.restorePreviousData Host.putBack
  infer_instance

instance rebuildReleaseFromBackup (txDir : Path) (version : String) (restoreDir : Path) :
    Within R (host.rebuildReleaseFromBackup txDir version restoreDir) := by
  unfold Host.rebuildReleaseFromBackup Host.replaceRelease
  dsimp only
  infer_instance

instance restoreDataFromBackup (restoreDir : Path) :
    Within R (host.restoreDataFromBackup restoreDir) := by
  unfold Host.restoreDataFromBackup
  infer_instance

instance buildRestoredState (t : TransactionFile) (version : String) (snapshot : InstallState)
    (restoreDir : Path) :
    Within R (host.buildRestoredState t version snapshot restoreDir) := by
  unfold Host.buildRestoredState
  infer_instance

instance restoreFromBackup (t : TransactionFile) (snapshot : InstallState) (isSystemd : Bool) :
    Within R (host.restoreFromBackup t snapshot isSystemd) := by
  unfold Host.restoreFromBackup
  dsimp only
  infer_instance

instance startRestored (isSystemd : Bool) : Within R (host.startRestored isSystemd) := by
  unfold Host.startRestored
  infer_instance

instance reinstate (t : TransactionFile) (snapshot : InstallState) (isSystemd : Bool) :
    Within R (host.reinstate t snapshot isSystemd) := by
  unfold Host.reinstate
  infer_instance

instance reinstateNoBackup (t : TransactionFile) (previous : InstallState) :
    Within R (host.reinstateNoBackup t previous) := by
  unfold Host.reinstateNoBackup
  dsimp only
  infer_instance

instance restoreReplacedRelease (t : TransactionFile) :
    Within R (host.restoreReplacedReleaseIfSameVersion t) := by
  unfold Host.restoreReplacedReleaseIfSameVersion
  dsimp only
  infer_instance

instance removeRecoveryUnits (network : NetworkTakeoverTransaction) (running : Bool) :
    Within R (host.removeRecoveryUnits network running) := by
  unfold Host.removeRecoveryUnits Host.retireUnit
  infer_instance

instance cleanupFailedTakeover (network : NetworkTakeoverTransaction) :
    Within R (host.cleanupFailedTakeover network) := by
  unfold Host.cleanupFailedTakeover
  infer_instance

instance discard (p : Option Path) : Within R (host.discard p) := by
  unfold Host.discard
  split <;> infer_instance

instance removeTargetRelease (t : TransactionFile) :
    Within R (host.removeTargetRelease t) := by
  unfold Host.removeTargetRelease
  infer_instance

instance cleanupFailedFirstInstall (t : TransactionFile) :
    Within R (host.cleanupFailedFirstInstall t) := by
  unfold Host.cleanupFailedFirstInstall Host.removeCurrentOfTarget
  infer_instance

instance cleanupMigratedRoot : Within R host.cleanupMigratedRoot := by
  unfold Host.cleanupMigratedRoot
  infer_instance

instance restoreLegacyUnit (t : TransactionFile) : Within R (host.restoreLegacyUnit t) := by
  unfold Host.restoreLegacyUnit Host.returnLegacyFile
  refine Within.andThen inferInstance fun _ => ?_
  split <;> infer_instance

end HostFrame

/-- Nothing was written to the transaction file. The steps that write it are the marks, the
persists and `begin`; everything between them is silent. -/
structure Silent (w w' : World H) : Prop where
  transaction : w'.transaction = w.transaction
  writes : w'.writes = w.writes

namespace Silent

instance : Std.Refl (Silent (H := H)) := ⟨fun _ => ⟨rfl, rfl⟩⟩

instance : IsTrans (World H) Silent :=
  ⟨fun _ _ _ h g => ⟨g.transaction.trans h.transaction, g.writes.trans h.writes⟩⟩

instance setActivated : Within Silent (Host.setActivated : Flow H Unit) :=
  ⟨fun _ => ⟨rfl, rfl⟩⟩

variable (host : Host H)

instance perform (act : Act α) : Within Silent (host.perform act) := by
  refine ⟨fun w => ?_⟩
  unfold Host.perform
  split <;> exact ⟨rfl, rfl⟩

instance : HostFrame Silent host := ⟨fun act => perform host act⟩

end Silent

def LocalsKept (w w' : World H) : Prop := w'.locals = w.locals

namespace LocalsKept

instance : Std.Refl (LocalsKept (H := H)) := ⟨fun _ => rfl⟩

instance : IsTrans (World H) LocalsKept := ⟨fun _ _ _ h g => g.trans h⟩

instance (host : Host H) : HostFrame LocalsKept host := by
  refine ⟨fun act => ⟨fun w => ?_⟩⟩
  unfold Host.perform
  split <;> rfl

instance writeTransaction (host : Host H) (call : Call) (t : TransactionFile) :
    Within LocalsKept (host.writeTransaction call t) := by
  refine ⟨fun w => ?_⟩
  unfold Host.writeTransaction
  split
  · rfl
  · dsimp only
    split
    · rfl
    · rfl
    · rename_i b _ _ _
      cases b <;> rfl

instance markPhase (host : Host H) (t : TransactionFile) (phase : Phase) :
    Within LocalsKept (host.markPhase t phase) := by
  unfold Host.markPhase Host.markPhaseAs
  infer_instance

end LocalsKept

end LandscapeKit.Deploy
