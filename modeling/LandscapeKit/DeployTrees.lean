import LandscapeKit.DeployRuns

/-!
Trees that a part of a workflow leaves alone. A tree is named by its path. A request that
neither touches a tree nor creates a directory in it keeps the whole of it, what is missing
from it included, and so does a program of such requests, however it ends.
-/

namespace LandscapeKit.Deploy

open Faults

set_option synthInstance.maxSize 65536

variable {H α : Type} {ps : List Path} {p q : Path}

/-- The path neither lies in one of the trees nor above one. -/
class Off (ps : List Path) (p : Path) : Prop where
  apart : ∀ q ∈ ps, Apart p q

/-- The path lies in none of the trees. -/
class Outside (ps : List Path) (p : Path) : Prop where
  outside : ∀ q ∈ ps, ¬ q <+: p

instance [hp : Off ps p] : Outside ps p := ⟨fun q hq => (hp.apart q hq).2⟩

/-- What is off a tree is off everything below it. -/
instance (priority := low) Off.append [hp : Off ps p] : Off ps (p ++ q) := by
  refine ⟨fun r hr => ?_⟩
  exact ((hp.apart r hr).symm.append_right q).symm

/-- A request that changes none of the trees. -/
class Act.ClearOf (ps : List Path) (act : Act α) : Prop where
  touched : ∀ r ∈ act.touches, ∀ q ∈ ps, Apart r q
  created : ∀ r ∈ act.creates, ∀ q ∈ ps, ¬ q <+: r

def TreesKept (ps : List Path) (w w' : World H) : Prop :=
  ∀ q ∈ ps, w'.machine.files.subtree q = w.machine.files.subtree q

namespace TreesKept

instance : Std.Refl (TreesKept (H := H) ps) := ⟨fun _ _ _ => rfl⟩

instance : IsTrans (World H) (TreesKept ps) :=
  ⟨fun _ _ _ h g q hq => (g q hq).trans (h q hq)⟩

theorem files_eq {w w' : World H} (h : TreesKept ps w w') (hq : q ∈ ps) :
    w'.machine.files q = w.machine.files q :=
  Files.subtree_congr _ (h q hq)

theorem of_machineKept {p : Flow H α} (h : Within MachineKept p) : Within (TreesKept ps) p :=
  h.mono fun w w' (hw : w'.machine = w.machine) q _ => by rw [hw]

variable (host : Host H)

instance perform (act : Act α) [hact : act.ClearOf ps] :
    Within (TreesKept ps) (host.perform act) := by
  refine ⟨fun w q hq => act.subtree_perform host ?_ ?_ w⟩
  · exact fun r hr => hact.touched r hr q hq
  · exact fun r hr => hact.created r hr q hq

instance markPhase (t : TransactionFile) (phase : Phase) :
    Within (TreesKept ps) (host.markPhase t phase) := of_machineKept inferInstance

end TreesKept

namespace Act.ClearOf

theorem of_nil {act : Act α} (ht : act.touches = []) (hc : act.creates = []) : act.ClearOf ps :=
  ⟨fun r hr => by simp [ht] at hr, fun r hr => by simp [hc] at hr⟩

theorem of_touches {act : Act α} (ht : ∀ r ∈ act.touches, Off ps r) (hc : act.creates = []) :
    act.ClearOf ps :=
  ⟨fun r hr => (ht r hr).apart, fun r hr => by simp [hc] at hr⟩

theorem of_path {act : Act α} (ht : act.touches = [p]) (hc : act.creates = []) [hp : Off ps p] :
    act.ClearOf ps := by
  apply of_touches _ hc
  intro r hr
  rw [ht, List.mem_singleton] at hr
  rw [hr]
  exact hp

theorem of_paths {act : Act α} (ht : act.touches = [p, q]) (hc : act.creates = []) [hp : Off ps p]
    [hq : Off ps q] : act.ClearOf ps := by
  apply of_touches _ hc
  intro r hr
  rw [ht, List.mem_pair] at hr
  rcases hr with rfl | rfl
  · exact hp
  · exact hq

instance createDirAll [hp : Outside ps p] : (Act.createDirAll p).ClearOf ps := by
  refine ⟨fun r hr => by simp [Act.touches, Act.area] at hr, fun r hr => ?_⟩
  rw [Act.creates, List.mem_singleton] at hr
  rw [hr]
  exact hp.outside

variable (p q) (d : Document) (version : String)

instance (c : Check) : (Act.check c).ClearOf ps := of_nil rfl rfl
instance : (Act.readFile p).ClearOf ps := of_nil rfl rfl
instance : (Act.hashFile p).ClearOf ps := of_nil rfl rfl
instance (v : Verb) (unit : String) : (Act.systemctl v unit).ClearOf ps := of_nil rfl rfl
instance (unit : String) : (Act.writeUnit unit).ClearOf ps := of_nil rfl rfl
instance (unit : String) : (Act.removeUnit unit).ClearOf ps := of_nil rfl rfl
instance (b : ServiceBefore) : (Act.restoreRegistration b).ClearOf ps := of_nil rfl rfl
instance : Act.mainPid.ClearOf ps := of_nil rfl rfl
instance : Act.now.ClearOf ps := of_nil rfl rfl
instance : Act.accepted.ClearOf ps := of_nil rfl rfl
instance : Act.exportConfig.ClearOf ps := of_nil rfl rfl
instance [Off ps p] : (Act.removeDirAll p).ClearOf ps := of_path rfl rfl
instance [Off ps p] : (Act.removeFile p).ClearOf ps := of_path rfl rfl
instance [Off ps p] [Off ps q] : (Act.rename p q).ClearOf ps := of_paths rfl rfl
instance [Off ps q] : (Act.copyTree p q).ClearOf ps := of_path rfl rfl
instance [Off ps q] : (Act.copyFile p q).ClearOf ps := of_path rfl rfl
instance [Off ps p] : (Act.writeFile p d).ClearOf ps := of_path rfl rfl
instance [Off ps p] : (Act.symlink q p).ClearOf ps := of_path rfl rfl
instance [Off ps p] : (Act.resolvBackup p).ClearOf ps := of_path rfl rfl
instance [Off ps Layout.unitOrigin] : Act.writeUnitOrigin.ClearOf ps := of_path rfl rfl
instance [Off ps p] : (Act.extractLkb p).ClearOf ps := of_path rfl rfl
instance [Off ps p] : (Act.fetchStatic p).ClearOf ps := of_path rfl rfl
instance [Off ps p] : (Act.fetchFromSource p).ClearOf ps := of_path rfl rfl
instance [Off ps Layout.backups] : Act.createBackup.ClearOf ps := of_path rfl rfl
instance [Off ps (Layout.release version)]
    [Off ps (Layout.releases ++ [".install-" ++ version ++ ".tmp"])] :
    (Act.buildRelease version).ClearOf ps := of_paths rfl rfl

end Act.ClearOf

/-! Parts of the workflows. -/

section Parts

variable (host : Host H)

instance : ServiceFrame (TreesKept ps) host :=
  ⟨fun c => TreesKept.perform host (.check c), fun _ _ => inferInstance, fun _ => inferInstance,
    fun _ => inferInstance, fun _ => inferInstance, inferInstance⟩

instance (p : Path) : Within (TreesKept ps) (host.readDocument p) :=
  TreesKept.of_machineKept (MachineKept.of_idle inferInstance)

instance : Within (TreesKept ps) host.loadState :=
  TreesKept.of_machineKept (MachineKept.of_idle inferInstance)

instance : Within (TreesKept ps) host.findUnfinished :=
  TreesKept.of_machineKept (MachineKept.of_idle inferInstance)

instance (id : String) : Within (TreesKept ps) (host.readStateSnapshot id) := by
  unfold Host.readStateSnapshot
  refine Within.andThen inferInstance fun r => ?_
  split <;> infer_instance

instance (s : InstallState) [Off ps Layout.statePath] [Outside ps Layout.statePath.dropLast] :
    Within (TreesKept ps) (host.writeState s) := by
  unfold Host.writeState
  infer_instance

instance (id : String) (s : InstallState) [Off ps Layout.backups] :
    Within (TreesKept ps) (host.writeStateSnapshot id s) := by
  have hdir : Off ps (Layout.backupDir id) := Off.append
  have hfile : Off ps (Layout.snapshotPath id) := Off.append
  unfold Host.writeStateSnapshot
  infer_instance

instance (target : Path) [Off ps Layout.runDir] [Off ps Layout.current] :
    Within (TreesKept ps) (host.restoreCurrent target) := by
  have htmp : Off ps Layout.currentTmp := Off.append
  unfold Host.restoreCurrent
  infer_instance

instance (restoreDir : Path) [Off ps Layout.data] :
    Within (TreesKept ps) (host.restoreDataFromBackup restoreDir) := by
  unfold Host.restoreDataFromBackup
  infer_instance

instance (t : TransactionFile) (version : String) (snapshot : InstallState) (restoreDir : Path) :
    Within (TreesKept ps) (host.buildRestoredState t version snapshot restoreDir) := by
  unfold Host.buildRestoredState
  infer_instance

instance (isSystemd : Bool) : Within (TreesKept ps) (host.startRestored isSystemd) := by
  unfold Host.startRestored
  infer_instance

instance (t : TransactionFile) (isSystemd : Bool) :
    Within (TreesKept ps) (host.verifyRestored t isSystemd) := by
  have hcheck : ∀ c, Within (TreesKept ps) (host.healthOrFailed t c) := by
    intro c
    unfold Host.healthOrFailed
    refine Within.andThen inferInstance fun r => ?_
    split <;> infer_instance
  unfold Host.verifyRestored
  infer_instance

end Parts

end LandscapeKit.Deploy
