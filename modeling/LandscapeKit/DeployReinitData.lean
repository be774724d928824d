import LandscapeKit.DeployRuns

/-!
What becomes of the old `data` in a reinit. The tree is moved to `previous-data` in the
directory of the transaction, and moved back by a rollback; a recovery of an early phase
removes that directory. The tree is safe as long as the file never says an early phase while
the tree is away.
-/

namespace LandscapeKit.Deploy.ReinitData

open Faults

set_option synthInstance.maxSize 65536

variable {H α : Type} {id : String} {D : Files Document}

def places (id : String) : List Path := [Layout.data, Layout.previousData id]

structure Recorded (id : String) (t : TransactionFile) : Prop where
  ident : t.transactionId = id
  operation : t.operation = .reinit
  network : ∀ n, t.networkTakeover = some n →
    ∃ services deadline, n = NetworkTakeoverTransaction.ofId id services deadline

structure Own (id : String) (w : World H) : Prop where
  recorded : Recorded id w.locals.transaction
  phase : w.locals.transaction.phase = .preparing

/-- A request that has nothing to do with the data. -/
class Spares (id : String) (act : Act α) : Prop where
  touched : ∀ r ∈ act.touches, ∀ p ∈ places id, Apart r p
  created : ∀ r ∈ act.creates, ∀ p ∈ places id, ¬ p <+: r

structure Spared (id : String) (w w' : World H) : Prop where
  silent : Silent w w'
  trees : ∀ p ∈ places id, w'.machine.files.subtree p = w.machine.files.subtree p
  own : Own id w → Own id w'

namespace Spared

instance : Std.Refl (Spared (H := H) id) := ⟨fun _ => ⟨⟨rfl, rfl⟩, fun _ _ => rfl, fun h => h⟩⟩

instance : IsTrans (World H) (Spared id) :=
  ⟨fun _ _ _ h g => ⟨IsTrans.trans _ _ _ h.silent g.silent,
    fun p hp => (g.trees p hp).trans (h.trees p hp), fun ho => g.own (h.own ho)⟩⟩

theorem of_host (w : World H) (h : H) : Spared id w { w with host := h } :=
  ⟨⟨rfl, rfl⟩, fun _ _ => rfl, fun ho => ⟨ho.recorded, ho.phase⟩⟩

theorem setTransaction {f : TransactionFile → TransactionFile}
    (h : ∀ t, Recorded id t → Recorded id (f t)) (hp : ∀ t, (f t).phase = t.phase) :
    Within (Spared id) (Host.setTransaction f : Flow H Unit) :=
  ⟨fun w => ⟨⟨rfl, rfl⟩, fun _ _ => rfl,
    fun ho => ⟨h _ ho.recorded, (hp w.locals.transaction).trans ho.phase⟩⟩⟩

variable (host : Host H)

instance perform (act : Act α) [hact : Spares id act] : Within (Spared id) (host.perform act) := by
  refine ⟨fun w => ⟨(Silent.perform host act).rel w, fun p hp => ?_, fun ho => ?_⟩⟩
  · exact act.subtree_perform host (fun r hr => hact.touched r hr p hp)
      (fun r hr => hact.created r hr p hp) w
  · unfold Host.perform
    split <;> exact ⟨ho.recorded, ho.phase⟩

end Spared

section Requests

theorem spares_of_nil {act : Act α} (ht : act.touches = []) (hc : act.creates = []) :
    Spares id act :=
  ⟨fun r hr => by simp [ht] at hr, fun r hr => by simp [hc] at hr⟩

instance (c : Check) : Spares id (Act.check c) := spares_of_nil rfl rfl
instance (p : Path) : Spares id (Act.readFile p) := spares_of_nil rfl rfl
instance (v : Verb) (unit : String) : Spares id (Act.systemctl v unit) := spares_of_nil rfl rfl
instance (unit : String) : Spares id (Act.writeUnit unit) := spares_of_nil rfl rfl
instance (unit : String) : Spares id (Act.removeUnit unit) := spares_of_nil rfl rfl
instance (b : ServiceBefore) : Spares id (Act.restoreRegistration b) := spares_of_nil rfl rfl
instance : Spares id Act.mainPid := spares_of_nil rfl rfl
instance : Spares id Act.now := spares_of_nil rfl rfl
instance : Spares id Act.exportConfig := spares_of_nil rfl rfl

instance (host : Host H) : ServiceFrame (Spared id) host :=
  ⟨fun c => Spared.perform host (.check c), fun _ _ => inferInstance, fun _ => inferInstance,
    fun _ => inferInstance, fun _ => inferInstance, inferInstance⟩

theorem spares_path {act : Act α} {p : Path} (ht : act.touches = [p]) (hc : act.creates = [])
    (h : ∀ q ∈ places id, Apart p q) : Spares id act :=
  ⟨fun r hr => by
    rw [ht, List.mem_singleton] at hr
    exact hr ▸ h, fun r hr => by simp [hc] at hr⟩

theorem spares_dir {p : Path} (h : ∀ q ∈ places id, ¬ q <+: p) : Spares id (Act.createDirAll p) :=
  ⟨fun r hr => by simp [Act.touches, Act.area] at hr, fun r hr => by
    rw [Act.creates, List.mem_singleton] at hr
    exact hr ▸ h⟩

theorem apart_places {x : String} {xs : Path} (h : x ≠ "landscape") (h' : x ≠ "transactions") :
    ∀ p ∈ places id, Apart (x :: xs) p := by
  simp [places, Layout.data, Layout.root, Layout.previousData, Layout.transactionDir,
    Layout.transactions, Apart, h, h', h.symm, h'.symm]

theorem apart_backups (xs : Path) : ∀ p ∈ places id, Apart (Layout.backups ++ xs) p :=
  apart_places (by decide) (by decide)

theorem apart_statePath : ∀ p ∈ places id, Apart Layout.statePath p :=
  apart_places (by decide) (by decide)

theorem apart_pendingState :
    ∀ p ∈ places id, Apart ["transactions", id, "pending-install-state.json"] p := by
  simp [places, Layout.data, Layout.root, Layout.previousData, Layout.transactionDir,
    Layout.transactions, Apart]

theorem apart_recoveryBinary :
    ∀ p ∈ places id, Apart (Layout.root ++ ["service", "lkit-network-recovery"]) p := by
  simp [places, Layout.data, Layout.root, Layout.previousData, Layout.transactionDir,
    Layout.transactions, Apart]

instance : Spares id Act.createBackup :=
  spares_path rfl rfl fun p hp => by simpa using apart_backups [] p hp

instance (other : String) : Spares id (Act.resolvBackup (Layout.resolvBackupDir other)) :=
  spares_path rfl rfl (apart_backups _)

instance (s : Document) : Spares id (Act.writeFile Layout.statePath s) :=
  spares_path rfl rfl apart_statePath

instance (other : String) (s : Document) :
    Spares id (Act.writeFile (Layout.snapshotPath other) s) :=
  spares_path rfl rfl (apart_backups _)

instance : Spares id (Act.createDirAll Layout.statePath.dropLast) :=
  spares_dir fun p hp => ((apart_places (by decide) (by decide) : ∀ p ∈ places id, Apart ["state"] p)
    p hp).2

instance (other : String) : Spares id (Act.createDirAll (Layout.backupDir other)) :=
  spares_dir fun p hp => (apart_backups _ p hp).2

instance : Spares id (Act.createDirAll (Layout.transactionDir id)) :=
  spares_dir (by
    simp [places, Layout.data, Layout.root, Layout.previousData, Layout.transactionDir,
      Layout.transactions])

instance : Spares id (Act.createDirAll (Layout.previousData id).dropLast) :=
  inferInstanceAs (Spares id (Act.createDirAll (Layout.transactionDir id)))

section Takeover

variable (services : List HostServiceBefore) (deadline : ℕ)

instance : Spares id (Act.createDirAll
    (NetworkTakeoverTransaction.ofId id services deadline).pendingState.dropLast) :=
  inferInstanceAs (Spares id (Act.createDirAll (Layout.transactionDir id)))

instance (s : Document) : Spares id (Act.writeFile
    (NetworkTakeoverTransaction.ofId id services deadline).pendingState s) :=
  spares_path rfl rfl apart_pendingState

instance : Spares id (Act.removeFile
    (NetworkTakeoverTransaction.ofId id services deadline).pendingState) :=
  spares_path rfl rfl apart_pendingState

instance : Spares id (Act.createDirAll (Layout.root ++
    (NetworkTakeoverTransaction.ofId id services deadline).recoveryBinary).dropLast) :=
  spares_dir (by
    simp [places, Layout.data, Layout.root, Layout.previousData, Layout.transactionDir,
      Layout.transactions, NetworkTakeoverTransaction.ofId])

instance : Spares id (Act.installRecoveryBinary (Layout.root ++
    (NetworkTakeoverTransaction.ofId id services deadline).recoveryBinary)) :=
  spares_path rfl rfl apart_recoveryBinary

instance : Spares id (Act.removeFile (Layout.root ++
    (NetworkTakeoverTransaction.ofId id services deadline).recoveryBinary)) :=
  spares_path rfl rfl apart_recoveryBinary

end Takeover

end Requests

section Programs

variable (host : Host H)

instance (p : Path) : Within (Spared id) (host.readDocument p) := by
  unfold Host.readDocument
  refine Within.andThen inferInstance fun _ => Within.andThen inferInstance fun m => ?_
  split <;> infer_instance

instance (other : String) : Within (Spared id) (host.readStateSnapshot other) := by
  unfold Host.readStateSnapshot
  refine Within.andThen inferInstance fun r => ?_
  split <;> infer_instance

instance (s : InstallState) : Within (Spared id) (host.writeState s) := by
  unfold Host.writeState
  infer_instance

instance (other : String) (s : InstallState) :
    Within (Spared id) (host.writeStateSnapshot other s) := by
  unfold Host.writeStateSnapshot
  infer_instance

instance (other : String) : Within (Spared id) (host.recordBefore other) := by
  unfold Host.recordBefore
  refine Within.andThen inferInstance fun before => ?_
  refine Within.andThen (Spared.setTransaction (fun t ht => ⟨ht.ident, ht.operation, ht.network⟩)
    fun _ => rfl) fun _ => ?_
  exact Within.andThen inferInstance fun _ =>
    Spared.setTransaction (fun t ht => ⟨ht.ident, ht.operation, ht.network⟩) fun _ => rfl

instance : Within (Spared id) host.recordOwnBefore := by
  unfold Host.recordOwnBefore
  infer_instance

instance (s : InstallState) : Within (Spared id) (host.createProtectionBackup s) := by
  unfold Host.createProtectionBackup Host.exportAndBackup
  refine Within.andThen inferInstance fun _ => Within.andThen inferInstance fun _ => ?_
  refine Within.andThen inferInstance fun _ => Within.andThen inferInstance fun exported => ?_
  split
  · infer_instance
  · exact Within.andThen inferInstance fun backup =>
      Spared.setTransaction (fun t ht => ⟨ht.ident, ht.operation, ht.network⟩) fun _ => rfl

instance (units : List String) : Within (Spared id) (host.inspectHostServices units) := by
  induction units with
  | nil => exact Within.pure _
  | cons unit units ih =>
    unfold Host.inspectHostServices Host.inspectHostService
    infer_instance

section Takeover

variable (services : List HostServiceBefore) (deadline : ℕ)

instance : Within (Spared id)
    (host.armRecovery (NetworkTakeoverTransaction.ofId id services deadline)) := by
  unfold Host.armRecovery Host.writeSystemUnit
  infer_instance

instance (s : InstallState) : Within (Spared id)
    (host.writePendingState (NetworkTakeoverTransaction.ofId id services deadline) s) := by
  unfold Host.writePendingState
  infer_instance

instance (running : Bool) : Within (Spared id)
    (host.removeRecoveryUnits (NetworkTakeoverTransaction.ofId id services deadline) running) := by
  unfold Host.removeRecoveryUnits Host.retireUnit
  infer_instance

end Takeover

end Programs

/-! ## Where the data is -/

structure Home (D : Files Document) (id : String) (w : World H) : Prop where
  previous : w.machine.files (Layout.previousData id) = none
  data : w.machine.files.subtree Layout.data = D
  recorded : ∀ t, w.transaction = some t → Recorded id t

/-- The old data lies in the directory of the transaction, and the file says no phase of
before the move. -/
structure Away (D : Files Document) (id : String) (w : World H) : Prop where
  previous : w.machine.files.subtree (Layout.previousData id) = D
  recorded : ∀ t, w.transaction = some t → Recorded id t
  late : ∀ t, w.transaction = some t → t.phase ≠ .prepared ∧ t.phase ≠ .stopping

def Safe (D : Files Document) (id : String) (w : World H) : Prop := Home D id w ∨ Away D id w

section Assertions

variable {w w' : World H}

theorem previous_mem : Layout.previousData id ∈ places id := by simp [places]

theorem data_mem : Layout.data ∈ places id := by simp [places]

theorem Home.spared (hw : Home D id w) (h : Spared id w w') : Home D id w' := by
  refine ⟨?_, (h.trees _ data_mem).trans hw.data, fun t ht => ?_⟩
  · rw [Files.subtree_congr _ (h.trees _ previous_mem)]
    exact hw.previous
  · exact hw.recorded t (h.silent.transaction ▸ ht)

theorem Away.spared (hw : Away D id w) (h : Spared id w w') : Away D id w' := by
  refine ⟨(h.trees _ previous_mem).trans hw.previous, fun t ht => ?_, fun t ht => ?_⟩
  · exact hw.recorded t (h.silent.transaction ▸ ht)
  · exact hw.late t (h.silent.transaction ▸ ht)

theorem Safe.spared (hw : Safe D id w) (h : Spared id w w') : Safe D id w' :=
  hw.imp (fun hw => hw.spared h) fun hw => hw.spared h

theorem Safe.recorded (hw : Safe D id w) : ∀ t, w.transaction = some t → Recorded id t :=
  hw.elim (fun hw => hw.recorded) fun hw => hw.recorded

theorem Home.stored (hw : Home D id w) {t : TransactionFile} (ht : Recorded id t) (call : Call)
    (h : H) : Home D id (Host.stored w call t h) := by
  refine ⟨hw.previous, hw.data, fun u hu => ?_⟩
  obtain rfl : t = u := Option.some.inj hu
  exact ht

theorem Away.stored (hw : Away D id w) {t : TransactionFile} (ht : Recorded id t)
    (hp : t.phase ≠ .prepared ∧ t.phase ≠ .stopping) (call : Call) (h : H) :
    Away D id (Host.stored w call t h) := by
  refine ⟨hw.previous, fun u hu => ?_, fun u hu => ?_⟩
  · obtain rfl : t = u := Option.some.inj hu
    exact ht
  · obtain rfl : t = u := Option.some.inj hu
    exact hp

theorem Safe.stored (hw : Safe D id w) {t : TransactionFile} (ht : Recorded id t)
    (hp : t.phase ≠ .prepared ∧ t.phase ≠ .stopping) (call : Call) (h : H) :
    Safe D id (Host.stored w call t h) :=
  hw.imp (fun hw => hw.stored ht call h) fun hw => hw.stored ht hp call h

end Assertions

structure Stable (id : String) (P : World H → Prop) : Prop where
  spared : ∀ w w', Spared id w w' → P w → P w'

section Steps

variable (host : Host H) {P : World H → Prop}

theorem stable_home : Stable id (Home (H := H) D id) := ⟨fun _ _ h hw => hw.spared h⟩

theorem stable_safe : Stable id (Safe (H := H) D id) := ⟨fun _ _ h hw => hw.spared h⟩

theorem Stable.step (hP : Stable id P) {p : Flow H α} (hp : Within (Spared id) p) :
    Triple P p (fun _ => P) (fun _ => P) P :=
  hp.triple hP.spared

theorem Stable.write (hP : Stable id P) {call : Call} {t : TransactionFile}
    (hst : ∀ w h, P w → P (Host.stored w call t h)) :
    Triple P (host.writeTransaction call t) (fun _ => P) (fun _ => P) P :=
  host.triple_writeTransaction call t hst (fun w _ h hw => hP.spared w _ (.of_host w h) hw) hst
    fun w h hw => hP.spared w _ (.of_host w h) hw

theorem Stable.mark (hP : Stable id P) {t : TransactionFile} {phase : Phase}
    {call : Call} (hst : ∀ w h, P w → P (Host.stored w call { t with phase := phase } h)) :
    Triple P (host.markPhaseAs call t phase) (fun _ => P) (fun _ => P) P :=
  (hP.step inferInstance).bind fun _ => hP.write host hst

theorem Recorded.withPhase {t : TransactionFile} (ht : Recorded id t) (phase : Phase) :
    Recorded id { t with phase := phase } :=
  ⟨ht.ident, ht.operation, ht.network⟩

theorem home_mark {t : TransactionFile} (ht : Recorded id t) (phase : Phase) (call : Call) :
    Triple (Home D id) (host.markPhaseAs call t phase) (fun _ => Home D id)
      (fun _ => Home D id) (Home D id) :=
  stable_home.mark host fun _ h hw => hw.stored (ht.withPhase phase) call h

theorem safe_mark {t : TransactionFile} (ht : Recorded id t) {phase : Phase}
    (hp : phase ≠ .prepared ∧ phase ≠ .stopping) (call : Call) :
    Triple (Safe D id) (host.markPhaseAs call t phase) (fun _ => Safe D id)
      (fun _ => Safe D id) (Safe D id) :=
  stable_safe.mark host fun _ h hw => hw.stored (ht.withPhase phase) hp call h

end Steps

section Moves

variable (host : Host H)

theorem away_perform (act : Act α) (ht : ∀ r ∈ act.touches, Apart r (Layout.previousData id))
    (hc : ∀ r ∈ act.creates, ¬ Layout.previousData id <+: r) :
    Triple (Away D id) (host.perform act) (fun _ => Away D id) (fun _ => Away D id)
      (Away (H := H) D id) := by
  have hdone : ∀ (w : World H) out (h : H), Away D id w →
      Away D id { w with machine := act.done out w.machine, host := h } := fun w out h hw =>
    ⟨(act.subtree_done ht hc).trans hw.previous, hw.recorded, hw.late⟩
  have hpartly : ∀ (w : World H) out (h : H), Away D id w →
      Away D id { w with machine := act.partly out w.machine, host := h } := fun w out h hw =>
    ⟨(act.subtree_partly ht).trans hw.previous, hw.recorded, hw.late⟩
  exact host.triple_perform act (fun w _ out h hw => hdone w out h hw)
    (fun w _ out h hw => hpartly w out h hw) hdone hpartly

theorem data_apart_previous : Apart Layout.data (Layout.previousData id) := by
  simp [Apart, Layout.data, Layout.root, Layout.previousData, Layout.transactionDir,
    Layout.transactions]

theorem Away.previous_ne_none (hD : D [] ≠ none) {w : World H} (hw : Away D id w) :
    w.machine.files (Layout.previousData id) ≠ none := by
  have hroot := Files.subtree_nil_apply w.machine.files (p := Layout.previousData id)
  rw [← hroot, hw.previous]
  exact hD

theorem Home.data_ne_none (hD : D [] ≠ none) {w : World H} (hw : Home D id w) :
    w.machine.files Layout.data ≠ none := by
  have hroot := Files.subtree_nil_apply w.machine.files (p := Layout.data)
  rw [← hroot, hw.data]
  exact hD

theorem home_setAside (hD : D [] ≠ none) :
    Triple (fun w => Home D id w ∧ ∀ t, w.transaction = some t → t.phase = .activating)
      (host.setAside Layout.data (Layout.previousData id)) (fun _ => Away D id)
      (fun _ => Safe D id) (Safe (H := H) D id) := by
  refine Host.triple_getMachine fun m => ?_
  have hmoved : ∀ (w : World H) (h : H), (Home D id w ∧ ∀ t, w.transaction = some t →
      t.phase = .activating) → Away D id { w with
        machine := w.machine.setFiles
          (w.machine.files.move Layout.data (Layout.previousData id)), host := h } := by
    rintro w h ⟨hw, hp⟩
    refine ⟨(Files.subtree_move_target _).trans hw.data, hw.recorded, fun t ht => ?_⟩
    rw [hp t ht]
    exact ⟨by decide, by decide⟩
  have hkept : ∀ (w : World H) (h : H), Home D id w → Safe D id { w with host := h } :=
    fun w h hw => .inl (hw.spared (.of_host w h))
  refine Triple.ite (fun hp => ?_) fun _ => Triple.onlyIf (fun _ => ?_) fun hm => ?_
  · -- nothing has been moved yet
    rintro w ⟨⟨hw, -⟩, rfl⟩
    exact absurd hw.previous hp
  · refine host.triple_perform _ ?_ ?_ ?_ ?_
    · rintro w a out h ⟨hw, -⟩
      exact hmoved w h hw
    · rintro w e out h ⟨hw, -⟩
      exact hkept w h hw.1
    · rintro w out h ⟨hw, -⟩
      exact .inr (hmoved w h hw)
    · rintro w out h ⟨hw, -⟩
      exact hkept w h hw.1
  · rintro w ⟨⟨hw, -⟩, rfl⟩
    have hdata := hw.data_ne_none hD
    simp [hdata] at hm

section PutBack

variable {E : InstallError → World H → Prop} {C : World H → Prop}

/-- The move back. The last hypothesis says what a request that fails, or is cut off, leads
to: on a host that carries out everything, to nothing at all. -/
theorem safe_putBack (hD : D [] ≠ none)
    (hrun : ∀ (act : Act Unit) {P : World H → Prop} {Q : Unit → World H → Prop},
      Triple P (host.perform act) Q (fun _ => Safe D id) (Safe D id) →
        Triple P (host.perform act) Q E C) :
    Triple (Safe D id) (host.putBack Layout.data (Layout.previousData id))
      (fun _ => Home D id) E C := by
  refine Host.triple_getMachine fun m => ?_
  refine Triple.ite (fun hp => ?_) fun hp => ?_
  · refine Triple.strengthen (P := Away D id) ?_ fun w hw => ?_
    · refine Triple.bind (Q := fun _ => Away D id) ?_ fun _ => hrun _ ?_
      · refine Triple.onlyIf (fun _ => hrun _ ?_) fun _ w hw => hw
        refine (away_perform host _ ?_ ?_).ends (fun _ _ h => .inr h) fun _ h => .inr h
        · simp [Act.touches, data_apart_previous]
        · simp [Act.creates]
      · have hback : ∀ (w : World H) (h : H), Away D id w → Home D id { w with
            machine := w.machine.setFiles
              (w.machine.files.move (Layout.previousData id) Layout.data), host := h } := by
          intro w h hw
          refine ⟨?_, (Files.subtree_move_target _).trans hw.previous, hw.recorded⟩
          have happart : Apart (Layout.previousData id) Layout.data := data_apart_previous.symm
          have hsrc := Files.subtree_move_source w.machine.files happart
          exact (Files.subtree_nil_apply _).symm.trans (congrFun hsrc [])
        refine host.triple_perform _ ?_ ?_ ?_ ?_
        · intro w a out h hw
          exact hback w h hw
        · intro w e out h hw
          exact .inr (hw.spared (.of_host w h))
        · intro w out h hw
          exact .inl (hback w h hw)
        · intro w out h hw
          exact .inr (hw.spared (.of_host w h))
    · obtain ⟨hw, rfl⟩ := hw
      exact hw.resolve_left fun hw => hp hw.previous
  · -- nothing is away: the data has to be at home
    have hhome : ∀ w : World H, Safe D id w ∧ w.machine = m → Home D id w := by
      rintro w ⟨hw, rfl⟩
      exact hw.resolve_right fun hw => hp (hw.previous_ne_none hD)
    refine Triple.ite (fun hm => ?_) fun _ => Triple.pure _ hhome
    intro w hw
    have hdata := (hhome w hw).data_ne_none hD
    rw [hw.2] at hdata
    exact absurd hm hdata

theorem safe_restorePreviousData (hD : D [] ≠ none)
    (hrun : ∀ (act : Act Unit) {P : World H → Prop} {Q : Unit → World H → Prop},
      Triple P (host.perform act) Q (fun _ => Safe D id) (Safe D id) →
        Triple P (host.perform act) Q E C) :
    Triple (Safe D id) (host.restorePreviousData Layout.data (Layout.previousData id))
      (fun _ => Home D id) E C := by
  refine (safe_putBack host hD hrun).bind fun _ => hrun _ ?_
  have hmade : ∀ (w : World H) (h : H), Home D id w → Home D id { w with
      machine := w.machine.setFiles (w.machine.files.makeDirs Layout.data), host := h } := by
    intro w h hw
    refine ⟨?_, ?_, hw.recorded⟩
    · have hout : ¬ Layout.previousData id <+: Layout.data := data_apart_previous.2
      rw [← hw.previous]
      exact Files.subtree_congr _ (Files.subtree_makeDirs_outside _ hout)
    · exact (Files.subtree_makeDirs_self _ (hw.data_ne_none hD)).trans hw.data
  refine host.triple_perform _ ?_ ?_ ?_ ?_
  · intro w a out h hw
    exact hmade w h hw
  · intro w e out h hw
    exact .inl (hw.spared (.of_host w h))
  · intro w out h hw
    exact .inl (hmade w h hw)
  · intro w out h hw
    exact .inl (hw.spared (.of_host w h))

end PutBack

end Moves

end LandscapeKit.Deploy.ReinitData
