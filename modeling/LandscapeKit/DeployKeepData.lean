import LandscapeKit.DeployRuns

/-!
`lkit uninstall --keep-data`, cut off anywhere and carried to its end by recoveries. The flag
is not written to the transaction file, and `complete_uninstall` runs without it: what is
kept is kept up to the first recovery that has something to complete.
-/

namespace LandscapeKit.Deploy.KeepData

open Faults

set_option synthInstance.maxSize 65536

variable {H α : Type}

def managedPaths (keepData : Bool) : List Path :=
  [Layout.current, Layout.releases, Layout.service] ++ (if keepData then [] else [Layout.data]) ++
    [Layout.statePath]

def area (keepData : Bool) : List Path := Layout.backups :: managedPaths keepData

def Recorded (w : World H) : Prop := ∀ t, w.transaction = some t → t.operation = .uninstall

def Own (w : World H) : Prop := w.locals.transaction.operation = .uninstall

structure Confined (keepData : Bool) (w w' : World H) : Prop where
  files : ∀ q, (∀ a ∈ area keepData, ¬ a <+: q) → w'.machine.files q = w.machine.files q
  recorded : Recorded w → Recorded w'
  own : Own w → Own w'

/-- A request that stays in the area and creates no directory. -/
class Tidy (keepData : Bool) (act : Act α) : Prop where
  inside : ∀ p ∈ act.touches, ∃ a ∈ area keepData, a <+: p
  creates : act.creates = []

namespace Confined

variable {keepData : Bool}

instance : Std.Refl (Confined (H := H) keepData) :=
  ⟨fun _ => ⟨fun _ _ => rfl, fun h => h, fun h => h⟩⟩

instance : IsTrans (World H) (Confined keepData) :=
  ⟨fun _ _ _ h g => ⟨fun q hq => (g.files q hq).trans (h.files q hq),
    fun hr => g.recorded (h.recorded hr), fun ho => g.own (h.own ho)⟩⟩

theorem of_host (w : World H) (h : H) : Confined keepData w { w with host := h } :=
  ⟨fun _ _ => rfl, fun hr => hr, fun ho => ho⟩

theorem setTransaction {f : TransactionFile → TransactionFile}
    (h : ∀ t, (f t).operation = t.operation) :
    Within (Confined keepData) (Host.setTransaction f : Flow H Unit) :=
  ⟨fun _ => ⟨fun _ _ => rfl, fun hr => hr, fun ho => (h _).trans ho⟩⟩

variable (host : Host H)

instance perform (act : Act α) [hact : Tidy keepData act] :
    Within (Confined keepData) (host.perform act) := by
  refine ⟨fun w => ⟨fun q hq => ?_, fun hr => ?_, fun ho => ?_⟩⟩
  · have hout : ∀ p ∈ act.touches, ¬ p <+: q := by
      intro p hp hpq
      obtain ⟨a, ha, hap⟩ := hact.inside p hp
      exact hq a ha (hap.trans hpq)
    unfold Host.perform
    split
    · exact act.files_done_of_creates hact.creates hout
    · exact act.files_partly hout
    · dsimp only
      split
      · exact act.files_done_of_creates hact.creates hout
      · exact act.files_partly hout
  · unfold Host.perform
    split <;> exact hr
  · unfold Host.perform
    split <;> exact ho

theorem tidy_of_nil {act : Act α} (ht : act.touches = []) (hc : act.creates = []) :
    Tidy keepData act :=
  ⟨fun p hp => by simp [ht] at hp, hc⟩

instance (c : Check) : Tidy keepData (Act.check c) := tidy_of_nil rfl rfl
instance (v : Verb) (unit : String) : Tidy keepData (Act.systemctl v unit) := tidy_of_nil rfl rfl
instance (unit : String) : Tidy keepData (Act.writeUnit unit) := tidy_of_nil rfl rfl
instance (unit : String) : Tidy keepData (Act.removeUnit unit) := tidy_of_nil rfl rfl
instance (b : ServiceBefore) : Tidy keepData (Act.restoreRegistration b) := tidy_of_nil rfl rfl
instance : Tidy keepData Act.mainPid := tidy_of_nil rfl rfl
instance : Tidy keepData Act.accepted := tidy_of_nil rfl rfl
instance : Tidy keepData Act.exportConfig := tidy_of_nil rfl rfl

theorem tidy_of_single {act : Act α} {p : Path} (ht : act.touches = [p]) (hc : act.creates = [])
    (h : ∃ a ∈ area keepData, a <+: p) : Tidy keepData act :=
  ⟨fun q hq => by
    rw [ht, List.mem_singleton] at hq
    exact hq ▸ h, hc⟩

instance : Tidy keepData Act.createBackup :=
  tidy_of_single rfl rfl ⟨Layout.backups, by simp [area], List.prefix_refl _⟩

instance (id : String) : Tidy keepData (Act.resolvBackup (Layout.resolvBackupDir id)) :=
  tidy_of_single rfl rfl ⟨Layout.backups, by simp [area], by
    simp [Layout.resolvBackupDir, Layout.backupDir, List.append_assoc]⟩

instance (host : Host H) : ServiceFrame (Confined keepData) host :=
  ⟨fun c => Confined.perform host (.check c), fun _ _ => inferInstance, fun _ => inferInstance,
    fun _ => inferInstance, fun _ => inferInstance, inferInstance⟩

theorem writeTransaction (call : Call) {t : TransactionFile} (ht : t.operation = .uninstall) :
    Within (Confined keepData) (host.writeTransaction call t) := by
  have hstored : ∀ (w : World H) h, Confined keepData w (Host.stored w call t h) := by
    refine fun w h => ⟨fun _ _ => rfl, fun _ u hu => ?_, fun ho => ho⟩
    obtain rfl : t = u := Option.some.inj hu
    exact ht
  refine ⟨fun w => ?_⟩
  unfold Host.writeTransaction
  split
  · exact Std.Refl.refl w
  · dsimp only
    split
    · exact hstored w _
    · exact of_host w _
    · rename_i b _ h _
      cases b
      · exact of_host w h
      · exact hstored w h

theorem markPhase {t : TransactionFile} (ht : t.operation = .uninstall) (phase : Phase) :
    Within (Confined keepData) (host.markPhase t phase) := by
  unfold Host.markPhase Host.markPhaseAs
  exact Within.andThen inferInstance fun _ => writeTransaction host _ ht

instance removeTransaction : Within (Confined keepData) host.removeTransaction := by
  have hgone : ∀ (w : World H) (h : H),
      Confined keepData w { w with transaction := none, host := h } :=
    fun w h => ⟨fun _ _ => rfl, fun _ t ht => by simp at ht, fun ho => ho⟩
  refine ⟨fun w => ?_⟩
  unfold Host.removeTransaction
  split
  · exact hgone w _
  · exact of_host w _
  · rename_i b _ h _
    cases b
    · exact of_host w h
    · exact hgone w h

theorem removePathIfPresent {p : Path} (hp : p ∈ managedPaths keepData) :
    Within (Confined keepData) (host.removePathIfPresent p) := by
  have harea : ∃ a ∈ area keepData, a <+: p :=
    ⟨p, List.mem_cons_of_mem _ hp, List.prefix_refl p⟩
  have hdir : Tidy keepData (Act.removeDirAll p) := tidy_of_single rfl rfl harea
  have hfile : Tidy keepData (Act.removeFile p) := tidy_of_single rfl rfl harea
  unfold Host.removePathIfPresent
  refine Within.andThen inferInstance fun m => ?_
  split <;> infer_instance

instance deactivate : Within (Confined keepData) host.deactivate := by
  have hactive : Within (Confined keepData) host.isActiveOrFalse := by
    unfold Host.isActiveOrFalse
    refine Within.andThen inferInstance fun r => ?_
    split <;> infer_instance
  unfold Host.deactivate Host.deactivateService Host.unregister
  infer_instance

instance recordBefore (id : String) : Within (Confined keepData) (host.recordBefore id) := by
  unfold Host.recordBefore
  refine Within.andThen inferInstance fun before => ?_
  refine Within.andThen (setTransaction fun _ => rfl) fun _ => ?_
  exact Within.andThen inferInstance fun _ => setTransaction fun _ => rfl

instance createProtectionBackup (s : InstallState) :
    Within (Confined keepData) (host.createProtectionBackup s) := by
  unfold Host.createProtectionBackup Host.exportAndBackup
  refine Within.andThen inferInstance fun _ => Within.andThen inferInstance fun _ => ?_
  refine Within.andThen inferInstance fun _ => Within.andThen inferInstance fun exported => ?_
  split
  · infer_instance
  · exact Within.andThen inferInstance fun backup => setTransaction fun _ => rfl

end Confined

/-! ## What is kept -/

structure Kept (keepData : Bool) (start : Files Document) (w : World H) : Prop where
  files : ∀ q, (∀ a ∈ area keepData, ¬ a <+: q) → w.machine.files q = start q
  recorded : Recorded w

structure Working (keepData : Bool) (start : Files Document) (w : World H) : Prop where
  kept : Kept keepData start w
  own : Own w

section Steps

variable {keepData : Bool} {start : Files Document} {w w' : World H}

theorem Kept.confined (hw : Kept keepData start w) (h : Confined keepData w w') :
    Kept keepData start w' :=
  ⟨fun q hq => (h.files q hq).trans (hw.files q hq), h.recorded hw.recorded⟩

theorem Working.confined (hw : Working keepData start w) (h : Confined keepData w w') :
    Working keepData start w' :=
  ⟨hw.kept.confined h, h.own hw.own⟩

theorem kept_step {p : Flow H α} (hp : Within (Confined keepData) p) :
    Triple (Kept keepData start) p (fun _ => Kept keepData start) (fun _ => Kept keepData start)
      (Kept keepData start) :=
  hp.triple fun _ _ h hw => hw.confined h

theorem working_step {p : Flow H α} (hp : Within (Confined keepData) p) :
    Triple (Working keepData start) p (fun _ => Working keepData start)
      (fun _ => Working keepData start) (Working keepData start) :=
  hp.triple fun _ _ h hw => hw.confined h

theorem working_own {f : TransactionFile → Flow H α}
    (hf : ∀ t, t.operation = .uninstall → Within (Confined keepData) (f t)) :
    Triple (Working keepData start) (Host.getTransaction >>= f) (fun _ => Working keepData start)
      (fun _ => Working keepData start) (Working keepData start) := by
  intro w hw
  exact working_step (hf _ hw.own) w hw

variable (host : Host H)

theorem working_mark (phase : Phase) :
    Triple (Working keepData start) (host.mark phase) (fun _ => Working keepData start)
      (fun _ => Working keepData start) (Working keepData start) :=
  working_own fun _ ht => Confined.markPhase host ht phase

theorem working_persist (call : Call) :
    Triple (Working keepData start) (host.persistOwn call) (fun _ => Working keepData start)
      (fun _ => Working keepData start) (Working keepData start) :=
  working_own fun _ ht => Confined.writeTransaction host call ht

theorem working_begin :
    Triple (Working keepData start) host.beginOwn (fun _ => Working keepData start)
      (fun _ => Working keepData start) (Working keepData start) := by
  refine working_own fun t ht => ?_
  have hfind : Within (Confined keepData) host.findUnfinished :=
    (Idle.findUnfinished host).mono fun w w' ⟨h, he⟩ => he ▸ Confined.of_host w h
  have hwrite : Within (Confined keepData) (host.writeTransaction .begin t) :=
    Confined.writeTransaction host .begin ht
  unfold Host.beginTransaction
  split
  · infer_instance
  · refine Within.andThen hfind fun unfinished => ?_
    split <;> infer_instance

theorem working_protect (state : InstallState) (allow : Bool) :
    Triple (Working keepData start) (host.protect state allow)
      (fun _ => Working keepData start) (fun _ => Working keepData start)
      (Working keepData start) := by
  unfold Host.protect
  refine (working_step inferInstance).bind fun r => ?_
  cases r with
  | ok _ => exact Triple.pure _ fun _ h => h
  | error e =>
    refine Triple.ite (fun _ => working_step (Confined.setTransaction fun _ => rfl)) fun _ => ?_
    refine Triple.bind (Q := fun _ => Working keepData start) ?_ fun _ =>
      Triple.fail e fun _ h => h
    exact (working_mark host .failed).ignore

def Shrunk (w w' : World H) : Prop := ∀ p, w.machine.files p = none → w'.machine.files p = none

instance : Std.Refl (Shrunk (H := H)) := ⟨fun _ _ h => h⟩

instance : IsTrans (World H) Shrunk := ⟨fun _ _ _ h g p hp => g p (h p hp)⟩

instance shrunk_removePathIfPresent (p : Path) :
    Within Shrunk (host.removePathIfPresent p) := by
  have hdir : Within Shrunk (host.perform (.removeDirAll p)) := by
    refine ⟨fun w q hq => ?_⟩
    have hdone : w.machine.files.remove p q = none := by simp [Files.remove, hq]
    unfold Host.perform
    split
    · exact hdone
    · exact Files.removePart_none _ hq
    · dsimp only
      split
      · exact hdone
      · exact Files.removePart_none _ hq
  have hfile : Within Shrunk (host.perform (.removeFile p)) := by
    refine ⟨fun w q hq => ?_⟩
    have hdone : w.machine.files.erase p q = none := by
      by_cases he : q = p <;> simp [Files.erase, he, hq]
    unfold Host.perform
    split
    · exact hdone
    · exact hq
    · dsimp only
      split
      · exact hdone
      · exact hq
  unfold Host.removePathIfPresent
  refine Within.andThen inferInstance fun m => ?_
  split <;> infer_instance

theorem gone_removePathIfPresent (p : Path) :
    Triple (fun _ => True) (host.removePathIfPresent p)
      (fun _ (w : World H) => w.machine.files p = none) (fun _ _ => True) fun _ => True := by
  unfold Host.removePathIfPresent
  refine Host.triple_getMachine fun m => ?_
  split
  · rename_i hnone
    exact Triple.pure _ fun w hw => hw.2 ▸ hnone
  · refine host.triple_perform _ ?_ (fun _ _ _ _ _ => trivial) (fun _ _ _ _ => trivial)
      fun _ _ _ _ => trivial
    intro w a out h hw
    simp [Act.done, Machine.setFiles, Files.remove]
  · refine host.triple_perform _ ?_ (fun _ _ _ _ _ => trivial) (fun _ _ _ _ => trivial)
      fun _ _ _ _ => trivial
    intro w a out h hw
    simp [Act.done, Machine.setFiles, Files.erase]

def Gone (ps : List Path) (w : World H) : Prop := ∀ p ∈ ps, w.machine.files p = none

theorem gone_next {ps : List Path} {P : World H → Prop} {p : Path}
    (hframe : Triple P (host.removePathIfPresent p) (fun _ => P) (fun _ => P) P) :
    Triple (fun w => P w ∧ Gone ps w) (host.removePathIfPresent p)
      (fun _ w => P w ∧ Gone (p :: ps) w) (fun _ => P) P := by
  intro w hw
  have hp := hframe w hw.1
  have hgone := gone_removePathIfPresent host p w trivial
  have hshrunk := (shrunk_removePathIfPresent host p).rel w
  rcases hrun : host.removePathIfPresent p w with ⟨a | e | _, t⟩ <;>
    rw [hrun] at hp hgone hshrunk
  · refine ⟨hp, fun q hq => ?_⟩
    rcases List.mem_cons.mp hq with rfl | hq
    · exact hgone
    · exact hshrunk q (hw.2 q hq)
  · exact hp
  · exact hp

/-- `remove_managed_contents`: what it is to remove is gone when it returns. The step for
`data` is the one that the two flags do differently. -/
theorem gone_removeManagedContents {P : World H → Prop}
    (hframe : ∀ p ∈ managedPaths keepData,
      Triple P (host.removePathIfPresent p) (fun _ => P) (fun _ => P) P) :
    Triple P (host.removeManagedContents keepData)
      (fun _ w => P w ∧ Gone (managedPaths keepData) w) (fun _ => P) P := by
  have hmem : ∀ p ∈ [Layout.current, Layout.releases, Layout.service, Layout.statePath],
      p ∈ managedPaths keepData := by
    cases keepData <;> decide
  unfold Host.removeManagedContents
  refine Triple.strengthen (P := fun w => P w ∧ Gone [] w) ?_ fun w hw =>
    ⟨hw, fun p hp => by simp at hp⟩
  refine (gone_next host (hframe Layout.current (hmem _ (by decide)))).bind fun _ => ?_
  refine (gone_next host (hframe Layout.releases (hmem _ (by decide)))).bind fun _ => ?_
  refine (gone_next host (hframe Layout.service (hmem _ (by decide)))).bind fun _ => ?_
  have hlast := hframe Layout.statePath (hmem _ (by decide))
  cases keepData with
  | true =>
    refine (gone_next host hlast).consequence (fun _ h => h) (fun _ w h => ⟨h.1, fun p hp => ?_⟩)
      (fun _ _ h => h) fun _ h => h
    refine h.2 p ?_
    simp only [managedPaths, if_true, List.append_nil, List.cons_append, List.nil_append,
      List.mem_cons, List.not_mem_nil, or_false] at hp ⊢
    tauto
  | false =>
    refine (gone_next host (hframe Layout.data (by decide))).bind fun _ => ?_
    refine (gone_next host hlast).consequence (fun _ h => h) (fun _ w h => ⟨h.1, fun p hp => ?_⟩)
      (fun _ _ h => h) fun _ h => h
    refine h.2 p ?_
    simp only [managedPaths, Bool.false_eq_true, if_false, List.cons_append, List.nil_append,
      List.mem_cons, List.not_mem_nil, or_false] at hp ⊢
    tauto

end Steps

/-! ## The workflow and its recoveries -/

/-- What an uninstall with this flag removes is gone, with all below it; everything else but
the backups is as it was at the start. -/
structure Uninstalled (keepData : Bool) (start files : Files Document) : Prop where
  removed : ∀ m ∈ managedPaths keepData, ∀ p, m <+: p → files.lookup p = none
  kept : ∀ q, (∀ a ∈ area keepData, ¬ a <+: q) → files q = start q

def EndsCommitted (d : Disk) : Prop :=
  d.writes.getLast? = some ⟨.markPhase, .committed⟩ ∧
    ∀ t, d.transaction = some t → t.phase = .committed

def Late (d : Disk) : Prop :=
  d.transaction.any (fun t => t.phase = .prepared || t.phase = .stopping || t.phase = .activating)

instance (d : Disk) : Decidable (Late d) := inferInstanceAs (Decidable (_ = true))

def Doomed (d : Disk) : Prop := Late d ∧ d.machine.files Layout.data ≠ none

instance (d : Disk) : Decidable (Doomed d) := inferInstanceAs (Decidable (_ ∧ _))

section Commands

variable {keepData : Bool} {start : Files Document} (host : Host H)

theorem Kept.uninstalled {w : World H} (hw : Kept keepData start w)
    (hgone : Gone (managedPaths keepData) w) :
    Uninstalled keepData start w.machine.files := by
  have hne : ∀ m ∈ managedPaths keepData, m ≠ [] := by
    cases keepData <;> decide
  exact ⟨fun m hm p hp => Files.lookup_below _ (hne m hm) (hgone m hm) hp, hw.files⟩

theorem kept_uninstall (state : InstallState) (id : String) (allow interactive : Bool) :
    Triple (Kept keepData start)
      (host.uninstallInstallation state id allow interactive keepData)
      (fun _ w => Kept keepData start w ∧ Gone (managedPaths keepData) w)
      (fun _ => Kept keepData start) (Kept (H := H) keepData start) := by
  have hkept : ∀ {p : Flow H Unit} {Q : Unit → World H → Prop},
      Triple (Working keepData start) p Q (fun _ => Working keepData start)
        (Working keepData start) →
      Triple (Working keepData start) p Q (fun _ => Kept keepData start)
        (Kept keepData start) := fun h =>
    h.ends (fun _ _ h => h.kept) fun _ h => h.kept
  unfold Host.uninstallInstallation
  refine Triple.bind (Q := fun _ => Working keepData start)
    (Triple.modify _ fun w hw => ⟨⟨hw.files, hw.recorded⟩, rfl⟩) fun _ => ?_
  refine (hkept (working_begin host)).bind fun _ => ?_
  refine Triple.bind (Q := fun _ => Working keepData start) (hkept ?_) fun _ => ?_
  · unfold Host.prepareUninstall
    refine (working_protect host state allow).bind fun _ => (working_persist host _).bind
      fun _ => ?_
    refine Triple.onlyIf (fun _ => ?_) fun _ _ h => h
    refine (working_own fun t ht => ?_).bind fun _ => working_persist host _
    infer_instance
  refine Triple.bind
    (Q := fun _ w => Working keepData start w ∧ Gone (managedPaths keepData) w)
    (hkept ?_) fun _ => ?_
  · refine Host.triple_withErrorPath (A := fun _ => Working keepData start) ?_ fun _ =>
      (working_mark host .failed).ignore
    unfold Host.uninstallBlock
    refine Triple.bind (Q := fun _ => Working keepData start) ?_ fun _ => ?_
    · unfold Host.stopForUninstall
      refine Triple.ite (fun _ => ?_) fun _ => ?_
      · exact (working_mark host .stopping).bind fun _ => working_step inferInstance
      · unfold Host.askToStop
        exact working_step inferInstance
    · refine (working_mark host .activating).bind fun _ => ?_
      exact gone_removeManagedContents host fun p hp =>
        working_step (Confined.removePathIfPresent host hp)
  · -- neither the last mark nor the removal of the file touches what was removed
    have htail : ∀ {p : Flow H Unit}, Within MachineKept p →
        Triple (Working keepData start) p (fun _ => Working keepData start)
          (fun _ => Working keepData start) (Working keepData start) →
        Triple (fun w => Working keepData start w ∧ Gone (managedPaths keepData) w) p
          (fun _ w => Working keepData start w ∧ Gone (managedPaths keepData) w)
          (fun _ => Kept keepData start) (Kept keepData start) := by
      intro p hstill hp
      refine (hstill.frame (I := Gone (managedPaths keepData)) (fun w w' h hg q hq => ?_)
        hp).ends (fun _ _ h => h.1.kept) fun _ h => h.1.kept
      rw [h]
      exact hg q hq
    have hmark : Within MachineKept (host.mark .committed) := by
      unfold Host.mark
      infer_instance
    refine (htail hmark (working_mark host .committed)).bind fun _ => ?_
    exact (htail inferInstance (working_step inferInstance)).consequence (fun _ h => h)
      (fun _ _ h => ⟨h.1.kept, h.2⟩) (fun _ _ h => h) fun _ h => h

theorem mem_managedPaths {p : Path} (hp : p ∈ managedPaths false) (hne : p ≠ Layout.data) :
    p ∈ managedPaths true := by
  simp only [managedPaths, Bool.false_eq_true, if_false, if_true, List.cons_append,
    List.nil_append, List.mem_cons, List.not_mem_nil, or_false] at hp ⊢
  tauto

theorem EndsCommitted.shrink {d d' : Disk} (h : EndsCommitted d) (hw : d'.writes = d.writes)
    (ht : d'.transaction = d.transaction ∨ d'.transaction = none) : EndsCommitted d' := by
  refine ⟨?_, fun u hu => ?_⟩
  · rw [hw]
    exact h.1
  · rcases ht with ht | ht
    · exact h.2 u (ht.symm.trans hu)
    · rw [ht] at hu
      cases hu

theorem endsCommitted_removeTransaction :
    Within (fun w w' : World H => EndsCommitted w.disk → EndsCommitted w'.disk)
      host.removeTransaction := by
  refine ⟨fun w => ?_⟩
  unfold Host.removeTransaction
  split
  · exact fun h => h.shrink rfl (.inr rfl)
  · exact fun h => h.shrink rfl (.inl rfl)
  · rename_i b _ _ _
    cases b
    · exact fun h => h.shrink rfl (.inl rfl)
    · exact fun h => h.shrink rfl (.inr rfl)

theorem endsCommitted_close {P : World H → Prop} {t : TransactionFile}
    (hop : t.operation = .uninstall) (hP : ∀ w w', Confined true w w' → P w → P w') :
    Triple (fun w => P w ∧ Gone (managedPaths false) w) (do
        host.markPhase t .committed
        Prog.ignore host.removeTransaction)
      (fun _ w => (P w ∧ Gone (managedPaths false) w) ∧ EndsCommitted w.disk)
      (fun _ => P) P := by
  have hgone : ∀ w w' : World H, MachineKept w w' → Gone (managedPaths false) w →
      Gone (managedPaths false) w' := by
    intro w w' h hg p hp
    rw [h]
    exact hg p hp
  have hstill : Within MachineKept host.removeTransaction := inferInstance
  have hlog : Within MachineKept (host.check .appendLog) := inferInstance
  have hstep : ∀ {p : Flow H Unit}, Within (Confined true) p →
      Triple P p (fun _ => P) (fun _ => P) P := fun hp => hp.triple hP
  refine Triple.bind (Q := fun _ w => (P w ∧ Gone (managedPaths false) w) ∧
    EndsCommitted w.disk) ?_ fun _ => ?_
  · unfold Host.markPhase Host.markPhaseAs
    refine ((hlog.frame hgone (hstep inferInstance)).ends (fun _ _ h => h.1) fun _ h => h.1).bind
      fun _ => ?_
    have hwrite : ∀ (w : World H) h, P w →
        P (Host.stored w .markPhase { t with phase := .committed } h) := by
      refine fun w h hw => hP w _ ⟨fun _ _ => rfl, fun _ u hu => ?_, fun ho => ho⟩ hw
      obtain rfl : { t with phase := .committed } = u := Option.some.inj hu
      exact hop
    have hhost : ∀ (w : World H) (h : H), P w → P { w with host := h } :=
      fun w h hw => hP w _ (Confined.of_host w h) hw
    refine host.triple_writeTransaction _ _ ?_ ?_ ?_ ?_
    · intro w h hw
      refine ⟨⟨hwrite w h hw.1, hw.2⟩, by simp [World.disk, Host.stored], fun u hu => ?_⟩
      obtain rfl : { t with phase := .committed } = u := Option.some.inj hu
      rfl
    · intro w e h hw
      exact hhost w h hw.1
    · intro w h hw
      exact hwrite w h hw.1
    · intro w h hw
      exact hhost w h hw.1
  · have hremove := (endsCommitted_removeTransaction host).frame
      (I := fun w => EndsCommitted w.disk) (fun w w' h he => h he)
      (hstill.frame hgone (hstep inferInstance))
    exact (hremove.ends (fun _ _ h => h)
      fun _ h => h.1.1).ignore

theorem recoverLate {P : World H → Prop} {t : TransactionFile} (hop : t.operation = .uninstall)
    (hphase : t.phase = .prepared ∨ t.phase = .stopping ∨ t.phase = .activating)
    (hP : ∀ w w', Confined true w w' → P w → P w')
    (hdata : Triple P (host.removePathIfPresent Layout.data) (fun _ => P) (fun _ => P) P) :
    Triple P (host.recoverUninstall t)
      (fun _ w => (P w ∧ Gone (managedPaths false) w) ∧ EndsCommitted w.disk)
      (fun _ => P) P := by
  have hrest : host.recoverUninstall t = (do
      host.completeUninstall t
      host.markPhase t .committed
      Prog.ignore host.removeTransaction) := by
    unfold Host.recoverUninstall
    rcases hphase with h | h | h <;> rw [h]
  have hstep : ∀ {p : Flow H Unit}, Within (Confined true) p →
      Triple P p (fun _ => P) (fun _ => P) P := fun hp => hp.triple hP
  rw [hrest]
  refine Triple.bind (Q := fun _ w => P w ∧ Gone (managedPaths false) w) ?_ fun _ =>
    endsCommitted_close host hop hP
  unfold Host.completeUninstall
  refine (Triple.onlyIf (fun _ => hstep inferInstance) fun _ _ h => h).bind fun _ => ?_
  refine gone_removeManagedContents host fun p hp => ?_
  by_cases he : p = Layout.data
  · exact he ▸ hdata
  · exact hstep (Confined.removePathIfPresent host (mem_managedPaths hp he))

theorem kept_recoverLate {t : TransactionFile} (hop : t.operation = .uninstall)
    (hphase : t.phase = .prepared ∨ t.phase = .stopping ∨ t.phase = .activating) :
    Triple (fun w => Kept true start w ∧ w.machine.files Layout.data = none)
      (host.recoverUninstall t)
      (fun _ w => Uninstalled true start w.machine.files ∧ Kept true start w)
      (fun _ => Kept true start) (Kept (H := H) true start) := by
  have hout : ∀ a ∈ area true, ¬ a <+: Layout.data := by decide
  have hsub : ∀ p ∈ managedPaths true, p ∈ managedPaths false := by decide
  have hdata : Triple (fun w : World H => Kept true start w ∧ w.machine.files Layout.data = none)
      (host.removePathIfPresent Layout.data)
      (fun _ w => Kept true start w ∧ w.machine.files Layout.data = none)
      (fun _ w => Kept true start w ∧ w.machine.files Layout.data = none)
      (fun w => Kept true start w ∧ w.machine.files Layout.data = none) := by
    -- a path that is not there is not removed
    unfold Host.removePathIfPresent
    refine Host.triple_getMachine fun m => ?_
    split
    · exact Triple.pure _ fun w hw => hw.1
    · rename_i hdir
      exact fun w hw => absurd (hw.1.2.symm.trans (hw.2 ▸ hdir)) (by simp)
    · rename_i hfile
      exact fun w hw => absurd (hw.1.2.symm.trans (hw.2 ▸ hfile)) (by simp)
  have hkeep : ∀ w w' : World H, Confined true w w' →
      Kept true start w ∧ w.machine.files Layout.data = none →
      Kept true start w' ∧ w'.machine.files Layout.data = none := fun w w' h hw =>
    ⟨hw.1.confined h, (h.files _ hout).trans hw.2⟩
  refine (recoverLate host hop hphase hkeep hdata).consequence (fun _ h => h) ?_
    (fun _ _ h => h.1) fun _ h => h.1
  intro _ w h
  exact ⟨h.1.1.1.uninstalled fun p hp => h.1.2 p (hsub p hp), h.1.1.1⟩

theorem late_iff {d : Disk} {t : TransactionFile} (ht : d.transaction = some t) :
    Late d ↔ t.phase = .prepared ∨ t.phase = .stopping ∨ t.phase = .activating := by
  simp [Late, ht, or_assoc]

theorem kept_recover :
    Triple (fun w => Kept true start w ∧ ¬ Doomed w.disk) host.recoverInterrupted
      (fun _ => Kept true start) (fun _ => Kept true start) (Kept (H := H) true start) := by
  refine Triple.bind ((host.triple_findUnfinished fun w h hw =>
    ⟨hw.1.confined (Confined.of_host w h), hw.2⟩).ends
      (fun _ _ h => h.1) fun _ h => h.1) fun r => ?_
  cases r with
  | none => exact Triple.pure _ fun w hw => hw.1.1
  | some t =>
    rintro w ⟨⟨hw, hdoomed⟩, ht⟩
    obtain ⟨htx, hterm⟩ := ht t rfl
    have hop := hw.recorded t htx
    change Outcome.Satisfies _ _ _ (host.recoverTransaction t w)
    unfold Host.recoverTransaction
    rw [hop]
    change Outcome.Satisfies _ _ _ (host.recoverUninstall t w)
    by_cases hlate : Late w.disk
    · have hdata : w.machine.files Layout.data = none := by
        by_contra hne
        exact hdoomed ⟨hlate, hne⟩
      have hrun := kept_recoverLate host hop ((late_iff htx).mp hlate) w ⟨hw, hdata⟩
      exact hrun.mono (fun _ _ h => h.2) (fun _ _ h => h) fun _ h => h
    · have hphase := (late_iff htx).not.mp hlate
      cases hp : t.phase with
      | preparing =>
        simp only [Host.recoverUninstall, hp]
        exact kept_step (Confined.markPhase host hop .failed) w hw
      | prepared | stopping | activating => simp [hp] at hphase
      | _ =>
        simp only [Host.recoverUninstall, hp]
        exact hw

theorem ended_recover (start : Files Document) {w w' : World H} (hrec : Recorded w) (hlate : Late w.disk)
    (hrun : host.recoverInterrupted w = (.ok (), w')) :
    Gone (managedPaths false) w' ∧ EndsCommitted w'.disk ∧
      (w.machine.files Layout.data = none → Kept true start w →
        Uninstalled true start w'.machine.files) := by
  obtain ⟨t, ht⟩ : ∃ t, w.transaction = some t := by
    rcases h : w.transaction with _ | t
    · simp [Late, World.disk, h] at hlate
    · exact ⟨t, rfl⟩
  have hphase := (late_iff (d := w.disk) ht).mp hlate
  have hopen : t.phase.isTerminal = false := by
    rcases hphase with h | h | h <;> rw [h] <;> rfl
  obtain ⟨h, hrun⟩ := host.recoverInterrupted_ok ht hopen hrun
  have hop := hrec t ht
  unfold Host.recoverTransaction at hrun
  rw [hop] at hrun
  change host.recoverUninstall t _ = _ at hrun
  have hall := recoverLate (P := fun _ => True) host hop hphase (fun _ _ _ _ => trivial)
    (Triple.trivial _) { w with host := h } trivial
  rw [hrun] at hall
  refine ⟨hall.1.2, hall.2, fun hdata hw => ?_⟩
  have hkept := kept_recoverLate host hop hphase _
    ⟨hw.confined (Confined.of_host w h), hdata⟩
  rw [hrun] at hkept
  exact hkept.1

end Commands

/-- The disks of an uninstall with `--keep-data` and of the recoveries that follow it. A
recovery only starts from a disk that `allowed` admits. -/
inductive Reached (state : InstallState) (id : String) (allow interactive : Bool) (start : Disk)
    (allowed : Disk → Prop) : Disk → Prop
  | uninstalled {H : Type} (host : Host H) (h : H) :
    Reached state id allow interactive start allowed
      (start.after (host.uninstallInstallation state id allow interactive true) h)
  | recovered {H : Type} (host : Host H) (h : H) {d : Disk} :
    Reached state id allow interactive start allowed d → allowed d →
      Reached state id allow interactive start allowed (d.after host.recoverInterrupted h)

section Runs

variable {state : InstallState} {id : String} {allow interactive : Bool} {start d : Disk}

theorem Reached.kept (hs : start.transaction = none)
    (hd : Reached state id allow interactive start (fun d => ¬ Doomed d) d) {H' : Type}
    (h' : H') : Kept true start.machine.files (d.boot h') := by
  induction hd generalizing H' with
  | uninstalled host h =>
    have hstart : Kept true start.machine.files (start.boot h) :=
      ⟨fun _ _ => rfl, fun t ht => by simp [Disk.boot, hs] at ht⟩
    have hrun := ((kept_uninstall host state id allow interactive).consequence (fun _ h => h)
      (fun _ _ h => h.1) (fun _ _ h => h) fun _ h => h).always hstart
    exact ⟨hrun.files, hrun.recorded⟩
  | recovered host h _ hx ih =>
    have hrun := (kept_recover host).always (s := Disk.boot _ h) ⟨ih h, hx⟩
    exact ⟨hrun.files, hrun.recorded⟩

/-- In every run in which no recovery finds something to complete while there is a `data`,
`data` is as it was. A recovery that returns from `prepared`, `stopping` or `activating` has
committed, and leaves what an uninstall with the flag leaves that was not cut off, exactly when
there was no `data` to keep. -/
theorem keepData_survives (hs : start.transaction = none)
    (hd : Reached state id allow interactive start (fun d => ¬ Doomed d) d) :
    d.machine.files.subtree Layout.data = start.machine.files.subtree Layout.data ∧
      (∀ {H : Type} (host : Host H) (h : H) (w : World H), Late d →
        host.recoverInterrupted (d.boot h) = (.ok (), w) →
        EndsCommitted w.disk ∧
          (Uninstalled true start.machine.files w.machine.files ↔ ¬ Doomed d)) ∧
      ∀ {H : Type} (host : Host H) (h : H) (w : World H),
        host.uninstallInstallation state id allow interactive true (start.boot h) = (.ok (), w) →
        Uninstalled true start.machine.files w.machine.files := by
  have hkept : ∀ {H : Type} (h : H), Kept true start.machine.files (d.boot h) :=
    fun h => hd.kept hs h
  have hout : ∀ r, ∀ a ∈ area true, ¬ a <+: Layout.data ++ r := by
    have hapart : ∀ a ∈ area true, Apart a Layout.data := by decide
    exact fun r a ha => ((hapart a ha).append_right r).1
  refine ⟨funext fun r => (hkept ()).files _ (hout r), ?_, ?_⟩
  · intro H host h w hlate hrun
    obtain ⟨hgone, hended, hun⟩ := ended_recover host start.machine.files (hkept h).recorded
      hlate hrun
    refine ⟨hended, fun hu hdoomed => ?_, fun hx => hun ?_ (hkept h)⟩
    · -- `data` was there and is gone
      have hnone : w.machine.files Layout.data = none := hgone _ (by decide)
      have hsame := hu.kept _ (by simpa using hout [])
      have hbefore := (hkept h).files _ (by simpa using hout [])
      apply hdoomed.2
      calc
        _ = _ := hbefore
        _ = w.machine.files Layout.data := hsame.symm
        _ = none := hnone
    · by_contra hne
      exact hx ⟨hlate, hne⟩
  · intro H host h w hrun
    have hstart : Kept true start.machine.files (start.boot h) :=
      ⟨fun _ _ => rfl, fun t ht => by simp [Disk.boot, hs] at ht⟩
    have hr := kept_uninstall host state id allow interactive _ hstart
    rw [hrun] at hr
    exact hr.1.uninstalled hr.2

end Runs

section Sample

/-- An uninstall with `--keep-data` that is cut off when one kind of request has been carried
out. -/
def cutUninstall (start : Disk) (cuts : {α : Type} → Act α → Bool) : Disk :=
  start.after ((Host.scripted (fun _ => false) cuts).uninstallInstallation installedSample "id"
    true false true) ()

theorem cutUninstall_reached (start : Disk) (cuts : {α : Type} → Act α → Bool)
    (allowed : Disk → Prop) :
    Reached installedSample "id" true false start allowed (cutUninstall start cuts) :=
  .uninstalled (Host.scripted (fun _ => false) cuts) ()

def cutPreparing : Disk :=
  cutUninstall (.holding (sampleFiles ++ sampleData)) fun act => match act with
    | .resolvBackup _ => true
    | _ => false

def cutStopping (files : List (Path × Node Document)) : Disk :=
  cutUninstall (.holding files) fun act => match act with
    | .systemctl .stop _ => true
    | _ => false

/-- A recovery of `preparing` leaves `data` alone, and where there never was a `data` the
recovery of `stopping` removes what the flag has it remove. -/
theorem cutUninstall_recovered :
    (cutPreparing.after Host.obliging.recoverInterrupted ()).machine.files.subtree Layout.data =
        (Disk.holding (sampleFiles ++ sampleData)).machine.files.subtree Layout.data ∧
      ∃ w, Host.obliging.recoverInterrupted ((cutStopping sampleFiles).boot ()) = (.ok (), w) ∧
        EndsCommitted w.disk ∧
        Uninstalled true (Disk.holding sampleFiles).machine.files w.machine.files := by
  have hreached : Reached installedSample "id" true false (.holding (sampleFiles ++ sampleData))
      (fun d => ¬ Doomed d) (cutPreparing.after Host.obliging.recoverInterrupted ()) :=
    .recovered Host.obliging () (cutUninstall_reached _ _ _) (by decide +kernel)
  have hbare : Reached installedSample "id" true false (.holding sampleFiles)
      (fun d => ¬ Doomed d) (cutStopping sampleFiles) := cutUninstall_reached _ _ _
  have hlate : Late (cutStopping sampleFiles) := by decide +kernel
  have hdoomed : ¬ Doomed (cutStopping sampleFiles) := by decide +kernel
  have hok : (Host.obliging.recoverInterrupted ((cutStopping sampleFiles).boot ())).1 = .ok () := by
    decide +kernel
  refine ⟨(keepData_survives rfl hreached).1, ?_⟩
  rcases hrun : Host.obliging.recoverInterrupted ((cutStopping sampleFiles).boot ()) with ⟨o, w⟩
  rw [hrun] at hok
  obtain rfl : o = .ok () := hok
  obtain ⟨hended, hun⟩ := (keepData_survives rfl hbare).2.1 Host.obliging () w hlate hrun
  exact ⟨w, rfl, hended, hun.mpr hdoomed⟩

/-- Cut off in `stopping`, the uninstall is completed without its flag. -/
theorem interrupted_loses_data :
    (Disk.holding (sampleFiles ++ sampleData)).transaction = none ∧
      Reached installedSample "id" true false (.holding (sampleFiles ++ sampleData)) (fun _ => True)
        ((cutStopping (sampleFiles ++ sampleData)).after Host.obliging.recoverInterrupted ()) ∧
      ((cutStopping (sampleFiles ++ sampleData)).after
          Host.obliging.recoverInterrupted ()).machine.files.subtree Layout.data ≠
        (Disk.holding (sampleFiles ++ sampleData)).machine.files.subtree Layout.data := by
  refine ⟨rfl, .recovered Host.obliging () (cutUninstall_reached _ _ _) trivial, fun h => ?_⟩
  have hfile := congrFun h ["landscape.toml"]
  revert hfile
  decide +kernel

end Sample

end LandscapeKit.Deploy.KeepData
