import LandscapeKit.DeployContainment

/-!
A record that is not harmless: on a host that carries out everything there is a run that
touches the path its text leads astray. With `DeployContainment` this says exactly which
records keep their commands below the directories they are meant for. `purge_root` trusts
the log path of records that nothing has checked.
-/

namespace LandscapeKit.Deploy

open Faults

set_option synthInstance.maxSize 65536

variable {H α β : Type} {territory : Path} {t : TransactionFile}

/-! ## Runs that touch a path -/

def Listed (p : Path) (w : World (H × List Path)) : Prop := p ∈ w.host.2

def Reaches (P : World (H × List Path) → Prop) (prog : Flow (H × List Path) α) (p : Path) : Prop :=
  Triple P prog (fun _ => Listed p) (fun _ => Listed p) (Listed p)

def Grows (w w' : World (H × List Path)) : Prop := w.host.2 ⊆ w'.host.2

instance : Std.Refl (Grows (H := H)) := ⟨fun _ _ hp => hp⟩

instance : IsTrans (World (H × List Path)) Grows := ⟨fun _ _ _ h g _ hp => g (h hp)⟩

section Reach

variable (host : Host H) {p : Path} {P : World (H × List Path) → Prop}

instance : HostFrame Grows host.recording :=
  ⟨fun act => ⟨fun w => by
    rw [Grows, Notes.perform_listed]
    exact List.subset_append_left _ _⟩⟩

theorem reaches_perform {act : Act α} (h : p ∈ act.touches) :
    Reaches P (host.recording.perform act) p := by
  intro w _
  have hlist : p ∈ (host.recording.perform act w).2.host.2 := by
    rw [Notes.perform_listed]
    exact List.mem_append_right _ h
  rcases hr : host.recording.perform act w with ⟨_ | _ | _, w'⟩ <;> rw [hr] at hlist <;>
    exact hlist

variable {prog : Flow (H × List Path) α} {rest : α → Flow (H × List Path) β}

theorem Reaches.andThen (h : Reaches P prog p) (hr : ∀ a, Within Grows (rest a)) :
    Reaches P (prog >>= rest) p :=
  Triple.bind h fun a => (hr a).triple fun _ _ hg hp => hg hp

theorem Reaches.ignore (h : Reaches P prog p) : Reaches P (Prog.ignore prog) p :=
  Triple.ignore h

theorem Reaches.after {R : World (H × List Path) → World (H × List Path) → Prop}
    (hret : Returns prog) (hw : Within R prog) (hP : ∀ w w', R w w' → P w → P w')
    (h : ∀ a, Reaches P (rest a) p) : Reaches P (prog >>= rest) p :=
  Triple.bind (hret.triple (hw.triple hP)) h

theorem Reaches.afterReturn (hret : Returns prog) (h : ∀ a, Reaches (fun _ => True) (rest a) p) :
    Reaches (fun _ => True) (prog >>= rest) p :=
  Triple.bind (hret.triple (Triple.trivial prog)) h

end Reach

instance (host : Host H) [hob : host.Obliging] : host.recording.Obliging where
  ok act m h := by
    obtain ⟨a, out, h', hans⟩ := hob.ok act m h.1
    exact ⟨a, out, (h', h.2 ++ act.touches), by simp [Host.recording, hans]⟩
  mainPid m h pid out h' hans := by
    refine hob.mainPid m h.1 pid out h'.1 ?_
    simp only [Host.recording, Prod.mk.injEq] at hans
    obtain ⟨h1, h2, h3⟩ := hans
    rw [← h3]
    exact Prod.ext h1 (Prod.ext h2 rfl)

theorem Reaches.touched {host : Host H} {c : Command} {p : Path}
    {P : World (H × List Path) → Prop} (h : Reaches P (c.run host.recording t) p)
    {w : World H} (hw : P { w with host := (w.host, []) }) : p ∈ touched host t c w := by
  have hlist := h _ hw
  unfold Deploy.touched
  rcases hr : c.run host.recording t { w with host := (w.host, []) } with ⟨_ | _ | _, w'⟩ <;>
    rw [hr] at hlist <;> exact hlist

instance (host : Host H) (call : Call) (t : TransactionFile) :
    Within Grows (host.recording.writeTransaction call t) :=
  ⟨fun w => by
    rw [Grows, Notes.writeTransaction_listed]
    exact List.Subset.refl _⟩

instance (host : Host H) (t : TransactionFile) (phase : Phase) :
    Within Grows (host.recording.markPhase t phase) := by
  unfold Host.markPhase Host.markPhaseAs
  infer_instance

theorem reaches_discard (host : Host H) {p : Path} :
    Reaches (fun _ => True) (host.recording.discard (some p)) p :=
  (reaches_perform host (by simp [Act.touches])).ignore

section Runs

variable (host : Host H) [host.Obliging] {p : Path}

instance (t : TransactionFile) : Returns (host.recording.restoreRecordedService t) := by
  unfold Host.restoreRecordedService
  split <;> infer_instance

theorem reaches_removeTargetRelease
    (h : t.targetRelease.map (fun target => Layout.root ++ target) = some p ∨
      t.targetVersion.map (fun v => Layout.releases ++ [".install-" ++ v ++ ".tmp"]) = some p) :
    Reaches (fun _ => True) (host.recording.removeTargetRelease t) p := by
  unfold Host.removeTargetRelease
  rcases h with h | h
  · rw [h]
    exact (reaches_discard host).andThen fun _ => inferInstance
  · rw [h]
    exact Reaches.afterReturn inferInstance fun _ => reaches_discard host

theorem reaches_cleanup
    (h : t.targetRelease.map (fun target => Layout.root ++ target) = some p ∨
      t.targetVersion.map (fun v => Layout.releases ++ [".install-" ++ v ++ ".tmp"]) = some p) :
    Reaches (fun _ => True) (host.recording.cleanupFailedFirstInstall t) p := by
  unfold Host.cleanupFailedFirstInstall Host.removeCurrentOfTarget
  refine Reaches.afterReturn inferInstance fun _ => ?_
  exact (reaches_removeTargetRelease host h).andThen fun _ => inferInstance

theorem reaches_transactionDir (h : t.removesDirectory) :
    Reaches (fun _ => True) (host.recording.recoverTransaction t)
      (Layout.transactionDir t.transactionId) := by
  have hremove : Reaches (fun _ => True) (host.recording.removeTransactionDir t)
      (Layout.transactionDir t.transactionId) :=
    (reaches_perform host (by simp [Act.touches])).ignore
  simp only [TransactionFile.removesDirectory, Bool.and_eq_true, Bool.or_eq_true,
    decide_eq_true_eq, or_assoc] at h
  obtain ⟨hop, hp⟩ := h
  have hmark : ∀ _ : Unit, Within Grows (host.recording.markPhase t .failed) :=
    fun _ => inferInstance
  rcases hop with hop | hop | hop <;> rcases hp with hp | hp | hp <;>
    simp only [Host.recoverTransaction, hop, Host.recoverRepair, Host.recoverRestore,
      Host.recoverReinit, hp]
  case inr.inr.inr.inl | inr.inr.inr.inr =>
    exact Reaches.afterReturn inferInstance fun _ => Reaches.afterReturn inferInstance fun _ =>
      hremove.andThen hmark
  all_goals
    first
    | exact hremove.andThen hmark
    | exact Reaches.afterReturn inferInstance fun _ => hremove.andThen hmark

omit [host.Obliging] in
theorem reaches_staticTarget (h : t.restoresStatic) {b : StaticBackupRef}
    (hb : t.staticBackup = some b) :
    Reaches (fun _ => True) (host.recording.recoverTransaction t) (Layout.root ++ b.target) := by
  simp only [TransactionFile.restoresStatic, Bool.and_eq_true, Bool.or_eq_true,
    decide_eq_true_eq, or_assoc, Option.isNone_iff_eq_none] at h
  obtain ⟨⟨hop, hnone⟩, hp⟩ := h
  have hstatic : Reaches (fun _ => True) (host.recording.recoverActivatedRepair t)
      (Layout.root ++ b.target) := by
    simp only [Host.recoverActivatedRepair, hnone, hb, Option.isSome_none, Option.isSome_some,
      Bool.false_eq_true, if_false, if_true, Host.recoverStaticRepair, Host.orCorrupted_some,
      Prog.pure_andThen, Host.restoreStatic]
    refine Reaches.andThen ?_ fun _ => inferInstance
    exact (reaches_perform host (by simp [Act.touches])).ignore.andThen fun _ => inferInstance
  rcases hp with hp | hp | hp <;>
    simpa only [Host.recoverTransaction, hop, Host.recoverRepair, hp] using hstatic

theorem triple_markRollingBack (hr : t.rollsBack) {P : World (H × List Path) → Prop}
    {E : InstallError → World (H × List Path) → Prop} {C : World (H × List Path) → Prop}
    (hP : ∀ w w', w'.machine = w.machine → P w → P w') :
    Triple P (host.recording.markPhase t .rollingBack) (fun _ => P) E C := by
  have hcheck : Triple P (host.recording.check .appendLog) (fun _ => P) E C := by
    have hframe : Within Idle (host.recording.check .appendLog) := inferInstance
    have hkept : Triple P (host.recording.check .appendLog) (fun _ => P) (fun _ => P) P :=
      hframe.triple fun w w' ⟨h, he⟩ hw => hP w w' (by rw [he]) hw
    exact (Host.Obliging.check host.recording .appendLog).triple hkept
  refine hcheck.bind fun _ => ?_
  have hvalid : { t with phase := .rollingBack }.validate = none := by
    simpa [TransactionFile.rollsBack] using hr
  exact Host.Obliging.triple_writeTransaction host.recording _ hvalid fun w h hw =>
    hP w _ rfl hw

instance (t : TransactionFile) (c : Check) :
    Within Grows (host.recording.healthOrFailed t c) := by
  unfold Host.healthOrFailed
  refine Within.andThen inferInstance fun r => ?_
  split <;> infer_instance

theorem reaches_rollbackSwitch (hr : t.rollsBack) {snapshot : InstallState}
    (hm : snapshot.manager ≠ .systemd) {P : World (H × List Path) → Prop}
    (h : Reaches P (host.recording.restoreFromBackup t snapshot false) p)
    (hP : ∀ w w', w'.machine = w.machine → P w → P w') :
    Reaches P (host.recording.rollbackSwitch t snapshot) p := by
  unfold Host.rollbackSwitch Host.reinstate
  refine Triple.bind (triple_markRollingBack host hr hP) fun _ => ?_
  simp only [hm, decide_false]
  refine Reaches.andThen (h.andThen fun _ => inferInstance) fun _ => ?_
  unfold Host.verifyRestored Host.commitRollback
  infer_instance

def Unmoved (id : String) (w : World H) : Prop :=
  w.machine.files Layout.data ≠ none ∧ w.machine.files (Layout.failedData id) = none

theorem triple_unmoved_createDirAll {id : String} {q : Path} (hq : ¬ Layout.failedData id <+: q)
    {E : InstallError → World (H × List Path) → Prop} {C : World (H × List Path) → Prop} :
    Triple (Unmoved id) (host.recording.perform (.createDirAll q)) (fun _ => Unmoved id) E C := by
  refine (Host.Obliging.perform host.recording (.createDirAll q)).triple
    (Host.triple_perform (E := fun _ _ => True) (C := fun _ => True) _ _ ?_ ?_ ?_ ?_)
  · rintro w a out h ⟨hdata, hfailed⟩
    refine ⟨?_, ?_⟩
    · simp [Act.done, Machine.setFiles, Files.makeDirs, hdata]
    · simpa [Act.done, Machine.setFiles, Files.makeDirs, hq] using hfailed
  all_goals intros; trivial

theorem reaches_failedData (hr : t.rollsBack) {snapshot : InstallState}
    (hm : snapshot.manager ≠ .systemd) :
    Reaches (Unmoved t.transactionId) (host.recording.rollbackSwitch t snapshot)
      (Layout.failedData t.transactionId) := by
  have hprefix : ¬ Layout.failedData t.transactionId <+: Layout.transactionDir t.transactionId := by
    intro h
    have hlen := h.length_le
    simp only [Layout.failedData, List.length_append, List.length_singleton] at hlen
    omega
  have hmove : Reaches (Unmoved t.transactionId) (host.recording.moveDataAside Layout.data
      (Layout.failedData t.transactionId)) (Layout.failedData t.transactionId) := by
    unfold Host.moveDataAside
    refine Triple.bind (triple_unmoved_createDirAll host (by simpa [Layout.failedData] using hprefix))
      fun _ => Reaches.andThen ?_ fun _ => inferInstance
    unfold Host.setAside
    refine Host.triple_getMachine fun m => ?_
    refine Triple.ite (fun hm => ?_) fun _ => Triple.onlyIf (fun _ => ?_) fun hm => ?_
    · rintro w ⟨hw, rfl⟩
      exact absurd hw.2 hm
    · exact reaches_perform host (by simp [Act.touches])
    · rintro w ⟨hw, rfl⟩
      simp [hw.1] at hm
  have hrestore : Reaches (Unmoved t.transactionId)
      (host.recording.restoreFromBackup t snapshot false) (Layout.failedData t.transactionId) := by
    unfold Host.restoreFromBackup
    dsimp only
    rw [Prog.onlyIf_false, Prog.pure_andThen]
    refine Triple.bind (triple_unmoved_createDirAll host hprefix) fun _ =>
      hmove.andThen fun _ => inferInstance
  exact reaches_rollbackSwitch host hr hm hrestore fun w w' h hw => by
    simpa [Unmoved, h] using hw

def HasRelease (v : String) (w : World H) : Prop := w.machine.files (Layout.release v) ≠ none

def workArea : List Path := [Layout.transactions, Layout.data]

theorem HasRelease.steady {v : String} {w w' : World H} (h : Steady workArea w w')
    (hw : HasRelease v w) : HasRelease v w' := by
  have hout : ∀ p ∈ workArea, ¬ p <+: Layout.release v := by
    simp [workArea, Layout.transactions, Layout.data, Layout.root, Layout.release,
      Layout.releases]
  rw [HasRelease, h.files _ hout hw]
  exact hw

theorem reaches_rebuild {v : String} {txDir restoreDir : Path} :
    Reaches (HasRelease v) (host.recording.rebuildReleaseFromBackup txDir v restoreDir)
      (Layout.release v) := by
  unfold Host.rebuildReleaseFromBackup
  dsimp only
  refine Reaches.andThen ?_ fun _ => inferInstance
  unfold Host.replaceRelease Host.pathExists
  refine Triple.bind (Q := fun present w => HasRelease v w ∧ present = true) ?_ fun present => ?_
  · refine Host.triple_getMachine fun m => Triple.pure _ ?_
    rintro w ⟨hw, rfl⟩
    exact ⟨hw, Option.isSome_iff_ne_none.mpr hw⟩
  · refine Triple.onlyIf (fun _ => ?_) fun hf w hw => ?_
    · refine Triple.strengthen (P := fun _ => True) ?_ fun _ _ => trivial
      exact Reaches.afterReturn inferInstance fun _ => reaches_perform host (by simp [Act.touches])
    · simp [hf] at hw

instance (data aside : Path) : Returns (host.recording.moveDataAside data aside) := by
  unfold Host.moveDataAside Host.setAside
  infer_instance

theorem reaches_release (hr : t.rollsBack) {snapshot : InstallState}
    (hm : snapshot.manager ≠ .systemd) (hb : t.backup.isSome) {v : String}
    (hv : t.fromVersion = some v) :
    Reaches (HasRelease v) (host.recording.rollbackSwitch t snapshot) (Layout.release v) := by
  obtain ⟨backup, hbackup⟩ := Option.isSome_iff_exists.mp hb
  have hinside : ∀ x, (Act.removeDirAll (Layout.transactionDir t.transactionId ++ [x])).Inside
      workArea := fun x => ⟨by simp [Act.touches, workArea, Layout.transactionDir]⟩
  have hextract : (Act.extractLkb (Layout.transactionDir t.transactionId ++ ["restore"])).Inside
      workArea := ⟨by simp [Act.touches, Act.area, workArea, Layout.transactionDir]⟩
  have haside : Within (Steady workArea) (host.recording.moveDataAside Layout.data
      (Layout.failedData t.transactionId)) := by
    have h1 : (Act.removeDirAll Layout.data).Inside workArea :=
      ⟨by simp [Act.touches, workArea]⟩
    have h2 : (Act.rename Layout.data (Layout.failedData t.transactionId)).Inside workArea :=
      ⟨by simp [Act.touches, workArea, Layout.failedData, Layout.transactionDir]⟩
    unfold Host.moveDataAside Host.setAside
    infer_instance
  have hkept : ∀ w w' : World (H × List Path), Steady workArea w w' → HasRelease v w →
      HasRelease v w' := fun w w' h hw => hw.steady h
  have hrestore : Reaches (HasRelease v) (host.recording.restoreFromBackup t snapshot false)
      (Layout.release v) := by
    unfold Host.restoreFromBackup
    dsimp only
    rw [Prog.onlyIf_false, Prog.pure_andThen, hbackup, hv]
    simp only [Host.orCorrupted_some, Prog.pure_andThen]
    -- every step before the rebuild returns, and leaves the release alone
    refine Reaches.after inferInstance inferInstance hkept fun _ => ?_
    refine Reaches.after inferInstance haside hkept fun _ => ?_
    refine Reaches.after inferInstance inferInstance hkept fun _ => ?_
    refine Reaches.after inferInstance inferInstance hkept fun _ => ?_
    refine Reaches.after inferInstance inferInstance hkept fun _ => ?_
    exact (reaches_rebuild host).andThen fun _ => inferInstance
  exact reaches_rollbackSwitch host hr hm hrestore fun w w' h hw => by
    rw [HasRelease, h]
    exact hw

end Runs

/-! ## The records that stay below -/

def probeMachine (v : String) : Machine where
  files q := if q = Layout.data ∨ q = Layout.release v then some .dir else none
  units _ := ⟨false, false, "disabled", false⟩

def probeWorld (v : String) : World Unit :=
  (Disk.mk (probeMachine v) none []).boot ()

def unmanagedState : InstallState where
  activeVersion := ""
  webserver := ⟨"", 0⟩
  staticArchive := ⟨"", 0⟩
  status := .complete
  lockPresent := true
  manager := .openrc
  lastTransactionId := none

theorem StaysBelow.harmless (ht : Accepted t) (h : StaysBelow territory t) :
    Harmless territory t := by
  have hcleanup : ∀ p, Reaches (fun _ => True)
      (Host.obliging.recording.cleanupFailedFirstInstall t) p → Contained territory t p := by
    intro p hp
    exact h .cleanupFailedFirstInstall Host.obliging (probeWorld "") p
      (Reaches.touched (c := .cleanupFailedFirstInstall) hp trivial) (fun hc => by cases hc)
  have hswitch : ∀ v p {P : World (Unit × List Path) → Prop},
      Reaches P (Host.obliging.recording.rollbackSwitch t unmanagedState) p →
      P { probeWorld v with host := ((), []) } → Contained territory t p := by
    intro v p P hp hP
    exact h (.rollbackSwitch unmanagedState) Host.obliging (probeWorld v) p
      (Reaches.touched (c := .rollbackSwitch unmanagedState) hp hP) (fun hc => by cases hc)
  have hrecover : ∀ p, Reaches (fun _ => True)
      (Host.obliging.recording.recoverTransaction t) p → p ∉ t.unrelated →
      Contained territory t p := by
    intro p hp hn
    exact h .recoverInterrupted Host.obliging (probeWorld "") p
      (Reaches.touched (c := .recoverInterrupted) hp trivial) (fun _ => hn)
  refine ⟨fun target htarget => ?_, fun v hv => ?_, fun hdir => ?_, fun hr => ?_,
    fun hr hb v hv => ?_, fun hst b hb => ?_⟩
  · have hmem : target ∈ t.recordedPaths := by
      simp [TransactionFile.recordedPaths, List.reduceOption_mem_iff, htarget]
    have hc := hcleanup (Layout.root ++ target) (reaches_cleanup _ (.inl (by simp [htarget])))
    exact (liesBelow_root_iff (ht.names target hmem)).mp (hc.targetRelease target htarget rfl)
  · have hc := hcleanup (Layout.releases ++ [".install-" ++ v ++ ".tmp"])
      (reaches_cleanup _ (.inr (by simp [hv])))
    exact hc.releases (List.prefix_append _ _)
  · have hun : Layout.transactionDir t.transactionId ∉ t.unrelated := by
      simp only [TransactionFile.removesDirectory, Bool.and_eq_true, Bool.or_eq_true,
        decide_eq_true_eq] at hdir
      obtain ⟨⟨hop | hop⟩ | hop, -⟩ := hdir <;> simp [TransactionFile.unrelated, hop]
    have hc := hrecover _ (reaches_transactionDir _ hdir) hun
    exact (liesBelow_transactionDir_iff ht).mp (hc.transactions (List.prefix_append _ _))
  · have hP : Unmoved t.transactionId { probeWorld "" with host := (((), []) : Unit × List Path) } := by
      simp [Unmoved, probeWorld, probeMachine, Disk.boot, Layout.failedData, Layout.transactionDir,
        Layout.transactions, Layout.data, Layout.root, Layout.release, Layout.releases]
    have hc := hswitch "" _ (reaches_failedData _ hr (by decide)) hP
    exact (liesBelow_child_iff ht (by decide) (by decide)).mp
      (hc.transactions (by simp [Layout.failedData, Layout.transactionDir]))
  · have hP : HasRelease v { probeWorld v with host := (((), []) : Unit × List Path) } := by
      simp [HasRelease, probeWorld, probeMachine, Disk.boot]
    have hc := hswitch v _ (reaches_release _ hr (by decide) hb hv) hP
    exact hc.releases (List.prefix_append _ _)
  · have hop : t.operation = .repair := by
      simp only [TransactionFile.restoresStatic, Bool.and_eq_true, decide_eq_true_eq] at hst
      exact hst.1.1
    have hmem : b.target ∈ t.recordedPaths := by
      simp [TransactionFile.recordedPaths, List.reduceOption_mem_iff, hb]
    have hc := hrecover _ (reaches_staticTarget _ hst hb) (by simp [TransactionFile.unrelated, hop])
    exact (liesBelow_root_iff (ht.names b.target hmem)).mp (hc.staticTarget hst b hb rfl)

/-- The log and the record itself are written where they belong, whatever the id is: both add
to its last part. -/
structure StoredTransaction.WrittenBelow (territory : Path) (s : StoredTransaction) : Prop where
  log : LiesBelow territory ["logs"] [s.logPath]
  record : LiesBelow territory Layout.transactions
    (Layout.transactions ++ [s.file.transactionId ++ ".json"])

theorem StoredTransaction.writtenBelow {s : StoredTransaction} (h : s.validate = none) :
    s.WrittenBelow territory := by
  obtain ⟨init, last, hid, hlog⟩ := logPath_parts h
  have hnames := names_of_isSafeRelative (logPath_checks h).2
  rw [hlog] at hnames
  have hinit : ∀ part ∈ init, IsName part := fun part hpart => hnames part (by simp [hpart])
  refine ⟨?_, ?_⟩
  · have hlast : IsName (last ++ ".log") := hnames _ (by simp)
    have hfollow : follow territory s.logPath =
        enter (territory ++ "logs" :: init) (last ++ ".log") :=
      follow_of_parts (by rw [hlog, List.cons_append]) fun part hpart => hnames part (by
        rcases List.mem_cons.mp hpart with rfl | hpart
        · exact List.mem_cons_self ..
        · simp [hpart])
    have hbase : locate territory ["logs"] = territory ++ ["logs"] := locate_names (by decide)
    rw [LiesBelow, hbase]
    change Below _ (follow territory s.logPath)
    rw [hfollow, enter_name hlast, below_append_name_iff]
    exact ⟨init, by simp⟩
  · obtain ⟨init', last', hid', hjson⟩ := parts_append s.file.transactionId
      (show '/' ∉ (".json" : String).toList by decide)
    obtain ⟨rfl, hlast⟩ := List.append_inj' (hid.symm.trans hid') rfl
    obtain rfl : last = last' := List.singleton_inj.mp hlast
    have hname : IsName (last ++ ".json") := by
      have hlen : ∀ x : String, x.length < 5 → last ++ ".json" ≠ x := by
        rintro x hx rfl
        rw [String.length_append] at hx
        have hfive : (".json" : String).length = 5 := by decide
        omega
      exact ⟨hlen "" (by decide), hlen "." (by decide), hlen ".." (by decide)⟩
    rw [LiesBelow, locate_append, locate_transactions]
    change Below _ (follow (territory ++ ["transactions"]) (s.file.transactionId ++ ".json"))
    rw [follow_of_parts hjson hinit, enter_name hname, below_append_name_iff]
    exact ⟨init, rfl⟩

/-! ## `purge_root` -/

structure PurgeRecord where
  canonicalInstallRoot : Option String
  logPath : Option String
deriving DecidableEq

/-- An entry of the transactions directory; one that cannot be read, or is no JSON, has no
record. -/
structure PurgeEntry where
  name : String
  record : Option PurgeRecord
  isEntry : IsName name ∧ '/' ∉ name.toList

namespace PurgeEntry

def isJson (e : PurgeEntry) : Bool :=
  e.name ≠ ".json" && e.name.toList.drop (e.name.length - 5) = ".json".toList

def ofRoot (root : String) (e : PurgeEntry) : Option PurgeRecord :=
  if e.isJson then
    e.record.filter fun r => r.canonicalInstallRoot.any fun canonical =>
      StoredTransaction.components canonical = StoredTransaction.components root
  else none

def removed (root : String) (e : PurgeEntry) : List Path :=
  match e.ofRoot root with
  | none => []
  | some r => (r.logPath.map fun log => [log]).toList ++ [Layout.transactions ++ [e.name]]

end PurgeEntry

def purgeRoot (root : String) (entries : List PurgeEntry) : List Path :=
  entries.flatMap (PurgeEntry.removed root)

def PurgesBelow (territory p : Path) : Prop :=
  LiesBelow territory ["logs"] p ∨ LiesBelow territory Layout.transactions p

theorem purgeRoot_below_iff {root : String} {entries : List PurgeEntry} :
    (∀ p ∈ purgeRoot root entries, PurgesBelow territory p) ↔
      ∀ e ∈ entries, ∀ r, e.ofRoot root = some r → ∀ log, r.logPath = some log →
        PurgesBelow territory [log] := by
  have hentry : ∀ e : PurgeEntry, PurgesBelow territory (Layout.transactions ++ [e.name]) := by
    intro e
    refine .inr ?_
    rw [LiesBelow, locate_append, locate_transactions]
    change Below _ (follow _ e.name)
    rw [follow_name e.isEntry.2 e.isEntry.1, below_append_name_iff]
  simp only [purgeRoot, List.mem_flatMap]
  constructor
  · intro h e he r hr log hlog
    exact h [log] ⟨e, he, by simp [PurgeEntry.removed, hr, hlog]⟩
  · rintro h p ⟨e, he, hp⟩
    unfold PurgeEntry.removed at hp
    split at hp
    · simp at hp
    · rename_i r hr
      rcases List.mem_append.mp hp with hlog | hname
      · obtain ⟨log, hl, rfl⟩ : ∃ log, r.logPath = some log ∧ [log] = p := by simpa using hlog
        exact h e he r hr log hl
      · obtain rfl := List.mem_singleton.mp hname
        exact hentry e

/-! ## The whole -/

/-- Every file that is removed, replaced or overwritten on the strength of a transaction file
that was accepted lies strictly below the directory it is meant for, exactly when the record
is harmless; and `purge_root` removes only files of the two directories exactly when the log
paths of the records it finds lead there. -/
theorem transaction_paths_below_iff (territory : Path) (root : String) :
    (∀ (s : StoredTransaction) (t : TransactionFile), s.load root = .ok t →
      (StaysBelow territory t ∧ s.WrittenBelow territory ↔ Harmless territory t)) ∧
    ∀ entries : List PurgeEntry, (∀ p ∈ purgeRoot root entries, PurgesBelow territory p) ↔
      ∀ e ∈ entries, ∀ r, e.ofRoot root = some r → ∀ log, r.logPath = some log →
        PurgesBelow territory [log] := by
  refine ⟨fun s t h => ⟨fun hb => hb.1.harmless (StoredTransaction.accepted h), fun hs => ?_⟩,
    fun entries => purgeRoot_below_iff⟩
  obtain ⟨hv, -⟩ := StoredTransaction.load_eq_ok h
  exact ⟨hs.staysBelow (StoredTransaction.accepted h), StoredTransaction.writtenBelow hv⟩

def storedReinit (id : String) : StoredTransaction where
  file := .newReinit id "1.2.3"
  schemaVersion := 4
  canonicalInstallRoot := "/root/.lkit/landscape"
  logPath := "logs/" ++ id ++ ".log"
  startedAt := 0
  updatedAt := 0
  planValid := true
  split := by simp [TransactionFile.recordedPaths, TransactionFile.newReinit,
    TransactionFile.blank, List.reduceOption]

theorem storedReinit_paths_below :
    StaysBelow ["root", ".lkit"] (storedReinit "0190").file ∧
      (storedReinit "0190").WrittenBelow ["root", ".lkit"] := by
  have hload : (storedReinit "0190").load "/root/.lkit/landscape" =
      .ok (storedReinit "0190").file := by decide +kernel
  have hdeep : IsDeep "0190" := by
    have hparts : parts "0190" = ["0190"] := by decide +kernel
    refine ⟨by decide, by decide, by decide, fun x hx => ?_⟩
    rw [hparts] at hx
    cases hx
  refine ((transaction_paths_below_iff _ _).1 _ _ hload).mpr ⟨?_, ?_, ?_, ?_, ?_, ?_⟩
  · intro p hp
    cases hp
  · intro v hv
    cases hv
  · exact fun _ => hdeep
  · intro _
    decide
  · intro _ hb
    cases hb
  · intro hst
    cases hst

/-- The id `..` passes every check, and the recovery of the record removes the whole
territory; a log path that nothing has checked has `purge_root` remove any file at all. -/
theorem transaction_paths_escape :
    ((storedReinit "..").load "/root/.lkit/landscape" = .ok (storedReinit "..").file ∧
      Layout.transactionDir ".." ∈
        touched Host.obliging (storedReinit "..").file .recoverInterrupted (probeWorld "") ∧
      locate ["root", ".lkit"] (Layout.transactionDir "..") = ["root", ".lkit"] ∧
      ¬ StaysBelow ["root", ".lkit"] (storedReinit "..").file) ∧
    ["/etc/passwd"] ∈ purgeRoot "/root/.lkit/landscape"
      [⟨"0190.json", some ⟨some "/root/.lkit/landscape", some "/etc/passwd"⟩, by decide⟩] ∧
    ¬ PurgesBelow ["root", ".lkit"] ["/etc/passwd"] := by
  have hload : (storedReinit "..").load "/root/.lkit/landscape" = .ok (storedReinit "..").file := by
    decide +kernel
  have hreach : Reaches (fun _ => True)
      (Host.obliging.recording.recoverTransaction (storedReinit "..").file)
      (Layout.transactionDir "..") := reaches_transactionDir Host.obliging (by decide)
  refine ⟨⟨hload, Reaches.touched (c := .recoverInterrupted) hreach trivial, by decide +kernel,
    fun h => ?_⟩, by decide +kernel, ?_⟩
  · have hharmless := h.harmless (StoredTransaction.accepted hload)
    exact (hharmless.directory rfl).2.2.1 rfl
  · have hlocate : locate ["root", ".lkit"] ["/etc/passwd"] = ["etc", "passwd"] := by
      decide +kernel
    rintro (⟨x, xs, h⟩ | ⟨x, xs, h⟩)
    · rw [hlocate, show locate ["root", ".lkit"] ["logs"] = ["root", ".lkit", "logs"] by
        decide +kernel] at h
      simp at h
    · rw [hlocate, locate_transactions] at h
      simp at h

end LandscapeKit.Deploy
