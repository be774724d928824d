import LandscapeKit.DeployMigrateBack

/-!
A migration's rollback that is cut off and started again. Every step of it may be done twice,
except the move that puts the old unit file back.
-/

namespace LandscapeKit.Deploy.MigrateCut

open Faults

set_option synthInstance.maxSize 65536

variable {H : Type}

/-! A way back that is cut off. -/

section Frame

variable (t : TransactionFile) (u : LegacyUnitBefore) (way : Way)

def BackupGone (m : Machine) : Prop := u.fileMoved = true ∧ m.files (unitBackup t u) = none

structure Holds (m m' : Machine) : Prop where
  gone : BackupGone t u m → BackupGone t u m'
  after : BackupGone t u m' ∨ machineAfter t u way m' = machineAfter t u way m

def Keeps (w w' : World H) : Prop := Holds t u way w.machine w'.machine

instance : Std.Refl (Keeps (H := H) t u way) := ⟨fun _ => ⟨id, .inr rfl⟩⟩

instance : IsTrans (World H) (Keeps t u way) := by
  refine ⟨fun a b c h g => ⟨fun ha => g.gone (h.gone ha), ?_⟩⟩
  rcases g.after with hc | hc
  · exact .inl hc
  · rcases h.after with hb | hb
    · exact .inl (g.gone hb)
    · exact .inr (hc.trans hb)

variable {t u way}

theorem Keeps.of_same {α : Type} {p : Flow H α} (h : Within (Same t u way) p) :
    Within (Keeps t u way) p := by
  apply h.mono
  intro w w' hw
  have hbackup := hw.backup
  refine ⟨fun hgone => ⟨hgone.1, ?_⟩, .inr hw.after⟩
  rw [hbackup]
  exact hgone.2

variable (host : Host H) (ht : Recorded t u)

instance Keeps.check (c : Check) : Within (Keeps t u way) (host.check c) :=
  Keeps.of_same inferInstance

instance Keeps.markPhase (t' : TransactionFile) (phase : Phase) :
    Within (Keeps t u way) (host.markPhase t' phase) := Keeps.of_same inferInstance

include ht

theorem Keeps.returnLegacyFile :
    Within (Keeps t u way) (Prog.onlyIf u.fileMoved (host.returnLegacyFile u)) := by
  cases hmoved : u.fileMoved with
  | false =>
    rw [Prog.onlyIf_false]
    infer_instance
  | true =>
    obtain ⟨file, hpath, ⟨s, hs⟩, hback⟩ := ht.moved hmoved
    have hgone : ∀ m : Machine,
        BackupGone t u (m.setFiles (m.files.move (unitBackup t u) file)) := by
      intro m
      refine ⟨hmoved, ?_⟩
      have hapart : ¬ file <+: unitBackup t u := by
        rw [← hs]
        simp [unitBackup, Layout.systemUnits, Layout.transactionDir, Layout.transactions]
      simp [Machine.setFiles, Files.move, hapart]
    have hmove : Within (Keeps t u way) (host.perform (.rename (unitBackup t u) file)) := by
      refine ⟨fun w => ?_⟩
      unfold Host.perform
      split
      · exact ⟨fun _ => hgone _, .inl (hgone _)⟩
      · exact ⟨id, .inr rfl⟩
      · dsimp only
        split
        · exact ⟨fun _ => hgone _, .inl (hgone _)⟩
        · exact ⟨id, .inr rfl⟩
    rw [Prog.onlyIf_true]
    unfold Host.returnLegacyFile
    simp only [hback, hpath, Host.orCorrupted_some, Prog.pure_andThen]
    exact Within.andThen hmove fun _ => inferInstance

theorem Keeps.restoreLegacyUnit {phase : Phase} :
    Within (Keeps t u way) (host.restoreLegacyUnit { t with phase := phase }) := by
  have hfile : Within (Keeps t u way) (Prog.onlyIf u.fileMoved (host.returnLegacyFile u)) :=
    Keeps.returnLegacyFile host ht
  have hservice : Within (Keeps t u way)
      (host.restoreHostService ⟨u.unit, true, u.active, u.enableState⟩) :=
    Keeps.of_same (Same.restoreHostService host)
  have hlegacy : { t with phase := phase }.legacyUnit = some u := ht.legacy
  unfold Host.restoreLegacyUnit
  rw [hlegacy]
  infer_instance

theorem Keeps.program {phase : Phase} (hphase : way.starts phase = true) :
    Within (Keeps t u way) (way.program host { t with phase := phase }) := by
  have hlegacy : Within (Keeps t u way) (host.restoreLegacyUnit { t with phase := phase }) :=
    Keeps.restoreLegacyUnit host ht
  cases way with
  | rollback =>
    have hcleanup : Within (Keeps t u .rollback)
        (host.cleanupFailedFirstInstall { t with phase := phase }) :=
      Keeps.of_same (Same.cleanupFailedFirstInstall ht host)
    have hroot : Within (Keeps t u .rollback) host.cleanupMigratedRoot :=
      Keeps.of_same (Same.cleanupMigratedRoot host)
    unfold Way.program Host.rollbackMigrate Host.rollbackAround Host.rollbackMigrateInner
    refine Within.andThen inferInstance fun _ => Within.andThen inferInstance fun r => ?_
    cases r <;> infer_instance
  | early =>
    have hpre : Within (Keeps t u .early)
        (host.restorePreActivation { t with phase := phase }) :=
      Keeps.of_same (Same.restorePreActivation host _ rfl)
    rw [early_program host t hphase]
    infer_instance

end Frame

/-! A host that does not die. -/

section Alive

/-- No request ends the process. -/
class Alive (host : Host H) : Prop where
  alive : ∀ {α : Type} (act : Act α) m h b, (host.answer act m h).1 ≠ .crash b

variable (host : Host H) [hal : Alive host]

instance lives_perform {α : Type} (act : Act α) : Lives (host.perform act) := by
  refine ⟨fun w v h => ?_⟩
  unfold Host.perform at h
  split at h
  · cases h
  · cases h
  · rename_i b out h' hanswer
    exact hal.alive act w.machine w.host b (by rw [hanswer])

instance lives_check (c : Check) : Lives (host.check c) := lives_perform host (.check c)

instance lives_writeTransaction (call : Call) (t : TransactionFile) :
    Lives (host.writeTransaction call t) := by
  refine ⟨fun w v h => ?_⟩
  unfold Host.writeTransaction at h
  split at h
  · cases h
  · split at h
    · cases h
    · cases h
    · rename_i b out h' hanswer
      exact hal.alive .writeTransaction w.machine w.host b (by rw [hanswer])

instance lives_getMachine : Lives (Host.getMachine : Flow H Machine) := by
  unfold Host.getMachine
  infer_instance

instance lives_orCorrupted {α : Type} (a : Option α) (message : String) :
    Lives (Host.orCorrupted a message : Flow H α) := by
  unfold Host.orCorrupted
  split <;> infer_instance

instance lives_markPhase (t : TransactionFile) (phase : Phase) :
    Lives (host.markPhase t phase) := by
  unfold Host.markPhase Host.markPhaseAs
  infer_instance

instance lives_restoreBefore (before : ServiceBefore) : Lives (host.restoreBefore before) := by
  unfold Host.restoreBefore Host.isActive Host.start
  refine Lives.andThen inferInstance fun _ => ?_
  split
  · infer_instance
  · refine Lives.andThen inferInstance fun r => ?_
    split <;> infer_instance

instance lives_restoreRecordedService (t : TransactionFile) :
    Lives (host.restoreRecordedService t) := by
  unfold Host.restoreRecordedService Host.resolvRestore
  split <;> infer_instance

instance lives_restorePreActivation (t : TransactionFile) :
    Lives (host.restorePreActivation t) := by
  unfold Host.restorePreActivation
  split <;> infer_instance

instance lives_discard (path : Option Path) : Lives (host.discard path) := by
  unfold Host.discard
  split <;> infer_instance

instance lives_cleanupFailedFirstInstall (t : TransactionFile) :
    Lives (host.cleanupFailedFirstInstall t) := by
  unfold Host.cleanupFailedFirstInstall Host.removeTargetRelease Host.removeCurrentOfTarget
  infer_instance

instance lives_restoreLegacyUnit (t : TransactionFile) : Lives (host.restoreLegacyUnit t) := by
  unfold Host.restoreLegacyUnit Host.returnLegacyFile Host.restoreHostService Host.applyEnableState
  refine Lives.andThen inferInstance fun _ => ?_
  split
  · infer_instance
  · refine Lives.andThen inferInstance fun _ => ?_
    have hstate : ∀ unit state, Lives (match Host.enableVerb state with
        | some verb => host.perform (.systemctl verb unit)
        | none => pure ()) := by
      intro unit state
      split <;> infer_instance
    infer_instance

instance lives_rollbackMigrate (t : TransactionFile) : Lives (host.rollbackMigrate t) := by
  unfold Host.rollbackMigrate Host.rollbackAround Host.rollbackMigrateInner Host.cleanupMigratedRoot
  refine Lives.andThen inferInstance fun _ => Lives.andThen inferInstance fun r => ?_
  split <;> infer_instance

instance lives_recoverMigrate (t : TransactionFile) : Lives (host.recoverMigrate t) := by
  unfold Host.recoverMigrate Host.refuseTerminal
  split <;> infer_instance

instance lives_findUnfinished : Lives host.findUnfinished := by
  unfold Host.findUnfinished
  refine Lives.andThen inferInstance fun _ => Lives.andThen inferInstance fun w => ?_
  split
  · infer_instance
  · split <;> infer_instance

end Alive

/-! A way back without the file it is to put back. -/

section Gone

variable {t : TransactionFile} {u : LegacyUnitBefore} {way : Way} {host : Host H}
  (honest : Honest host) (ht : Recorded t u) {m : Machine}

include honest

theorem triple_restoreLegacyUnit_gone (ht : Recorded t u) (phase : Phase)
    (hgone : BackupGone t u m) (T : Option TransactionFile) :
    Triple (At m T) (host.restoreLegacyUnit { t with phase := phase }) (fun _ _ => False)
      (fun _ w => w.transaction = T) fun w => w.transaction = T := by
  obtain ⟨file, hpath, -, hback⟩ := ht.moved hgone.1
  have hmove : Triple (At m T) (host.perform (.rename (unitBackup t u) file)) (fun _ _ => False)
      (fun _ w => w.transaction = T) fun w => w.transaction = T := by
    rintro w ⟨rfl, rfl⟩
    unfold Host.perform
    split
    · rename_i a out h hanswer
      exact honest.unable _ _ _ w.host a hgone.2 (by rw [hanswer])
    · rfl
    · rfl
  have hlegacy : { t with phase := phase }.legacyUnit = some u := ht.legacy
  unfold Host.restoreLegacyUnit
  rw [hlegacy]
  apply (Runs.check honest .downcast).andThen fun w h => h
  intro _
  simp only [hgone.1, Prog.onlyIf_true, Host.returnLegacyFile, hback, hpath,
    Host.orCorrupted_some, Prog.pure_andThen]
  have hreturn : Triple (At m T) (do
      host.perform (.rename (unitBackup t u) file)
      host.check .daemonReload) (fun _ _ => False) (fun _ w => w.transaction = T)
      fun w => w.transaction = T :=
    hmove.bind fun _ w hw => hw.elim
  exact hreturn.bind fun _ w hw => hw.elim

theorem triple_rollbackMigrateInner_gone (ht : Recorded t u) (phase : Phase)
    (hgone : BackupGone t u m) (T : Option TransactionFile) :
    Triple (At m T) (host.rollbackMigrateInner { t with phase := phase }) (fun _ _ => False)
      (fun _ w => w.transaction = T) fun w => w.transaction = T := by
  have hstill : BackupGone t u
      ((serviceMachine t m).setFiles (firstCleaned (t.targetVersion.getD "") m.files)) := by
    refine ⟨hgone.1, ?_⟩
    have hsame := firstCleaned_backup (t.targetVersion.getD "") m.files (t := t) (u := u) []
    rw [List.append_nil] at hsame
    exact hsame.trans hgone.2
  unfold Host.rollbackMigrateInner
  apply (Runs.check honest .downcast).andThen fun w h => h
  intro _
  apply (Runs.cleanupFailedFirstInstall honest ht).andThen fun w h => h
  intro _
  exact (triple_restoreLegacyUnit_gone honest ht phase hstill T).bind fun _ w hw => hw.elim

theorem triple_way_gone (ht : Recorded t u) (hstarts : way.starts t.phase = true) {phase : Phase}
    (hphase : way.starts phase = true) (hgone : BackupGone t u m) :
    Triple (At m (some { t with phase := phase })) (way.program host { t with phase := phase })
      (fun _ _ => False) (fun _ _ => True)
      fun w => w.transaction = some { t with phase := phase } ∨
        (way = .rollback ∧ (w.transaction = some { t with phase := .rollingBack } ∨
          w.transaction = some { t with phase := .failed })) := by
  cases way with
  | rollback =>
    have hmark := markPhase honest (m := m) { t with phase := phase }
      (ht.validate_phase hstarts .rollingBack) (some { t with phase := phase })
    have hinner := triple_rollbackMigrateInner_gone honest ht phase hgone
      (some { t with phase := .rollingBack })
    have hfailed : Triple (fun w => w.transaction = some { t with phase := .rollingBack })
        (host.markPhase { t with phase := phase } .failed) (fun _ _ => True) (fun _ _ => True)
        fun w => w.transaction = some { t with phase := .rollingBack } ∨
          w.transaction = some { t with phase := .failed } := by
      intro w hw
      have hat := markPhase honest (m := w.machine) { t with phase := phase }
        (ht.validate_phase hstarts .failed) (some { t with phase := .rollingBack }) w ⟨rfl, hw⟩
      exact hat.mono (fun _ _ _ => trivial) (fun _ _ _ => trivial)
        fun v hv => hv.imp id At.transaction
    unfold Way.program Host.rollbackMigrate Host.rollbackAround
    apply (hmark.ends (fun _ _ _ => trivial) ?_).bind
    · intro _
      apply (hinner.ends (fun _ _ h => h) ?_).attempt.bind
      · intro r
        cases r with
        | ok _ => exact fun w hw => hw.elim
        | error e =>
          have hignored : Triple _ (Prog.ignore (host.markPhase { t with phase := phase } .failed))
              (fun _ _ => True) (fun _ _ => True) _ := Triple.ignore hfailed
          apply (hignored.ends (fun _ _ h => h) ?_).bind
          · exact fun _ => Triple.fail e fun w _ => trivial
          · exact fun w hw => .inr ⟨rfl, hw⟩
      · exact fun w hw => .inr ⟨rfl, .inl hw⟩
    · rintro w (hw | hw)
      · exact .inl hw
      · exact .inr ⟨rfl, .inl hw.transaction⟩
  | early =>
    rw [early_program host t hphase]
    have hlegacy := triple_restoreLegacyUnit_gone honest ht phase hgone
      (some { t with phase := phase })
    apply (hlegacy.ends (fun _ _ _ => trivial)
      fun _ h => .inl h).bind
    exact fun _ w hw => hw.elim

end Gone

/-! The recoveries after a way back that was cut off. -/

section Chain

variable (t : TransactionFile) (u : LegacyUnitBefore) (way : Way)

def Kept (final : Machine) (w : World H) : Prop :=
  ∃ phase, w.transaction = some { t with phase := phase } ∧
    ((phase = way.endPhase ∧ w.machine = final) ∨
      (way.resumes phase = true ∧ ¬ BackupGone t u w.machine ∧
        machineAfter t u way w.machine = final))

/-- No recovery ends as the way back would have: the file to put back is gone, or another way is
taken, or was. -/
def Lost (w : World H) : Prop :=
  ∃ phase, w.transaction = some { t with phase := phase } ∧ phase ≠ way.endPhase ∧
    (phase = .failed ∨ way.starts phase = true) ∧
      (way.resumes phase = true → BackupGone t u w.machine)

variable {t u way} {host : Host H} (honest : Honest host) (ht : Recorded t u)
  {m final : Machine} {phase : Phase}

theorem Way.starts_ne_endPhase (h : way.starts phase = true) : phase ≠ way.endPhase := by
  rintro rfl
  cases way <;> cases h

theorem Way.starts_of_resumes (h : way.resumes phase = true) : way.starts phase = true := by
  cases way <;> cases phase <;> first | rfl | cases h

theorem Way.starts_not_terminal (h : way.starts phase = true) : phase.isTerminal = false := by
  cases way <;> cases phase <;> first | rfl | cases h

theorem Way.endPhase_terminal : way.endPhase.isTerminal = true := by
  cases way <;> rfl

include honest

theorem triple_findUnfinished {t' : TransactionFile} (hvalid : t'.validate = none) :
    Triple (At m (some t')) host.findUnfinished
      (fun r w => At m (some t') w ∧ r = if t'.phase.isTerminal then none else some t')
      (fun _ _ => False) (At m (some t')) := by
  have hcheck : Triple (At m (some t')) (host.check .readTransactions)
      (fun _ => At m (some t')) (fun _ _ => False) (At m (some t')) := by
    rintro w ⟨rfl, hT⟩
    unfold Host.check Host.perform
    split
    · exact ⟨rfl, hT⟩
    · rename_i e out h hanswer
      exact honest.able (.check .readTransactions) _ w.host e (by rw [hanswer])
    · exact ⟨ite_self _, hT⟩
  unfold Host.findUnfinished
  apply hcheck.bind
  intro _
  apply Triple.read
  rintro w v ⟨hv, rfl⟩
  simp only [hv.transaction, hvalid]
  exact ⟨hv, rfl⟩

omit honest

theorem recoverTransaction_eq (host : Host H) (ht : Recorded t u) :
    host.recoverTransaction { t with phase := phase } =
      host.recoverMigrate { t with phase := phase } := by
  unfold Host.recoverTransaction
  rw [ht.operation]

include honest

theorem triple_recoverInterrupted (ht : Recorded t u) (hstarts : way.starts t.phase = true)
    (hopen : phase.isTerminal = false) {Q : Unit → World H → Prop}
    {E : InstallError → World H → Prop} {C : World H → Prop}
    (hrun : Triple (At m (some { t with phase := phase }))
      (host.recoverMigrate { t with phase := phase }) Q E C)
    (hcut : ∀ w, At m (some { t with phase := phase }) w → C w) :
    Triple (At m (some { t with phase := phase })) host.recoverInterrupted Q E C := by
  have hfind := triple_findUnfinished honest (m := m) (ht.validate_phase hstarts phase)
  unfold Host.recoverInterrupted
  apply (hfind.ends (fun _ _ h => h.elim) hcut).bind
  intro r w hw
  obtain ⟨hat, rfl⟩ := hw
  simp only [hopen, Bool.false_eq_true, if_false]
  rw [recoverTransaction_eq host ht]
  exact hrun w hat

theorem triple_recoverInterrupted_terminal (ht : Recorded t u)
    (hstarts : way.starts t.phase = true) (hterminal : phase.isTerminal = true) :
    Triple (At m (some { t with phase := phase })) host.recoverInterrupted
      (fun _ => At m (some { t with phase := phase })) (fun _ _ => False)
      (At m (some { t with phase := phase })) := by
  have hfind := triple_findUnfinished honest (m := m) (ht.validate_phase hstarts phase)
  unfold Host.recoverInterrupted
  apply hfind.bind
  intro r w hw
  obtain ⟨hat, rfl⟩ := hw
  simp only [hterminal, if_true]
  exact hat

omit honest in
theorem recoverMigrate_resumes (host : Host H) (hresumes : way.resumes phase = true) :
    host.recoverMigrate { t with phase := phase } =
      way.program host { t with phase := phase } := by
  cases way with
  | early => rfl
  | rollback => cases phase <;> first | rfl | cases hresumes

theorem triple_way_cut (final : Machine) (ht : Recorded t u) (hstarts : way.starts t.phase = true)
    (hphase : way.starts phase = true) :
    Triple (fun w : World H => w.transaction = some { t with phase := phase } ∧
        ¬ BackupGone t u w.machine ∧ machineAfter t u way w.machine = final)
      (way.program host { t with phase := phase })
      (fun _ => At final (some { t with phase := way.endPhase })) (fun _ _ => False)
      fun v => Kept t u way final v ∨ Lost t u way v := by
  rintro w ⟨hT, hgone, rfl⟩
  have hway := triple_way honest ht hstarts hphase (m := w.machine)
    (fun hmoved hnone => hgone ⟨hmoved, hnone⟩) w ⟨rfl, hT⟩
  have hkeeps : Holds t u way w.machine (way.program host { t with phase := phase } w).2.machine :=
    (Keeps.program host ht hphase).rel w
  -- until the record names the end, it names a phase the way is taken from
  have hopen : ∀ v : World H, Holds t u way w.machine v.machine → ∀ p, way.starts p = true →
      v.transaction = some { t with phase := p } →
        Kept t u way (machineAfter t u way w.machine) v ∨ Lost t u way v := by
    intro v hholds p hp hv
    by_cases hnow : BackupGone t u v.machine
    · exact .inr ⟨p, hv, Way.starts_ne_endPhase hp, .inr hp, fun _ => hnow⟩
    · cases hres : way.resumes p with
      | true => exact .inl ⟨p, hv, .inr ⟨hres, hnow, hholds.after.resolve_left hnow⟩⟩
      | false =>
        refine .inr ⟨p, hv, Way.starts_ne_endPhase hp, .inr hp, fun h => ?_⟩
        rw [hres] at h
        cases h
  rcases hrun : way.program host { t with phase := phase } w with ⟨a | e | _, v⟩ <;>
    rw [hrun] at hway hkeeps
  · exact hway
  · exact hway
  · rcases hway with hv | ⟨rfl, hv⟩ | hv
    · exact hopen v hkeeps phase hphase hv
    · exact hopen v hkeeps .rollingBack rfl hv
    · exact .inl ⟨way.endPhase, hv.transaction, .inl ⟨rfl, hv.machine⟩⟩

theorem triple_recover_kept (ht : Recorded t u) (hstarts : way.starts t.phase = true) :
    Triple (Kept t u way final) host.recoverInterrupted
      (fun _ => At final (some { t with phase := way.endPhase })) (fun _ _ => False)
      fun v => Kept t u way final v ∨ Lost t u way v := by
  rintro w ⟨phase, hT, ⟨rfl, rfl⟩ | ⟨hresumes, hgone, hfinal⟩⟩
  · have hend := triple_recoverInterrupted_terminal honest ht hstarts Way.endPhase_terminal w
      ⟨rfl, hT⟩
    apply hend.mono (fun _ _ h => h) fun _ _ h => h
    intro v hv
    exact .inl ⟨way.endPhase, hv.transaction, .inl ⟨rfl, hv.machine⟩⟩
  · have hphase := Way.starts_of_resumes hresumes
    have hcut := triple_way_cut honest final ht hstarts hphase
    rw [← recoverMigrate_resumes host hresumes] at hcut
    refine triple_recoverInterrupted honest ht hstarts (Way.starts_not_terminal hphase)
      (hcut.strengthen fun v hv => ⟨hv.transaction, ?_⟩) ?_ w ⟨rfl, hT⟩
    · rw [hv.machine]
      exact ⟨hgone, hfinal⟩
    · intro v hv
      refine .inl ⟨phase, hv.transaction, .inr ⟨hresumes, ?_⟩⟩
      rw [hv.machine]
      exact ⟨hgone, hfinal⟩

theorem triple_way_gone_cut (ht : Recorded t u) (hstarts : way.starts t.phase = true)
    (hphase : way.starts phase = true) (hgone : BackupGone t u m) :
    Triple (At m (some { t with phase := phase })) (way.program host { t with phase := phase })
      (fun _ _ => False) (fun _ _ => True) (Lost t u way) := by
  rintro w ⟨rfl, hT⟩
  have hway := triple_way_gone honest ht hstarts hphase hgone w ⟨rfl, hT⟩
  have hkeeps : Holds t u way w.machine (way.program host { t with phase := phase } w).2.machine :=
    (Keeps.program host ht hphase).rel w
  rcases hrun : way.program host { t with phase := phase } w with ⟨a | e | _, v⟩ <;>
    rw [hrun] at hway hkeeps
  · exact hway
  · trivial
  · have hstill := hkeeps.gone hgone
    rcases hway with hv | ⟨rfl, hv | hv⟩
    · exact ⟨phase, hv, Way.starts_ne_endPhase hphase, .inr hphase, fun _ => hstill⟩
    · exact ⟨.rollingBack, hv, nofun, .inr rfl, fun _ => hstill⟩
    · exact ⟨.failed, hv, nofun, .inl rfl, fun _ => hstill⟩

theorem triple_early_lost (ht : Recorded t u) (hstarts : Way.rollback.starts t.phase = true)
    (hphase : Way.early.starts phase = true) (m : Machine) :
    Triple (At m (some { t with phase := phase })) (host.recoverMigrate { t with phase := phase })
      (fun _ v => v.transaction = some { t with phase := .failed }) (fun _ _ => True)
      (Lost t u .rollback) := by
  have hlost : ∀ v : World H, v.transaction = some { t with phase := phase } ∨
      v.transaction = some { t with phase := .failed } → Lost t u .rollback v := by
    rintro v (hv | hv)
    · have hfacts : Way.rollback.starts phase = true ∧ Way.rollback.resumes phase = false := by
        cases phase <;> first | exact ⟨rfl, rfl⟩ | cases hphase
      refine ⟨phase, hv, Way.starts_ne_endPhase hfacts.1, .inr hfacts.1, fun h => ?_⟩
      rw [hfacts.2] at h
      cases h
    · exact ⟨.failed, hv, nofun, .inl rfl, nofun⟩
  have ht' : Recorded { t with phase := phase } u := ⟨ht.operation,
    ht.validate_phase hstarts phase, ht.legacy, ht.target, ht.moved⟩
  by_cases hgone : BackupGone t u m
  · have hway : Triple _ (Way.early.program host { t with phase := phase }) _ _ _ :=
      triple_way_gone honest ht' hphase hphase hgone
    apply hway.consequence (fun _ h => h) (fun _ _ h => h.elim) fun _ _ _ => trivial
    rintro v (hv | ⟨hv, -⟩)
    · exact hlost v (.inl hv)
    · cases hv
  · have hway : Triple (At m _) (Way.early.program host { t with phase := phase }) _ _ _ :=
      triple_way honest ht' hphase hphase fun hmoved hnone => hgone ⟨hmoved, hnone⟩
    apply hway.consequence (fun _ h => h) (fun _ _ h => h.transaction) fun _ _ _ => trivial
    rintro v (hv | ⟨hv, -⟩ | hv)
    · exact hlost v (.inl hv)
    · cases hv
    · exact hlost v (.inr hv.transaction)

theorem triple_recover_lost (ht : Recorded t u) (hstarts : way.starts t.phase = true) :
    Triple (Lost t u way) host.recoverInterrupted
      (fun _ v => v.transaction ≠ some { t with phase := way.endPhase }) (fun _ _ => True)
      (Lost t u way) := by
  rintro w ⟨phase, hT, hne, hphase, hgone⟩
  have hself : ∀ v : World H, At w.machine (some { t with phase := phase }) v → Lost t u way v := by
    intro v hv
    refine ⟨phase, hv.transaction, hne, hphase, ?_⟩
    rw [hv.machine]
    exact hgone
  have hnot : ∀ v : World H, v.transaction = some { t with phase := phase } →
      v.transaction ≠ some { t with phase := way.endPhase } := by
    intro v hv hend
    have hsame := congrArg TransactionFile.phase (Option.some.inj (hv.symm.trans hend))
    exact hne hsame
  rcases hphase with rfl | hphase
  · have hrun := triple_recoverInterrupted_terminal honest ht hstarts rfl w ⟨rfl, hT⟩
    exact hrun.mono (fun _ v hv => hnot v hv.transaction) (fun _ _ _ => trivial) hself
  · cases hresumes : way.resumes phase with
    | true =>
      have hrun := triple_way_gone_cut honest ht hstarts hphase (hgone hresumes)
      rw [← recoverMigrate_resumes host hresumes] at hrun
      have hrecover := triple_recoverInterrupted honest ht hstarts
        (Way.starts_not_terminal hphase) hrun hself w ⟨rfl, hT⟩
      exact hrecover.mono (fun _ _ h => h.elim) (fun _ _ h => h) fun _ h => h
    | false =>
      cases way with
      | early => cases phase <;> cases hphase <;> cases hresumes
      | rollback =>
        have hearly : Way.early.starts phase = true := by
          clear hT hself hnot hne hgone
          revert hphase hresumes
          cases phase <;> decide
        have hrun := triple_early_lost honest ht hstarts hearly w.machine
        have hrecover := triple_recoverInterrupted honest ht hstarts
          (Way.starts_not_terminal hphase) hrun hself w ⟨rfl, hT⟩
        refine hrecover.mono (fun _ v hv hend => ?_) (fun _ _ h => h) fun _ h => h
        have hsame := congrArg TransactionFile.phase (Option.some.inj (hv.symm.trans hend))
        cases hsame

end Chain

/-! Every cut. -/

/-- A service manager and a file system whose operations succeed, and a process that is not cut
off. -/
structure Willing (host : Host H) : Prop extends Honest host, Alive host

section Statement

variable (t : TransactionFile) (u : LegacyUnitBefore) (way : Way)

inductive Retried (w₀ : World H) : World H → Prop
  | first {host : Host H} {h : H} {w : World H} : Honest host →
      way.program host t { w₀ with host := h } = (.crash, w) → Retried w₀ w
  | again {host : Host H} {h : H} {w v : World H} : Retried w₀ w → Honest host →
      host.recoverInterrupted (w.disk.boot h) = (.crash, v) → Retried w₀ v

def Repeats (w₀ w : World H) : Prop :=
  ∀ host host' : Host H, Willing host → Willing host' → ∀ h h' : H, ∃ v v' : World H,
    way.program host t { w₀ with host := h } = (.ok (), v) ∧
      host'.recoverInterrupted (w.disk.boot h') = (.ok (), v') ∧
        v'.machine = v.machine ∧ v'.transaction = v.transaction

/-- The record names the end of the way back, or a phase from which the same way is taken again,
and a unit file that was moved is still where it was moved to. -/
def Resumes (w : World H) : Prop :=
  ∃ phase, w.transaction = some { t with phase := phase } ∧
    (phase = way.endPhase ∨ (way.resumes phase = true ∧ ¬ BackupGone t u w.machine))

variable {t u way} {w₀ w : World H}

theorem Retried.kept_or_lost (ht : Recorded t u) (hstarts : way.starts t.phase = true)
    (hT : w₀.transaction = some t) (hbackup : ¬ BackupGone t u w₀.machine)
    (h : Retried t way w₀ w) :
    Kept t u way (machineAfter t u way w₀.machine) w ∨ Lost t u way w := by
  induction h with
  | @first host h w honest hrun =>
    have hcut := triple_way_cut honest (machineAfter t u way w₀.machine) ht hstarts hstarts
      { w₀ with host := h } ⟨hT, hbackup, rfl⟩
    rw [hrun] at hcut
    exact hcut
  | @again host h w v _ honest hrun ih =>
    rcases ih with hkept | hlost
    · have hnext := triple_recover_kept honest ht hstarts (w.disk.boot h) hkept
      rw [hrun] at hnext
      exact hnext
    · have hnext := triple_recover_lost honest ht hstarts (w.disk.boot h) hlost
      rw [hrun] at hnext
      exact .inr hnext

theorem recoverInterrupted_alive (host : Host H) [Alive host] (ht : Recorded t u) {phase : Phase}
    (hT : w.transaction = some { t with phase := phase }) (v : World H) :
    host.recoverInterrupted w ≠ (.crash, v) := by
  intro hrun
  unfold Host.recoverInterrupted at hrun
  rcases hfind : host.findUnfinished w with ⟨r | e | _, x⟩
  · obtain ⟨hr, -⟩ := host.findUnfinished_filter hfind
    rw [Prog.bind_of_ok hfind] at hrun
    cases r with
    | none => cases hrun
    | some t' =>
      have hfound := (Option.filter_eq_some_iff.mp hr.symm).1
      obtain rfl : t' = { t with phase := phase } := Option.some.inj (hfound.symm.trans hT)
      dsimp only at hrun
      rw [recoverTransaction_eq host ht] at hrun
      exact Lives.alive x v hrun
  · rw [Prog.bind_of_err hfind] at hrun
    cases hrun
  · exact Lives.alive w x hfind

theorem lives_program (host : Host H) [Alive host] : Lives (way.program host t) := by
  cases way with
  | rollback => exact lives_rollbackMigrate host t
  | early => exact lives_recoverMigrate host t

theorem uninterrupted {host : Host H} (willing : Willing host) (ht : Recorded t u)
    (hstarts : way.starts t.phase = true) (hT : w₀.transaction = some t)
    (hbackup : ¬ BackupGone t u w₀.machine) (h : H) :
    ∃ v, way.program host t { w₀ with host := h } = (.ok (), v) ∧
      At (machineAfter t u way w₀.machine) (some { t with phase := way.endPhase }) v := by
  have hend := triple_way willing.toHonest ht hstarts hstarts (m := w₀.machine)
    (fun hmoved hnone => hbackup ⟨hmoved, hnone⟩) { w₀ with host := h } ⟨rfl, hT⟩
  have hlives : Lives (way.program host t) :=
    have := willing.toAlive
    lives_program host
  change Outcome.Satisfies _ _ _ (way.program host t { w₀ with host := h }) at hend
  rcases hrun : way.program host t { w₀ with host := h } with ⟨a | e | _, v⟩
  · rw [hrun] at hend
    exact ⟨v, rfl, hend⟩
  · rw [hrun] at hend
    exact hend.elim
  · exact absurd hrun (hlives.alive _ v)

theorem Kept.repeats (ht : Recorded t u) (hstarts : way.starts t.phase = true)
    (hT : w₀.transaction = some t) (hbackup : ¬ BackupGone t u w₀.machine)
    (hkept : Kept t u way (machineAfter t u way w₀.machine) w) : Repeats t way w₀ w := by
  intro host host' willing willing' h h'
  obtain ⟨v, hrun, hv⟩ := uninterrupted willing ht hstarts hT hbackup h
  have hend := triple_recover_kept willing'.toHonest ht hstarts (w.disk.boot h') hkept
  obtain ⟨phase, hphase, -⟩ := hkept
  rcases hrecover : host'.recoverInterrupted (w.disk.boot h') with ⟨a | e | _, v'⟩
  · rw [hrecover] at hend
    exact ⟨v, v', hrun, rfl, hend.machine.trans hv.machine.symm,
      hend.transaction.trans hv.transaction.symm⟩
  · rw [hrecover] at hend
    exact hend.elim
  · have := willing'.toAlive
    have hdisk : (w.disk.boot h').transaction = some { t with phase := phase } := hphase
    exact absurd hrecover (recoverInterrupted_alive host' ht hdisk v')

/-- A host that carries out everything but the move of a file that is not there, and may be cut
off at what `cuts` picks. -/
def lawful (cuts : {α : Type} → Act α → Bool) (carriedOut : Bool) : Host H where
  answer act m h :=
    match act with
    | .rename p q =>
      if (m.files p).isNone then (.err (.io "No such file or directory"), m, h)
      else if cuts (.rename p q) then (.crash carriedOut, m, h)
      else (.ok (), m, h)
    | act => if cuts act then (.crash carriedOut, m, h) else (.ok act.sample, m, h)

theorem lawful_honest (cuts : {α : Type} → Act α → Bool) (carriedOut : Bool) :
    Honest (lawful cuts carriedOut : Host H) where
  able act m h e herr := by
    unfold lawful at herr
    dsimp only at herr
    split at herr
    · split at herr
      · rename_i hnone
        exact Option.isNone_iff_eq_none.mp hnone
      · split at herr <;> cases herr
    · split at herr <;> cases herr
  unable p q m h a hnone := by
    simp [lawful, hnone]

theorem lawful_willing : Willing (lawful (fun _ => false) false : Host H) where
  toHonest := lawful_honest _ _
  alive act m h b hcrash := by
    unfold lawful at hcrash
    dsimp only at hcrash
    split at hcrash
    · split at hcrash <;> cases hcrash
    · cases hcrash

theorem Lost.not_repeats (ht : Recorded t u) (hstarts : way.starts t.phase = true)
    (hT : w₀.transaction = some t) (hbackup : ¬ BackupGone t u w₀.machine)
    (hlost : Lost t u way w) : ¬ Repeats t way w₀ w := by
  intro hrepeats
  obtain ⟨v, v', hrun, hrecover, -, hsame⟩ :=
    hrepeats _ _ lawful_willing lawful_willing w₀.host w.host
  obtain ⟨x, hx, hat⟩ := uninterrupted lawful_willing ht hstarts hT hbackup w₀.host
  obtain rfl : v = x := congrArg Prod.snd (hrun.symm.trans hx)
  -- a recovery that returns has marked another phase
  have hnot := triple_recover_lost lawful_willing.toHonest ht hstarts (w.disk.boot w.host) hlost
  rw [hrecover] at hnot
  exact hnot (hsame.trans hat.transaction)

end Statement

/-! A migration that has moved the file of the unit it replaces. -/

def sampleLegacy : LegacyUnitBefore :=
  ⟨"old.service", true, "enabled", true, some (Layout.systemUnits ++ ["old.service"]),
    some (Layout.transactionDir "id" ++ ["legacy-unit", "old.service"])⟩

def sampleMoved : TransactionFile :=
  { TransactionFile.newMigrate "id" "1.0.0" with
    phase := .activating
    backup := some Act.createBackup.sample
    legacyUnit := some sampleLegacy }

def sampleMigrated : World Unit :=
  { (Disk.holding (sampleFiles ++ [(unitBackup sampleMoved sampleLegacy,
      .file (.text "[Unit]"))])).boot () with transaction := some sampleMoved }

theorem sampleMoved_recorded : Recorded sampleMoved sampleLegacy where
  operation := rfl
  valid := by decide +kernel
  legacy := rfl
  target := ⟨"1.0.0", rfl, rfl⟩
  moved _ := ⟨_, rfl, List.prefix_append _ _, rfl⟩

theorem sampleMigrated_backup : ¬ BackupGone sampleMoved sampleLegacy sampleMigrated.machine := by
  rintro ⟨-, hnone⟩
  exact absurd hnone (by decide +kernel)

def cutsMove : {α : Type} → Act α → Bool
  | _, .rename _ _ => true
  | _, _ => false

def cutsReload : {α : Type} → Act α → Bool
  | _, .check .daemonReload => true
  | _, _ => false

def sampleCut (cuts : {α : Type} → Act α → Bool) : World Unit :=
  ((lawful cuts false).rollbackMigrate sampleMoved sampleMigrated).2

theorem sampleCut_retried (cuts : {α : Type} → Act α → Bool)
    (hcrash : ((lawful cuts false).rollbackMigrate sampleMoved sampleMigrated).1 = .crash) :
    Retried sampleMoved .rollback sampleMigrated (sampleCut cuts) := by
  have hrun : (lawful cuts false).rollbackMigrate sampleMoved sampleMigrated =
      (.crash, sampleCut cuts) := Prod.ext hcrash rfl
  exact .first (lawful_honest cuts false) hrun

end LandscapeKit.Deploy.MigrateCut
