import LandscapeKit.DeployPhases

/-!
The phases of every workflow, of its error path, and of the `network confirm` and `network
rollback` that may follow: in order, unless one of the three calls that step back was made.
-/

namespace LandscapeKit.Deploy

open Faults

set_option synthInstance.maxSize 65536

variable {H α : Type}

inductive Workflow
  | install (id version config : String) (network : Bool) (confirmTimeout : ℕ)
  | switch (state : InstallState) (id target : String) (allowNoBackup : Bool)
  | restore (state : InstallState) (id target : String) (source : Host.BackupSource)
    (allowNoBackup interactive : Bool)
  | reinit (state : InstallState) (id config : String) (allowNoBackup : Bool)
    (confirmTimeout : ℕ)
  | migrate (id version : String) (available : Bool)
  | repairStatic (state : InstallState) (id : String) (custom interactive : Bool)
  | repairBinary (state : InstallState) (id : String)
  | observe (state : InstallState) (id : String)
  | uninstall (state : InstallState) (id : String) (allowNoBackup interactive keepData : Bool)

def Host.run (host : Host H) : Workflow → Flow H Unit
  | .install id version config network timeout =>
    host.firstInstall id version config network timeout
  | .switch state id target allow => host.switchVersion state id target allow
  | .restore state id target source allow interactive =>
    host.restoreVersion state id target source allow interactive
  | .reinit state id config allow timeout =>
    host.reinitInstallation state id config allow timeout
  | .migrate id version available => host.migrate id version available
  | .repairStatic state id custom interactive => host.repairStatic state id custom interactive
  | .repairBinary state id => host.repairBinary state id
  | .observe state id => host.observeInitialization state id
  | .uninstall state id allow interactive keepData =>
    host.uninstallInstallation state id allow interactive keepData

section Pieces

variable (host : Host H) {own : Phase}

structure Clean (w : World H) : Prop where
  transaction : w.transaction = none
  writes : w.writes = []

theorem Clean.logged {w : World H} (h : Clean w) : Logged w := by
  refine ⟨fun t ht => absurd (h.transaction.symm.trans ht) (by simp), ?_⟩
  rw [h.writes]
  simp [Ordered, Forward]

theorem clean_silent {q : Flow H α} (hq : Within Silent q) :
    Triple Clean q (fun _ => Clean) (fun _ => Logged) Logged := by
  refine (hq.triple (P := Clean) fun w w' h hw => ?_).ends (fun _ _ h => h.logged)
    fun _ h => h.logged
  exact ⟨h.transaction.trans hw.transaction, h.writes.trans hw.writes⟩

structure Fresh (w : World H) : Prop where
  clean : Clean w
  own : w.locals.transaction.phase = .preparing

theorem fresh_aside {q : Flow H α} (hq : Within Aside q) :
    Triple Fresh q (fun _ => Fresh) (fun _ => Logged) Logged := by
  refine (hq.triple (P := Fresh) fun w w' h hw => ?_).ends (fun _ _ h => h.clean.logged)
    fun _ h => h.clean.logged
  exact ⟨⟨h.silent.transaction.trans hw.clean.transaction,
    h.silent.writes.trans hw.clean.writes⟩, h.own.trans hw.own⟩

theorem fresh_beginOwn :
    Triple Fresh host.beginOwn (fun _ => Stage .preparing .preparing) (fun _ => Logged)
      (Logged (H := H)) := by
  rintro w hw
  change Outcome.Satisfies _ _ _ (host.beginTransaction w.locals.transaction w)
  generalize ht : w.locals.transaction = t
  have hphase : t.phase = .preparing := ht ▸ hw.own
  have hstored : ∀ (w : World H) h, Fresh w →
      Stage .preparing .preparing (Host.stored w .begin t h) := by
    intro w h hw
    refine ⟨⟨⟨fun u hu => ?_, ?_⟩, ?_⟩, hw.own⟩
    · obtain rfl : t = u := Option.some.inj hu
      exact ⟨w.writes, .begin, rfl⟩
    · change Ordered (w.writes ++ [_]) ↔ Forward (w.writes ++ [_])
      rw [hw.clean.writes]
      simp [Ordered, Forward, Call.regresses]
    · exact congrArg some hphase
  have hbegin : Triple Fresh (host.beginTransaction t) (fun _ => Stage .preparing .preparing)
      (fun _ => Logged) Logged := by
    unfold Host.beginTransaction
    split
    · exact Triple.fail _ fun w hw => hw.clean.logged
    have hfind : Within Idle host.findUnfinished := inferInstance
    refine ((hfind.triple (P := Fresh) fun w w' hidle hw => ?_).ends (fun _ _ h => h.clean.logged)
      fun _ h => h.clean.logged).bind fun r => ?_
    · obtain ⟨h, rfl⟩ := hidle
      exact ⟨⟨hw.clean.transaction, hw.clean.writes⟩, hw.own⟩
    cases r with
    | some u => exact Triple.fail _ fun w hw => hw.clean.logged
    | none =>
      refine (fresh_aside inferInstance).bind fun _ => ?_
      refine host.triple_writeTransaction _ _ hstored ?_ ?_ ?_
      · intro w e h hw
        exact hw.clean.logged.silent ⟨rfl, rfl⟩
      · intro w h hw
        exact (hstored w h hw).filed.logged
      · intro w h hw
        exact hw.clean.logged.silent ⟨rfl, rfl⟩
  exact hbegin w hw

theorem stage_persist :
    Triple (Stage .preparing .preparing) (host.persistOwn .persist)
      (fun _ => Stage .preparing .preparing) (fun _ => Unfinished) (Logged (H := H)) := by
  rintro w hw
  change Outcome.Satisfies _ _ _ (host.writeTransaction .persist w.locals.transaction w)
  generalize ht : w.locals.transaction = t
  have hphase : t.phase = .preparing := ht ▸ hw.own
  have hstored : ∀ (w : World H) h, Stage .preparing .preparing w →
      Stage .preparing .preparing (Host.stored w .persist t h) := by
    intro w h hw
    have hfiled : Filed t.phase (Host.stored w .persist t h) :=
      hw.filed.stored rfl (hphase ▸ Phase.Before.refl _)
    exact ⟨hphase ▸ hfiled, hw.own⟩
  refine host.triple_writeTransaction .persist t hstored ?_ ?_ ?_ w hw
  · intro w e h hw
    exact ⟨.preparing, rfl, hw.filed.silent ⟨rfl, rfl⟩⟩
  · intro w h hw
    exact (hstored w h hw).filed.logged
  · intro w h hw
    exact hw.filed.logged.silent ⟨rfl, rfl⟩

theorem stage_stepBack {p : Phase} {call : Call} (hcall : call.regresses = true) :
    Triple (fun w => Stage own p w ∧ (¬ p.Before own ∨ ¬ Forward w.writes))
      (host.persistOwn call) (fun _ w => Stage own own w ∧ ¬ Forward w.writes)
      (fun _ w => Filed p w) (Logged (H := H)) := by
  rintro w ⟨hw, hback⟩
  change Outcome.Satisfies _ _ _ (host.writeTransaction call w.locals.transaction w)
  generalize ht : w.locals.transaction = t
  have hphase : t.phase = own := ht ▸ hw.own
  have hstored : ∀ (w : World H) h, Stage own p w ∧ (¬ p.Before own ∨ ¬ Forward w.writes) →
      Stage own own (Host.stored w call t h) ∧ ¬ Forward (Host.stored w call t h).writes := by
    rintro w h ⟨hw, hback⟩
    obtain ⟨hfiled, hbroken⟩ := hw.filed.stored_back (t := t) (h := h) hcall (hphase.symm ▸ hback)
    exact ⟨⟨hphase ▸ hfiled, hw.own⟩, hbroken⟩
  refine host.triple_writeTransaction call t hstored ?_ ?_ ?_ w ⟨hw, hback⟩
  · intro w e h hw
    exact hw.1.filed.silent ⟨rfl, rfl⟩
  · intro w h hw
    exact (hstored w h hw).1.filed.logged
  · intro w h hw
    exact hw.1.filed.logged.silent ⟨rfl, rfl⟩

theorem unfinished_markFailed :
    Triple Unfinished host.markFailed (fun _ => Logged) (fun _ => Logged) (Logged (H := H)) := by
  refine Triple.ignore ?_
  refine (unfinished_silent inferInstance).ends (fun _ _ h => ?_) (fun _ h => h) |>.bind fun t => ?_
  · obtain ⟨p, -, hw⟩ := h
    exact hw.logged
  · exact (unfinished_mark host (by decide) t).consequence (fun _ h => h)
      (fun _ _ h => h.logged) (fun _ _ ⟨_, _, h⟩ => h.logged) fun _ h => h

theorem unfinished_abandon :
    Triple Unfinished host.abandonBeforeActivation (fun _ => Logged) (fun _ => Logged)
      (Logged (H := H)) := by
  have hlogged : ∀ w : World H, Unfinished w → Logged w := fun w ⟨_, _, h⟩ => h.logged
  refine ((unfinished_silent inferInstance).ends
    (fun _ w h => hlogged w h) fun _ h => h).bind fun t => ?_
  refine ((unfinished_silent inferInstance).ends
    (fun _ w h => hlogged w h) fun _ h => h).bind fun _ => ?_
  exact unfinished_markFailed host

section Blocks

variable {hi : Phase}

theorem upto_stage {p hi : Phase} (hp : p.isTerminal = false) (hle : p.rank ≤ hi.rank) :
    ∀ w : World H, Stage own p w → Upto own hi w :=
  fun _ h => h.upto hp hle

theorem upto_next {q : Flow H Unit} {p : Phase} {P : World H → Prop} (hp : p.isTerminal = false)
    (hle : p.rank ≤ hi.rank)
    (h : Triple P q (fun _ => Stage own p) (fun _ => Unfinished) Logged) :
    Triple P q (fun _ => Upto own hi) (fun _ => Unfinished) Logged :=
  h.consequence (fun _ h => h) (fun _ w h => upto_stage hp hle w h) (fun _ _ h => h)
    fun _ h => h

theorem upto_mono {lo : Phase} (hle : lo.rank ≤ hi.rank) {w : World H} (h : Upto own lo w) :
    Upto own hi w := by
  obtain ⟨p, hp, hlo, hs⟩ := h
  exact ⟨p, hp, hlo.trans hle, hs⟩

theorem upto_reached {lo : Phase} (hopen : hi.isTerminal = false) (hle : lo.rank ≤ hi.rank) :
    Triple (Upto own lo) (host.mark hi) (fun _ => Upto own hi) (fun _ => Unfinished)
      (Logged (H := H)) :=
  upto_next hopen le_rfl (upto_mark host hle)

theorem upto_ended {lo : Phase} (hle : lo.rank ≤ hi.rank) :
    Triple (Upto own lo) (host.mark hi) (fun _ => Logged) (fun _ => Unfinished)
      (Logged (H := H)) :=
  (upto_mark host hle).consequence (fun _ h => h) (fun _ _ h => h.filed.logged)
    (fun _ _ h => h) fun _ h => h

theorem upto_stopForSwitch (isSystemd : Bool) :
    Triple (Upto own .prepared) (host.stopForSwitch isSystemd) (fun _ => Upto own .stopping)
      (fun _ => Unfinished) (Logged (H := H)) := by
  unfold Host.stopForSwitch
  refine Triple.ite (fun _ => ?_) fun _ => ?_
  · refine Triple.bind (Q := fun _ => Upto own .stopping) ?_ fun _ => upto_aside inferInstance
    exact upto_reached host rfl (by decide)
  · refine Triple.strengthen (P := Upto own .stopping) ?_ fun w h => upto_mono (by decide) h
    unfold Host.askToStop
    exact upto_aside inferInstance

theorem upto_startAndVerify (message : String) :
    Triple (Upto own .activating) (host.startAndVerify message) (fun _ => Stage own .verifying)
      (fun _ => Unfinished) (Logged (H := H)) := by
  refine (upto_aside inferInstance).bind fun _ => ?_
  refine (upto_mark host (by decide)).bind fun _ => ?_
  exact (stage_aside rfl inferInstance).bind fun _ => stage_aside rfl inferInstance

theorem upto_registerStartAndVerify :
    Triple (Upto own .activating) host.registerStartAndVerify (fun _ => Stage own .verifying)
      (fun _ => Unfinished) (Logged (H := H)) :=
  (upto_aside inferInstance).bind fun _ => upto_startAndVerify host _

theorem upto_onlyIf (c : Bool) {q : Flow H Unit}
    (hq : Triple (Upto own .activating) q (fun _ => Stage own .verifying) (fun _ => Unfinished)
      Logged) :
    Triple (Upto own .activating) (Prog.onlyIf c q) (fun _ => Upto own .verifying)
      (fun _ => Unfinished) (Logged (H := H)) :=
  Triple.onlyIf (fun _ => upto_next rfl le_rfl hq) fun _ w h => upto_mono (by decide) h

theorem upto_commit (state : InstallState) :
    Triple (Upto own .verifying) (host.commit state) (fun _ => Logged) (fun _ => Unfinished)
      (Logged (H := H)) := by
  refine (upto_aside inferInstance).bind fun _ => ?_
  exact upto_ended host (by decide)

theorem upto_commitSwitch (state : InstallState) (version id : String) (built : Asset × Asset) :
    Triple (Upto own .verifying) (host.commitSwitch state version id built) (fun _ => Logged)
      (fun _ => Unfinished) (Logged (H := H)) :=
  (upto_aside inferInstance).bind fun _ => upto_commit host _

end Blocks

end Pieces

section Workflows

variable (host : Host H)

theorem Unfinished.logged {w : World H} (h : Unfinished w) : Logged w := by
  obtain ⟨p, -, hw⟩ := h
  exact hw.logged

theorem withErrorPath_logged {P : World H → Prop} {block onError : Flow H Unit}
    (hblock : Triple P block (fun _ => Logged) (fun _ => Unfinished) Logged)
    (hpath : Triple Unfinished onError (fun _ => Logged) (fun _ => Logged) Logged) :
    Triple P (Host.withErrorPath block onError) (fun _ => Logged) (fun _ => Logged) Logged :=
  Host.triple_withErrorPath hblock fun _ => hpath

theorem unfinished_quiet {q : Flow H α} (hq : Within Silent q) :
    Triple Unfinished q (fun _ => Unfinished) (fun _ => Logged) Logged :=
  (unfinished_silent hq).ends (fun _ _ h => h.logged)
    fun _ h => h

theorem startWith_fresh {t : TransactionFile} (ht : t.phase = .preparing) {rest : Flow H Unit}
    (hrest : Triple Fresh rest (fun _ => Logged) (fun _ => Logged) Logged) :
    Triple (Clean (H := H))
      (Host.startWith t >>= fun _ => rest) (fun _ => Logged) (fun _ => Logged) Logged := by
  refine Triple.bind (Q := fun _ => Fresh) ?_ fun _ => hrest
  exact Triple.modify _ fun w hw => ⟨⟨hw.transaction, hw.writes⟩, ht⟩

section Install

theorem stage_prepareInstall (version config : String) (timeout : ℕ) :
    Triple (Stage .preparing .preparing) (host.prepareInstall version config timeout)
      (fun _ => Upto .preparing .preparing) (fun _ => Unfinished) (Logged (H := H)) := by
  have hstep : ∀ {α : Type} {q : Flow H α}, Within Aside q →
      Triple (Stage .preparing .preparing) q (fun _ => Stage .preparing .preparing)
        (fun _ => Unfinished) Logged := fun hq => stage_aside rfl hq
  have hinit : Within Aside (host.writeInitConfig config) := by
    unfold Host.writeInitConfig
    infer_instance
  unfold Host.prepareInstall
  refine (hstep inferInstance).bind fun built => (hstep inferInstance).bind fun _ => ?_
  refine (hstep hinit).bind fun _ => (hstep inferInstance).bind fun before => ?_
  refine (hstep inferInstance).bind fun t => (hstep inferInstance).bind fun _ => ?_
  refine (hstep inferInstance).bind fun _ => ?_
  refine Triple.bind (hstep (Aside.setTransaction fun _ => by rfl)) fun _ => ?_
  refine (hstep inferInstance).bind fun _ => (stage_persist host).bind fun _ => ?_
  exact Triple.pure _ fun w hw => hw.upto rfl le_rfl

theorem upto_takeOver :
    Triple (Upto .preparing .prepared) host.takeOver (fun _ => Upto .preparing .stopping)
      (fun _ => Unfinished) (Logged (H := H)) := by
  refine (upto_aside inferInstance).bind fun t => ?_
  split
  · exact Triple.pure _ fun w hw => upto_mono (by decide) hw
  · refine (upto_aside inferInstance).bind fun _ => ?_
    refine (upto_reached host rfl (by decide)).bind fun _ => ?_
    exact (upto_aside inferInstance).bind fun _ => upto_aside inferInstance

theorem upto_commitInstall (state : InstallState) :
    Triple (Upto .preparing .verifying) (host.commitInstall state) (fun _ => Logged)
      (fun _ => Unfinished) (Logged (H := H)) := by
  refine (upto_aside inferInstance).bind fun t => ?_
  split
  · exact upto_commit host state
  · have hpending : ∀ network, Within Aside (host.writePendingState network state) := by
      intro network
      unfold Host.writePendingState
      infer_instance
    refine (upto_aside (hpending _)).bind fun _ => ?_
    exact upto_ended host (by decide)

theorem unfinished_abandonInstall :
    Triple Unfinished host.abandonInstall (fun _ => Logged) (fun _ => Logged)
      (Logged (H := H)) := by
  refine (unfinished_quiet inferInstance).bind fun t => ?_
  split
  · refine (unfinished_quiet inferInstance).bind fun t => ?_
    -- the mark may fail, and then the file stays where it was
    refine Triple.bind (Q := fun _ => Unfinished) ?_ fun _ => ?_
    · refine Triple.ignore ?_
      refine ((unfinished_silent inferInstance).bind fun t => ?_)
      exact (unfinished_mark host (by decide) t).consequence (fun _ h => h)
        (fun _ _ h => ⟨.rollingBack, rfl, h⟩) (fun _ _ h => h) fun _ h => h
    · refine (unfinished_silent inferInstance).attempt.bind fun r => ?_
      cases r with
      | ok _ => exact unfinished_markFailed host
      | error e => exact Triple.pure _ fun w hw => hw.logged
  · exact (unfinished_quiet inferInstance).bind fun _ => unfinished_markFailed host

theorem logged_firstInstall (id version config : String) (network : Bool) (timeout : ℕ) :
    Triple (Clean (H := H))
      (host.firstInstall id version config network timeout) (fun _ => Logged)
      (fun _ => Logged) Logged := by
  have hplan : Within Aside (host.planTakeover id network timeout) := by
    unfold Host.planTakeover
    infer_instance
  refine startWith_fresh rfl ((fresh_aside hplan).bind fun _ => ?_)
  refine (fresh_beginOwn host).bind fun _ =>
    withErrorPath_logged ?_ (unfinished_abandonInstall host)
  refine (stage_prepareInstall host version config timeout).bind fun built => ?_
  refine (upto_reached host rfl (by decide)).bind fun _ => ?_
  refine (upto_takeOver host).bind fun _ => ?_
  refine (upto_reached host rfl (by decide)).bind fun _ => ?_
  refine Triple.bind (Q := fun _ => Upto .preparing .activating) ?_ fun _ => ?_
  · unfold Host.activateCurrent
    exact upto_aside inferInstance
  · refine Triple.bind (upto_next rfl le_rfl (upto_registerStartAndVerify host)) fun _ => ?_
    exact upto_commitInstall host _

end Install

section Switch

theorem unfinished_abandonSwitch (state : InstallState) (isSystemd : Bool) :
    Triple Unfinished (host.abandonSwitch state isSystemd) (fun _ => Logged) (fun _ => Logged)
      (Logged (H := H)) := by
  refine (unfinished_quiet inferInstance).bind fun activated => ?_
  refine Triple.ite (fun _ => ?_) fun _ => ?_
  · refine (unfinished_quiet inferInstance).bind fun t => Triple.ite (fun _ => ?_) fun _ => ?_
    · exact (unfinished_rollbackSwitch host t state).ignore
    · exact (unfinished_rollbackNoBackup host t state).ignore
  · exact Triple.onlyIf (fun _ => unfinished_abandon host) fun _ w hw => hw.logged

theorem upto_activate {isSystemd : Bool} {replace start : Flow H Unit} {state : InstallState}
    {version id : String} {built : Asset × Asset} (hreplace : Within Aside replace)
    (hstart : Triple (Upto .preparing .activating) start (fun _ => Stage .preparing .verifying)
      (fun _ => Unfinished) Logged) :
    Triple (Upto .preparing .preparing) (do
        host.mark .prepared
        host.stopForSwitch isSystemd
        host.mark .activating
        Host.setActivated
        replace
        Prog.onlyIf isSystemd start
        host.commitSwitch state version id built)
      (fun _ => Logged) (fun _ => Unfinished) Logged := by
  refine (upto_reached host rfl (by decide)).bind fun _ => ?_
  refine (upto_stopForSwitch host isSystemd).bind fun _ => ?_
  refine (upto_reached host rfl (by decide)).bind fun _ => ?_
  refine (upto_aside inferInstance).bind fun _ => (upto_aside hreplace).bind fun _ => ?_
  exact (upto_onlyIf isSystemd hstart).bind fun _ => upto_commitSwitch host state version id built

theorem logged_switchVersion (state : InstallState) (id target : String) (allow : Bool) :
    Triple (Clean (H := H))
      (host.switchVersion state id target allow) (fun _ => Logged) (fun _ => Logged) Logged := by
  have hstopped : ∀ b, Within Silent (host.serviceStopped b) := by
    intro b
    unfold Host.serviceStopped
    infer_instance
  have hrequire : Within Silent (host.requireUpgrade state.activeVersion target) := by
    unfold Host.requireUpgrade
    infer_instance
  unfold Host.switchVersion
  refine (clean_silent hrequire).bind fun _ => (clean_silent inferInstance).bind fun _ => ?_
  refine (clean_silent inferInstance).bind fun _ => (clean_silent (hstopped _)).bind
    fun stopped => ?_
  refine Triple.ite (fun _ => Triple.fail _ fun w hw => hw.logged) fun _ => ?_
  refine startWith_fresh rfl ((fresh_beginOwn host).bind fun _ =>
    withErrorPath_logged ?_ (unfinished_abandonSwitch host state _))
  refine Triple.strengthen (P := Upto .preparing .preparing) ?_ fun w hw => hw.upto rfl le_rfl
  refine (upto_aside inferInstance).bind fun built => ?_
  refine upto_activate host ?_ (upto_registerStartAndVerify host)
  unfold Host.activateCurrent
  infer_instance

end Switch

section Restore

theorem stage_protect (state : InstallState) (allow : Bool) :
    Triple (Stage .preparing .preparing) (host.protect state allow)
      (fun _ => Stage .preparing .preparing) (fun _ => Logged) (Logged (H := H)) := by
  have hbackup : Within Aside (host.createProtectionBackup state) := by
    unfold Host.createProtectionBackup
    infer_instance
  have hstage : Triple (Stage .preparing .preparing) (host.createProtectionBackup state)
      (fun _ => Stage .preparing .preparing) (fun _ => Stage .preparing .preparing) Logged :=
    (hbackup.triple fun w w' h hs =>
      ⟨hs.filed.silent h.silent, h.own.trans hs.own⟩).ends (fun _ _ h => h)
        fun _ h => h.filed.logged
  refine hstage.attempt.bind fun r => ?_
  cases r with
  | ok _ => exact Triple.pure _ fun w hw => hw
  | error e =>
    refine Triple.ite (fun _ => ?_) fun _ => ?_
    · exact Triple.modify _ fun w hw => ⟨⟨⟨hw.filed.logged.latest, hw.filed.logged.settled⟩,
        hw.filed.phase⟩, hw.own⟩
    · refine Triple.bind (Q := fun _ => Logged) ?_ fun _ => Triple.fail e fun w hw => hw
      exact (unfinished_markFailed host).strengthen fun w hw => ⟨.preparing, rfl, hw.filed⟩

theorem preparing_aside {q : Flow H α} (hq : Within Aside q) :
    Triple (Stage .preparing .preparing) q (fun _ => Stage .preparing .preparing)
      (fun _ => Logged) Logged :=
  (stage_aside rfl hq).ends (fun _ _ h => h.logged)
    fun _ h => h

theorem preparing_persist :
    Triple (Stage .preparing .preparing) (host.persistOwn .persist)
      (fun _ => Stage .preparing .preparing) (fun _ => Logged) (Logged (H := H)) :=
  (stage_persist host).ends (fun _ _ h => h.logged)
    fun _ h => h

theorem preparing_mark :
    Triple (Stage .preparing .preparing) (host.mark .prepared)
      (fun _ => Stage .preparing .prepared) (fun _ => Logged) (Logged (H := H)) :=
  (upto_mark host (by decide)).consequence (fun _ h => h.upto rfl (le_refl Phase.preparing.rank))
    (fun _ _ h => h) (fun _ _ h => h.logged) fun _ h => h

theorem stage_prepareRestore (state : InstallState) (id : String) (source : Host.BackupSource)
    (allow isSystemd : Bool) :
    Triple (Stage .preparing .preparing) (host.prepareRestore state id source allow isSystemd)
      (fun _ => Stage .preparing .prepared) (fun _ => Logged) (Logged (H := H)) := by
  have hresolve : Within Aside (host.resolveRestoreBackup id source) := by
    unfold Host.resolveRestoreBackup
    split <;> infer_instance
  unfold Host.prepareRestore
  refine (preparing_aside hresolve).bind fun backup => ?_
  refine Triple.bind (preparing_aside (Aside.setTransaction fun _ => by rfl)) fun _ => ?_
  refine (preparing_persist host).bind fun _ => (stage_protect host state allow).bind fun _ => ?_
  refine (preparing_persist host).bind fun _ => ?_
  refine Triple.bind (Q := fun _ => Stage .preparing .preparing) ?_ fun _ => ?_
  · refine Triple.onlyIf (fun _ => ?_) fun _ w hw => hw
    refine (preparing_aside inferInstance).bind fun _ => (preparing_persist host).bind fun _ => ?_
    exact preparing_aside inferInstance
  refine (preparing_aside inferInstance).bind fun _ => (preparing_aside inferInstance).bind
    fun _ => ?_
  refine Triple.bind (Q := fun _ => Stage .preparing .preparing) ?_ fun _ => preparing_mark host
  refine Host.triple_withErrorPath (stage_aside rfl inferInstance) fun _ => ?_
  exact unfinished_markFailed host

theorem logged_restoreVersion (state : InstallState) (id target : String)
    (source : Host.BackupSource) (allow interactive : Bool) :
    Triple (Clean (H := H))
      (host.restoreVersion state id target source allow interactive) (fun _ => Logged)
      (fun _ => Logged) Logged := by
  refine startWith_fresh rfl ((fresh_beginOwn host).bind fun _ => ?_)
  refine (stage_prepareRestore host state id source allow _).bind fun _ => ?_
  refine withErrorPath_logged ?_ ?_
  · unfold Host.restoreBlock
    dsimp only
    refine Triple.bind (Q := fun _ => Upto .preparing .stopping) ?_ fun _ => ?_
    · unfold Host.stopForRestore
      refine Triple.strengthen (P := Upto .preparing .prepared) ?_ fun w hw => hw.upto rfl le_rfl
      refine Triple.ite (fun _ => ?_) fun _ => ?_
      · refine (upto_reached host rfl (by decide)).bind fun _ => upto_aside inferInstance
      · refine Triple.strengthen (P := Upto .preparing .stopping) ?_
          fun w h => upto_mono (by decide) h
        unfold Host.askToStop
        exact upto_aside inferInstance
    refine (upto_reached host rfl (by decide)).bind fun _ => ?_
    refine (upto_aside inferInstance).bind fun _ => (upto_aside inferInstance).bind fun _ => ?_
    refine (upto_aside inferInstance).bind fun _ => (upto_aside inferInstance).bind fun _ => ?_
    refine (upto_aside inferInstance).bind fun _ => (upto_aside inferInstance).bind fun _ => ?_
    refine (upto_onlyIf _ (upto_registerStartAndVerify host)).bind fun _ => ?_
    refine Triple.bind (Q := fun _ => Upto .preparing .verifying) ?_ fun newState =>
      upto_commit host newState
    unfold Host.buildUnpackedState
    exact upto_aside inferInstance
  · refine (unfinished_quiet inferInstance).bind fun activated => ?_
    refine (unfinished_quiet inferInstance).bind fun t => Triple.ite (fun _ => ?_) fun _ => ?_
    · exact (unfinished_rollbackAround host t (rolling_rollbackRestoreInner host t)).ignore
    · exact Triple.onlyIf (fun _ => unfinished_abandon host) fun _ w hw => hw.logged

end Restore

section Repair

theorem logged_repairStatic (state : InstallState) (id : String) (custom interactive : Bool) :
    Triple (Clean (H := H))
      (host.repairStatic state id custom interactive) (fun _ => Logged) (fun _ => Logged)
      Logged := by
  have hfetch : ∀ dir, Within Aside (host.fetchStaticPages custom interactive dir) := by
    intro dir
    have hfront : Within Aside (host.fetchFrontend interactive dir) := by
      unfold Host.fetchFrontend Host.fallBackToOfficial
      refine Within.andThen inferInstance fun r => ?_
      split <;> infer_instance
    unfold Host.fetchStaticPages
    infer_instance
  have hswap : ∀ live new replaced, Within Aside (host.swapStatic live new replaced) := by
    intro live new replaced
    unfold Host.swapStatic Host.withErrorPath
    refine Within.andThen inferInstance fun _ => Within.andThen inferInstance fun r => ?_
    split <;> infer_instance
  refine startWith_fresh rfl ((fresh_beginOwn host).bind fun _ => withErrorPath_logged ?_ ?_)
  · refine Triple.strengthen (P := Upto .preparing .preparing) ?_ fun w hw => hw.upto rfl le_rfl
    unfold Host.repairStaticBlock Host.refreshVersionStaticZip Host.replaceFile
    dsimp only
    refine (upto_aside inferInstance).bind fun _ => (upto_aside (hfetch _)).bind
      fun official => ?_
    refine (upto_aside inferInstance).bind fun _ => (upto_aside inferInstance).bind fun _ => ?_
    refine Triple.bind (upto_aside (Aside.setTransaction fun _ => by rfl)) fun _ => ?_
    refine (upto_reached host rfl (by decide)).bind fun _ => ?_
    refine Triple.bind (Q := fun _ => Upto .preparing .verifying)
      (upto_next rfl (by decide) (upto_mark host (Nat.le_of_ble_eq_true rfl))) fun _ => ?_
    refine (upto_aside inferInstance).bind fun _ => (upto_aside (hswap _ _ _)).bind fun _ => ?_
    exact upto_commit host _
  · refine (unfinished_quiet inferInstance).bind fun activated => Triple.ite (fun _ => ?_)
      fun _ => unfinished_markFailed host
    refine (unfinished_silent ?_).attempt.bind fun r => ?_
    · unfold Host.restoreStatic
      infer_instance
    · cases r with
      | ok _ =>
        refine Triple.ignore ((unfinished_quiet inferInstance).bind fun t => ?_)
        exact (unfinished_mark host (by decide) t).consequence (fun _ h => h)
          (fun _ _ h => h.logged) (fun _ _ h => h.logged) fun _ h => h
      | error e => exact unfinished_markFailed host

theorem logged_repairBinary (state : InstallState) (id : String) :
    Triple (Clean (H := H))
      (host.repairBinary state id) (fun _ => Logged) (fun _ => Logged) Logged := by
  have hreplace : ∀ target source tmp, Within Aside (host.replaceBinary target source tmp) := by
    intro target source tmp
    unfold Host.replaceBinary Host.withErrorPath
    refine Within.andThen inferInstance fun _ => Within.andThen inferInstance fun _ => ?_
    refine Within.andThen inferInstance fun r => ?_
    split <;> infer_instance
  have hprepare : ∀ b, Within Aside (host.prepareRepairBinary state id b) := by
    intro b
    unfold Host.prepareRepairBinary
    dsimp only
    infer_instance
  unfold Host.repairBinary
  refine (clean_silent inferInstance).bind fun _ => ?_
  refine startWith_fresh rfl ((fresh_beginOwn host).bind fun _ => withErrorPath_logged ?_ ?_)
  · refine Triple.strengthen (P := Upto .preparing .preparing) ?_ fun w hw => hw.upto rfl le_rfl
    refine (upto_aside (hprepare _)).bind fun built => ?_
    exact upto_activate host (hreplace _ _ _) (upto_startAndVerify host _)
  · refine (unfinished_quiet inferInstance).bind fun activated => ?_
    refine (unfinished_quiet inferInstance).bind fun t => Triple.ite (fun _ => ?_) fun _ => ?_
    · exact (unfinished_rollbackSwitch host t state).ignore
    · exact Triple.onlyIf (fun _ => unfinished_markFailed host) fun _ w hw => hw.logged

theorem logged_observeInitialization (state : InstallState) (id : String) :
    Triple (Clean (H := H)) (host.observeInitialization state id) (fun _ => Logged)
      (fun _ => Logged) Logged := by
  refine startWith_fresh rfl ((fresh_beginOwn host).bind fun _ =>
    withErrorPath_logged ?_ (unfinished_markFailed host))
  refine Triple.strengthen (P := Upto .preparing .verifying) ?_ fun w hw =>
    hw.upto rfl (by decide)
  refine (upto_aside inferInstance).bind fun _ => (upto_aside inferInstance).bind fun m => ?_
  refine Triple.ite (fun _ => upto_commit host _) fun _ => ?_
  exact Triple.fail _ fun w hw => hw.unfinished

end Repair

section Uninstall

theorem logged_removeTransaction :
    Triple Logged host.removeTransaction (fun _ => Logged) (fun _ => Logged)
      (Logged (H := H)) := by
  have hgone : ∀ (w : World H) (h : H), Logged w →
      Logged { w with transaction := none, host := h } :=
    fun w h hw => ⟨fun t ht => absurd ht (by simp), hw.settled⟩
  intro w hw
  unfold Host.removeTransaction
  split
  · exact hgone w _ hw
  · exact hw.silent ⟨rfl, rfl⟩
  · rename_i b _ h _
    cases b
    · exact hw.silent ⟨rfl, rfl⟩
    · exact hgone w h hw

instance aside_deactivate : Within Aside host.deactivate := by
  have hactive : Within Aside host.isActiveOrFalse := by
    unfold Host.isActiveOrFalse
    refine Within.andThen inferInstance fun r => ?_
    split <;> infer_instance
  unfold Host.deactivate Host.deactivateService Host.unregister
  infer_instance

instance aside_removePathIfPresent (p : Path) : Within Aside (host.removePathIfPresent p) := by
  unfold Host.removePathIfPresent
  refine Within.andThen inferInstance fun m => ?_
  split <;> infer_instance

theorem logged_uninstall (state : InstallState) (id : String)
    (allow interactive keepData : Bool) :
    Triple (Clean (H := H)) (host.uninstallInstallation state id allow interactive keepData)
      (fun _ => Logged) (fun _ => Logged) Logged := by
  refine startWith_fresh rfl ((fresh_beginOwn host).bind fun _ => ?_)
  refine Triple.bind (Q := fun _ => Stage .preparing .preparing) ?_ fun _ => ?_
  · unfold Host.prepareUninstall
    refine (stage_protect host state allow).bind fun _ => (preparing_persist host).bind
      fun _ => ?_
    refine Triple.onlyIf (fun _ => ?_) fun _ w hw => hw
    exact (preparing_aside inferInstance).bind fun _ => preparing_persist host
  refine Triple.bind (Q := fun _ => Upto .preparing .activating) ?_ fun _ => ?_
  · refine Host.triple_withErrorPath (A := fun _ => Unfinished) ?_ fun _ =>
      unfinished_markFailed host
    unfold Host.uninstallBlock
    refine Triple.bind (Q := fun _ => Upto .preparing .stopping) ?_ fun _ => ?_
    · unfold Host.stopForUninstall
      refine Triple.strengthen (P := Upto .preparing .stopping) ?_ fun w hw =>
        hw.upto rfl (by decide)
      refine Triple.ite (fun _ => ?_) fun _ => ?_
      · exact (upto_reached host rfl le_rfl).bind fun _ => upto_aside inferInstance
      · unfold Host.askToStop
        exact upto_aside inferInstance
    · refine (upto_reached host rfl (by decide)).bind fun _ => ?_
      unfold Host.removeManagedContents
      exact upto_aside inferInstance
  · refine Triple.bind (Q := fun _ => Logged) ?_ fun _ => (logged_removeTransaction host).ignore
    exact (upto_mark host (by decide)).consequence (fun _ h => h) (fun _ _ h => h.filed.logged)
      (fun _ _ h => h.logged) fun _ h => h

end Uninstall

section Reinit

theorem stage_armReinit (state : InstallState) (id : String) (timeout : ℕ) :
    Triple (Stage .preparing .verifying) (host.armReinit state id timeout) (fun _ => Logged)
      (fun _ => Unfinished) (Logged (H := H)) := by
  unfold Host.armReinit Host.writePendingState
  refine (stage_aside rfl inferInstance).bind fun m => ?_
  refine (stage_aside rfl inferInstance).bind fun takeover => ?_
  refine (stage_aside rfl inferInstance).bind fun _ => ?_
  -- the own transaction is still at `preparing`: this write steps back
  refine Triple.bind (Q := fun _ => Upto .preparing .preparing) ?_ fun _ => ?_
  · refine (stage_stepBack host (p := .verifying) rfl).consequence
      (fun w hw => ⟨hw, .inl (by decide)⟩) (fun _ w hw => hw.1.upto rfl le_rfl)
      (fun _ w hw => ⟨.verifying, rfl, hw⟩) fun _ h => h
  refine (upto_aside inferInstance).bind fun _ => (upto_aside inferInstance).bind fun _ => ?_
  exact upto_ended host (by decide)

theorem logged_reinitInstallation (state : InstallState) (id config : String) (allow : Bool)
    (timeout : ℕ) :
    Triple (Clean (H := H)) (host.reinitInstallation state id config allow timeout)
      (fun _ => Logged) (fun _ => Logged) Logged := by
  refine startWith_fresh rfl ((fresh_beginOwn host).bind fun _ => ?_)
  refine Triple.bind (Q := fun _ => Stage .preparing .prepared) ?_ fun _ =>
    withErrorPath_logged ?_ ?_
  · unfold Host.prepareReinit
    refine (stage_protect host state allow).bind fun _ => (preparing_persist host).bind
      fun _ => ?_
    refine (preparing_aside inferInstance).bind fun _ => (preparing_persist host).bind fun _ => ?_
    refine (preparing_aside inferInstance).bind fun _ => (preparing_aside inferInstance).bind
      fun _ => ?_
    exact (preparing_aside inferInstance).bind fun _ => preparing_mark host
  · refine Triple.strengthen (P := Upto .preparing .prepared) ?_ fun w hw => hw.upto rfl le_rfl
    refine (upto_reached host rfl (by decide)).bind fun _ => ?_
    refine (upto_aside inferInstance).bind fun _ => ?_
    refine (upto_reached host rfl (by decide)).bind fun _ => ?_
    refine (upto_aside inferInstance).bind fun _ => ?_
    refine Triple.bind (Q := fun _ => Stage .preparing .verifying) ?_ fun _ =>
      stage_armReinit host state id timeout
    unfold Host.startAfresh Host.writeInitConfig
    refine (upto_aside inferInstance).bind fun _ => (upto_aside inferInstance).bind fun _ => ?_
    refine (upto_aside inferInstance).bind fun _ => (upto_aside inferInstance).bind fun _ => ?_
    exact upto_startAndVerify host _
  · refine (unfinished_quiet inferInstance).bind fun activated => ?_
    refine (unfinished_quiet inferInstance).bind fun t => Triple.ite (fun _ => ?_) fun _ =>
      unfinished_abandon host
    exact (unfinished_rollbackAround host t (rolling_rollbackReinitInner host t)).ignore

end Reinit

section Migrate

/-- While the old instance is being stopped, the file is at `stopping`, or back at `prepared`
because a `persist` of the loaded transaction has put it there. -/
def Halting (w : World H) : Prop :=
  ∃ p : Phase, (p = .stopping ∨ (p = .prepared ∧ ¬ Forward w.writes)) ∧ Stage .prepared p w

theorem Halting.upto {w : World H} (h : Halting w) : Upto .prepared .stopping w := by
  obtain ⟨p, rfl | ⟨rfl, -⟩, hs⟩ := h
  · exact hs.upto rfl le_rfl
  · exact hs.upto rfl (by decide)

theorem halting_aside {q : Flow H α} (hq : Within Aside q) :
    Triple Halting q (fun _ => Halting) (fun _ => Unfinished) Logged := by
  have hkeep : ∀ w w' : World H, Aside w w' → Halting w → Halting w' := by
    rintro w w' h ⟨p, hp, hs⟩
    refine ⟨p, ?_, hs.filed.silent h.silent, h.own.trans hs.own⟩
    rwa [h.silent.writes]
  exact (hq.triple hkeep).ends (fun _ _ h => h.upto.unfinished) fun _ h => h.upto.unfinished.logged

theorem halting_persist :
    Triple Halting (host.persistOwn .stoppingPersist) (fun _ => Halting) (fun _ => Unfinished)
      (Logged (H := H)) := by
  rintro w ⟨p, hp, hs⟩
  have hopen : p.isTerminal = false := by
    obtain rfl | ⟨rfl, -⟩ := hp <;> rfl
  have hback : ¬ p.Before .prepared ∨ ¬ Forward w.writes := by
    obtain rfl | ⟨-, hf⟩ := hp
    · exact .inl (by decide)
    · exact .inr hf
  exact (stage_stepBack host rfl w ⟨hs, hback⟩).mono
    (fun _ _ h => ⟨.prepared, .inr ⟨rfl, h.2⟩, h.1⟩) (fun _ _ h => ⟨p, hopen, h⟩) fun _ h => h

instance aside_inspectHostService (unit : String) :
    Within Aside (host.inspectHostService unit) := by
  unfold Host.inspectHostService
  infer_instance

instance aside_stopLegacyUnit (id unit : String) :
    Within Aside (host.stopLegacyUnit id unit) := by
  unfold Host.stopLegacyUnit Host.moveLegacyFile Host.maskLegacyUnit
  infer_instance

instance aside_preemptRegistrationConflict (id : String) :
    Within Aside (host.preemptRegistrationConflict id) := by
  unfold Host.preemptRegistrationConflict
  refine Within.andThen inferInstance fun units => ?_
  split <;> infer_instance

instance aside_stopLegacyInstance (id : String) (available : Bool) :
    Within Aside (host.stopLegacyInstance id available) := by
  unfold Host.stopLegacyInstance
  split
  · refine Within.andThen inferInstance fun units => ?_
    split <;> infer_instance
  · infer_instance

theorem halting_recordLegacyUnit (legacy : Option LegacyUnitBefore) :
    Triple Halting (host.recordLegacyUnit legacy) (fun _ => Halting) (fun _ => Unfinished)
      (Logged (H := H)) :=
  Triple.bind (halting_aside (Aside.setTransaction fun _ => rfl)) fun _ => halting_persist host

theorem halting_stopOldInstance (id : String) (available : Bool) :
    Triple Halting (host.stopOldInstance id available) (fun _ => Halting) (fun _ => Unfinished)
      (Logged (H := H)) := by
  unfold Host.stopOldInstance
  refine (halting_aside inferInstance).bind fun preempted => ?_
  refine Triple.bind (Q := fun _ => Halting) ?_ fun _ => ?_
  · exact Triple.onlyIf (fun _ => halting_recordLegacyUnit host preempted) fun _ w hw => hw
  refine (halting_aside inferInstance).bind fun _ => (halting_persist host).bind fun _ => ?_
  refine (halting_aside inferInstance).bind fun t => ?_
  refine Triple.bind (Q := fun _ => Halting) ?_ fun _ => halting_aside inferInstance
  refine Triple.onlyIf (fun _ => ?_) fun _ w hw => hw
  exact (halting_aside inferInstance).bind fun legacy => halting_recordLegacyUnit host legacy

theorem stage_runMigrateSwitch (id version : String) (available : Bool) :
    Triple (Stage .prepared .prepared) (host.runMigrateSwitch id version available)
      (fun _ => Logged) (fun _ => Unfinished) (Logged (H := H)) := by
  have hrebuild : Within Aside (host.rebuildFromMigrationBackup id version) := by
    unfold Host.rebuildFromMigrationBackup
    dsimp only
    infer_instance
  have hstate : ∀ dir, Within Aside (host.buildUnpackedState version id dir) := by
    intro dir
    unfold Host.buildUnpackedState
    infer_instance
  refine Triple.strengthen (P := Upto .prepared .prepared) ?_ fun w hw => hw.upto rfl le_rfl
  refine (upto_aside inferInstance).bind fun _ => (upto_mark host (by decide)).bind fun _ => ?_
  refine Triple.strengthen (P := Halting) ?_ fun w hw => ⟨.stopping, .inl rfl, hw⟩
  refine (halting_aside inferInstance).bind fun _ => ?_
  refine (halting_stopOldInstance host id available).bind fun _ => ?_
  refine (halting_aside inferInstance).bind fun _ => ?_
  refine Triple.strengthen (P := Upto .prepared .stopping) ?_ fun w hw => hw.upto
  refine (upto_reached host rfl (by decide)).bind fun _ => ?_
  refine (upto_aside hrebuild).bind fun _ => (upto_aside inferInstance).bind fun _ => ?_
  refine (upto_aside inferInstance).bind fun _ => ?_
  refine Triple.bind (upto_next rfl le_rfl (upto_registerStartAndVerify host)) fun _ => ?_
  refine (upto_aside inferInstance).bind fun _ => (upto_aside (hstate _)).bind fun newState => ?_
  exact upto_commit host newState

theorem logged_loadPrepared (id : String) :
    Triple Logged (host.loadPreparedTransaction id)
      (fun t w => Logged w ∧ w.transaction = some t ∧ t.phase = .prepared) (fun _ => Logged)
      (Logged (H := H)) := by
  refine (host.triple_findUnfinished (P := Logged) fun w h hw => hw.silent ⟨rfl, rfl⟩).bind
    fun r => ?_
  cases r with
  | none => exact Triple.fail _ fun w hw => hw.1
  | some t =>
    refine Triple.ite (fun _ => Triple.fail _ fun w hw => hw.1) fun _ => ?_
    refine Triple.ite (fun _ => Triple.fail _ fun w hw => hw.1) fun _ => ?_
    refine Triple.ite (fun _ => Triple.fail _ fun w hw => hw.1) fun hphase => ?_
    refine Triple.ite (fun _ => Triple.fail _ fun w hw => hw.1) fun _ => ?_
    exact Triple.pure _ fun w hw => ⟨hw.1, (hw.2 t rfl).1, not_not.mp hphase⟩

theorem unfinished_abandonMigration (prepared : TransactionFile) :
    Triple Unfinished (host.abandonMigration prepared) (fun _ => Logged) (fun _ => Logged)
      (Logged (H := H)) := by
  refine (unfinished_quiet inferInstance).bind fun started => Triple.ite (fun _ => ?_)
    fun _ => ?_
  · refine ((host.triple_findUnfinished (P := Unfinished) ?_).consequence (fun _ h => h)
      (fun _ _ h => h.1) (fun _ _ h => h.logged) fun _ h => h.logged).bind fun r => ?_
    · rintro w h ⟨p, hp, hw⟩
      exact ⟨p, hp, hw.silent ⟨rfl, rfl⟩⟩
    · cases r with
      | none => exact Triple.fail _ fun w hw => hw.logged
      | some t =>
        exact (unfinished_rollbackAround host t (rolling_rollbackMigrateInner host t)).ignore
  · refine Triple.ignore ?_
    exact (unfinished_mark host (by decide) prepared).consequence (fun _ h => h)
      (fun _ _ h => h.logged) (fun _ _ h => h.logged) fun _ h => h

theorem logged_migrate (id version : String) (available : Bool) :
    Triple (Clean (H := H)) (host.migrate id version available) (fun _ => Logged)
      (fun _ => Logged) Logged := by
  refine Triple.bind (Q := fun _ => Logged) ?_ fun _ => ?_
  · refine startWith_fresh rfl ((fresh_beginOwn host).bind fun _ =>
      withErrorPath_logged ?_ (unfinished_markFailed host))
    refine (stage_aside rfl inferInstance).bind fun backup => ?_
    refine Triple.bind (stage_aside rfl (Aside.setTransaction fun _ => by rfl)) fun _ => ?_
    refine (stage_persist host).bind fun _ => (stage_aside rfl inferInstance).bind fun _ => ?_
    refine (stage_aside rfl inferInstance).bind fun _ => ?_
    exact (upto_mark host (by decide)).consequence
      (fun _ h => h.upto rfl (le_refl Phase.preparing.rank)) (fun _ _ h => h.filed.logged)
      (fun _ _ h => h) fun _ h => h
  · refine (logged_loadPrepared host id).bind fun prepared => ?_
    refine Triple.bind (Q := fun _ w => Logged w ∧ w.transaction = some prepared ∧
      prepared.phase = .prepared) ?_ fun v => ?_
    · unfold Host.orCorrupted
      split
      · exact Triple.pure _ fun w hw => hw
      · exact Triple.fail _ fun w hw => hw.1
    refine Triple.bind (Q := fun _ => Stage .prepared .prepared)
      (Triple.modify _ fun w hw => ?_) fun _ => withErrorPath_logged
        (stage_runMigrateSwitch host id v available) (unfinished_abandonMigration host prepared)
    obtain ⟨hlogged, htx, hphase⟩ := hw
    refine ⟨⟨⟨hlogged.latest, hlogged.settled⟩, ?_⟩, hphase⟩
    simp [World.phase?, htx, hphase]

end Migrate

end Workflows

section Network

variable (host : Host H)

theorem logged_requireUnfinished (message : String) :
    Triple Logged (host.requireUnfinished message)
      (fun t w => Filed t.phase w ∧ w.transaction = some t ∧ t.phase.isTerminal = false)
      (fun _ => Logged) (Logged (H := H)) := by
  refine (host.triple_findUnfinished (P := Logged) fun w h hw => hw.silent ⟨rfl, rfl⟩).bind
    fun r => ?_
  cases r with
  | none => exact Triple.fail _ fun w hw => hw.1
  | some t =>
    refine Triple.pure _ fun w hw => ?_
    obtain ⟨htx, hterm⟩ := hw.2 t rfl
    exact ⟨⟨hw.1, by simp [World.phase?, htx]⟩, htx, hterm⟩

theorem filed_quiet {p : Phase} {q : Flow H α} (hq : Within Silent q) :
    Triple (Filed p) q (fun _ => Filed p) (fun _ => Logged) Logged :=
  (filed_silent hq).ends (fun _ _ h => h.logged)
    fun _ h => h

theorem filed_finalize (t : TransactionFile) (network : NetworkTakeoverTransaction) :
    Triple (Filed .finalizing) (host.finalizeTakeover t network) (fun _ => Logged)
      (fun _ => Logged) (Logged (H := H)) := by
  have hpending : Within Silent (host.readPendingState network) := by
    unfold Host.readPendingState
    refine Within.andThen inferInstance fun document => ?_
    split <;> infer_instance
  unfold Host.finalizeTakeover
  refine (filed_quiet inferInstance).bind fun _ => (filed_quiet hpending).bind fun s => ?_
  refine (filed_quiet inferInstance).bind fun _ => ?_
  refine Triple.bind (Q := fun _ => Logged) ?_ fun _ => ?_
  · exact (filed_mark host (by decide) t).consequence (fun _ h => h) (fun _ _ h => h.logged)
      (fun _ _ h => h.logged) fun _ h => h
  · exact logged_silent inferInstance

theorem logged_confirm :
    Triple Logged host.confirm (fun _ => Logged) (fun _ => Logged) (Logged (H := H)) := by
  refine (logged_requireUnfinished host _).bind fun t => ?_
  refine Triple.ite (fun _ => Triple.fail _ fun w hw => hw.1.logged) fun hphase => ?_
  have hverify : ∀ network, Within Silent (host.verifyTakeover network) := by
    intro network
    unfold Host.verifyTakeover
    infer_instance
  refine Triple.strengthen (P := Filed t.phase) ?_ fun w hw => hw.1
  refine (filed_quiet inferInstance).bind fun network => (filed_quiet inferInstance).bind
    fun _ => ?_
  refine Triple.ite (fun hawait => ?_) fun hawait => ?_
  · rw [hawait]
    refine (filed_quiet (hverify network)).bind fun _ => ?_
    refine Triple.bind (Q := fun _ => Filed .finalizing) ?_ fun _ => filed_finalize host _ network
    have hnext : Phase.Before .awaitingNetworkConfirmation .finalizing := by decide
    have hstored : ∀ (w : World H) h, Filed .awaitingNetworkConfirmation w →
        Filed .finalizing (Host.stored w .persist { t with phase := .finalizing } h) :=
      fun w h hw => hw.stored (t := { t with phase := .finalizing }) rfl hnext
    refine host.triple_writeTransaction _ _ hstored ?_ ?_ ?_
    · intro w e h hw
      exact hw.logged.silent ⟨rfl, rfl⟩
    · intro w h hw
      exact (hstored w h hw).logged
    · intro w h hw
      exact hw.logged.silent ⟨rfl, rfl⟩
  · have hfinal : t.phase = .finalizing := by
      simpa [hawait] using hphase
    rw [hfinal]
    exact filed_finalize host t network

def Undone (w : World H) : Prop := Filed .rollingBack w ∨ Filed .rolledBack w ∨ Filed .failed w

theorem rolling_networkInner (t : TransactionFile) (network : NetworkTakeoverTransaction)
    (automatic : Bool) :
    Triple (Filed .rollingBack) (host.rollbackNetworkInner t network automatic)
      (fun _ w => Filed .rollingBack w ∨ Filed .rolledBack w) (fun _ => Undone)
      (Logged (H := H)) := by
  have hvalidate : Within Silent (host.validateNetworkTakeoverRollback t) := by
    unfold Host.validateNetworkTakeoverRollback
    infer_instance
  have hremove : ∀ p, Within Silent (host.removePathIfPresent p) := by
    intro p
    unfold Host.removePathIfPresent
    refine Within.andThen inferInstance fun m => ?_
    split <;> infer_instance
  have hrecorded : ∀ p, Within Silent (host.removeRecorded p) := by
    intro p
    unfold Host.removeRecorded
    split <;> infer_instance
  have hcurrent : ∀ p, Within Silent (Host.validateCurrentForTarget p : Flow H Bool) := by
    intro p
    unfold Host.validateCurrentForTarget
    refine Within.andThen inferInstance fun m => ?_
    split <;> infer_instance
  have hinstall : Within Silent (host.rollbackNetworkInstall t network automatic) := by
    unfold Host.rollbackNetworkInstall Host.restoreUncommittedNetworkSystemd
      Host.cleanupUncommittedNetworkInstall
    infer_instance
  unfold Host.rollbackNetworkInner
  split
  · exact (filed_silent hinstall).consequence (fun _ h => h) (fun _ _ h => .inl h)
      (fun _ _ h => .inl h) fun _ h => h
  · refine Triple.bind (Q := fun _ => Filed .rolledBack) ?_ fun _ => ?_
    · refine (rolling_rollbackReinitInner host t).ends (fun _ _ h => ?_) fun _ h => h
      exact h.elim .inl fun h => .inr (.inr h)
    · have hend : Within Silent (do
          host.check .downcast
          host.removeRecoveryUnits network automatic) := inferInstance
      exact (filed_silent hend).consequence (fun _ h => h) (fun _ _ h => .inr h)
        (fun _ _ h => .inr (.inl h)) fun _ h => h
  · exact Triple.fail _ fun w hw => .inl hw

theorem undone_failed (t : TransactionFile) :
    Triple Undone (do
        let call ← Host.failedCall
        Prog.ignore (host.markPhaseAs call t .failed))
      (fun _ => Logged) (fun _ => Logged) (Logged (H := H)) := by
  have hlog : Within Silent (host.check .appendLog) := inferInstance
  intro w hw
  change Outcome.Satisfies _ _ _ (Prog.ignore (host.markPhaseAs (if _ then _ else _) t .failed) w)
  -- in each phase the call has the name that fits the file
  have hwrite : ∀ {call : Call} {p : Phase}, Filed p w →
      (∀ (w : World H) h, Filed p w →
        Logged (Host.stored w call { t with phase := .failed } h)) →
      Outcome.Satisfies (fun _ => Logged) (fun _ => Logged) Logged
        (Prog.ignore (host.markPhaseAs call t .failed) w) := by
    intro call p hp hstored
    refine Triple.ignore ((filed_quiet hlog).bind fun _ => ?_) w hp
    exact host.triple_writeTransaction call _ hstored
      (fun w _ h hw => hw.logged.silent ⟨rfl, rfl⟩) hstored
      fun w h hw => hw.logged.silent ⟨rfl, rfl⟩
  have hname : ∀ {p : Phase}, Filed p w →
      w.transaction.any (fun u => u.phase = .rolledBack) = decide (p = .rolledBack) := by
    intro p hp
    obtain ⟨u, hu, rfl⟩ := Option.map_eq_some_iff.mp hp.phase
    simp [hu]
  have hrolling : Phase.Before .rollingBack .failed := by decide
  have hrolled : ¬ Phase.Before .rolledBack .failed := by decide
  rcases hw with hw | hw | hw
  · rw [hname hw]
    exact hwrite hw fun w h hp =>
      (hp.stored (t := { t with phase := .failed }) rfl hrolling).logged
  · rw [hname hw]
    exact hwrite hw fun w h hp =>
      (hp.stored_back (t := { t with phase := .failed }) rfl (.inl hrolled)).1.logged
  · rw [hname hw]
    exact hwrite hw fun w h hp =>
      (hp.stored (t := { t with phase := .failed }) rfl (.refl _)).logged

theorem logged_networkRollback (automatic : Bool) :
    Triple Logged (host.networkRollback automatic) (fun _ => Logged) (fun _ => Logged)
      (Logged (H := H)) := by
  refine (logged_requireUnfinished host _).bind fun t => ?_
  rintro w ⟨hw, -, hterm⟩
  have hrun : Triple (Filed t.phase) (do
      let network ← Host.orCorrupted t.networkTakeover
        "unfinished transaction has no network takeover state"
      if (t.operation ≠ .install ∧ t.operation ≠ .reinit) ∨ ¬ t.phase.isNetworkPending then
        Prog.fail (.blockedByTransaction
          ("transaction " ++ t.transactionId ++ " is " ++ t.phase.key ++
            "; network rollback only handles an uncommitted confirmation phase"))
      else host.rollbackTakeover t network automatic) (fun _ => Logged) (fun _ => Logged)
      (Logged (H := H)) := by
    refine (filed_quiet inferInstance).bind fun network => ?_
    refine Triple.ite (fun _ => Triple.fail _ fun w hw => hw.logged) fun _ => ?_
    refine ((unfinished_rolling host t).strengthen fun w hw => ⟨t.phase, hterm, hw⟩).bind
      fun _ => ?_
    refine (rolling_networkInner host t network automatic).attempt.bind fun r => ?_
    cases r with
    | ok _ =>
      rintro w (hw | hw)
      · exact (filed_mark host (by decide) t w hw).mono (fun _ _ h => h.logged)
          (fun _ _ h => h.logged) fun _ h => h
      · exact (filed_mark host (by decide) t w hw).mono (fun _ _ h => h.logged)
          (fun _ _ h => h.logged) fun _ h => h
    | error e =>
      have hend := (undone_failed host t).bind (R := fun _ => Logged) fun _ =>
        Triple.fail (α := Unit) e fun w hw => hw
      intro w hw
      exact hend w hw
  exact hrun w hw

end Network

/-- The disks a workflow leaves, and any `network confirm` and `network rollback` after it.
Each command runs on a host of its own, and may fail or be cut off at any request. -/
inductive Passed (wf : Workflow) (machine : Machine) : Disk → Prop
  | ran {H : Type} (host : Host H) (h : H) :
    Passed wf machine ((Disk.mk machine none []).after (host.run wf) h)
  | confirmed {H : Type} (host : Host H) (h : H) {d : Disk} :
    Passed wf machine d → Passed wf machine (d.after host.confirm h)
  | rolledBack {H : Type} (host : Host H) (h : H) (automatic : Bool) {d : Disk} :
    Passed wf machine d → Passed wf machine (d.after (host.networkRollback automatic) h)

structure Disk.InOrder (d : Disk) : Prop where
  ordered : Ordered d.writes
  furthest : ∀ t, d.transaction = some t → ∀ x ∈ d.writes, x.phase.Before t.phase

theorem logged_run (host : Host H) (wf : Workflow) :
    Triple Clean (host.run wf) (fun _ => Logged) (fun _ => Logged) Logged := by
  cases wf with
  | install id version config network timeout =>
    exact logged_firstInstall host id version config network timeout
  | switch state id target allow => exact logged_switchVersion host state id target allow
  | restore state id target source allow interactive =>
    exact logged_restoreVersion host state id target source allow interactive
  | reinit state id config allow timeout =>
    exact logged_reinitInstallation host state id config allow timeout
  | migrate id version available => exact logged_migrate host id version available
  | repairStatic state id custom interactive =>
    exact logged_repairStatic host state id custom interactive
  | repairBinary state id => exact logged_repairBinary host state id
  | observe state id => exact logged_observeInitialization host state id
  | uninstall state id allow interactive keepData =>
    exact logged_uninstall host state id allow interactive keepData

theorem Logged.boot {H' : Type} {w : World H} (h : Logged w) (h' : H') :
    Logged (w.disk.boot h') :=
  ⟨h.latest, h.settled⟩

theorem Passed.logged {wf : Workflow} {machine : Machine} {d : Disk}
    (hd : Passed wf machine d) {H' : Type} (h' : H') : Logged (d.boot h') := by
  induction hd generalizing H' with
  | ran host h =>
    exact ((logged_run host wf).always (s := (Disk.mk machine none []).boot h) ⟨rfl, rfl⟩).boot h'
  | confirmed host h _ ih => exact ((logged_confirm host).always (ih h)).boot h'
  | rolledBack host h automatic _ ih =>
    exact ((logged_networkRollback host automatic).always (ih h)).boot h'

/-- In every run, the phases are in order exactly when none of the three calls that step back
was made: the takeover that a reinit records after `verifying`, what a migration records after
`stopping`, and the `failed` of a network rollback that had written `rolled_back`. -/
theorem phases_inOrder_iff {wf : Workflow} {machine : Machine} {d : Disk}
    (hd : Passed wf machine d) : d.InOrder ↔ Forward d.writes := by
  have hlogged := hd.logged ()
  constructor
  · intro h
    exact hlogged.settled.mp h.ordered
  · intro h
    refine ⟨hlogged.settled.mpr h, fun t ht => ?_⟩
    have hfiled : Filed t.phase (d.boot ()) := ⟨hlogged, congrArg (Option.map _) ht⟩
    exact hfiled.furthest h

section Sample

def routerMachine : Machine where
  files p := if p = Layout.unitOrigin then some (.file (.text "[Unit]")) else none
  units unit := ⟨unit = routerUnit, false, "enabled", true⟩

def routerState : InstallState where
  activeVersion := "1.0.0"
  webserver := ⟨"a", 1⟩
  staticArchive := ⟨"b", 1⟩
  status := .complete
  lockPresent := true
  manager := .systemd
  lastTransactionId := none

def sampleInstall : Workflow := .install "id" "1.0.0" "" true 60
def sampleReinit : Workflow := .reinit routerState "id" "" true 60
def sampleMigrate : Workflow := .migrate "id" "1.0.0" true

def ranThrough (wf : Workflow) : Disk :=
  (Disk.mk routerMachine none []).after (Host.obliging.run wf) ()

def reloadRefused : Host Unit :=
  Host.scripted (fun act => match act with
    | .check .daemonReload => true
    | _ => false) (fun _ => false)

def cutAtPending : Host Unit :=
  Host.scripted (fun _ => false) (fun act => match act with
    | .writeFile p _ => p = ["transactions", "id", "pending-install-state.json"]
    | _ => false)

def cutReinit : Disk := (Disk.mk routerMachine none []).after (cutAtPending.run sampleReinit) ()

theorem install_inOrder : (ranThrough sampleInstall).InOrder :=
  (phases_inOrder_iff (.ran Host.obliging ())).mpr (by decide +kernel)

/-- Each of the three steps back: the reinit that was cut off is found at `preparing`, having
been at `verifying`; a migration falls back to `prepared`; a network rollback turns
`rolled_back` into `failed`. -/
theorem phases_not_inOrder :
    (Passed sampleReinit routerMachine cutReinit ∧ ¬ cutReinit.InOrder ∧
      cutReinit.transaction.map (fun t => t.phase) = some .preparing ∧
      ⟨.markPhase, .verifying⟩ ∈ cutReinit.writes) ∧
    (Passed sampleMigrate routerMachine (ranThrough sampleMigrate) ∧
      ¬ (ranThrough sampleMigrate).InOrder) ∧
    ∃ d, Passed sampleReinit routerMachine d ∧
      d.writes.getLast? = some ⟨.failedAfterRollback, .failed⟩ ∧ ¬ d.InOrder := by
  refine ⟨⟨.ran cutAtPending (), fun h => ?_, ?_, ?_⟩, ⟨.ran Host.obliging (), fun h => ?_⟩,
    _, .rolledBack reloadRefused () false (.ran Host.obliging ()), ?_, fun h => ?_⟩
  · exact absurd h.ordered (by decide +kernel)
  · decide +kernel
  · decide +kernel
  · exact absurd h.ordered (by decide +kernel)
  · decide +kernel
  · exact absurd h.ordered (by decide +kernel)

end Sample

end LandscapeKit.Deploy
