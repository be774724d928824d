import LandscapeKit.DeployFailure
import LandscapeKit.DeployPhaseOrder

/-!
What the workflows return. A workflow that fails may still end with `Ok`: when it was rolled
back, and when what it tried to put back could not be put back. Only the second of these may
leave the service in another state than before, and it has an exit code of its own.
-/

namespace LandscapeKit.Deploy

open Faults

/-- `SwitchOutcome`, `RestoreOutcome`, `ReinitOutcome` and `RepairOutcome`. -/
inductive WorkflowOutcome
  | committed
  | rolledBack
  | rollbackFailed (reason : InstallError)

namespace Host

variable {H : Type} (host : Host H)

/-- `match result`: a block that returns has committed, an error has a path of its own. -/
def settle (block : Flow H Unit) (onError : InstallError → Flow H WorkflowOutcome) :
    Flow H WorkflowOutcome := do
  let result ← Prog.attempt block
  match result with
  | .ok () => pure .committed
  | .error e => onError e

/-- The rollback of a workflow that had activated something. -/
def rollbackOutcome (rollback : Flow H Unit) (e : InstallError) : Flow H WorkflowOutcome := do
  let result ← Prog.attempt rollback
  match result with
  | .ok () => pure .rolledBack
  | .error _ => pure (.rollbackFailed e)

/-- The error path before activation. A service that could not be put back must not be
reported as an ordinary failure. -/
def abandonOutcome (e : InstallError) : Flow H WorkflowOutcome := do
  let t ← getTransaction
  let restored ← Prog.attempt (host.restoreRecordedService t)
  host.markFailed
  match restored with
  | .ok () => Prog.fail e
  | .error _ => pure (.rollbackFailed e)

/-- The rollback of a failed switch, by the kind of backup it took. -/
def rollbackSwitchOutcome (state : InstallState) (e : InstallError) : Flow H WorkflowOutcome := do
  let t ← getTransaction
  if t.backup.isSome then rollbackOutcome (host.rollbackSwitch t state) e
  else rollbackOutcome (host.rollbackNoBackup t state) e

def switchError (state : InstallState) (isSystemd : Bool) (e : InstallError) :
    Flow H WorkflowOutcome := do
  let activated ← getActivated
  if isSystemd && activated then host.rollbackSwitchOutcome state e
  else if !activated then host.abandonOutcome e
  else Prog.fail e

def switchOutcome (state : InstallState) (id target : String) (allowNoBackup : Bool) :
    Flow H WorkflowOutcome := do
  let isSystemd : Bool := state.manager = .systemd
  host.requireUpgrade state.activeVersion target
  host.check .checkInitialization
  host.check .verifyCurrentBackend
  let stopped ← host.serviceStopped isSystemd
  if stopped && !allowNoBackup then
    Prog.fail (.serviceNotRunning
      "the managed service is stopped; start it with `systemctl start landscape-router.service` and retry, or re-run with --allow-no-backup to switch without a configuration snapshot")
  else do
    startWith { TransactionFile.newSwitch id state.activeVersion target with noBackup := stopped }
    host.beginOwn
    settle (host.switchBlock state id target isSystemd stopped)
      (host.switchError state isSystemd)

def restoreError (isSystemd : Bool) (e : InstallError) : Flow H WorkflowOutcome := do
  let activated ← getActivated
  let t ← getTransaction
  if isSystemd && activated then rollbackOutcome (host.rollbackRestore t) e
  else if !activated then host.abandonOutcome e
  else Prog.fail e

def restoreOutcome (state : InstallState) (id target : String) (source : BackupSource)
    (allowNoBackup interactive : Bool) : Flow H WorkflowOutcome := do
  let isSystemd : Bool := state.manager = .systemd
  startWith (.newRestore id state.activeVersion target)
  host.beginOwn
  host.prepareRestore state id source allowNoBackup isSystemd
  settle (host.restoreBlock id target isSystemd interactive) (host.restoreError isSystemd)

def reinitError (e : InstallError) : Flow H WorkflowOutcome := do
  let activated ← getActivated
  let t ← getTransaction
  if activated then rollbackOutcome (host.rollbackReinit t) e
  else host.abandonOutcome e

def reinitOutcome (state : InstallState) (id config : String) (allowNoBackup : Bool)
    (confirmTimeout : ℕ) : Flow H WorkflowOutcome := do
  startWith (.newReinit id state.activeVersion)
  host.beginOwn
  host.prepareReinit state id allowNoBackup
  settle (host.reinitBlock state id config confirmTimeout) host.reinitError

/-- The error path of `repair_binary`. Before activation it marks the transaction and nothing
else. -/
def repairBinaryError (state : InstallState) (isSystemd : Bool) (e : InstallError) :
    Flow H WorkflowOutcome := do
  let activated ← getActivated
  let t ← getTransaction
  if isSystemd && activated then rollbackOutcome (host.rollbackSwitch t state) e
  else do
    Prog.onlyIf (!activated) host.markFailed
    Prog.fail e

def repairBinaryOutcome (state : InstallState) (id : String) : Flow H WorkflowOutcome := do
  let isSystemd : Bool := state.manager = .systemd
  host.check .checkInitialization
  startWith (.newRepairBinary id state.activeVersion)
  host.beginOwn
  settle (host.repairBinaryBlock state id isSystemd) (host.repairBinaryError state isSystemd)

end Host

/-! The outcome is all that is added: each of these leaves the machine and the file as its
workflow does. -/

section Bridge

variable {H α β : Type}

/-- Two programs that leave the same state, however they end. -/
def SameEnd (p : Flow H α) (q : Flow H β) : Prop :=
  ∀ w, (p w).2 = (q w).2 ∧ ((p w).1 = .crash ↔ (q w).1 = .crash)

namespace SameEnd

variable {p : Flow H α} {q : Flow H β}

theorem after {γ : Type} (r : Flow H γ) {f : γ → Flow H α} {g : γ → Flow H β}
    (h : ∀ c, SameEnd (f c) (g c)) : SameEnd (r >>= f) (r >>= g) := by
  intro w
  rcases hr : r w with ⟨c | e | _, t⟩
  · rw [Prog.bind_of_ok hr, Prog.bind_of_ok hr]
    exact h c t
  · rw [Prog.bind_of_err hr, Prog.bind_of_err hr]
    simp
  · rw [Prog.bind_of_crash hr, Prog.bind_of_crash hr]
    simp

/-- What is added behind a program that changes nothing does not show in the state. -/
theorem tail {γ δ : Type} {p : Flow H α} {f : α → Flow H γ} {q : Flow H α} {g : α → Flow H δ}
    (hpq : ∀ w, p w = q w) (hf : ∀ a w, (f a w).2 = w ∧ (f a w).1 ≠ .crash)
    (hg : ∀ a w, (g a w).2 = w ∧ (g a w).1 ≠ .crash) : SameEnd (p >>= f) (q >>= g) := by
  intro w
  rcases hq : q w with ⟨a | e | _, t⟩
  · rw [Prog.bind_of_ok ((hpq w).trans hq), Prog.bind_of_ok hq]
    simp [hf a t, hg a t]
  · rw [Prog.bind_of_err ((hpq w).trans hq), Prog.bind_of_err hq]
    simp
  · rw [Prog.bind_of_crash ((hpq w).trans hq), Prog.bind_of_crash hq]
    simp

theorem ite {c : Prop} [Decidable c] {p' : Flow H α} {q' : Flow H β} (h : SameEnd p q)
    (h' : SameEnd p' q') : SameEnd (if c then p else p') (if c then q else q') := by
  split
  · exact h
  · exact h'

theorem settle {block path : Flow H Unit} {onError : InstallError → Flow H WorkflowOutcome}
    (h : ∀ e, SameEnd (onError e) path) :
    SameEnd (Host.settle block onError) (Host.withErrorPath block path) := by
  intro w
  unfold Host.settle Host.withErrorPath
  rcases hb : block w with ⟨u | e | _, t⟩
  · rw [Prog.bind_of_ok (Prog.attempt_of_ok hb), Prog.bind_of_ok (Prog.attempt_of_ok hb)]
    exact ⟨rfl, by simp [pure]⟩
  · rw [Prog.bind_of_ok (Prog.attempt_of_err hb), Prog.bind_of_ok (Prog.attempt_of_err hb)]
    have hpath := h e t
    change _ = ((path >>= fun _ => Prog.fail e) t).2 ∧
      (_ ↔ ((path >>= fun _ => Prog.fail e) t).1 = .crash)
    rcases hp : path t with ⟨a | e' | _, t'⟩ <;> rw [hp] at hpath
    · rw [Prog.bind_of_ok hp]
      exact ⟨hpath.1, hpath.2.trans (by simp [Prog.fail])⟩
    · rw [Prog.bind_of_err hp]
      exact hpath
    · rw [Prog.bind_of_crash hp]
      exact hpath
  · rw [Prog.bind_of_crash (Prog.attempt_of_crash hb),
      Prog.bind_of_crash (Prog.attempt_of_crash hb)]
    simp

theorem rollbackOutcome (rollback : Flow H Unit) (e : InstallError) :
    SameEnd (Host.rollbackOutcome rollback e) (Prog.ignore rollback) := by
  refine tail (fun w => rfl) (fun r w => ?_) fun r w => ⟨rfl, by simp [pure]⟩
  rcases r with e' | _ <;> exact ⟨rfl, by simp [pure]⟩

variable (host : Host H)

theorem abandonOutcome (e : InstallError) :
    SameEnd (host.abandonOutcome e) host.abandonBeforeActivation := by
  -- whatever came of the service, the mark follows
  have hmark : ∀ r : Except InstallError Unit, SameEnd (host.markFailed >>= fun _ =>
      match r with
      | .ok () => (Prog.fail e : Flow H WorkflowOutcome)
      | .error _ => pure (.rollbackFailed e)) host.markFailed := by
    intro r w
    rcases hm : host.markFailed w with ⟨_ | e' | _, w'⟩
    · rw [Prog.bind_of_ok hm]
      rcases r with e' | _ <;> exact ⟨rfl, by simp [pure, Prog.fail]⟩
    · rw [Prog.bind_of_err hm]
      simp
    · rw [Prog.bind_of_crash hm]
      simp
  refine after _ fun t w => ?_
  rcases hr : host.restoreRecordedService t w with ⟨_ | e' | _, w'⟩
  · rw [Prog.bind_of_ok (Prog.attempt_of_ok hr), Prog.bind_of_ok (Prog.ignore_of_ok hr)]
    exact hmark (.ok ()) w'
  · rw [Prog.bind_of_ok (Prog.attempt_of_err hr), Prog.bind_of_ok (Prog.ignore_of_err hr)]
    exact hmark (.error e') w'
  · rw [Prog.bind_of_crash (Prog.attempt_of_crash hr),
      Prog.bind_of_crash (Prog.ignore_of_crash hr)]
    simp

theorem fail_pure (e : InstallError) :
    SameEnd (Prog.fail e : Flow H WorkflowOutcome) (pure () : Flow H Unit) :=
  fun w => ⟨rfl, by simp [pure, Prog.fail]⟩

/-- The branches of an error path that depend on whether something was activated. -/
theorem notActivated (activated : Bool) (e : InstallError) :
    SameEnd (if !activated then host.abandonOutcome e else Prog.fail e)
      (Prog.onlyIf (!activated) host.abandonBeforeActivation) :=
  ite (abandonOutcome host e) (fail_pure e)

end SameEnd

variable (host : Host H)

theorem switchOutcome_sameEnd (state : InstallState) (id target : String) (allow : Bool) :
    SameEnd (host.switchOutcome state id target allow)
      (host.switchVersion state id target allow) := by
  refine .after _ fun _ => .after _ fun _ => .after _ fun _ => .after _ fun stopped => ?_
  refine .ite (fun w => ⟨rfl, by simp [Prog.fail]⟩) (.after _ fun _ => .after _ fun _ => ?_)
  refine .settle fun e => .after _ fun activated => .ite (.after _ fun t => ?_) ?_
  · exact .ite (.rollbackOutcome _ e) (.rollbackOutcome _ e)
  · exact .notActivated host activated e

theorem restoreOutcome_sameEnd (state : InstallState) (id target : String)
    (source : Host.BackupSource) (allow interactive : Bool) :
    SameEnd (host.restoreOutcome state id target source allow interactive)
      (host.restoreVersion state id target source allow interactive) := by
  refine .after _ fun _ => .after _ fun _ => .after _ fun _ => .settle fun e => ?_
  refine .after _ fun activated => .after _ fun t => .ite (.rollbackOutcome _ e) ?_
  exact .notActivated host activated e

theorem reinitOutcome_sameEnd (state : InstallState) (id config : String) (allow : Bool)
    (timeout : ℕ) :
    SameEnd (host.reinitOutcome state id config allow timeout)
      (host.reinitInstallation state id config allow timeout) := by
  refine .after _ fun _ => .after _ fun _ => .after _ fun _ => .settle fun e => ?_
  exact .after _ fun activated => .after _ fun t => .ite (.rollbackOutcome _ e)
    (.abandonOutcome host e)

theorem repairBinaryOutcome_sameEnd (state : InstallState) (id : String) :
    SameEnd (host.repairBinaryOutcome state id) (host.repairBinary state id) := by
  refine .after _ fun _ => .after _ fun _ => .after _ fun _ => .settle fun e => ?_
  refine .after _ fun activated => .after _ fun t => .ite (.rollbackOutcome _ e) ?_
  intro w
  rcases hm : Prog.onlyIf (!activated) host.markFailed w with ⟨_ | e' | _, w'⟩
  · exact (Prog.bind_of_ok hm).symm ▸ ⟨rfl, by simp [Prog.fail]⟩
  · exact (Prog.bind_of_err hm).symm ▸ ⟨rfl, by simp⟩
  · exact (Prog.bind_of_crash hm).symm ▸ ⟨rfl, by simp⟩

end Bridge

section Truth

set_option synthInstance.maxSize 65536

variable {H : Type} (host : Host H)

/-- The file says neither that the operation was committed nor that it was rolled back. -/
def Undecided (w : World H) : Prop :=
  w.phase? ≠ some .committed ∧ w.phase? ≠ some .rolledBack

/-- What the file says when a workflow ends with an outcome. -/
def Told : WorkflowOutcome → World H → Prop
  | .committed, w => w.phase? = some .committed
  | .rolledBack, w => w.phase? = some .rolledBack
  | .rollbackFailed _, w => Undecided w

theorem Undecided.of_filed {w : World H} {p : Phase} (h : Filed p w) (hc : p ≠ .committed)
    (hr : p ≠ .rolledBack) : Undecided w := by
  rw [Undecided, h.phase]
  exact ⟨fun hp => hc (Option.some.inj hp), fun hp => hr (Option.some.inj hp)⟩

theorem Unfinished.undecided {w : World H} (h : Unfinished w) : Undecided w := by
  obtain ⟨p, hp, hw⟩ := h
  apply Undecided.of_filed hw
  · rintro rfl
    cases hp
  · rintro rfl
    cases hp

theorem Failing.undecided {w : World H} (h : Failing w) : Undecided w := by
  rcases h with h | h
  · exact .of_filed h (by decide) (by decide)
  · exact .of_filed h (by decide) (by decide)

theorem Clean.undecided {w : World H} (h : Clean w) : Undecided w := by
  rw [Undecided, World.phase?, h.transaction]
  exact ⟨by simp, by simp⟩

theorem unfinished_step {α : Type} {q : Flow H α} (hq : Within Silent q) :
    Triple Unfinished q (fun _ => Unfinished) (fun _ => Undecided) Logged :=
  (unfinished_silent hq).ends (fun _ _ h => h.undecided) fun _ h => h

theorem clean_step {α : Type} {q : Flow H α} (hq : Within Silent q) :
    Triple Clean q (fun _ => Clean) (fun _ => Undecided) Logged := by
  refine (hq.triple (P := Clean) fun w w' h hw => ?_).ends (fun _ _ h => h.undecided)
    fun _ h => h.logged
  exact ⟨h.transaction.trans hw.transaction, h.writes.trans hw.writes⟩

theorem undecided_markFailed :
    Triple Unfinished host.markFailed (fun _ => Undecided) (fun _ => Undecided)
      (Logged (H := H)) := by
  refine Triple.ignore ((unfinished_step inferInstance).bind fun t => ?_)
  exact (unfinished_mark host (by decide) t).consequence (fun _ h => h)
    (fun _ _ h => .of_filed h (by decide) (by decide)) (fun _ _ h => h.undecided) fun _ h => h

theorem told_rollback {rollback : Flow H Unit} (e : InstallError)
    (h : Triple Unfinished rollback (fun _ => Filed .rolledBack) (fun _ => Undecided) Logged) :
    Triple Unfinished (Host.rollbackOutcome rollback e) Told (fun _ => Undecided) Logged := by
  refine h.attempt.bind fun r => ?_
  cases r with
  | ok _ => exact Triple.pure _ fun _ hw => hw.phase
  | error _ => exact Triple.pure _ fun _ hw => hw

theorem undecided_rolling (t : TransactionFile) :
    Triple Unfinished (host.markPhase t .rollingBack) (fun _ => Filed .rollingBack)
      (fun _ => Undecided) (Logged (H := H)) :=
  (unfinished_mark host (by decide) t).ends (fun _ _ h => h.undecided) fun _ h => h

theorem told_abandon (e : InstallError) :
    Triple Unfinished (host.abandonOutcome e) Told (fun _ => Undecided) (Logged (H := H)) := by
  refine (unfinished_step inferInstance).bind fun t => ?_
  refine (unfinished_silent inferInstance).attempt.bind fun r => ?_
  refine Triple.bind (Q := fun _ => Undecided) ?_ fun _ => ?_
  · refine (undecided_markFailed host).strengthen fun w hw => ?_
    cases r <;> exact hw
  · cases r with
    | ok _ => exact Triple.fail e fun _ hw => hw
    | error _ => exact Triple.pure _ fun _ hw => hw

theorem told_settle {P : World H → Prop} {block : Flow H Unit}
    {onError : InstallError → Flow H WorkflowOutcome}
    (hblock : Triple P block (fun _ => Filed .committed) (fun _ => Unfinished) Logged)
    (hpath : ∀ e, Triple Unfinished (onError e) Told (fun _ => Undecided) Logged) :
    Triple P (Host.settle block onError) Told (fun _ => Undecided) Logged := by
  refine hblock.attempt.bind fun r => ?_
  cases r with
  | ok _ => exact Triple.pure _ fun _ hw => hw.phase
  | error e => exact hpath e

theorem filed_commit {own : Phase} (state : InstallState) :
    Triple (Upto own .verifying) (host.commit state) (fun _ => Filed .committed)
      (fun _ => Unfinished) (Logged (H := H)) := by
  refine (upto_aside inferInstance).bind fun _ => ?_
  exact (upto_mark host (by decide)).consequence (fun _ h => h) (fun _ _ h => h.filed)
    (fun _ _ h => h) fun _ h => h

theorem filed_activate {isSystemd : Bool} {replace start : Flow H Unit} {state : InstallState}
    {version id : String} {built : Asset × Asset} (hreplace : Within Aside replace)
    (hstart : Triple (Upto .preparing .activating) start (fun _ => Stage .preparing .verifying)
      (fun _ => Unfinished) Logged) :
    Triple (Upto .preparing .preparing) (do
        host.mark .prepared
        host.stopForSwitch isSystemd
        host.mark .activating
        Host.setActivated
        replace
        Prog.onlyIf isSystemd start
        host.commitSwitch state version id built)
      (fun _ => Filed .committed) (fun _ => Unfinished) Logged := by
  refine (upto_reached host rfl (by decide)).bind fun _ => ?_
  refine (upto_stopForSwitch host isSystemd).bind fun _ => ?_
  refine (upto_reached host rfl (by decide)).bind fun _ => ?_
  refine (upto_aside inferInstance).bind fun _ => (upto_aside hreplace).bind fun _ => ?_
  refine (upto_onlyIf isSystemd hstart).bind fun _ => ?_
  exact (upto_aside inferInstance).bind fun _ => filed_commit host _

theorem beginTransaction_err {t : TransactionFile} {w w' : World H} {e : InstallError}
    (h : host.beginTransaction t w = (.err e, w')) : w'.phase? = w.phase? := by
  rw [Host.beginTransaction] at h
  cases hvalid : t.validate with
  | some reason =>
    rw [hvalid] at h
    cases h
    rfl
  | none =>
    rw [hvalid] at h
    have hidle := (inferInstance : Within Idle host.findUnfinished).rel w
    have hphase : (host.findUnfinished w).2.phase? = w.phase? := by
      obtain ⟨h', hw⟩ := hidle
      rw [hw]
      rfl
    rcases Prog.bind_eq_err h with hfind | ⟨found, w₁, hfind, h⟩
    · rwa [hfind] at hphase
    have hfound : w₁.phase? = w.phase? := by rwa [hfind] at hphase
    cases found with
    | some u =>
      cases h
      exact hfound
    | none =>
      rcases Prog.bind_eq_err h with hlog | ⟨_, w₂, hlog, hwrite⟩
      · exact (Host.phase_of_silent hlog).trans hfound
      · rw [(host.writeTransaction_err hwrite).phase_eq, Host.phase_of_silent hlog, hfound]

/-- A workflow that cannot begin leaves no file. -/
theorem told_begin {t : TransactionFile} (ht : t.phase = .preparing)
    {rest : Flow H WorkflowOutcome}
    (hrest : Triple (Stage .preparing .preparing) rest Told (fun _ => Undecided) Logged) :
    Triple Clean (Host.startWith t >>= fun _ => host.beginOwn >>= fun _ => rest) Told
      (fun _ => Undecided) Logged := by
  refine Triple.bind (Q := fun _ => Fresh) ?_ fun _ => Triple.bind ?_ fun _ => hrest
  · exact Triple.modify _ fun w hw => ⟨⟨hw.transaction, hw.writes⟩, ht⟩
  · intro w hw
    have hbegin := fresh_beginOwn host w hw
    rcases hrun : host.beginOwn w with ⟨_ | e | _, w'⟩ <;> rw [hrun] at hbegin
    · exact hbegin
    · have hphase : w'.phase? = w.phase? := beginTransaction_err host hrun
      exact (by rw [Undecided, hphase]; exact hw.clean.undecided : Undecided w')
    · exact hbegin

theorem told_switch (state : InstallState) (id target : String) (allow : Bool) :
    Triple Clean (host.switchOutcome state id target allow) Told (fun _ => Undecided)
      (Logged (H := H)) := by
  have hstopped : ∀ b, Within Silent (host.serviceStopped b) := by
    intro b
    unfold Host.serviceStopped
    infer_instance
  have hrequire : Within Silent (host.requireUpgrade state.activeVersion target) := by
    unfold Host.requireUpgrade
    infer_instance
  unfold Host.switchOutcome
  refine (clean_step hrequire).bind fun _ => (clean_step inferInstance).bind fun _ => ?_
  refine (clean_step inferInstance).bind fun _ => (clean_step (hstopped _)).bind
    fun stopped => ?_
  refine Triple.ite (fun _ => Triple.fail _ fun w hw => hw.undecided) fun _ => ?_
  refine told_begin host rfl (told_settle ?_ fun e => ?_)
  · refine Triple.strengthen (P := Upto .preparing .preparing) ?_ fun w hw => hw.upto rfl le_rfl
    refine (upto_aside inferInstance).bind fun built => ?_
    refine filed_activate host ?_ (upto_registerStartAndVerify host)
    unfold Host.activateCurrent
    infer_instance
  · -- the rollback of an activated switch depends on its backup
    have hback {rollback : Flow H Unit}
        (h : Triple Unfinished rollback (fun _ => Filed .rolledBack) (fun _ => Undecided)
          Logged) := told_rollback e h
    refine (unfinished_step inferInstance).bind fun activated => Triple.ite (fun _ => ?_)
      fun _ => Triple.ite (fun _ => told_abandon host e) fun _ => ?_
    · refine (unfinished_step inferInstance).bind fun t => Triple.ite (fun _ => ?_) fun _ => ?_
      · exact hback (marked_rollbackSwitch host state (undecided_rolling host t)
          fun _ h => h.undecided)
      · exact hback (marked_rollbackNoBackup host state (undecided_rolling host t)
          fun _ h => h.undecided)
    · exact Triple.fail e fun _ hw => hw.undecided

theorem told_repairBinary (state : InstallState) (id : String) :
    Triple Clean (host.repairBinaryOutcome state id) Told (fun _ => Undecided)
      (Logged (H := H)) := by
  have hreplace : ∀ target source tmp, Within Aside (host.replaceBinary target source tmp) := by
    intro target source tmp
    unfold Host.replaceBinary Host.withErrorPath
    refine Within.andThen inferInstance fun _ => Within.andThen inferInstance fun _ => ?_
    refine Within.andThen inferInstance fun r => ?_
    split <;> infer_instance
  have hprepare : ∀ b, Within Aside (host.prepareRepairBinary state id b) := by
    intro b
    unfold Host.prepareRepairBinary
    dsimp only
    infer_instance
  unfold Host.repairBinaryOutcome
  refine (clean_step inferInstance).bind fun _ => ?_
  refine told_begin host rfl (told_settle ?_ fun e => ?_)
  · refine Triple.strengthen (P := Upto .preparing .preparing) ?_ fun w hw => hw.upto rfl le_rfl
    refine (upto_aside (hprepare _)).bind fun built => ?_
    exact filed_activate host (hreplace _ _ _) (upto_startAndVerify host _)
  · refine (unfinished_step inferInstance).bind fun activated => ?_
    refine (unfinished_step inferInstance).bind fun t => Triple.ite (fun _ => ?_) fun _ => ?_
    · exact told_rollback e (marked_rollbackSwitch host state (undecided_rolling host t)
        fun _ h => h.undecided)
    · refine Triple.bind (Q := fun _ => Undecided) ?_ fun _ => Triple.fail e fun _ hw => hw
      exact Triple.onlyIf (fun _ => undecided_markFailed host) fun _ w hw => hw.undecided

/-- From a host without a transaction, the outcome and the file agree, unless the process dies
before it can report one. -/
def Truthful (p : Flow H WorkflowOutcome) : Prop :=
  ∀ w, Clean w → ∀ r w', p w = (r, w') → r ≠ .crash →
    (r = .ok .committed ↔ w'.phase? = some .committed) ∧
      (r = .ok .rolledBack ↔ w'.phase? = some .rolledBack)

theorem truthful_of_told {p : Flow H WorkflowOutcome}
    (h : Triple Clean p Told (fun _ => Undecided) Logged) : Truthful p := by
  intro w hw r w' hrun hr
  have hend := h w hw
  rw [hrun] at hend
  rcases r with outcome | e | _
  · cases outcome with
    | committed =>
      have hphase : w'.phase? = some .committed := hend
      simp [hphase]
    | rolledBack =>
      have hphase : w'.phase? = some .rolledBack := hend
      simp [hphase]
    | rollbackFailed reason =>
      have hphase : Undecided w' := hend
      simp [hphase.1, hphase.2]
  · have hphase : Undecided w' := hend
    simp [hphase.1, hphase.2]
  · exact absurd rfl hr

/-- Whatever fails on the way: a switch and a repair of the binary report a commit, or that they
were rolled back, exactly when the transaction file says so. -/
theorem outcomes_truthful :
    (∀ state id target allow, Truthful (host.switchOutcome state id target allow)) ∧
      ∀ state id, Truthful (host.repairBinaryOutcome state id) :=
  ⟨fun state id target allow => truthful_of_told (told_switch host state id target allow),
    fun state id => truthful_of_told (told_repairBinary host state id)⟩

end Truth

end LandscapeKit.Deploy
