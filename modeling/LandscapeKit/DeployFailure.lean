import LandscapeKit.DeployFrames

/-!
What a failed rollback leaves in the transaction file. `rollback_restore`, `rollback_reinit`
and `rollback_migrate` wrap their work and mark `failed` on any error; `rollback_switch` does
so only for its two health checks, and `rollback_no_backup` never does.
-/

namespace LandscapeKit.Deploy

open Faults

variable {H : Type} (host : Host H) {t : TransactionFile} {w w' : World H} {phase : Phase}

theorem Silent.phase_eq (h : Silent w w') : w'.phase? = w.phase? := by
  unfold World.phase?
  rw [h.transaction]

namespace Host

variable {α : Type} {p : Flow H α}

theorem phase_of_silent [hp : Within Silent p] {r : Outcome InstallError α} (h : p w = (r, w')) :
    w'.phase? = w.phase? := by
  have hs := hp.rel w
  rw [h] at hs
  exact hs.phase_eq

section Writes

variable {call : Call}

theorem writeTransaction_ok (h : host.writeTransaction call t w = (.ok (), w')) :
    w'.transaction = some t ∧ w'.writes = w.writes ++ [⟨call, t.phase⟩] := by
  unfold writeTransaction at h
  split at h
  · simp at h
  · split at h
    · cases h
      exact ⟨rfl, rfl⟩
    · simp at h
    · simp at h

theorem writeTransaction_err {e : InstallError}
    (h : host.writeTransaction call t w = (.err e, w')) : Silent w w' := by
  unfold writeTransaction at h
  split at h
  · cases h
    exact ⟨rfl, rfl⟩
  · split at h
    · simp at h
    · cases h
      exact ⟨rfl, rfl⟩
    · simp at h

theorem markPhaseAs_ok (h : host.markPhaseAs call t phase w = (.ok (), w')) :
    w'.phase? = some phase := by
  obtain ⟨_, w₁, _, hw⟩ := Prog.bind_eq_ok h
  have hs := (host.writeTransaction_ok hw).1
  simp only [World.phase?, hs, Option.map_some]

theorem markPhaseAs_err {e : InstallError}
    (h : host.markPhaseAs call t phase w = (.err e, w')) : w'.phase? = w.phase? := by
  rcases Prog.bind_eq_err h with hl | ⟨_, w₁, hl, hw⟩
  · exact phase_of_silent hl
  · rw [(host.writeTransaction_err hw).phase_eq]
    exact phase_of_silent hl

end Writes

/-- The claim on a rollback: once `rolling_back` is in the file, an error of the rollback
leaves `failed` there. -/
def FailureIsFinal (t : TransactionFile) (rollback : Flow H Unit) (w : World H) : Prop :=
  ∀ w₁, host.markPhase t .rollingBack w = (.ok (), w₁) →
    ∀ e w', rollback w = (.err e, w') → w'.phase? = some .failed

def FailureIsMarked (t : TransactionFile) (c : Check) (w : World H) : Prop :=
  ∀ e w', host.check c w = (.err e, w') → ¬ (host.markPhase t .failed).Fails w'

/-- From the state in which `rolling_back` was written, `rollback_switch` fails in a health
check or not at all, and a health check that fails can be marked. -/
structure FailsOnlyInHealthChecks (t : TransactionFile) (snapshot : InstallState)
    (isSystemd : Bool) (w₁ : World H) : Prop where
  reinstate : ¬ (host.reinstate t snapshot isSystemd).Fails w₁
  startup : ∀ state w₂, host.reinstate t snapshot isSystemd w₁ = (.ok state, w₂) →
    isSystemd = true → host.FailureIsMarked t .waitForStartup w₂
  stable : ∀ state w₂ w₃, host.reinstate t snapshot isSystemd w₁ = (.ok state, w₂) →
    isSystemd = true → host.check .waitForStartup w₂ = (.ok (), w₃) →
    host.FailureIsMarked t .observeStable w₃
  commit : ∀ state w₂ w₃, host.reinstate t snapshot isSystemd w₁ = (.ok state, w₂) →
    host.verifyRestored t isSystemd w₂ = (.ok (), w₃) →
    ¬ (host.commitRollback t state).Fails w₃

theorem healthOrFailed_err {c : Check} {e : InstallError}
    (h : host.healthOrFailed t c w = (.err e, w')) :
    ∃ w₁, host.check c w = (.err e, w₁) ∧
      ((host.markPhase t .failed w₁ = (.ok (), w') ∧ w'.phase? = some .failed) ∨
        ((host.markPhase t .failed).Fails w₁ ∧ w'.phase? = w.phase?)) := by
  rcases hc : host.check c w with ⟨a | e₁ | _, w₁⟩
  · -- a check that passes ends the function
    have hr := (Prog.bind_of_ok (Prog.attempt_of_ok hc)).symm.trans h
    simp [Pure.pure] at hr
  · have hr := (Prog.bind_of_ok (Prog.attempt_of_err hc)).symm.trans h
    rcases hm : host.markPhase t .failed w₁ with ⟨a | e₂ | _, w₂⟩
    · have hi := (Prog.bind_of_ok (Prog.ignore_of_ok hm)).symm.trans hr
      cases hi
      exact ⟨w₁, rfl, .inl ⟨hm, host.markPhaseAs_ok hm⟩⟩
    · have hi := (Prog.bind_of_ok (Prog.ignore_of_err hm)).symm.trans hr
      cases hi
      refine ⟨w₁, rfl, .inr ⟨⟨e₂, _, hm⟩, ?_⟩⟩
      rw [host.markPhaseAs_err hm]
      exact phase_of_silent hc
    · have hi := (Prog.bind_of_crash (Prog.ignore_of_crash hm)).symm.trans hr
      simp at hi
  · have hi := (Prog.bind_of_crash (Prog.attempt_of_crash hc)).symm.trans h
    simp at hi

theorem healthOrFailed_of_ok {c : Check} (h : host.check c w = (.ok (), w')) :
    host.healthOrFailed t c w = (.ok (), w') :=
  Prog.bind_of_ok (Prog.attempt_of_ok h)

theorem healthOrFailed_of_fails {c : Check} {e e' : InstallError} {w₁ : World H}
    (hc : host.check c w = (.err e, w₁)) (hm : host.markPhase t .failed w₁ = (.err e', w')) :
    host.healthOrFailed t c w = (.err e, w') := by
  have hi := Prog.ignore_of_err hm
  exact (Prog.bind_of_ok (Prog.attempt_of_err hc)).trans (Prog.bind_of_ok hi)

theorem healthOrFailed_ok {c : Check} (h : host.healthOrFailed t c w = (.ok (), w')) :
    host.check c w = (.ok (), w') := by
  rcases hc : host.check c w with ⟨a | e | _, w₁⟩
  · exact (host.healthOrFailed_of_ok (t := t) hc).symm.trans h
  · have hr := (Prog.bind_of_ok (Prog.attempt_of_err hc)).symm.trans h
    obtain ⟨_, _, _, hf⟩ := Prog.bind_eq_ok hr
    simp [Prog.fail] at hf
  · have hi := (Prog.bind_of_crash (Prog.attempt_of_crash hc)).symm.trans h
    simp at hi

theorem verifyRestored_failed {isSystemd : Bool} {e : InstallError}
    (h : host.verifyRestored t isSystemd w = (.err e, w'))
    (h1 : isSystemd = true → host.FailureIsMarked t .waitForStartup w)
    (h2 : isSystemd = true → ∀ w₁, host.check .waitForStartup w = (.ok (), w₁) →
      host.FailureIsMarked t .observeStable w₁) :
    w'.phase? = some .failed := by
  cases isSystemd with
  | false => simp [verifyRestored, Pure.pure] at h
  | true =>
    simp only [verifyRestored, Prog.onlyIf_true] at h
    -- the first check fails, or it passes and the second one fails
    rcases Prog.bind_eq_err h with hs | ⟨_, w₁, hs, ho⟩
    · obtain ⟨w₂, hc, ⟨-, hp⟩ | ⟨hm, -⟩⟩ := host.healthOrFailed_err hs
      · exact hp
      · exact absurd hm (h1 rfl e w₂ hc)
    · obtain ⟨w₂, hc, ⟨-, hp⟩ | ⟨hm, -⟩⟩ := host.healthOrFailed_err ho
      · exact hp
      · exact absurd hm (h2 rfl w₁ (host.healthOrFailed_ok hs) e w₂ hc)

theorem commitRollback_err {s : InstallState} {e : InstallError}
    (h : host.commitRollback t s w = (.err e, w')) : w'.phase? = w.phase? := by
  rcases Prog.bind_eq_err h with hs | ⟨_, w₁, hs, hm⟩
  · exact phase_of_silent hs
  · rw [host.markPhaseAs_err hm]
    exact phase_of_silent hs

theorem verifyRestored_ok {isSystemd : Bool} (h : host.verifyRestored t isSystemd w = (.ok (), w')) :
    w'.phase? = w.phase? := by
  cases isSystemd with
  | false =>
    simp only [verifyRestored, Prog.onlyIf_false] at h
    cases h
    rfl
  | true =>
    simp only [verifyRestored, Prog.onlyIf_true] at h
    obtain ⟨_, w₁, hs, ho⟩ := Prog.bind_eq_ok h
    rw [phase_of_silent (host.healthOrFailed_ok ho), phase_of_silent (host.healthOrFailed_ok hs)]

theorem rollbackSwitch_failureIsFinal_iff (snapshot : InstallState) :
    host.FailureIsFinal t (host.rollbackSwitch t snapshot) w ↔
      ∀ w₁, host.markPhase t .rollingBack w = (.ok (), w₁) →
        host.FailsOnlyInHealthChecks t snapshot (snapshot.manager = .systemd) w₁ := by
  constructor
  · intro hf w₁ hmark
    have hroll : w₁.phase? = some .rollingBack := host.markPhaseAs_ok hmark
    -- an error that leaves the phase alone contradicts the promise
    have habs : ∀ {e w'}, host.rollbackSwitch t snapshot w = (.err e, w') →
        w'.phase? = w₁.phase? → False := by
      intro e w' hr hp
      have hfail := hf w₁ hmark e w' hr
      rw [hp, hroll] at hfail
      simp at hfail
    refine ⟨?_, ?_, ?_, ?_⟩
    · rintro ⟨e, w₂, hr⟩
      exact habs ((Prog.bind_of_ok hmark).trans (Prog.bind_of_err hr)) (phase_of_silent hr)
    · intro s w₂ hr hsys e w₃ hc ⟨e', w₄, hm⟩
      have hv : host.verifyRestored t (snapshot.manager = .systemd) w₂ = (.err e, w₄) := by
        rw [hsys]
        exact Prog.bind_of_err (host.healthOrFailed_of_fails hc hm)
      refine habs ((Prog.bind_of_ok hmark).trans ((Prog.bind_of_ok hr).trans
        (Prog.bind_of_err hv))) ?_
      rw [host.markPhaseAs_err hm, phase_of_silent hc, phase_of_silent hr]
    · intro s w₂ w₃ hr hsys hw e w₄ hc ⟨e', w₅, hm⟩
      have hv : host.verifyRestored t (snapshot.manager = .systemd) w₂ = (.err e, w₅) := by
        rw [hsys]
        exact (Prog.bind_of_ok (host.healthOrFailed_of_ok hw)).trans
          (host.healthOrFailed_of_fails hc hm)
      refine habs ((Prog.bind_of_ok hmark).trans ((Prog.bind_of_ok hr).trans
        (Prog.bind_of_err hv))) ?_
      rw [host.markPhaseAs_err hm, phase_of_silent hc, phase_of_silent hw, phase_of_silent hr]
    · rintro s w₂ w₃ hr hv ⟨e, w₄, hc⟩
      refine habs ((Prog.bind_of_ok hmark).trans ((Prog.bind_of_ok hr).trans
        ((Prog.bind_of_ok hv).trans hc))) ?_
      rw [host.commitRollback_err hc, host.verifyRestored_ok hv, phase_of_silent hr]
  · intro hc w₁ hmark e w' h
    obtain ⟨h1, h2, h3, h4⟩ := hc w₁ hmark
    have hrest := (Prog.bind_of_ok hmark).symm.trans h
    rcases Prog.bind_eq_err hrest with hr | ⟨s, w₂, hr, hrest⟩
    · exact absurd ⟨e, w', hr⟩ h1
    · rcases Prog.bind_eq_err hrest with hv | ⟨_, w₃, hv, hcommit⟩
      · exact host.verifyRestored_failed hv (h2 s w₂ hr) fun hsys w₃ hw => h3 s w₂ w₃ hr hsys hw
      · exact absurd ⟨e, w', hcommit⟩ (h4 s w₂ w₃ hr hv)

theorem rollbackNoBackup_failureIsFinal_iff (previous : InstallState) :
    host.FailureIsFinal t (host.rollbackNoBackup t previous) w ↔
      ∀ w₁, host.markPhase t .rollingBack w = (.ok (), w₁) →
        ¬ (do host.reinstateNoBackup t previous
              host.markPhase t .rolledBack : Flow H Unit).Fails w₁ := by
  constructor
  · rintro hf w₁ hmark ⟨e, w', hr⟩
    have hroll : w₁.phase? = some .rollingBack := host.markPhaseAs_ok hmark
    have hfail := hf w₁ hmark e w' ((Prog.bind_of_ok hmark).trans hr)
    have hsame : w'.phase? = w₁.phase? := by
      rcases Prog.bind_eq_err hr with hs | ⟨_, w₂, hs, hm⟩
      · exact phase_of_silent hs
      · rw [host.markPhaseAs_err hm, phase_of_silent hs]
    rw [hsame, hroll] at hfail
    simp at hfail
  · intro hc w₁ hmark e w' h
    exact absurd ⟨e, w', (Prog.bind_of_ok hmark).symm.trans h⟩ (hc w₁ hmark)

/-- When a failed rollback of a switch is final, over both rollbacks and every step that can
fail. -/
theorem switch_rollbacks_failureIsFinal_iff (t : TransactionFile) (s : InstallState)
    (w : World H) :
    (host.FailureIsFinal t (host.rollbackSwitch t s) w ↔
      ∀ w₁, host.markPhase t .rollingBack w = (.ok (), w₁) →
        host.FailsOnlyInHealthChecks t s (s.manager = .systemd) w₁) ∧
    (host.FailureIsFinal t (host.rollbackNoBackup t s) w ↔
      ∀ w₁, host.markPhase t .rollingBack w = (.ok (), w₁) →
        ¬ (do host.reinstateNoBackup t s
              host.markPhase t .rolledBack : Flow H Unit).Fails w₁) :=
  ⟨host.rollbackSwitch_failureIsFinal_iff s, host.rollbackNoBackup_failureIsFinal_iff s⟩

section Sample

def sampleState : InstallState where
  activeVersion := "1.0.0"
  webserver := ⟨"a", 1⟩
  staticArchive := ⟨"b", 1⟩
  status := .complete
  lockPresent := true
  manager := .systemd
  lastTransactionId := none

def sampleSwitch : TransactionFile :=
  { TransactionFile.newSwitch "id" "1.0.0" "1.1.0" with
    phase := .verifying
    noBackup := true
    systemdBefore := some ⟨.symlink, true, false⟩ }

def sampleWorld (t : TransactionFile) (machine : Machine) : World Unit where
  machine := machine
  transaction := some t
  writes := [⟨.begin, .preparing⟩, ⟨.markPhase, t.phase⟩]
  locals := ⟨t, false, false⟩
  host := ()

def emptyMachine : Machine where
  files _ := none
  units _ := ⟨true, false, "enabled", true⟩

def stopRefused : Host Unit :=
  Host.scripted (fun act => match act with
    | .systemctl .stop _ => true
    | _ => false) (fun _ => false)

/-- A service that cannot be stopped ends both rollbacks at `rolling_back`. -/
theorem stopRefused_not_final :
    ¬ stopRefused.FailureIsFinal sampleSwitch
        (stopRefused.rollbackSwitch sampleSwitch sampleState)
        (sampleWorld sampleSwitch emptyMachine) ∧
      ¬ stopRefused.FailureIsFinal sampleSwitch
        (stopRefused.rollbackNoBackup sampleSwitch sampleState)
        (sampleWorld sampleSwitch emptyMachine) := by
  have hmark : (stopRefused.markPhase sampleSwitch .rollingBack
      (sampleWorld sampleSwitch emptyMachine)).1 = .ok () := by decide +kernel
  constructor
  · intro h
    have herr : (stopRefused.rollbackSwitch sampleSwitch sampleState
        (sampleWorld sampleSwitch emptyMachine)).1 = .err (.io "refused") := by decide +kernel
    have hp := h _ (Prod.ext hmark rfl) _ _ (Prod.ext herr rfl)
    exact absurd hp (by decide +kernel)
  · intro h
    have herr : (stopRefused.rollbackNoBackup sampleSwitch sampleState
        (sampleWorld sampleSwitch emptyMachine)).1 = .err (.io "refused") := by decide +kernel
    have hp := h _ (Prod.ext hmark rfl) _ _ (Prod.ext herr rfl)
    exact absurd hp (by decide +kernel)

end Sample

end Host

end LandscapeKit.Deploy
