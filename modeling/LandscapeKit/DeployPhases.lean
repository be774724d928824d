import LandscapeKit.DeployRuns

/-!
The order of the phases in one transaction file. Every write of the file is recorded with
the call that made it, so a run can be read back: three of the calls write a phase that the
run has left behind, and all the others go forward.
-/

namespace LandscapeKit.Deploy

open Faults

set_option synthInstance.maxSize 65536

variable {H α : Type}

namespace Phase

def rank : Phase → ℕ
  | .preparing => 0
  | .prepared => 1
  | .stopping => 2
  | .activating => 3
  | .verifying => 4
  | .awaitingNetworkConfirmation => 5
  | .finalizing | .rollingBack => 6
  | .committed | .rolledBack | .failed => 7

def Before (p q : Phase) : Prop := p.rank ≤ q.rank ∧ (p.isTerminal = true → q = p)

instance : DecidableRel Before := fun p q =>
  inferInstanceAs (Decidable (p.rank ≤ q.rank ∧ (p.isTerminal = true → q = p)))

theorem Before.refl (p : Phase) : p.Before p := ⟨le_refl _, fun _ => rfl⟩

theorem Before.trans {p q r : Phase} (h : p.Before q) (g : q.Before r) : p.Before r := by
  refine ⟨h.1.trans g.1, fun hp => ?_⟩
  have hq := h.2 hp
  subst hq
  exact g.2 hp

theorem before_of_rank {p q : Phase} (hp : p.isTerminal = false) (h : p.rank ≤ q.rank) :
    p.Before q :=
  ⟨h, fun ht => absurd (hp.symm.trans ht) (by decide)⟩

theorem rank_le_of_open {p : Phase} (hp : p.isTerminal = false) : p.rank ≤ 6 := by
  cases p <;> first | exact absurd hp (by decide) | decide

end Phase

def Call.regresses : Call → Bool
  | .takeoverPersist | .stoppingPersist | .failedAfterRollback => true
  | _ => false

def Ordered (writes : List Write) : Prop := writes.Pairwise fun a b => a.phase.Before b.phase

def Forward (writes : List Write) : Prop := ∀ x ∈ writes, x.call.regresses = false

instance (writes : List Write) : Decidable (Ordered writes) :=
  inferInstanceAs (Decidable (writes.Pairwise _))

instance (writes : List Write) : Decidable (Forward writes) :=
  inferInstanceAs (Decidable (∀ x ∈ writes, _))

theorem ordered_append {writes : List Write} {x : Write} :
    Ordered (writes ++ [x]) ↔ Ordered writes ∧ ∀ y ∈ writes, y.phase.Before x.phase := by
  simp [Ordered, List.pairwise_append]

theorem forward_append {writes : List Write} {x : Write} :
    Forward (writes ++ [x]) ↔ Forward writes ∧ x.call.regresses = false := by
  simp only [Forward, List.mem_append, List.mem_singleton]
  constructor
  · intro h
    exact ⟨fun y hy => h y (.inl hy), h x (.inr rfl)⟩
  · rintro ⟨h, hx⟩ y (hy | rfl)
    · exact h y hy
    · exact hx

/-- The file holds the phase that was written last, and the phases were written in order
unless one of the three calls was made. -/
structure Logged (w : World H) : Prop where
  latest : ∀ t, w.transaction = some t → ∃ ws call, w.writes = ws ++ [⟨call, t.phase⟩]
  settled : Ordered w.writes ↔ Forward w.writes

structure Filed (p : Phase) (w : World H) : Prop where
  logged : Logged w
  phase : w.phase? = some p

structure Stage (own p : Phase) (w : World H) : Prop where
  filed : Filed p w
  own : w.locals.transaction.phase = own

def Upto (own hi : Phase) (w : World H) : Prop :=
  ∃ p : Phase, p.isTerminal = false ∧ p.rank ≤ hi.rank ∧ Stage own p w

def Unfinished (w : World H) : Prop := ∃ p : Phase, p.isTerminal = false ∧ Filed p w

section Writes

variable {w w' : World H} {lo : Phase}

theorem Silent.phase? (h : Silent w w') : w'.phase? = w.phase? := by
  simp only [World.phase?, h.transaction]

theorem Logged.silent (hw : Logged w) (h : Silent w w') : Logged w' := by
  refine ⟨fun t ht => ?_, ?_⟩
  · rw [h.writes]
    exact hw.latest t (h.transaction ▸ ht)
  · rw [h.writes]
    exact hw.settled

theorem Filed.silent {p : Phase} (hw : Filed p w) (h : Silent w w') : Filed p w' :=
  ⟨hw.logged.silent h, h.phase?.trans hw.phase⟩

theorem Filed.furthest (hw : Filed lo w) (hf : Forward w.writes) :
    ∀ x ∈ w.writes, x.phase.Before lo := by
  obtain ⟨t, ht, rfl⟩ := Option.map_eq_some_iff.mp hw.phase
  obtain ⟨ws, call, hws⟩ := hw.logged.latest t ht
  have ho := hw.logged.settled.mpr hf
  rw [hws] at ho ⊢
  intro x hx
  rcases List.mem_append.mp hx with hx | hx
  · exact (ordered_append.mp ho).2 x hx
  · rw [List.mem_singleton.mp hx]
    exact .refl _

theorem Filed.written (hw : Filed lo w) : ∃ x ∈ w.writes, x.phase = lo := by
  obtain ⟨t, ht, rfl⟩ := Option.map_eq_some_iff.mp hw.phase
  obtain ⟨ws, call, hws⟩ := hw.logged.latest t ht
  exact ⟨⟨call, t.phase⟩, by simp [hws], rfl⟩

theorem Filed.stored (hw : Filed lo w) {call : Call} {t : TransactionFile} {h : H}
    (hcall : call.regresses = false) (hlo : lo.Before t.phase) :
    Filed t.phase (Host.stored w call t h) := by
  refine ⟨⟨fun u hu => ?_, ?_⟩, rfl⟩
  · obtain rfl : t = u := Option.some.inj hu
    exact ⟨_, _, rfl⟩
  · change Ordered (w.writes ++ [_]) ↔ Forward (w.writes ++ [_])
    rw [ordered_append, forward_append, hw.logged.settled]
    constructor
    · rintro ⟨hf, -⟩
      exact ⟨hf, hcall⟩
    · rintro ⟨hf, -⟩
      exact ⟨hf, fun y hy => (hw.furthest hf y hy).trans hlo⟩

theorem Filed.stored_back (hw : Filed lo w) {call : Call} {t : TransactionFile} {h : H}
    (hcall : call.regresses = true) (hlo : ¬ lo.Before t.phase ∨ ¬ Forward w.writes) :
    Filed t.phase (Host.stored w call t h) ∧ ¬ Forward (Host.stored w call t h).writes := by
  have hback : ¬ Forward (w.writes ++ [⟨call, t.phase⟩]) := by
    rw [forward_append]
    rintro ⟨-, hc⟩
    exact absurd (hcall.symm.trans hc) (by decide)
  refine ⟨⟨⟨fun u hu => ?_, ?_⟩, rfl⟩, hback⟩
  · obtain rfl : t = u := Option.some.inj hu
    exact ⟨_, _, rfl⟩
  · refine iff_of_false ?_ hback
    change ¬ Ordered (w.writes ++ [_])
    rw [ordered_append]
    rintro ⟨ho, hall⟩
    rcases hlo with hlo | hlo
    · obtain ⟨x, hx, rfl⟩ := hw.written
      exact hlo (hall x hx)
    · exact hlo (hw.logged.settled.mp ho)

end Writes

structure Aside (w w' : World H) : Prop where
  silent : Silent w w'
  own : w'.locals.transaction.phase = w.locals.transaction.phase

namespace Aside

instance : Std.Refl (Aside (H := H)) := ⟨fun _ => ⟨⟨rfl, rfl⟩, rfl⟩⟩

instance : IsTrans (World H) Aside :=
  ⟨fun _ _ _ h g => ⟨IsTrans.trans _ _ _ h.silent g.silent, g.own.trans h.own⟩⟩

theorem setTransaction {f : TransactionFile → TransactionFile} (h : ∀ t, (f t).phase = t.phase) :
    Within Aside (Host.setTransaction f : Flow H Unit) :=
  ⟨fun w => ⟨⟨rfl, rfl⟩, h w.locals.transaction⟩⟩

instance setActivated : Within Aside (Host.setActivated : Flow H Unit) :=
  ⟨fun _ => ⟨⟨rfl, rfl⟩, rfl⟩⟩

instance setStoppingStarted : Within Aside (Host.setStoppingStarted : Flow H Unit) :=
  ⟨fun _ => ⟨⟨rfl, rfl⟩, rfl⟩⟩

variable (host : Host H)

instance : HostFrame Aside host := by
  refine ⟨fun act => ⟨fun w => ⟨(Silent.perform host act).rel w, ?_⟩⟩⟩
  unfold Host.perform
  split <;> rfl

instance recordBefore (id : String) : Within Aside (host.recordBefore id) := by
  unfold Host.recordBefore
  refine Within.andThen inferInstance fun before => ?_
  refine Within.andThen (setTransaction fun _ => rfl) fun _ => ?_
  exact Within.andThen inferInstance fun _ => setTransaction fun _ => rfl

instance recordOwnBefore : Within Aside host.recordOwnBefore := by
  unfold Host.recordOwnBefore
  infer_instance

instance exportAndBackup (s : InstallState) : Within Aside (host.exportAndBackup s) := by
  unfold Host.exportAndBackup
  refine Within.andThen inferInstance fun _ => Within.andThen inferInstance fun exported => ?_
  split
  · infer_instance
  · exact Within.andThen inferInstance fun backup => setTransaction fun _ => rfl

instance recordTakeover (takeover : NetworkTakeoverTransaction) :
    Within Aside (Host.recordTakeover takeover : Flow H Unit) :=
  setTransaction fun _ => rfl

instance refreshDeadline (timeout : ℕ) : Within Aside (host.refreshDeadline timeout) := by
  unfold Host.refreshDeadline
  refine Within.andThen inferInstance fun t => ?_
  split
  · infer_instance
  · infer_instance

instance inspectHostServices (units : List String) :
    Within Aside (host.inspectHostServices units) := by
  induction units with
  | nil => exact Within.pure _
  | cons unit units ih =>
    unfold Host.inspectHostServices Host.inspectHostService
    infer_instance

instance prepareTakeover (id : String) (timeout : ℕ) :
    Within Aside (host.prepareTakeover id timeout) := by
  unfold Host.prepareTakeover
  infer_instance

instance armRecovery (network : NetworkTakeoverTransaction) :
    Within Aside (host.armRecovery network) := by
  unfold Host.armRecovery Host.writeSystemUnit
  infer_instance

instance prepareSwitch (s : InstallState) (id target : String) (isSystemd stopped : Bool) :
    Within Aside (host.prepareSwitch s id target isSystemd stopped) := by
  unfold Host.prepareSwitch
  infer_instance

end Aside

section Steps

variable (host : Host H) {own lo hi ph : Phase}

theorem filed_mark (hlo : lo.Before ph) (t : TransactionFile) :
    Triple (Filed lo) (host.markPhase t ph) (fun _ => Filed ph) (fun _ => Filed lo)
      (Logged (H := H)) := by
  have hlog : Within Silent (host.check .appendLog) := inferInstance
  refine ((hlog.triple fun _ _ h hw => Filed.silent hw h).ends (fun _ _ h => h)
    fun _ h => h.logged).bind fun _ => ?_
  refine host.triple_writeTransaction _ _ ?_ ?_ ?_ ?_
  · intro w h hw
    exact hw.stored (t := { t with phase := ph }) rfl hlo
  · intro w e h hw
    exact hw.silent ⟨rfl, rfl⟩
  · intro w h hw
    exact (hw.stored (t := { t with phase := ph }) rfl hlo).logged
  · intro w h hw
    exact hw.logged.silent ⟨rfl, rfl⟩

theorem filed_silent {p : Phase} {q : Flow H α} (hq : Within Silent q) :
    Triple (Filed p) q (fun _ => Filed p) (fun _ => Filed p) Logged :=
  (hq.triple fun _ _ h hw => Filed.silent hw h).ends (fun _ _ h => h) fun _ h => h.logged

theorem logged_silent {q : Flow H α} (hq : Within Silent q) :
    Triple Logged q (fun _ => Logged) (fun _ => Logged) Logged :=
  hq.triple fun _ _ h hw => Logged.silent hw h

theorem unfinished_silent {q : Flow H α} (hq : Within Silent q) :
    Triple Unfinished q (fun _ => Unfinished) (fun _ => Unfinished) Logged := by
  rintro w ⟨p, hp, hw⟩
  exact (filed_silent hq w hw).mono (fun _ _ h => ⟨p, hp, h⟩) (fun _ _ h => ⟨p, hp, h⟩)
    fun _ h => h

theorem unfinished_mark (hph : 6 ≤ ph.rank) (t : TransactionFile) :
    Triple Unfinished (host.markPhase t ph) (fun _ => Filed ph) (fun _ => Unfinished)
      (Logged (H := H)) := by
  rintro w ⟨p, hp, hw⟩
  have hlo : p.Before ph := Phase.before_of_rank hp ((Phase.rank_le_of_open hp).trans hph)
  exact (filed_mark host hlo t w hw).mono (fun _ _ h => h) (fun _ _ h => ⟨p, hp, h⟩)
    fun _ h => h

theorem Upto.unfinished {w : World H} (h : Upto own hi w) : Unfinished w := by
  obtain ⟨p, hp, -, hs⟩ := h
  exact ⟨p, hp, hs.filed⟩

theorem Stage.upto {p : Phase} {w : World H} (h : Stage own p w) (hp : p.isTerminal = false)
    (hle : p.rank ≤ hi.rank) : Upto own hi w :=
  ⟨p, hp, hle, h⟩

theorem upto_aside {q : Flow H α} (hq : Within Aside q) :
    Triple (Upto own hi) q (fun _ => Upto own hi) (fun _ => Unfinished) Logged := by
  have hkeep : ∀ w w' : World H, Aside w w' → Upto own hi w → Upto own hi w' := by
    rintro w w' h ⟨p, hp, hle, hs⟩
    exact ⟨p, hp, hle, hs.filed.silent h.silent, h.own.trans hs.own⟩
  refine (hq.triple hkeep).ends (fun _ _ h => h.unfinished) fun w h => ?_
  obtain ⟨p, -, -, hs⟩ := h
  exact hs.filed.logged

theorem stage_aside (hp : lo.isTerminal = false) {q : Flow H α} (hq : Within Aside q) :
    Triple (Stage own lo) q (fun _ => Stage own lo) (fun _ => Unfinished) Logged := by
  have hkeep : ∀ w w' : World H, Aside w w' → Stage own lo w → Stage own lo w' :=
    fun w w' h hs => ⟨hs.filed.silent h.silent, h.own.trans hs.own⟩
  exact (hq.triple hkeep).ends (fun _ _ h => ⟨lo, hp, h.filed⟩) fun _ h => h.filed.logged

theorem upto_mark (hph : hi.rank ≤ ph.rank) :
    Triple (Upto own hi) (host.mark ph) (fun _ => Stage own ph) (fun _ => Unfinished)
      (Logged (H := H)) := by
  rintro w ⟨p, hp, hle, hs⟩
  have hlo : p.Before ph := Phase.before_of_rank hp (hle.trans hph)
  have hmark := filed_mark host hlo w.locals.transaction w hs.filed
  -- `mark_phase` writes a copy, and leaves the caller's own transaction as it is
  have hown := (LocalsKept.markPhase host w.locals.transaction ph).rel w
  change Outcome.Satisfies _ _ _ (host.markPhase w.locals.transaction ph w)
  rcases hrun : host.markPhase w.locals.transaction ph w with ⟨a | e | _, w'⟩ <;>
    rw [hrun] at hmark hown
  · exact ⟨hmark, (congrArg (fun l => l.transaction.phase) hown).trans hs.own⟩
  · exact ⟨p, hp, hmark⟩
  · exact hmark

end Steps

section Rollbacks

variable (host : Host H)

def Failing (w : World H) : Prop := Filed .rollingBack w ∨ Filed .failed w

theorem Failing.logged {w : World H} (h : Failing w) : Logged w :=
  h.elim (fun h => h.logged) fun h => h.logged

theorem rolling_silent {q : Flow H α} (hq : Within Silent q) :
    Triple (Filed .rollingBack) q (fun _ => Filed .rollingBack) (fun _ => Failing) Logged :=
  (filed_silent hq).ends (fun _ _ h => .inl h)
    fun _ h => h

theorem rolling_mark {ph : Phase} (hlo : Phase.Before .rollingBack ph) (t : TransactionFile) :
    Triple (Filed .rollingBack) (host.markPhase t ph) (fun _ => Filed ph) (fun _ => Failing)
      (Logged (H := H)) :=
  (filed_mark host hlo t).ends (fun _ _ h => .inl h)
    fun _ h => h

theorem failing_mark (t : TransactionFile) :
    Triple Failing (host.markPhase t .failed) (fun _ => Failing) (fun _ => Failing)
      (Logged (H := H)) := by
  rintro w (hw | hw)
  · exact (filed_mark host (by decide) t w hw).mono (fun _ _ h => .inr h) (fun _ _ h => .inl h)
      fun _ h => h
  · exact (filed_mark host (by decide) t w hw).mono (fun _ _ h => .inr h) (fun _ _ h => .inr h)
      fun _ h => h

theorem rolling_healthOrFailed (t : TransactionFile) (c : Check) :
    Triple (Filed .rollingBack) (host.healthOrFailed t c) (fun _ => Filed .rollingBack)
      (fun _ => Failing) (Logged (H := H)) := by
  have hcheck : Within Silent (host.check c) := inferInstance
  refine (filed_silent hcheck).attempt.bind fun r => ?_
  cases r with
  | ok _ => exact Triple.pure _ fun _ h => h
  | error e =>
    refine Triple.bind (Q := fun _ => Failing) ?_ fun _ => Triple.fail e fun _ h => h
    exact ((failing_mark host t).strengthen fun _ h => .inl h).ignore

section Marked

variable {P E : World H → Prop} {t : TransactionFile}

theorem marked_rollbackSwitch (s : InstallState)
    (hmark : Triple P (host.markPhase t .rollingBack) (fun _ => Filed .rollingBack)
      (fun _ => E) Logged) (hE : ∀ w, Failing w → E w) :
    Triple P (host.rollbackSwitch t s) (fun _ => Filed .rolledBack) (fun _ => E) Logged := by
  refine hmark.bind fun _ => ?_
  refine Triple.consequence (E := fun _ => Failing) ?_ (fun _ h => h) (fun _ _ h => h)
    (fun _ w h => hE w h) fun _ h => h
  refine (rolling_silent inferInstance).bind fun state => ?_
  refine Triple.bind (Q := fun _ => Filed .rollingBack) ?_ fun _ => ?_
  · refine Triple.onlyIf (fun _ => ?_) fun _ _ h => h
    exact (rolling_healthOrFailed host t _).bind fun _ => rolling_healthOrFailed host t _
  · exact (rolling_silent inferInstance).bind fun _ => rolling_mark host (by decide) t

theorem marked_rollbackNoBackup (s : InstallState)
    (hmark : Triple P (host.markPhase t .rollingBack) (fun _ => Filed .rollingBack)
      (fun _ => E) Logged) (hE : ∀ w, Failing w → E w) :
    Triple P (host.rollbackNoBackup t s) (fun _ => Filed .rolledBack) (fun _ => E) Logged := by
  refine hmark.bind fun _ => ?_
  refine Triple.consequence (E := fun _ => Failing) ?_ (fun _ h => h) (fun _ _ h => h)
    (fun _ w h => hE w h) fun _ h => h
  exact (rolling_silent inferInstance).bind fun _ => rolling_mark host (by decide) t

end Marked

theorem rolling_rollbackRestoreInPlace (t : TransactionFile) (s : InstallState)
    (isSystemd : Bool) :
    Triple (Filed .rollingBack) (host.rollbackRestoreInPlace t s isSystemd)
      (fun _ => Filed .rolledBack) (fun _ => Failing) (Logged (H := H)) := by
  unfold Host.rollbackRestoreInPlace
  dsimp only
  refine (rolling_silent inferInstance).bind fun _ => (rolling_silent inferInstance).bind
    fun _ => (rolling_silent inferInstance).bind fun _ => (rolling_silent inferInstance).bind
    fun _ => (rolling_silent inferInstance).bind fun _ => (rolling_silent inferInstance).bind
    fun _ => (rolling_silent inferInstance).bind fun _ => ?_
  exact rolling_mark host (by decide) t

theorem rolling_rollbackRestoreInner (t : TransactionFile) :
    Triple (Filed .rollingBack) (host.rollbackRestoreInner t) (fun _ => Filed .rolledBack)
      (fun _ => Failing) (Logged (H := H)) := by
  unfold Host.rollbackRestoreInner
  refine (rolling_silent inferInstance).bind fun snapshot => (rolling_silent inferInstance).bind
    fun _ => (rolling_silent inferInstance).bind fun _ => (rolling_silent inferInstance).bind
    fun _ => (rolling_silent inferInstance).bind fun _ => ?_
  refine Triple.ite (fun _ => rolling_rollbackRestoreInPlace host t snapshot _) fun _ => ?_
  have hmark := rolling_mark host (Phase.Before.refl .rollingBack) t
  exact Triple.ite (fun _ => marked_rollbackSwitch host snapshot hmark fun _ h => h) fun _ =>
    marked_rollbackNoBackup host snapshot hmark fun _ h => h

theorem rolling_rollbackReinitInner (t : TransactionFile) :
    Triple (Filed .rollingBack) (host.rollbackReinitInner t) (fun _ => Filed .rolledBack)
      (fun _ => Failing) (Logged (H := H)) := by
  unfold Host.rollbackReinitInner
  refine (rolling_silent inferInstance).bind fun _ => (rolling_silent inferInstance).bind
    fun _ => (rolling_silent inferInstance).bind fun _ => (rolling_silent inferInstance).bind
    fun _ => (rolling_silent inferInstance).bind fun _ => (rolling_silent inferInstance).bind
    fun _ => (rolling_silent inferInstance).bind fun _ => (rolling_silent inferInstance).bind
    fun _ => ?_
  exact rolling_mark host (by decide) t

theorem rolling_rollbackMigrateInner (t : TransactionFile) :
    Triple (Filed .rollingBack) (host.rollbackMigrateInner t) (fun _ => Filed .rolledBack)
      (fun _ => Failing) (Logged (H := H)) := by
  unfold Host.rollbackMigrateInner
  refine (rolling_silent inferInstance).bind fun _ => (rolling_silent inferInstance).bind
    fun _ => (rolling_silent inferInstance).bind fun _ => (rolling_silent inferInstance).bind
    fun _ => ?_
  exact rolling_mark host (by decide) t

theorem unfinished_rolling (t : TransactionFile) :
    Triple Unfinished (host.markPhase t .rollingBack) (fun _ => Filed .rollingBack)
      (fun _ => Logged) (Logged (H := H)) := by
  refine (unfinished_mark host (by decide) t).ends (fun _ _ h => ?_) fun _ h => h
  obtain ⟨p, -, hw⟩ := h
  exact hw.logged

theorem unfinished_rollbackSwitch (t : TransactionFile) (s : InstallState) :
    Triple Unfinished (host.rollbackSwitch t s) (fun _ => Logged) (fun _ => Logged)
      (Logged (H := H)) :=
  (marked_rollbackSwitch host s (unfinished_rolling host t) fun _ h => h.logged).consequence
    (fun _ h => h) (fun _ _ h => h.logged) (fun _ _ h => h) fun _ h => h

theorem unfinished_rollbackNoBackup (t : TransactionFile) (s : InstallState) :
    Triple Unfinished (host.rollbackNoBackup t s) (fun _ => Logged) (fun _ => Logged)
      (Logged (H := H)) :=
  (marked_rollbackNoBackup host s (unfinished_rolling host t) fun _ h => h.logged).consequence
    (fun _ h => h) (fun _ _ h => h.logged) (fun _ _ h => h) fun _ h => h

theorem unfinished_rollbackAround (t : TransactionFile) {inner : Flow H Unit}
    (hinner : Triple (Filed .rollingBack) inner (fun _ => Filed .rolledBack) (fun _ => Failing)
      Logged) :
    Triple Unfinished (host.rollbackAround t inner) (fun _ => Logged) (fun _ => Logged)
      (Logged (H := H)) := by
  refine (unfinished_rolling host t).bind fun _ => ?_
  refine hinner.attempt.bind fun r => ?_
  cases r with
  | ok _ => exact Triple.pure _ fun _ h => h.logged
  | error e =>
    refine Triple.bind (Q := fun _ => Failing) (failing_mark host t).ignore fun _ => ?_
    exact Triple.fail e fun _ h => h.logged

end Rollbacks

end LandscapeKit.Deploy
