import LandscapeKit.DeployReinitData

/-!
A reinit cut off anywhere, and whatever recoveries, confirmations and network rollbacks
follow: the old data is never lost, as long as no recovery finds the file at `preparing`
while the data is away.
-/

namespace LandscapeKit.Deploy.ReinitData

open Faults

set_option synthInstance.maxSize 65536

variable {H α : Type} {id : String} {D : Files Document}

section Rollback

variable (host : Host H)

theorem safe_step {p : Flow H α} (hp : Within (Spared id) p) :
    Triple (Safe D id) p (fun _ => Safe D id) (fun _ => Safe D id) (Safe D id) :=
  stable_safe.step hp

theorem home_afterRestore {t : TransactionFile} (ht : Recorded id t) :
    Triple (Home D id) (do
        host.start
        host.requirePid "restored service did not produce a main pid"
        host.healthy
        let snapshot ← host.readStateSnapshot t.transactionId
        host.writeState { snapshot with lastTransactionId := some t.transactionId }
        host.markPhase t .rolledBack)
      (fun _ => Home D id) (fun _ => Home D id) (Home (H := H) D id) := by
  refine (stable_home.step inferInstance).bind fun _ => ?_
  refine (stable_home.step inferInstance).bind fun _ => ?_
  refine (stable_home.step inferInstance).bind fun _ => ?_
  refine (stable_home.step inferInstance).bind fun snapshot => ?_
  refine (stable_home.step inferInstance).bind fun _ => ?_
  exact home_mark host ht .rolledBack .markPhase

theorem safe_rollbackReinitInner (hD : D [] ≠ none) {t : TransactionFile} (ht : Recorded id t) :
    Triple (Safe D id) (host.rollbackReinitInner t) (fun _ => Home D id) (fun _ => Safe D id)
      (Safe (H := H) D id) := by
  unfold Host.rollbackReinitInner
  refine (safe_step inferInstance).bind fun _ => (safe_step inferInstance).bind fun _ => ?_
  refine Triple.bind (Q := fun _ => Home D id) ?_ fun _ => ?_
  · rw [ht.ident]
    exact safe_restorePreviousData host hD fun _ _ _ h => h
  · exact (home_afterRestore host ht).ends (fun _ _ h => .inl h) fun _ h => .inl h

theorem safe_rollbackReinit (hD : D [] ≠ none) {t : TransactionFile} (ht : Recorded id t) :
    Triple (Safe D id) (host.rollbackReinit t) (fun _ => Safe D id) (fun _ => Safe D id)
      (Safe (H := H) D id) := by
  refine (safe_mark host ht ⟨by decide, by decide⟩ _).bind fun _ => ?_
  refine (safe_rollbackReinitInner host hD ht).attempt.bind fun r => ?_
  cases r with
  | ok _ => exact Triple.pure _ fun w hw => .inl hw
  | error e =>
    refine Triple.bind (Q := fun _ => Safe D id) ?_ fun _ => Triple.fail e fun w hw => hw
    exact (safe_mark host ht ⟨by decide, by decide⟩ _).ignore

theorem home_removeTransactionDir {t : TransactionFile} (ht : Recorded id t) :
    Triple (Home D id) (host.removeTransactionDir t) (fun _ => Home D id) (fun _ => Home D id)
      (Home (H := H) D id) := by
  unfold Host.removeTransactionDir
  rw [ht.ident]
  have hdata : Apart (Layout.transactionDir id) Layout.data := by
    simp [Apart, Layout.data, Layout.root, Layout.transactionDir, Layout.transactions]
  have hin : Layout.transactionDir id <+: Layout.previousData id := List.prefix_append _ _
  have hdone : ∀ (w : World H) (h : H), Home D id w → Home D id { w with
      machine := w.machine.setFiles (w.machine.files.remove (Layout.transactionDir id))
      host := h } := fun w h hw =>
    ⟨if_pos hin, (Files.subtree_remove_apart _ hdata).trans hw.data, hw.recorded⟩
  have hpart : ∀ (w : World H) (out : Machine) (h : H), Home D id w → Home D id { w with
      machine := w.machine.setFiles
        (w.machine.files.removePart (Layout.transactionDir id) out.files)
      host := h } := fun w out h hw =>
    ⟨Files.removePart_none _ hw.previous,
      (Files.subtree_removePart_apart _ hdata).trans hw.data, hw.recorded⟩
  refine Triple.ignore (host.triple_perform _ ?_ ?_ ?_ ?_)
  · intro w a out h hw
    exact hdone w h hw
  · intro w e out h hw
    exact hpart w out h hw
  · intro w out h hw
    exact hdone w h hw
  · intro w out h hw
    exact hpart w out h hw

end Rollback

/-- The file says `preparing` while the old data lies in the directory that a recovery of
`preparing` removes. -/
def Exposed (id : String) (d : Disk) : Prop :=
  d.transaction.map (fun t => t.phase) = some .preparing ∧
    d.machine.files (Layout.previousData id) ≠ none

instance (d : Disk) : Decidable (Exposed id d) := inferInstanceAs (Decidable (_ ∧ _))

section Commands

variable (host : Host H)

theorem Safe.home_of_early {w : World H} (hD : D [] ≠ none) (hw : Safe D id w)
    (hx : ¬ Exposed id w.disk) {t : TransactionFile} (ht : w.transaction = some t)
    (hp : t.phase = .preparing ∨ t.phase = .prepared ∨ t.phase = .stopping) : Home D id w := by
  refine hw.resolve_right fun hw => ?_
  rcases hp with hp | hp | hp
  · exact hx ⟨by simp [World.disk, ht, hp], hw.previous_ne_none hD⟩
  · exact (hw.late t ht).1 hp
  · exact (hw.late t ht).2 hp

theorem home_recoverEarly {t : TransactionFile} (ht : Recorded id t)
    (hp : t.phase = .preparing ∨ t.phase = .prepared ∨ t.phase = .stopping) :
    Triple (Home D id) (host.recoverReinit t) (fun _ => Home D id) (fun _ => Home D id)
      (Home (H := H) D id) := by
  have hend : Triple (Home D id) (do
      host.removeTransactionDir t
      host.markPhase t .failed) (fun _ => Home D id) (fun _ => Home D id) (Home (H := H) D id) :=
    (home_removeTransactionDir host ht).bind fun _ => home_mark host ht .failed .markPhase
  have hback : Triple (Home D id) (do
      host.restorePreActivation t
      host.resolvRestore t.resolvConfBackup
      host.removeTransactionDir t
      host.markPhase t .failed) (fun _ => Home D id) (fun _ => Home D id)
      (Home (H := H) D id) :=
    (stable_home.step inferInstance).bind fun _ => (stable_home.step inferInstance).bind
      fun _ => hend
  unfold Host.recoverReinit
  rcases hp with hp | hp | hp
  · rw [hp]
    exact hend
  · rw [hp]
    exact hback
  · rw [hp]
    exact hback

/-- A recovery of this transaction: early phases, the two that are rolled back, and those that
are left to `network confirm` and `network rollback`. -/
theorem recoverReinit_triple {P : World H → Prop} {I : World H → Prop} {t : TransactionFile}
    (ht : Recorded id t) (hterm : t.phase.isTerminal = false)
    (hearly : t.phase = .preparing ∨ t.phase = .prepared ∨ t.phase = .stopping →
      ∀ w, P w → Home D id w)
    (hhome : ∀ w, Home D id w → I w) (hkeep : ∀ w, P w → I w)
    (hroll : Triple P (host.rollbackReinit t) (fun _ => I) (fun _ => I) I) :
    Triple P (host.recoverReinit t) (fun _ => I) (fun _ => I) I := by
  have hpre : t.phase = .preparing ∨ t.phase = .prepared ∨ t.phase = .stopping →
      Triple P (host.recoverReinit t) (fun _ => I) (fun _ => I) I := fun hp =>
    (home_recoverEarly host ht hp).consequence (hearly hp) (fun _ w h => hhome w h)
      (fun _ w h => hhome w h) fun w h => hhome w h
  cases hphase : t.phase with
  | preparing => exact hpre (.inl hphase)
  | prepared => exact hpre (.inr (.inl hphase))
  | stopping => exact hpre (.inr (.inr hphase))
  | activating | verifying =>
    simp only [Host.recoverReinit, hphase]
    exact hroll
  | awaitingNetworkConfirmation | finalizing | rollingBack =>
    simp only [Host.recoverReinit, hphase]
    exact Triple.fail _ hkeep
  | committed | rolledBack | failed =>
    rw [hphase] at hterm
    exact absurd hterm (by decide)

theorem recover_triple {P I : World H → Prop} (hP : Stable id P) (hI : ∀ w, P w → I w)
    (hrec : ∀ w, P w → ∀ t, w.transaction = some t → Recorded id t)
    (hrun : ∀ t, Recorded id t → t.phase.isTerminal = false →
      Triple (fun w => P w ∧ w.transaction = some t) (host.recoverReinit t) (fun _ => I)
        (fun _ => I) I) :
    Triple P host.recoverInterrupted (fun _ => I) (fun _ => I) I := by
  refine ((host.triple_findUnfinished (P := P) fun w h hw =>
    hP.spared w _ (.of_host w h) hw).ends (fun _ w h => hI w h) fun w h => hI w h).bind fun r => ?_
  cases r with
  | none => exact Triple.pure _ fun w hw => hI w hw.1
  | some t =>
    rintro w ⟨hw, ht⟩
    obtain ⟨htx, hterm⟩ := ht t rfl
    have ht := hrec w hw t htx
    change Outcome.Satisfies _ _ _ (host.recoverTransaction t w)
    unfold Host.recoverTransaction
    rw [ht.operation]
    exact hrun t ht hterm w ⟨hw, htx⟩

theorem stable_unexposed : Stable id (fun w : World H => Safe D id w ∧ ¬ Exposed id w.disk) := by
  refine ⟨fun w w' h hw => ⟨hw.1.spared h, fun hx => hw.2 ⟨?_, ?_⟩⟩⟩
  · rw [← hx.1]
    simp only [World.disk, h.silent.transaction]
  · have hsame := Files.subtree_congr _ (h.trees _ previous_mem)
    exact fun hn => hx.2 (hsame.trans hn)

theorem safe_recover (hD : D [] ≠ none) :
    Triple (fun w => Safe D id w ∧ ¬ Exposed id w.disk) host.recoverInterrupted
      (fun _ => Safe D id) (fun _ => Safe D id) (Safe (H := H) D id) := by
  refine recover_triple host stable_unexposed (fun w hw => hw.1)
    (fun w hw => hw.1.recorded) fun t ht hterm => ?_
  refine recoverReinit_triple host ht hterm ?_ (fun w hw => .inl hw) (fun w hw => hw.1.1) ?_
  · intro hp w hw
    exact hw.1.1.home_of_early hD hw.1.2 hw.2 hp
  · exact (safe_rollbackReinit host hD ht).strengthen fun w hw => hw.1.1

theorem safe_requireUnfinished (message : String) {Q : Unit → World H → Prop}
    {f : TransactionFile → Flow H Unit}
    (hf : ∀ t, Recorded id t → Triple (Safe D id) (f t) Q (fun _ => Safe D id) (Safe D id)) :
    Triple (Safe D id) (host.requireUnfinished message >>= f) Q (fun _ => Safe D id)
      (Safe (H := H) D id) := by
  refine Triple.bind (Q := fun t w => Safe D id w ∧ Recorded id t) ?_ fun t w hw =>
    hf t hw.2 w hw.1
  refine (host.triple_findUnfinished (P := Safe D id) fun w h hw =>
    hw.spared (.of_host w h)).bind fun r => ?_
  cases r with
  | none => exact Triple.fail _ fun w hw => hw.1
  | some t => exact Triple.pure _ fun w hw => ⟨hw.1, hw.1.recorded t (hw.2 t rfl).1⟩

theorem safe_orCorrupted {t : TransactionFile} (ht : Recorded id t) (message : String)
    {f : NetworkTakeoverTransaction → Flow H Unit}
    (hf : ∀ services deadline, Triple (Safe D id) (f (.ofId id services deadline))
      (fun _ => Safe D id) (fun _ => Safe D id) (Safe D id)) :
    Triple (Safe D id) (Host.orCorrupted t.networkTakeover message >>= f)
      (fun _ => Safe D id) (fun _ => Safe D id) (Safe (H := H) D id) := by
  cases hn : t.networkTakeover with
  | none => exact fun w hw => hw
  | some n =>
    obtain ⟨services, deadline, rfl⟩ := ht.network n hn
    rw [Host.orCorrupted_some, Prog.pure_andThen]
    exact hf services deadline

theorem safe_finalize {t : TransactionFile} (ht : Recorded id t)
    (services : List HostServiceBefore) (deadline : ℕ) :
    Triple (Safe D id) (host.finalizeTakeover t (.ofId id services deadline))
      (fun _ => Safe D id) (fun _ => Safe D id) (Safe (H := H) D id) := by
  have hpending : ∀ n, Within (Spared id) (host.readPendingState n) := by
    intro n
    unfold Host.readPendingState
    refine Within.andThen inferInstance fun document => ?_
    split <;> infer_instance
  unfold Host.finalizeTakeover
  refine (safe_step inferInstance).bind fun _ => (safe_step (hpending _)).bind fun s => ?_
  refine (safe_step inferInstance).bind fun _ => ?_
  refine (safe_mark host ht ⟨by decide, by decide⟩ _).bind fun _ => ?_
  exact safe_step inferInstance

theorem safe_confirm :
    Triple (Safe D id) host.confirm (fun _ => Safe D id) (fun _ => Safe D id)
      (Safe (H := H) D id) := by
  refine safe_requireUnfinished host _ fun t ht => ?_
  refine Triple.ite (fun _ => Triple.fail _ fun w hw => hw) fun _ => ?_
  refine safe_orCorrupted ht _ fun services deadline => ?_
  have hfinal := ht.withPhase .finalizing
  refine (safe_step inferInstance).bind fun _ => Triple.ite (fun _ => ?_) fun _ =>
    safe_finalize host ht services deadline
  refine Triple.bind (Q := fun _ => Safe D id) ?_ fun _ => ?_
  · unfold Host.verifyTakeover
    exact safe_step inferInstance
  · refine Triple.bind (Q := fun _ => Safe D id) ?_ fun _ =>
      safe_finalize host hfinal services deadline
    exact stable_safe.write host fun w h hw => hw.stored hfinal ⟨by simp, by simp⟩ _ h

theorem safe_networkRollback (hD : D [] ≠ none) (automatic : Bool) :
    Triple (Safe D id) (host.networkRollback automatic) (fun _ => Safe D id)
      (fun _ => Safe D id) (Safe (H := H) D id) := by
  refine safe_requireUnfinished host _ fun t ht => ?_
  refine safe_orCorrupted ht _ fun services deadline => ?_
  refine Triple.ite (fun _ => Triple.fail _ fun w hw => hw) fun _ => ?_
  refine (safe_mark host ht ⟨by decide, by decide⟩ _).bind fun _ => ?_
  have hinner : Triple (Safe D id)
      (host.rollbackNetworkInner t (.ofId id services deadline) automatic)
      (fun _ => Safe D id) (fun _ => Safe D id) (Safe (H := H) D id) := by
    unfold Host.rollbackNetworkInner
    rw [ht.operation]
    refine Triple.bind (Q := fun _ => Home D id) ?_ fun _ => ?_
    · exact safe_rollbackReinitInner host hD ht
    · refine Triple.strengthen (P := Safe D id) ?_ fun w hw => .inl hw
      exact (safe_step inferInstance).bind fun _ => safe_step inferInstance
  refine hinner.attempt.bind fun r => ?_
  cases r with
  | ok _ => exact safe_mark host ht ⟨by decide, by decide⟩ _
  | error e =>
    refine Triple.bind (Q := fun _ => Safe D id) ?_ fun call => ?_
    · unfold Host.failedCall
      exact safe_step inferInstance
    · refine Triple.bind (Q := fun _ => Safe D id) ?_ fun _ => Triple.fail e fun w hw => hw
      exact (safe_mark host ht ⟨by decide, by decide⟩ _).ignore

end Commands

section Reinit

variable (host : Host H)

structure Before (D : Files Document) (id : String) (w : World H) : Prop where
  home : Home D id w
  own : Own id w

structure Underway (D : Files Document) (id : String) (w : World H) : Prop where
  safe : Safe D id w
  own : Own id w

theorem stable_before : Stable id (Before (H := H) D id) :=
  ⟨fun _ _ h hw => ⟨hw.home.spared h, h.own hw.own⟩⟩

theorem stable_underway : Stable id (Underway (H := H) D id) :=
  ⟨fun _ _ h hw => ⟨hw.safe.spared h, h.own hw.own⟩⟩

theorem Before.underway {w : World H} (h : Before D id w) : Underway D id w :=
  ⟨.inl h.home, h.own⟩

theorem before_step {p : Flow H α} (hp : Within (Spared id) p) :
    Triple (Before D id) p (fun _ => Before D id) (fun _ => Underway D id) (Safe D id) :=
  (stable_before.step hp).ends (fun _ _ h => h.underway)
    fun _ h => .inl h.home

theorem underway_step {p : Flow H α} (hp : Within (Spared id) p) :
    Triple (Underway D id) p (fun _ => Underway D id) (fun _ => Underway D id) (Safe D id) :=
  (stable_underway.step hp).ends (fun _ _ h => h)
    fun _ h => h.safe

theorem own_read {P : World H → Prop} {Q : Unit → World H → Prop}
    {E : InstallError → World H → Prop} {C : World H → Prop} {f : TransactionFile → Flow H Unit}
    (hP : ∀ w, P w → Own id w)
    (hf : ∀ t, Recorded id t → t.phase = .preparing → Triple P (f t) Q E C) :
    Triple P (Host.getTransaction >>= f) Q E C :=
  fun w hw => hf w.locals.transaction (hP w hw).recorded (hP w hw).phase w hw

theorem before_mark (phase : Phase) :
    Triple (Before D id) (host.mark phase)
      (fun _ w => Before D id w ∧ ∀ t, w.transaction = some t → t.phase = phase)
      (fun _ => Underway D id) (Safe (H := H) D id) := by
  refine own_read (fun w hw => hw.own) fun t ht _ => ?_
  have hst : ∀ (w : World H) (h : H), Before D id w →
      Before D id (Host.stored w .markPhase { t with phase := phase } h) := fun w h hw =>
    ⟨hw.home.stored (ht.withPhase phase) _ h, hw.own.recorded, hw.own.phase⟩
  refine (before_step inferInstance).bind fun _ => ?_
  refine host.triple_writeTransaction _ _ ?_ ?_ ?_ ?_
  · intro w h hw
    refine ⟨hst w h hw, fun u hu => ?_⟩
    obtain rfl : { t with phase := phase } = u := Option.some.inj hu
    rfl
  · intro w e h hw
    exact (stable_before.spared w _ (.of_host w h) hw).underway
  · intro w h hw
    exact .inl (hst w h hw).home
  · intro w h hw
    exact .inl (hw.home.spared (.of_host w h))

theorem before_persist (call : Call) :
    Triple (Before D id) (host.persistOwn call) (fun _ => Before D id)
      (fun _ => Underway D id) (Safe (H := H) D id) := by
  refine own_read (fun w hw => hw.own) fun t ht _ => ?_
  refine (stable_before.write host fun w h hw =>
    ⟨hw.home.stored ht call h, hw.own.recorded, hw.own.phase⟩).ends (fun _ _ h => h.underway)
      fun _ h => .inl h.home

theorem underway_mark {phase : Phase} (hp : phase ≠ .prepared ∧ phase ≠ .stopping) :
    Triple (Underway D id) (host.mark phase) (fun _ => Underway D id)
      (fun _ => Underway D id) (Safe (H := H) D id) := by
  refine own_read (fun w hw => hw.own) fun t ht _ => ?_
  refine (stable_underway.mark host fun w h hw =>
    ⟨hw.safe.stored (ht.withPhase phase) hp _ h, hw.own.recorded, hw.own.phase⟩).ends
      (fun _ _ h => h) fun _ h => h.safe

theorem underway_persist (call : Call) :
    Triple (Underway D id) (host.persistOwn call) (fun _ => Underway D id)
      (fun _ => Underway D id) (Safe (H := H) D id) := by
  refine own_read (fun w hw => hw.own) fun t ht hphase => ?_
  have hp : t.phase ≠ .prepared ∧ t.phase ≠ .stopping := by
    rw [hphase]
    exact ⟨by decide, by decide⟩
  refine (stable_underway.write host fun w h hw =>
    ⟨hw.safe.stored ht hp call h, hw.own.recorded, hw.own.phase⟩).ends (fun _ _ h => h)
      fun _ h => h.safe

structure Gone (D : Files Document) (id : String) (w : World H) : Prop where
  away : Away D id w
  own : Own id w

theorem Gone.underway {w : World H} (h : Gone D id w) : Underway D id w := ⟨.inr h.away, h.own⟩

theorem Own.locals {w w' : World H} (h : LocalsKept w w') (hw : Own id w) : Own id w' := by
  obtain ⟨hr, hp⟩ := hw
  rw [← show w'.locals = w.locals from h] at hr hp
  exact ⟨hr, hp⟩

theorem gone_perform (act : Act α) (ht : ∀ r ∈ act.touches, Apart r (Layout.previousData id))
    (hc : ∀ r ∈ act.creates, ¬ Layout.previousData id <+: r) :
    Triple (Gone D id) (host.perform act) (fun _ => Gone D id) (fun _ => Underway D id)
      (Safe (H := H) D id) := by
  have hkept : Within LocalsKept (host.perform act) := inferInstance
  exact (hkept.frame (fun _ _ h hw => Own.locals h hw) (away_perform host act ht hc)).consequence
    (fun _ h => ⟨h.away, h.own⟩) (fun _ _ h => ⟨h.1, h.2⟩) (fun _ _ h => ⟨.inr h.1, h.2⟩)
    fun _ h => .inr h.1

theorem gone_createData :
    Triple (Gone D id) (host.perform (.createDirAll Layout.data)) (fun _ => Gone D id)
      (fun _ => Underway D id) (Safe (H := H) D id) :=
  gone_perform host _ (by simp [Act.touches, Act.area])
    (by simp [Act.creates, data_apart_previous.2])

theorem ready_step {α : Type} {p : Flow H α} (hp : Within (Spared id) p) :
    Triple (fun w => Before D id w ∧ ∀ t, w.transaction = some t → t.phase = .activating) p
      (fun _ w => Before D id w ∧ ∀ t, w.transaction = some t → t.phase = .activating)
      (fun _ => Underway D id) (Safe D id) := by
  have hready : Stable id (fun w : World H => Before D id w ∧
      ∀ t, w.transaction = some t → t.phase = .activating) :=
    ⟨fun w w' h hw => ⟨stable_before.spared w w' h hw.1, fun t ht =>
      hw.2 t (h.silent.transaction ▸ ht)⟩⟩
  exact (hready.step hp).ends (fun _ _ h => h.1.underway) fun _ h => .inl h.1.home

theorem before_moveDataAside (hD : D [] ≠ none) :
    Triple (fun w => Before D id w ∧ ∀ t, w.transaction = some t → t.phase = .activating)
      (host.moveDataAside Layout.data (Layout.previousData id)) (fun _ => Gone D id)
      (fun _ => Underway D id) (Safe (H := H) D id) := by
  refine (ready_step inferInstance).bind fun _ => ?_
  refine Triple.bind (Q := fun _ => Gone D id) ?_ fun _ => gone_createData host
  have hkept : Within LocalsKept (host.setAside Layout.data (Layout.previousData id)) := by
    unfold Host.setAside
    infer_instance
  exact (hkept.frame (fun _ _ h hw => Own.locals h hw) (home_setAside host hD)).consequence
    (fun _ h => ⟨⟨h.1.home, h.2⟩, h.1.own⟩) (fun _ _ h => ⟨h.1, h.2⟩)
    (fun _ _ h => ⟨h.1, h.2⟩) fun _ h => h.1

theorem before_startAfresh (hD : D [] ≠ none) (config : String) :
    Triple (fun w => Before D id w ∧ ∀ t, w.transaction = some t → t.phase = .activating)
      (host.startAfresh id config) (fun _ => Underway D id) (fun _ => Underway D id)
      (Safe (H := H) D id) := by
  refine (ready_step inferInstance).bind fun _ => ?_
  refine (before_moveDataAside host hD).bind fun _ => ?_
  refine Triple.bind (Q := fun _ => Gone D id) ?_ fun _ => ?_
  · refine (gone_createData host).bind fun _ => gone_perform host _ ?_ (by simp [Act.creates])
    have happart : Apart (Layout.data ++ ["landscape_init.toml"]) (Layout.previousData id) :=
      (data_apart_previous.symm.append_right _).symm
    simp [Act.touches, happart]
  refine Triple.strengthen (P := Underway D id) ?_ fun w hw => hw.underway
  refine (underway_step inferInstance).bind fun _ => (underway_step inferInstance).bind fun _ => ?_
  refine (underway_mark host ⟨by decide, by decide⟩).bind fun _ => ?_
  exact (underway_step inferInstance).bind fun _ => underway_step inferInstance

theorem underway_armReinit (state : InstallState) (timeout : ℕ) :
    Triple (Underway D id) (host.armReinit state id timeout) (fun _ => Safe D id)
      (fun _ => Underway D id) (Safe (H := H) D id) := by
  unfold Host.armReinit Host.prepareTakeover
  refine (underway_step inferInstance).bind fun m => ?_
  refine Triple.bind (Q := fun n w => Underway D id w ∧
    ∃ services deadline, n = .ofId id services deadline) ?_ fun n => ?_
  · refine (underway_step inferInstance).bind fun _ => (underway_step inferInstance).bind
      fun services => (underway_step inferInstance).bind fun now => ?_
    exact Triple.pure _ fun w hw => ⟨hw, services, now + timeout, rfl⟩
  rintro w ⟨hw, services, deadline, rfl⟩
  refine Triple.bind (P := Underway D id) (Q := fun _ => Underway D id) (E := fun _ => Underway D id)
    (C := Safe D id) ?_ (fun _ => ?_) w hw
  · refine Triple.modify _ fun w hw => ⟨hw.safe.spared ⟨⟨rfl, rfl⟩, fun _ _ => rfl, fun _ => ?_⟩, ?_⟩
    all_goals
      refine ⟨⟨hw.own.recorded.ident, hw.own.recorded.operation, fun n hn => ?_⟩, hw.own.phase⟩
      exact ⟨services, deadline, (Option.some.inj hn).symm⟩
  refine (underway_persist host .takeoverPersist).bind fun _ => ?_
  refine (underway_step inferInstance).bind fun _ => (underway_step inferInstance).bind fun _ => ?_
  exact (underway_mark host ⟨by decide, by decide⟩).consequence (fun _ h => h)
    (fun _ _ h => h.safe) (fun _ _ h => h) fun _ h => h

theorem before_protect (state : InstallState) (allow : Bool) :
    Triple (Before D id) (host.protect state allow) (fun _ => Before D id)
      (fun _ => Underway D id) (Safe (H := H) D id) := by
  have hstage : Triple (Before D id) (host.createProtectionBackup state)
      (fun _ => Before D id) (fun _ => Before D id) (Safe (H := H) D id) :=
    (stable_before.step inferInstance).ends (fun _ _ h => h) fun _ h => .inl h.home
  refine hstage.attempt.bind fun r => ?_
  cases r with
  | ok _ => exact Triple.pure _ fun w hw => hw
  | error e =>
    refine Triple.ite (fun _ => ?_) fun _ => ?_
    · exact before_step (Spared.setTransaction
        (fun t ht => ⟨ht.ident, ht.operation, ht.network⟩) fun _ => rfl)
    · refine Triple.bind (Q := fun _ => Underway D id) ?_ fun _ => Triple.fail e fun w hw => hw
      refine Triple.ignore ?_
      exact (underway_mark host ⟨by decide, by decide⟩).strengthen fun w hw => hw.underway

theorem before_begin :
    Triple (Before D id) host.beginOwn (fun _ => Before D id) (fun _ => Underway D id)
      (Safe (H := H) D id) := by
  refine own_read (fun w hw => hw.own) fun t ht _ => ?_
  unfold Host.beginTransaction
  split
  · exact Triple.fail _ fun w hw => hw.underway
  refine ((host.triple_findUnfinished (P := Before D id) fun w h hw =>
    stable_before.spared w _ (.of_host w h) hw).consequence (fun _ h => h) (fun _ _ h => h.1)
    (fun _ _ h => h.underway) fun _ h => .inl h.home).bind fun r => ?_
  cases r with
  | some u => exact Triple.fail _ fun w hw => hw.underway
  | none =>
    refine (before_step inferInstance).bind fun _ => ?_
    refine (stable_before.write host fun w h hw =>
      ⟨hw.home.stored ht .begin h, hw.own.recorded, hw.own.phase⟩).ends (fun _ _ h => h.underway)
        fun _ h => .inl h.home

/-- What a reinit starts from: an installation with data, and nothing under the id of the
transaction yet. -/
structure Start (D : Files Document) (id : String) (d : Disk) : Prop where
  data : d.machine.files.subtree Layout.data = D
  previous : d.machine.files (Layout.previousData id) = none
  transaction : d.transaction = none

theorem safe_reinitInstallation (hD : D [] ≠ none) (state : InstallState) (config : String)
    (allow : Bool) (timeout : ℕ) :
    Triple (fun w => Start D id w.disk) (host.reinitInstallation state id config allow timeout)
      (fun _ => Safe D id) (fun _ => Safe D id) (Safe (H := H) D id) := by
  refine Triple.bind (Q := fun _ => Before D id) ?_ fun _ => ?_
  · refine Triple.modify _ fun w hw => ⟨⟨hw.previous, hw.data, fun t ht => ?_⟩,
      ⟨rfl, rfl, fun n hn => ?_⟩, rfl⟩
    · exact absurd (hw.transaction.symm.trans ht) (by simp)
    · simp [TransactionFile.newReinit, TransactionFile.blank] at hn
  have hsafe : ∀ {p : Flow H Unit} {P Q : World H → Prop},
      Triple P p (fun _ => Q) (fun _ => Underway D id) (Safe D id) →
        Triple P p (fun _ => Q) (fun _ => Safe D id) (Safe D id) := fun h =>
    h.ends (fun _ _ h => h.safe) fun _ h => h
  refine (hsafe (before_begin host)).bind fun _ => ?_
  refine Triple.bind (Q := fun _ => Before D id) (hsafe ?_) fun _ => ?_
  · unfold Host.prepareReinit
    refine (before_protect host state allow).bind fun _ => (before_persist host _).bind
      fun _ => ?_
    refine (before_step inferInstance).bind fun _ => (before_persist host _).bind fun _ => ?_
    refine (before_step inferInstance).bind fun _ => (before_step inferInstance).bind fun _ => ?_
    refine (before_step inferInstance).bind fun _ => ?_
    exact (before_mark host .prepared).consequence (fun _ h => h) (fun _ _ h => h.1)
      (fun _ _ h => h) fun _ h => h
  refine Host.triple_withErrorPath (A := fun _ => Underway D id) ?_ fun _ => ?_
  · unfold Host.reinitBlock
    refine Triple.bind (Q := fun _ => Before D id) ?_ fun _ => ?_
    · exact (before_mark host .stopping).consequence (fun _ h => h) (fun _ _ h => h.1)
        (fun _ _ h => h) fun _ h => h
    refine (before_step inferInstance).bind fun _ => (before_mark host .activating).bind
      fun _ => ?_
    refine Triple.bind (Triple.modify _ fun w hw => ?_) fun _ =>
      (before_startAfresh host hD config).bind fun _ => underway_armReinit host state timeout
    exact ⟨⟨⟨hw.1.home.previous, hw.1.home.data, hw.1.home.recorded⟩,
      hw.1.own.recorded, hw.1.own.phase⟩, hw.2⟩
  · unfold Host.abandonReinit
    refine ((underway_step inferInstance).ends
      (fun _ _ h => h.safe) fun _ h => h).bind fun activated => ?_
    refine own_read (fun w hw => hw.own) fun t ht _ => Triple.ite (fun _ => ?_) fun _ => ?_
    · refine Triple.ignore ?_
      exact (safe_rollbackReinit host hD ht).strengthen fun w hw => hw.safe
    · refine hsafe ?_
      refine (underway_step inferInstance).bind fun t => ?_
      refine (underway_step inferInstance).bind fun _ => Triple.ignore ?_
      exact (underway_mark host ⟨by decide, by decide⟩).consequence (fun _ h => h)
        (fun _ _ h => h.safe) (fun _ _ h => h.safe) fun _ h => h

end Reinit

section Obliging

variable (host : Host H) [hob : host.Obliging]

def Returned (D : Files Document) (id : String) (w : World H) : Prop :=
  ∀ t, w.transaction = some t → t.phase = .rolledBack ∨ t.phase = .failed → Home D id w

theorem Home.returned {w : World H} (h : Home D id w) : Returned D id w := fun _ _ _ => h

theorem returned_of_open {w : World H}
    (hw : ∀ u, w.transaction = some u → u.phase.isTerminal = false) : Returned D id w := by
  intro u hu hp
  have hterm := hw u hu
  rcases hp with hp | hp <;> exact absurd (hp ▸ hterm) (by decide)

theorem returned_rollbackReinit (hD : D [] ≠ none) {t : TransactionFile} (ht : Recorded id t) :
    Triple (fun w => Safe D id w ∧ ∀ u, w.transaction = some u → u.phase.isTerminal = false)
      (host.rollbackReinit t) (fun _ => Returned D id) (fun _ => Returned D id)
      (Returned (H := H) D id) := by
  have hlog : Within (Spared id) (host.check .appendLog) := inferInstance
  refine Triple.bind (Q := fun _ => Safe D id) ?_ fun _ => ?_
  · -- the mark itself may be refused, and then the file is not terminal
    refine Triple.bind (Q := fun _ w => Safe D id w ∧
      ∀ u, w.transaction = some u → u.phase.isTerminal = false) ?_ fun _ => ?_
    · refine (hlog.triple fun w w' h hw => ⟨hw.1.spared h, fun u hu => ?_⟩).ends
        (fun _ w h => returned_of_open h.2) fun w h => returned_of_open h.2
      exact hw.2 u (h.silent.transaction ▸ hu)
    · have hstored : ∀ (w : World H) (h : H), Returned D id
          (Host.stored w .markPhase { t with phase := .rollingBack } h) := by
        intro w h u hu hp
        obtain rfl : { t with phase := .rollingBack } = u := Option.some.inj hu
        simp at hp
      refine host.triple_writeTransaction _ _ ?_ ?_ ?_ ?_
      · intro w h hw
        exact hw.1.stored (ht.withPhase .rollingBack) ⟨by simp, by simp⟩ _ h
      · intro w e h hw
        exact returned_of_open hw.2
      · intro w h hw
        exact hstored w h
      · intro w h hw
        exact returned_of_open hw.2
  have hinner : Triple (Safe D id) (host.rollbackReinitInner t) (fun _ => Home D id)
      (fun _ => Home D id) (Home (H := H) D id) := by
    unfold Host.rollbackReinitInner
    refine ((Host.Obliging.stopAndWait host).triple (safe_step inferInstance)).bind fun _ => ?_
    refine ((Host.Obliging.resolvRestore host _).triple (safe_step inferInstance)).bind
      fun _ => ?_
    refine Triple.bind (Q := fun _ => Home D id) ?_ fun _ => home_afterRestore host ht
    rw [ht.ident]
    exact safe_restorePreviousData host hD fun act _ _ h =>
      (Host.Obliging.perform host act).triple h
  refine (hinner.attempt.ends (fun _ _ h => h) fun _ h => h.returned).bind fun r => ?_
  cases r with
  | ok _ => exact Triple.pure _ fun w hw => Home.returned hw
  | error e =>
    refine Triple.bind (Q := fun _ => Home D id) ?_ fun _ =>
      Triple.fail e fun w hw => Home.returned hw
    refine ((home_mark host ht .failed .markPhase).ignore).ends (fun _ _ h => h)
      fun _ h => Home.returned h

theorem returned_recover (hD : D [] ≠ none) {d : Disk} {t : TransactionFile}
    (ht : d.transaction = some t) (hterm : t.phase.isTerminal = false) (h : H)
    (hsafe : Safe D id (d.boot h)) (hx : ¬ Exposed id d) :
    Returned D id (host.recoverInterrupted (d.boot h)).2 := by
  have hP : Stable id (fun w : World H => (Safe D id w ∧ ¬ Exposed id w.disk) ∧
      ∀ u, w.transaction = some u → u.phase.isTerminal = false) :=
    ⟨fun w w' h hw => ⟨stable_unexposed.spared w w' h hw.1, fun u hu =>
      hw.2 u (h.silent.transaction ▸ hu)⟩⟩
  have hrun : Triple (fun w : World H => (Safe D id w ∧ ¬ Exposed id w.disk) ∧
      ∀ u, w.transaction = some u → u.phase.isTerminal = false) host.recoverInterrupted
      (fun _ => Returned D id) (fun _ => Returned D id) (Returned D id) := by
    refine recover_triple host hP (fun w hw => returned_of_open hw.2) (fun w hw => hw.1.1.recorded)
      fun u hu hterm => ?_
    refine recoverReinit_triple host hu hterm ?_ (fun w hw => hw.returned)
      (fun w hw => returned_of_open hw.1.2) ?_
    · intro hp w hw
      exact hw.1.1.1.home_of_early hD hw.1.1.2 hw.2 hp
    · exact (returned_rollbackReinit host hD hu).strengthen fun w hw => ⟨hw.1.1.1, hw.1.2⟩
  refine hrun.always (s := d.boot h) ⟨⟨hsafe, hx⟩, fun u hu => ?_⟩
  obtain rfl : t = u := Option.some.inj (ht.symm.trans hu)
  exact hterm

end Obliging

/-- The disks of a reinit and of the commands that follow it. A recovery only starts from a
disk that `allowed` admits. -/
inductive Reached (state : InstallState) (id config : String) (allow : Bool) (timeout : ℕ)
    (start : Disk) (allowed : Disk → Prop) : Disk → Prop
  | reinit {H : Type} (host : Host H) (h : H) :
    Reached state id config allow timeout start allowed
      (start.after (host.reinitInstallation state id config allow timeout) h)
  | recovered {H : Type} (host : Host H) (h : H) {d : Disk} :
    Reached state id config allow timeout start allowed d → allowed d →
      Reached state id config allow timeout start allowed (d.after host.recoverInterrupted h)
  | confirmed {H : Type} (host : Host H) (h : H) {d : Disk} :
    Reached state id config allow timeout start allowed d →
      Reached state id config allow timeout start allowed (d.after host.confirm h)
  | rolledBack {H : Type} (host : Host H) (h : H) (automatic : Bool) {d : Disk} :
    Reached state id config allow timeout start allowed d →
      Reached state id config allow timeout start allowed
        (d.after (host.networkRollback automatic) h)

def Kept (D : Files Document) (id : String) (files : Files Document) : Prop :=
  files.subtree Layout.data = D ∨ files.subtree (Layout.previousData id) = D

section Runs

variable {state : InstallState} {config : String} {allow : Bool} {timeout : ℕ} {start d : Disk}

theorem Safe.boot {H' : Type} {w : World H} (h : Safe D id w) (h' : H') :
    Safe D id (w.disk.boot h') :=
  h.imp (fun h => ⟨h.previous, h.data, h.recorded⟩) fun h => ⟨h.previous, h.recorded, h.late⟩

theorem Reached.safe (hD : D [] ≠ none) (hs : Start D id start)
    (hd : Reached state id config allow timeout start (fun d => ¬ Exposed id d) d) {H' : Type}
    (h' : H') : Safe D id (d.boot h') := by
  induction hd generalizing H' with
  | reinit host h =>
    exact ((safe_reinitInstallation host hD state config allow timeout).always
      (s := start.boot h) hs).boot h'
  | recovered host h _ hx ih =>
    exact ((safe_recover host hD).always ⟨ih h, hx⟩).boot h'
  | confirmed host h _ ih => exact ((safe_confirm host).always (ih h)).boot h'
  | rolledBack host h automatic _ ih =>
    exact ((safe_networkRollback host hD automatic).always (ih h)).boot h'

/-- In every run in which no recovery finds the file at `preparing` with the data away, the old
data is never lost; and a recovery that ends the transaction, on a host that carries out
everything, has put it back. -/
theorem reinit_keeps_data (hD : D [] ≠ none) (hs : Start D id start)
    (hd : Reached state id config allow timeout start (fun d => ¬ Exposed id d) d) :
    Kept D id d.machine.files ∧
      ∀ {H : Type} (host : Host H) [host.Obliging] (h : H) (t u : TransactionFile),
        ¬ Exposed id d → d.transaction = some t → t.phase.isTerminal = false →
        (d.after host.recoverInterrupted h).transaction = some u →
        u.phase = .rolledBack ∨ u.phase = .failed →
        (d.after host.recoverInterrupted h).machine.files.subtree Layout.data = D := by
  constructor
  · rcases hd.safe hD hs () with hw | hw
    · exact .inl hw.data
    · exact .inr hw.previous
  · intro H host _ h t u hx ht hterm hu hphase
    have hret := returned_recover host hD ht hterm h (hd.safe hD hs h) hx
    exact (hret u hu hphase).data

end Runs

section Sample

def sampleState : InstallState where
  activeVersion := "1.0.0"
  webserver := ⟨"a", 1⟩
  staticArchive := ⟨"b", 1⟩
  status := .complete
  lockPresent := true
  manager := .systemd
  lastTransactionId := none

def sampleData : Files Document := fun p =>
  if p = [] then some .dir
  else if p = ["landscape.toml"] then some (.file (.text "old"))
  else none

def sampleDisk : Disk where
  machine := {
    files := fun p =>
      if p = Layout.unitOrigin then some (.file (.text "[Unit]"))
      else if Layout.data <+: p then sampleData (p.drop Layout.data.length)
      else none
    units := fun unit => ⟨unit = routerUnit, false, "enabled", true⟩ }
  transaction := none
  writes := []

theorem sampleDisk_start : Start sampleData "id" sampleDisk := by
  refine ⟨funext fun r => ?_, by decide +kernel, rfl⟩
  have hne : Layout.data ++ r ≠ Layout.unitOrigin := by
    simp [Layout.data, Layout.root, Layout.unitOrigin, Layout.service]
  simp [Files.subtree, sampleDisk, hne]

def cutReinit (cuts : {α : Type} → Act α → Bool) : Disk :=
  sampleDisk.after
    ((Host.scripted (fun _ => false) cuts).reinitInstallation sampleState "id" "" true 60) ()

theorem cutReinit_reached (cuts : {α : Type} → Act α → Bool) (allowed : Disk → Prop) :
    Reached sampleState "id" "" true 60 sampleDisk allowed (cutReinit cuts) :=
  .reinit (Host.scripted (fun _ => false) cuts) ()

def cutVerifying : Disk := cutReinit fun act => match act with
  | .check .waitForStartup => true
  | _ => false

def cutRecorded : Disk := cutReinit fun act => match act with
  | .writeFile p _ => p = ["transactions", "id", "pending-install-state.json"]
  | _ => false

/-- After a crash in the health checks the next recovery puts the data back. -/
theorem cutVerifying_returned :
    Kept sampleData "id" cutVerifying.machine.files ∧
      (cutVerifying.after Host.obliging.recoverInterrupted ()).machine.files.subtree
        Layout.data = sampleData := by
  have hreached : Reached sampleState "id" "" true 60 sampleDisk (fun d => ¬ Exposed "id" d)
      cutVerifying := cutReinit_reached _ _
  have hall := reinit_keeps_data (by decide) sampleDisk_start hreached
  have hphase : cutVerifying.transaction.map (fun t => t.phase) = some .verifying := by
    decide +kernel
  obtain ⟨t, ht, hp⟩ := Option.map_eq_some_iff.mp hphase
  have hend : (cutVerifying.after Host.obliging.recoverInterrupted ()).transaction.map
      (fun t => t.phase) = some .rolledBack := by decide +kernel
  obtain ⟨u, hu, hup⟩ := Option.map_eq_some_iff.mp hend
  have hx : ¬ Exposed "id" cutVerifying := fun hx => by
    rw [Exposed, hphase] at hx
    exact absurd hx.1 (by decide)
  exact ⟨hall.1, hall.2 Host.obliging () t u hx ht (by rw [hp]; rfl) hu (.inl hup)⟩

/-- After a crash in between, the next recovery takes the file at its word and removes the
directory that the data is in. -/
theorem reinit_loses_data :
    Start sampleData "id" sampleDisk ∧
      Reached sampleState "id" "" true 60 sampleDisk (fun _ => True)
        (cutRecorded.after Host.obliging.recoverInterrupted ()) ∧
      Exposed "id" cutRecorded ∧
      ¬ Kept sampleData "id"
        (cutRecorded.after Host.obliging.recoverInterrupted ()).machine.files := by
  have hreached : Reached sampleState "id" "" true 60 sampleDisk (fun _ => True) cutRecorded :=
    cutReinit_reached _ _
  have hexposed : Exposed "id" cutRecorded := by decide +kernel
  refine ⟨sampleDisk_start, .recovered Host.obliging () hreached True.intro, hexposed, ?_⟩
  have hdata : (cutRecorded.after Host.obliging.recoverInterrupted ()).machine.files
      (Layout.data ++ ["landscape.toml"]) = none := by decide +kernel
  have hprevious : (cutRecorded.after Host.obliging.recoverInterrupted ()).machine.files
      (Layout.previousData "id" ++ []) = none := by decide +kernel
  generalize (cutRecorded.after Host.obliging.recoverInterrupted ()).machine.files = files
    at hdata hprevious ⊢
  rintro (h | h)
  · have hfile : none = sampleData ["landscape.toml"] := hdata.symm.trans (congrFun h _)
    exact absurd hfile (by decide)
  · have hdir : none = sampleData [] := hprevious.symm.trans (congrFun h _)
    exact absurd hdir (by decide)

end Sample

end LandscapeKit.Deploy.ReinitData
