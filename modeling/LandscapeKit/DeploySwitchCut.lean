import LandscapeKit.DeployRelease

/-!
The recovery of a switch that was cut off before it activated anything (`recover_switch`,
`switch_version`). The recovery removes the directory of the target release; nothing records
whether the switch had built that directory or had found it.
-/

namespace LandscapeKit.Deploy.SwitchCut

open Faults

set_option synthInstance.maxSize 65536

variable {H : Type} {target name : String} {T : Files Document} {old : ℕ}

def isPending : Phase → Bool
  | .preparing | .prepared | .stopping => true
  | _ => false

structure Mine (target : String) (t : TransactionFile) : Prop where
  operation : t.operation = .switch
  release : t.targetRelease = some ["releases", target]
  version : t.targetVersion = some target

def Activated (old : ℕ) (w : World H) : Prop := ∃ x ∈ w.writes.drop old, x.phase = .activating

def WritesGrow (w w' : World H) : Prop := w.writes <+: w'.writes

namespace WritesGrow

instance : Std.Refl (WritesGrow (H := H)) := ⟨fun w => List.prefix_refl w.writes⟩

instance : IsTrans (World H) WritesGrow := ⟨fun _ _ _ h g => List.IsPrefix.trans h g⟩

theorem of_silent {α : Type} {p : Flow H α} (h : Within Silent p) : Within WritesGrow p := by
  refine h.mono fun w w' hw => ?_
  unfold WritesGrow
  rw [hw.writes]

theorem activated {w w' : World H} (h : WritesGrow w w') (hw : Activated old w) :
    Activated old w' := by
  obtain ⟨x, hx, hphase⟩ := hw
  exact ⟨x, (List.IsPrefix.drop h old).subset hx, hphase⟩

variable (host : Host H)

instance : HostFrame WritesGrow host := ⟨fun _ => of_silent inferInstance⟩

instance setActivated : Within WritesGrow (Host.setActivated : Flow H Unit) :=
  of_silent inferInstance

instance writeTransaction (call : Call) (t : TransactionFile) :
    Within WritesGrow (host.writeTransaction call t) := by
  have hgrow : ∀ (ws : List Write) (x : Write), ws <+: ws ++ [x] :=
    fun ws x => List.prefix_append ws [x]
  refine ⟨fun w => ?_⟩
  unfold Host.writeTransaction WritesGrow
  split
  · exact List.prefix_refl _
  · dsimp only
    split
    · exact hgrow _ _
    · exact List.prefix_refl _
    · rename_i b _ _ _
      cases b
      · exact List.prefix_refl _
      · exact hgrow _ _

instance markPhase (t : TransactionFile) (phase : Phase) :
    Within WritesGrow (host.markPhase t phase) := by
  unfold Host.markPhase Host.markPhaseAs
  infer_instance

instance mark (phase : Phase) : Within WritesGrow (host.mark phase) := by
  unfold Host.mark
  infer_instance

instance markFailed : Within WritesGrow host.markFailed := by
  unfold Host.markFailed
  infer_instance

end WritesGrow

/-- Between two writes of the file: the release is left alone, and the workflow's own
transaction stays one of this switch. -/
structure Quiet (target name : String) (w w' : World H) : Prop where
  tree : TreesKept [Layout.release name] w w'
  silent : Silent w w'
  activated : w'.locals.activated = w.locals.activated
  own : Mine target w.locals.transaction → Mine target w'.locals.transaction

namespace Quiet

instance : Std.Refl (Quiet (H := H) target name) :=
  ⟨fun w => ⟨Std.Refl.refl w, Std.Refl.refl w, rfl, fun h => h⟩⟩

instance : IsTrans (World H) (Quiet target name) :=
  ⟨fun _ _ _ h g => ⟨IsTrans.trans _ _ _ h.tree g.tree, IsTrans.trans _ _ _ h.silent g.silent,
    g.activated.trans h.activated, fun ho => g.own (h.own ho)⟩⟩

variable (host : Host H)

theorem of_kept {α : Type} {p : Flow H α} (ht : Within (TreesKept [Layout.release name]) p)
    (hs : Within Silent p) (hl : Within LocalsKept p) : Within (Quiet target name) p := by
  refine ⟨fun w => ⟨ht.rel w, hs.rel w, ?_, ?_⟩⟩
  · rw [hl.rel w]
  · rw [hl.rel w]
    exact fun h => h

instance perform {α : Type} (act : Act α) [act.ClearOf [Layout.release name]] :
    Within (Quiet target name) (host.perform act) :=
  of_kept inferInstance inferInstance inferInstance

instance : ServiceFrame (Quiet (H := H) target name) host :=
  ⟨fun c => perform host (.check c), fun _ _ => inferInstance, fun _ => inferInstance,
    fun _ => inferInstance, fun _ => inferInstance, inferInstance⟩

theorem setTransaction {f : TransactionFile → TransactionFile}
    (h : ∀ t, Mine target t → Mine target (f t)) :
    Within (Quiet target name) (Host.setTransaction f : Flow H Unit) :=
  ⟨fun w => ⟨fun _ _ => rfl, ⟨rfl, rfl⟩, rfl, h w.locals.transaction⟩⟩

end Quiet

section Paths

instance : Off [Layout.release name] Layout.backups := by
  refine ⟨fun q hq => ?_⟩
  obtain rfl := List.mem_singleton.mp hq
  simp [Apart, Layout.release, Layout.releases, Layout.root, Layout.backups]

instance : Off [Layout.release name] Layout.unitOrigin := by
  refine ⟨fun q hq => ?_⟩
  obtain rfl := List.mem_singleton.mp hq
  simp [Apart, Layout.release, Layout.releases, Layout.root, Layout.unitOrigin, Layout.service]

instance (id : String) : Off [Layout.release name] (Layout.resolvBackupDir id) :=
  have _ : Off [Layout.release name] (Layout.backups ++ [id]) := Off.append
  inferInstanceAs (Off _ (Layout.backups ++ [id] ++ ["host", "resolv.conf"]))

end Paths

structure Bystander (target name : String) : Prop where
  release : name ≠ target
  build : name ≠ ".install-" ++ target ++ ".tmp"
  frontend : name ≠ ".frontend-" ++ target ++ ".tmp"

section Switch

variable (host : Host H)

structure Waiting (target name : String) (T : Files Document) (old : ℕ) (w : World H) : Prop where
  tree : w.machine.files.subtree (Layout.release name) = T
  stored : ∀ t, w.transaction = some t → t.phase.isTerminal = true ∨
    (Mine target t ∧ isPending t.phase = true)
  own : Mine target w.locals.transaction
  activated : w.locals.activated = false
  count : old ≤ w.writes.length

theorem Waiting.quiet {w w' : World H} (h : Waiting target name T old w)
    (hw : Quiet target name w w') : Waiting target name T old w' := by
  refine ⟨(hw.tree _ (List.mem_singleton_self _)).trans h.tree, ?_, hw.own h.own,
    hw.activated.trans h.activated, ?_⟩
  · rw [hw.silent.transaction]
    exact h.stored
  · rw [hw.silent.writes]
    exact h.count

theorem Waiting.of_host {w : World H} (hw : Waiting target name T old w) (memory : H) :
    Waiting target name T old { w with host := memory } :=
  ⟨hw.tree, hw.stored, hw.own, hw.activated, hw.count⟩

def Spared (target name : String) (T : Files Document) (old : ℕ) (w : World H) : Prop :=
  Activated old w ∨ Waiting target name T old w

theorem triple_waiting {α : Type} {p : Flow H α} [q : Within (Quiet target name) p] :
    Triple (Waiting target name T old) p (fun _ => Waiting target name T old)
      (fun _ => Waiting target name T old) (Waiting target name T old) :=
  q.triple fun _ _ h hw => hw.quiet h

theorem triple_activated {α : Type} {p : Flow H α} [q : Within WritesGrow p] :
    Triple (Activated old) p (fun _ => Activated old) (fun _ => Activated old) (Activated old) :=
  q.triple fun _ _ h hw => h.activated hw

theorem Waiting.stored_phase {w : World H} (h : Waiting target name T old w) {t : TransactionFile}
    (ht : Mine target t) {phase : Phase} (hp : phase.isTerminal = true ∨ isPending phase = true)
    (call : Call) (memory : H) :
    Waiting target name T old (Host.stored w call { t with phase := phase } memory) := by
  refine ⟨h.tree, fun u hu => ?_, h.own, h.activated, ?_⟩
  · obtain rfl : { t with phase := phase } = u := Option.some.inj hu
    exact hp.imp (fun hp => hp) fun hp => ⟨⟨ht.operation, ht.release, ht.version⟩, hp⟩
  · have hlen : (w.writes ++ [(⟨call, phase⟩ : Write)]).length = w.writes.length + 1 := by simp
    exact h.count.trans (hlen ▸ Nat.le_succ _)

theorem waiting_markPhase {t : TransactionFile} (ht : Mine target t) {phase : Phase}
    (hp : phase.isTerminal = true ∨ isPending phase = true) :
    Triple (Waiting target name T old) (host.markPhase t phase)
      (fun _ => Waiting target name T old) (fun _ => Waiting target name T old)
      (Waiting (H := H) target name T old) := by
  refine Triple.bind triple_waiting fun _ => ?_
  exact host.triple_writeTransaction .markPhase _
    (fun w h hw => hw.stored_phase ht hp .markPhase h) (fun w _ h hw => hw.of_host h)
    (fun w h hw => hw.stored_phase ht hp .markPhase h) fun w h hw => hw.of_host h

theorem waiting_mark {phase : Phase} (hp : phase.isTerminal = true ∨ isPending phase = true) :
    Triple (Waiting target name T old) (host.mark phase) (fun _ => Waiting target name T old)
      (fun _ => Waiting target name T old) (Waiting (H := H) target name T old) :=
  fun w hw => waiting_markPhase host hw.own hp w hw

theorem waiting_mark_activating :
    Triple (Waiting target name T old) (host.mark .activating) (fun _ => Activated old)
      (fun _ => Waiting target name T old) (Spared (H := H) target name T old) := by
  intro w hw
  have hwritten : ∀ (w : World H) (t : TransactionFile) (h : H), Waiting target name T old w →
      Activated old (Host.stored w .markPhase { t with phase := .activating } h) := by
    intro w t h hw
    refine ⟨⟨.markPhase, .activating⟩, ?_, rfl⟩
    change _ ∈ (w.writes ++ [(⟨.markPhase, .activating⟩ : Write)]).drop old
    rw [List.drop_append_of_le_length hw.count]
    exact List.mem_append_right _ (List.mem_singleton_self _)
  have hmark : Triple (Waiting target name T old)
      (host.markPhase w.locals.transaction .activating) (fun _ => Activated old)
      (fun _ => Waiting target name T old) (Spared (H := H) target name T old) := by
    refine Triple.bind (triple_waiting.ends (fun _ _ h => h)
      fun _ h => .inr h) fun _ => ?_
    exact host.triple_writeTransaction .markPhase _ (fun w h hw => hwritten w _ h hw)
      (fun w _ h hw => hw.of_host h) (fun w h hw => .inl (hwritten w _ h hw))
      fun w h hw => .inr (hw.of_host h)
  exact hmark w hw

theorem quiet_prepareSwitch (build : Flow H (Asset × Asset)) [Within (Quiet target name) build]
    (state : InstallState) (id : String) (isSystemd stopped : Bool) :
    Within (Quiet target name) (host.prepareSwitchWith build state id isSystemd stopped) := by
  have hset : ∀ f : TransactionFile → TransactionFile,
      (∀ t, (f t).operation = t.operation ∧ (f t).targetRelease = t.targetRelease ∧
        (f t).targetVersion = t.targetVersion) →
      Within (Quiet target name) (Host.setTransaction f : Flow H Unit) := by
    intro f hf
    apply Quiet.setTransaction
    intro t ht
    obtain ⟨ho, hr, hv⟩ := hf t
    exact ⟨ho.trans ht.operation, hr.trans ht.release, hv.trans ht.version⟩
  have hexport : Within (Quiet target name) (host.exportAndBackup state) := by
    unfold Host.exportAndBackup
    refine Within.andThen inferInstance fun _ => Within.andThen inferInstance fun exported => ?_
    split
    · infer_instance
    · exact Within.andThen inferInstance fun backup => hset _ fun t => ⟨rfl, rfl, rfl⟩
  have hrecord : Within (Quiet target name) (host.recordBefore id) := by
    unfold Host.recordBefore
    refine Within.andThen inferInstance fun before => ?_
    refine Within.andThen (hset _ fun t => ⟨rfl, rfl, rfl⟩) fun _ => ?_
    exact Within.andThen inferInstance fun _ => hset _ fun t => ⟨rfl, rfl, rfl⟩
  have hsnapshot : Within (Quiet target name) (host.writeStateSnapshot id state) :=
    Quiet.of_kept inferInstance inferInstance inferInstance
  unfold Host.prepareSwitchWith
  infer_instance

theorem waiting_stopForSwitch (isSystemd : Bool) :
    Triple (Waiting target name T old) (host.stopForSwitch isSystemd)
      (fun _ => Waiting target name T old) (fun _ => Waiting target name T old)
      (Waiting (H := H) target name T old) := by
  unfold Host.stopForSwitch
  apply Triple.ite
  · intro _
    exact (waiting_mark host (Or.inr rfl)).bind fun _ => triple_waiting
  · intro _
    have hask : Within (Quiet target name) host.askToStop := by
      unfold Host.askToStop
      infer_instance
    exact triple_waiting

theorem grow_activation (state : InstallState) (id target : String) (isSystemd : Bool)
    (built : Asset × Asset) : Within WritesGrow (do
      Host.setActivated
      host.activateCurrent target
      Prog.onlyIf isSystemd host.registerStartAndVerify
      host.commitSwitch state target id built) := by
  unfold Host.activateCurrent Host.registerStartAndVerify Host.startAndVerify Host.commitSwitch
    Host.commit
  infer_instance

theorem spared_switchBlock (build : Flow H (Asset × Asset)) [Within (Quiet target name) build]
    (state : InstallState) (id : String) (isSystemd stopped : Bool) :
    Triple (Waiting target name T old)
      (host.switchBlockWith build state id target isSystemd stopped)
      (fun _ => Spared target name T old) (fun _ => Spared target name T old)
      (Spared (H := H) target name T old) := by
  have hwait : ∀ {p : Flow H Unit}, Triple (Waiting target name T old) p
      (fun _ => Waiting target name T old) (fun _ => Waiting target name T old)
      (Waiting target name T old) →
      Triple (Waiting target name T old) p (fun _ => Waiting target name T old)
        (fun _ => Spared target name T old) (Spared target name T old) :=
    fun h => h.ends (fun _ _ h => .inr h) fun _ h => .inr h
  have hprepare : Within (Quiet target name)
      (host.prepareSwitchWith build state id isSystemd stopped) :=
    quiet_prepareSwitch host build state id isSystemd stopped
  refine Triple.bind (triple_waiting.ends (fun _ _ h => .inr h) fun _ h => .inr h) fun built => ?_
  refine (hwait (waiting_mark host (Or.inr rfl))).bind fun _ => ?_
  refine (hwait (waiting_stopForSwitch host isSystemd)).bind fun _ => ?_
  refine ((waiting_mark_activating host).ends (fun _ _ h => .inr h) fun _ h => h).bind fun _ => ?_
  have hrest := grow_activation host state id target isSystemd built
  exact triple_activated.consequence (fun _ h => h) (fun _ _ h => .inl h) (fun _ _ h => .inl h)
    fun _ h => .inl h

theorem spared_abandonSwitch (state : InstallState) (isSystemd : Bool) :
    Triple (Spared target name T old) (host.abandonSwitch state isSystemd)
      (fun _ => Spared target name T old) (fun _ => Spared target name T old)
      (Spared (H := H) target name T old) := by
  rintro w (hw | hw)
  · have hroll : Within WritesGrow (host.rollbackFailedSwitch state) := by
      have hcheck : ∀ t c, Within WritesGrow (host.healthOrFailed t c) := by
        intro t c
        unfold Host.healthOrFailed
        refine Within.andThen inferInstance fun r => ?_
        split <;> infer_instance
      have hswitch : ∀ t, Within WritesGrow (host.rollbackSwitch t state) := by
        intro t
        unfold Host.rollbackSwitch Host.verifyRestored Host.commitRollback
        infer_instance
      have hplain : ∀ t, Within WritesGrow (host.rollbackNoBackup t state) := by
        intro t
        unfold Host.rollbackNoBackup
        infer_instance
      unfold Host.rollbackFailedSwitch
      infer_instance
    have hbefore : Within WritesGrow host.abandonBeforeActivation := by
      unfold Host.abandonBeforeActivation
      infer_instance
    have hpath : Within WritesGrow (host.abandonSwitch state isSystemd) := by
      unfold Host.abandonSwitch
      infer_instance
    exact (triple_activated.consequence (fun _ h => h) (fun _ _ h => .inl h)
      (fun _ _ h => .inl h) fun _ h => .inl h) w hw
  · have hbefore : Triple (Waiting target name T old) host.abandonBeforeActivation
        (fun _ => Waiting target name T old) (fun _ => Waiting target name T old)
        (Waiting (H := H) target name T old) := by
      have hfailed : Triple (Waiting target name T old) host.markFailed
          (fun _ => Waiting target name T old) (fun _ => Waiting target name T old)
          (Waiting (H := H) target name T old) :=
        Triple.ignore (waiting_mark host (Or.inl rfl))
      refine Triple.bind (Q := fun _ => Waiting target name T old) triple_waiting fun t => ?_
      exact Triple.bind triple_waiting fun _ => hfailed
    have hpath : Triple (Waiting target name T old) (host.abandonSwitch state isSystemd)
        (fun _ => Waiting target name T old) (fun _ => Waiting target name T old)
        (Waiting (H := H) target name T old) := by
      refine Host.triple_getActivated (fun w hw => hw.activated) ?_
      rw [Bool.and_false, if_neg Bool.false_ne_true]
      exact hbefore
    exact (hpath.consequence (fun _ h => h) (fun _ _ h => .inr h) (fun _ _ h => .inr h)
      fun _ h => .inr h) w hw

structure Found (target name : String) (T : Files Document) (w : World H) : Prop where
  tree : w.machine.files.subtree (Layout.release name) = T
  stored : ∀ t, w.transaction = some t → t.phase.isTerminal = true ∨
    (Mine target t ∧ isPending t.phase = true)

def Left (target name : String) (T : Files Document) (old : ℕ) (w : World H) : Prop :=
  Activated old w ∨ Found target name T w

theorem Spared.left {w : World H} (h : Spared target name T old w) :
    Left target name T old w :=
  h.imp (fun h => h) fun h => ⟨h.tree, h.stored⟩

theorem Waiting.left {w : World H} (h : Waiting target name T old w) : Left target name T old w :=
  .inr ⟨h.tree, h.stored⟩

structure Unbegun (name : String) (T : Files Document) (old : ℕ) (w : World H) : Prop where
  tree : w.machine.files.subtree (Layout.release name) = T
  stored : ∀ t, w.transaction = some t → t.phase.isTerminal = true
  count : old ≤ w.writes.length

theorem Unbegun.left {w : World H} (h : Unbegun name T old w) : Left target name T old w :=
  .inr ⟨h.tree, fun t ht => .inl (h.stored t ht)⟩

theorem triple_unbegun (target : String) {α : Type} {p : Flow H α}
    [q : Within (Quiet target name) p] :
    Triple (Unbegun name T old) p (fun _ => Unbegun name T old)
      (fun _ => Left target name T old) (Left target name T old) := by
  have hframe : ∀ w w' : World H, Quiet target name w w' → Unbegun name T old w →
      Unbegun name T old w' := by
    intro w w' hw h
    refine ⟨(hw.tree _ (List.mem_singleton_self _)).trans h.tree, ?_, ?_⟩
    · rw [hw.silent.transaction]
      exact h.stored
    · rw [hw.silent.writes]
      exact h.count
  exact (q.triple hframe).ends (fun _ _ h => h.left)
    fun _ h => h.left

theorem unbegun_begin (target : String) {t : TransactionFile} (ht : Mine target t)
    (hp : t.phase = .preparing) :
    Triple (fun w => Unbegun name T old w ∧ w.locals = ⟨t, false, false⟩) host.beginOwn
      (fun _ => Waiting target name T old) (fun _ => Left target name T old)
      (Left (H := H) target name T old) := by
  have hfind : Triple (fun w => Unbegun name T old w ∧ w.locals = ⟨t, false, false⟩)
      host.findUnfinished (fun _ w => Unbegun name T old w ∧ w.locals = ⟨t, false, false⟩)
      (fun _ => Left target name T old) (Left (H := H) target name T old) := by
    have hidle : Within Idle host.findUnfinished := inferInstance
    refine (hidle.triple ?_).ends (fun _ _ h => h.1.left)
      fun _ h => h.1.left
    rintro w w' ⟨h, rfl⟩ hw
    exact ⟨⟨hw.1.tree, hw.1.stored, hw.1.count⟩, hw.2⟩
  have hlog : Triple (fun w => Unbegun name T old w ∧ w.locals = ⟨t, false, false⟩)
      (host.check .createLog) (fun _ w => Unbegun name T old w ∧ w.locals = ⟨t, false, false⟩)
      (fun _ => Left target name T old) (Left (H := H) target name T old) := by
    have hidle : Within Idle (host.check .createLog) := inferInstance
    refine (hidle.triple ?_).ends (fun _ _ h => h.1.left)
      fun _ h => h.1.left
    rintro w w' ⟨h, rfl⟩ hw
    exact ⟨⟨hw.1.tree, hw.1.stored, hw.1.count⟩, hw.2⟩
  have hwritten : ∀ (w : World H) (h : H),
      Unbegun name T old w ∧ w.locals = ⟨t, false, false⟩ →
      Waiting target name T old (Host.stored w .begin t h) := by
    rintro w h ⟨hw, hl⟩
    refine ⟨hw.tree, fun u hu => ?_, ?_, ?_, ?_⟩
    · obtain rfl : t = u := Option.some.inj hu
      exact .inr ⟨ht, by rw [hp]; rfl⟩
    · change Mine target w.locals.transaction
      rw [hl]
      exact ht
    · change w.locals.activated = false
      rw [hl]
    · have hlen : (w.writes ++ [(⟨.begin, t.phase⟩ : Write)]).length = w.writes.length + 1 := by
        simp
      exact hw.count.trans (hlen ▸ Nat.le_succ _)
  have hhost : ∀ (w : World H) (h : H), Unbegun name T old w ∧ w.locals = ⟨t, false, false⟩ →
      Left target name T old { w with host := h } :=
    fun w h hw => .inr ⟨hw.1.tree, fun u hu => .inl (hw.1.stored u hu)⟩
  unfold Host.beginOwn
  refine Host.triple_getTransaction (t := t) (fun w hw => by rw [hw.2]) ?_
  unfold Host.beginTransaction
  cases hval : t.validate with
  | some e => exact Triple.fail e fun w hw => hw.1.left
  | none =>
    refine hfind.bind fun unfinished => ?_
    cases unfinished with
    | some u => exact Triple.fail _ fun w hw => hw.1.left
    | none =>
      refine hlog.bind fun _ => ?_
      exact host.triple_writeTransaction .begin t hwritten (fun w _ h hw => hhost w h hw)
        (fun w h hw => (hwritten w h hw).left) hhost

theorem left_switchVersion (build : Flow H (Asset × Asset)) [Within (Quiet target name) build]
    (state : InstallState) (id : String) (allowNoBackup : Bool) :
    Triple (Unbegun name T old) (host.switchVersionWith build state id target allowNoBackup)
      (fun _ => Left target name T old) (fun _ => Left target name T old)
      (Left (H := H) target name T old) := by
  have hupgrade : Within (Quiet target name)
      (host.requireUpgrade state.activeVersion target) := by
    unfold Host.requireUpgrade
    infer_instance
  have hstopped : Within (Quiet target name)
      (host.serviceStopped (state.manager = .systemd)) := by
    unfold Host.serviceStopped
    infer_instance
  unfold Host.switchVersionWith
  refine Triple.bind (triple_unbegun target) fun _ => ?_
  refine Triple.bind (triple_unbegun target) fun _ => ?_
  refine Triple.bind (triple_unbegun target) fun _ => ?_
  refine Triple.bind (triple_unbegun target) fun stopped => ?_
  refine Triple.ite (fun _ => Triple.fail _ fun w hw => hw.left) fun _ => ?_
  refine Triple.bind (Triple.modify _ fun w hw => ?_) fun _ =>
    Triple.bind (unbegun_begin host target (t := {
      TransactionFile.newSwitch id state.activeVersion target with noBackup := stopped })
      ⟨rfl, rfl, rfl⟩ rfl) fun _ => ?_
  · exact ⟨⟨hw.tree, hw.stored, hw.count⟩, rfl⟩
  · have hspared : Triple (Waiting target name T old)
        (host.switchBlockWith build state id target (state.manager = .systemd) stopped)
        (fun _ => Spared target name T old) (fun _ => Spared target name T old)
        (Spared target name T old) :=
      spared_switchBlock host build state id (state.manager = .systemd) stopped
    have hblock := Host.triple_withErrorPath hspared
      fun e => spared_abandonSwitch host state (state.manager = .systemd)
    exact hblock.consequence (fun _ h => h) (fun _ _ h => h.left) (fun _ _ h => h.left)
      fun _ h => h.left

end Switch

section Recovery

variable (host : Host H)

theorem kept_recoverSwitch {t : TransactionFile} (ht : Mine target t)
    (hp : isPending t.phase = true) (hname : Bystander target name) :
    Within (TreesKept [Layout.release name]) (host.recoverTransaction t) := by
  have hrelease : Off [Layout.release name] (Layout.root ++ ["releases", target]) :=
    off_release hname.release
  have hbuild : Off [Layout.release name] (Layout.releases ++ [".install-" ++ target ++ ".tmp"]) :=
    off_release hname.build
  have hremove : Within (TreesKept [Layout.release name]) (host.removeTargetRelease t) := by
    unfold Host.removeTargetRelease Host.discard
    rw [ht.release, ht.version, Option.map_some, Option.map_some]
    dsimp only
    infer_instance
  unfold Host.recoverTransaction Host.recoverSwitch
  rw [ht.operation]
  dsimp only
  split
  · infer_instance
  · infer_instance
  · infer_instance
  all_goals simp_all [isPending]

theorem kept_recoverInterrupted (hname : Bystander target name) {w : World H}
    (hw : Found target name T w) :
    (host.recoverInterrupted w).2.machine.files.subtree (Layout.release name) = T := by
  have hrun : Triple (fun v => v = w) host.recoverInterrupted
      (fun _ v => v.machine.files.subtree (Layout.release name) = T)
      (fun _ v => v.machine.files.subtree (Layout.release name) = T)
      (fun v => v.machine.files.subtree (Layout.release name) = T) := by
    have hfind := host.triple_findUnfinished (P := fun v => Found target name T v)
      fun v h hv => ⟨hv.tree, hv.stored⟩
    have hstart := hfind.strengthen fun v (hv : v = w) => show Found target name T v from hv ▸ hw
    refine Triple.bind (hstart.ends (fun _ _ h => h.tree)
      fun _ h => h.tree) fun unfinished => ?_
    cases unfinished with
    | none => exact Triple.pure _ fun v hv => hv.1.tree
    | some t =>
      rintro v ⟨hv, hfound⟩
      obtain ⟨hstored, hopen⟩ := hfound t rfl
      obtain ⟨hmine, hpending⟩ := (hv.stored t hstored).resolve_left (by simp [hopen])
      have hkept := (kept_recoverSwitch host hmine hpending hname).triple
        (P := fun v => v.machine.files.subtree (Layout.release name) = T)
        fun v v' h hv => (h _ (List.mem_singleton_self _)).trans hv
      exact hkept v hv.tree
  exact hrun.always rfl

end Recovery

structure Admits (state : InstallState) (release : Release) (id : String) (allowNoBackup : Bool)
    (d : Disk) : Prop where
  stable : isStableVersion state.activeVersion = true
  newer : release.version ≠ state.activeVersion
  valid : ∀ b, { TransactionFile.newSwitch id state.activeVersion release.version with
    noBackup := b }.validate = none
  running : state.manager = .systemd →
    (d.machine.units routerUnit).active = true ∨ allowNoBackup = true
  closed : ∀ t, d.transaction = some t → t.phase.isTerminal = true ∧ t.validate = none

/-- However a switch ends before it activates anything, the recovery of the next command leaves
every release directory that was there before in place, with its content. -/
def RecoveryKeeps (state : InstallState) (release : Release) (id : String)
    (custom : Except InstallError Bool) (allowNoBackup : Bool) (d : Disk) : Prop :=
  ∀ (H : Type) (host next : Host H) (memory memory' : H) (name : String),
    name ≠ ".install-" ++ release.version ++ ".tmp" →
    name ≠ ".frontend-" ++ release.version ++ ".tmp" →
    d.machine.files (Layout.release name) = some .dir →
    let cut := d.after (host.switchVersionWith (host.buildRelease release custom) state id
      release.version allowNoBackup) memory
    (∀ x ∈ cut.writes.drop d.writes.length, x.phase ≠ .activating) →
    (cut.after next.recoverInterrupted memory').machine.files.subtree (Layout.release name) =
      d.machine.files.subtree (Layout.release name)

section Settled

variable {state : InstallState} {release : Release} {id : String}
  {custom : Except InstallError Bool} {allowNoBackup : Bool} {d : Disk}

theorem recoveryKeeps_of_absent
    (hclosed : ∀ t, d.transaction = some t → t.phase.isTerminal = true)
    (habsent : d.machine.files (Layout.release release.version) ≠ some .dir) :
    RecoveryKeeps state release id custom allowNoBackup d := by
  intro H host next memory memory' name hbuild hfrontend hpresent cut hpending
  have hname : Bystander release.version name := by
    refine ⟨?_, hbuild, hfrontend⟩
    rintro rfl
    exact habsent hpresent
  have hrelease : Off [Layout.release name] (Layout.release release.version) :=
    off_release hname.release
  have hbuildDir : Off [Layout.release name] (Layout.buildDir release.version) :=
    off_release hname.build
  have hfrontendDir : Off [Layout.release name] (Layout.frontendWork release.version) :=
    off_release hname.frontend
  have hquiet : Within (Quiet release.version name) (host.buildRelease release custom) :=
    Quiet.of_kept inferInstance (within_buildRelease host release custom)
      (within_buildRelease host release custom)
  have hstart : Unbegun name (d.machine.files.subtree (Layout.release name)) d.writes.length
      (d.boot memory) := ⟨rfl, hclosed, Nat.le_refl _⟩
  have htriple : Triple
      (Unbegun name (d.machine.files.subtree (Layout.release name)) d.writes.length)
      (host.switchVersionWith (host.buildRelease release custom) state id release.version
        allowNoBackup)
      (fun _ => Left release.version name (d.machine.files.subtree (Layout.release name))
        d.writes.length)
      (fun _ => Left release.version name (d.machine.files.subtree (Layout.release name))
        d.writes.length)
      (Left release.version name (d.machine.files.subtree (Layout.release name))
        d.writes.length) :=
    left_switchVersion host (host.buildRelease release custom) state id allowNoBackup
  have hrun := htriple _ hstart
  have hleft : Left release.version name (d.machine.files.subtree (Layout.release name))
      d.writes.length (host.switchVersionWith (host.buildRelease release custom) state id
        release.version allowNoBackup (d.boot memory)).2 := by
    rcases hr : host.switchVersionWith (host.buildRelease release custom) state id
      release.version allowNoBackup (d.boot memory) with ⟨u | e | _, w⟩ <;> rw [hr] at hrun <;>
      exact hrun
  have hfound := hleft.resolve_left fun ⟨x, hx, hphase⟩ => hpending x hx hphase
  exact kept_recoverInterrupted next hname (w := cut.boot memory') ⟨hfound.tree, hfound.stored⟩

def cutAtBegin : Host Unit :=
  Host.scripted (fun _ => false) (fun act => match act with
    | .writeTransaction => true
    | _ => false)

theorem cutAtBegin_check (c : Check) (w : World Unit) : cutAtBegin.check c w = (.ok (), w) := rfl

theorem obliging_check (c : Check) (w : World Unit) :
    Host.obliging.check c w = (.ok (), w) := rfl

theorem run_else {α : Type} {c : Prop} [Decidable c] {p q : Flow H α} {w : World H} (h : ¬ c) :
    (if c then p else q) w = q w := by
  rw [if_neg h]

def begun (state : InstallState) (target id : String) (stopped : Bool) : TransactionFile :=
  { TransactionFile.newSwitch id state.activeVersion target with noBackup := stopped }

theorem cutAtBegin_serviceStopped (isSystemd : Bool) (w : World Unit) :
    cutAtBegin.serviceStopped isSystemd w =
      (.ok (isSystemd && !(w.machine.units routerUnit).active), w) := by
  cases isSystemd with
  | false => rfl
  | true => rfl

theorem cutAtBegin_findUnfinished {w : World Unit}
    (hclosed : ∀ t, w.transaction = some t → t.phase.isTerminal = true ∧ t.validate = none) :
    cutAtBegin.findUnfinished w = (.ok none, w) := by
  unfold Host.findUnfinished
  have hread : (Prog.read : Flow Unit (World Unit)) w = (.ok w, w) := rfl
  rw [Prog.bind_of_ok (cutAtBegin_check _ w), Prog.bind_of_ok hread]
  cases hw : w.transaction with
  | none => rfl
  | some t =>
    obtain ⟨hterminal, hvalid⟩ := hclosed t hw
    dsimp only
    rw [hvalid, hterminal]
    rfl

theorem after_cutAtBegin (custom : Except InstallError Bool)
    (ha : Admits state release id allowNoBackup d) :
    ∃ stopped, d.after (cutAtBegin.switchVersionWith (cutAtBegin.buildRelease release custom)
        state id release.version allowNoBackup) () =
      ⟨d.machine, some (begun state release.version id stopped),
        d.writes ++ [⟨.begin, .preparing⟩]⟩ := by
  let isSystemd : Bool := state.manager = .systemd
  let stopped : Bool := isSystemd && !(d.machine.units routerUnit).active
  refine ⟨stopped, ?_⟩
  have hallowed : (stopped && !allowNoBackup) = false := by
    by_cases hsystemd : state.manager = .systemd
    · rcases ha.running hsystemd with h | h <;> simp [stopped, h]
    · simp [stopped, isSystemd, hsystemd]
  have hupgrade : cutAtBegin.requireUpgrade state.activeVersion release.version (d.boot ()) =
      (.ok (), d.boot ()) := by
    unfold Host.requireUpgrade
    rw [if_neg (by simp [ha.stable]), if_neg ha.newer]
    exact cutAtBegin_check _ _
  let started : World Unit :=
    { d.boot () with locals := ⟨begun state release.version id stopped, false, false⟩ }
  have hbegin : cutAtBegin.beginOwn started = (.crash, { started with
      transaction := some (begun state release.version id stopped)
      writes := d.writes ++ [⟨.begin, .preparing⟩] }) := by
    have hvalid : (begun state release.version id stopped).validate = none := ha.valid stopped
    unfold Host.beginOwn
    have hown : Host.getTransaction started =
        (.ok (begun state release.version id stopped), started) := rfl
    rw [Prog.bind_of_ok hown]
    unfold Host.beginTransaction
    rw [hvalid]
    dsimp only
    rw [Prog.bind_of_ok (cutAtBegin_findUnfinished ha.closed)]
    dsimp only
    rw [Prog.bind_of_ok (cutAtBegin_check _ started)]
    unfold Host.writeTransaction
    rw [hvalid]
    rfl
  have hstopped : cutAtBegin.serviceStopped isSystemd (d.boot ()) = (.ok stopped, d.boot ()) :=
    cutAtBegin_serviceStopped isSystemd _
  unfold Disk.after Host.switchVersionWith
  dsimp only
  rw [Prog.bind_of_ok hupgrade, Prog.bind_of_ok (cutAtBegin_check _ _),
    Prog.bind_of_ok (cutAtBegin_check _ _), Prog.bind_of_ok hstopped]
  have hstart : Host.startWith {
      TransactionFile.newSwitch id state.activeVersion release.version with noBackup := stopped }
      (d.boot ()) = (.ok (), started) := rfl
  rw [run_else (by rw [hallowed]; exact Bool.false_ne_true), Prog.bind_of_ok hstart,
    Prog.bind_of_crash hbegin]
  rfl

theorem removed_begun {stopped : Bool}
    (hvalid : (begun state release.version id stopped).validate = none) (ws : List Write) :
    ((Disk.mk d.machine (some (begun state release.version id stopped)) ws).after
      Host.obliging.recoverInterrupted ()).machine.files (Layout.release release.version) =
        none := by
  let found : World Unit :=
    (Disk.mk d.machine (some (begun state release.version id stopped)) ws).boot ()
  have hfind : Host.obliging.findUnfinished found =
      (.ok (some (begun state release.version id stopped)), found) := by
    unfold Host.findUnfinished
    have hread : (Prog.read : Flow Unit (World Unit)) found = (.ok found, found) := rfl
    rw [Prog.bind_of_ok (obliging_check _ found), Prog.bind_of_ok hread]
    dsimp only [found, Disk.boot]
    rw [hvalid]
    rfl
  let left : Files Document :=
    (d.machine.files.remove (Layout.release release.version)).remove
      (Layout.buildDir release.version)
  let removed : World Unit := { found with machine := d.machine.setFiles left }
  have hremove : Host.obliging.removeTargetRelease (begun state release.version id stopped) found =
      (.ok (), removed) := rfl
  have hmark : (Host.obliging.markPhase (begun state release.version id stopped) .failed
      removed).2.machine = removed.machine :=
    (MachineKept.markPhase Host.obliging _ _).rel removed
  have hgone : left (Layout.release release.version) = none := by
    simp [left, Files.remove]
  unfold Disk.after Host.recoverInterrupted
  rw [Prog.bind_of_ok hfind]
  change ((Host.obliging.removeTargetRelease (begun state release.version id stopped) >>= fun _ =>
    Host.obliging.markPhase (begun state release.version id stopped) .failed)
      found).2.machine.files _ = none
  rw [Prog.bind_of_ok hremove, hmark]
  exact hgone

theorem not_recoveryKeeps_of_present (ha : Admits state release id allowNoBackup d)
    (hpresent : d.machine.files (Layout.release release.version) = some .dir) :
    ¬ RecoveryKeeps state release id custom allowNoBackup d := by
  intro hkeeps
  obtain ⟨stopped, hcut⟩ := after_cutAtBegin custom ha
  have hlength : ∀ pre post : String, (pre ++ release.version ++ post).length =
      pre.length + release.version.length + post.length := by simp
  have hbuild : release.version ≠ ".install-" ++ release.version ++ ".tmp" := by
    intro h
    have hlen := (congrArg String.length h).trans (hlength ".install-" ".tmp")
    have hpre : ".install-".length = 9 := by decide
    omega
  have hfrontend : release.version ≠ ".frontend-" ++ release.version ++ ".tmp" := by
    intro h
    have hlen := (congrArg String.length h).trans (hlength ".frontend-" ".tmp")
    have hpre : ".frontend-".length = 10 := by decide
    omega
  have hkept := hkeeps Unit cutAtBegin Host.obliging () () release.version hbuild hfrontend
    hpresent
  dsimp only at hkept
  rw [hcut] at hkept
  have hspared := hkept (by simp)
  have hgone := removed_begun (d := d) (ha.valid stopped) (d.writes ++ [⟨.begin, .preparing⟩])
  have hsame := Files.subtree_congr _ hspared
  rw [hgone, hpresent] at hsame
  cases hsame

/-- The recovery of a switch cut off before it activated anything spares every release that was
there before exactly when the target was not among them. -/
theorem recoveryKeeps_iff (ha : Admits state release id allowNoBackup d) :
    RecoveryKeeps state release id custom allowNoBackup d ↔
      d.machine.files (Layout.release release.version) ≠ some .dir := by
  constructor
  · intro hkeeps hpresent
    exact not_recoveryKeeps_of_present ha hpresent hkeeps
  · exact recoveryKeeps_of_absent fun t ht => (ha.closed t ht).1

end Settled

section Sample

def sampleTarget : List (Path × Node Document) :=
  [(Layout.release "1.1.0", .dir),
    (Layout.release "1.1.0" ++ [Layout.webserverBinary], .file (.text "webserver")),
    (Layout.release "1.1.0" ++ ["static"], .dir),
    (Layout.release "1.1.0" ++ ["static", "index.html"], .file (.text "index")),
    (Layout.release "1.1.0" ++ ["static.zip"], .file (.text "archive"))]

def sampleDisk : Disk := Disk.holding (sampleFiles ++ sampleTarget)

def sampleRelease (version : String) : Release := ⟨version, ⟨"", 0⟩, true, ⟨"", 0⟩⟩

/-- No release 1.2.0 is there. -/
theorem recoveryKeeps_iff_absent :
    Admits installedSample (sampleRelease "1.2.0") "id" true sampleDisk ∧
      (RecoveryKeeps installedSample (sampleRelease "1.2.0") "id" (.ok false) true sampleDisk ↔
        sampleDisk.machine.files (Layout.release "1.2.0") ≠ some .dir) := by
  have hadmits : Admits installedSample (sampleRelease "1.2.0") "id" true sampleDisk :=
    ⟨by decide +kernel, by decide, by decide +kernel, fun _ => .inr rfl, fun t ht => by cases ht⟩
  exact ⟨hadmits, recoveryKeeps_iff hadmits⟩

/-- The release 1.1.0 is there, can be used as it is, and is lost. -/
theorem reused_removed :
    Host.isComplete sampleDisk.machine.files (Layout.release "1.1.0") = true ∧
      ¬ RecoveryKeeps installedSample (sampleRelease "1.1.0") "id" (.ok false) true
        sampleDisk := by
  have hadmits : Admits installedSample (sampleRelease "1.1.0") "id" true sampleDisk :=
    ⟨by decide +kernel, by decide, by decide +kernel, fun _ => .inr rfl, fun t ht => by cases ht⟩
  exact ⟨by decide +kernel, not_recoveryKeeps_of_present hadmits (by decide +kernel)⟩

end Sample

end LandscapeKit.Deploy.SwitchCut
