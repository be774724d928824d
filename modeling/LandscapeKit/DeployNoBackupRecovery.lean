import LandscapeKit.DeployNoBackup

/-!
When a recovery of a no-backup switch gets the installation back. On a host that carries out
whatever it is asked, the answer depends only on the disk the recovery starts from: it
succeeds exactly when neither `current` nor the state has been replaced yet.
-/

namespace LandscapeKit.Deploy.NoBackup

open Faults

set_option synthInstance.maxSize 4096

variable {H : Type} {old target id : String}

/-- The old version is back: the command returned, `current` and the state agree on it, so
that `load_state` succeeds, and the transaction is over. -/
structure Restored (old : String) (r : Outcome InstallError Unit × World H) : Prop where
  returned : r.1 = .ok ()
  current : r.2.machine.files Layout.current = some (.link ["releases", old])
  state : ∃ s : InstallState, s.activeVersion = old ∧
    r.2.machine.files Layout.statePath = some (.file (.state s)) ∧
    checkCurrent r.2.machine.files s.activeVersion = none
  terminal : ∃ phase, r.2.phase? = some phase ∧ phase.isTerminal = true

/-- The disks that a no-backup switch, cut off or not, and any number of recoveries, cut off
or not, leave behind. Every command runs on a host of its own. -/
inductive Reached (state : InstallState) (id target : String) (start : Disk) : Disk → Prop
  | switched {H : Type} (host : Host H) (h : H) :
    Reached state id target start (start.after (host.switchVersion state id target true) h)
  | recovered {H : Type} (host : Host H) (h : H) {d : Disk} :
    Reached state id target start d →
      Reached state id target start (d.after host.recoverInterrupted h)

section Reached

variable {state : InstallState} {start d : Disk}

theorem Inv.boot {H' : Type} {w : World H} (h : Inv old target id w) (h' : H') :
    Inv old target id (w.disk.boot h') :=
  ⟨h.root, h.recorded, h.early⟩

theorem Reached.inv (hv : Versions state.activeVersion target id) (hs : Installed state start)
    (hd : Reached state id target start d) {H' : Type} (h' : H') :
    Inv state.activeVersion target id (d.boot h') := by
  induction hd generalizing H' with
  | switched host h =>
    exact ((switch_inv host hv hs.manager).always (s := start.boot h) hs).boot h'
  | recovered host h _ ih =>
    exact ((recover_inv host hv).always (ih h)).boot h'

end Reached

section Obliging

variable (host : Host H) [hob : host.Obliging] {l : Locals}

theorem before_returns (hv : Versions old target id) {α : Type} {p : Flow H α}
    (hp : Within (Steady (area target)) p) (hr : Returns p) {E : InstallError → World H → Prop}
    {C : World H → Prop} :
    Triple (Before old target id l) p (fun _ => Before old target id l) E C :=
  hr.triple (hp.triple fun _ _ h => Before.steady hv h)

theorem before_marked (hv : Versions old target id) {phase phase' : Phase}
    {before : Option ServiceBefore} {resolv : Option Path}
    (hr : resolv = none ∨ resolv = some (Layout.resolvBackupDir id))
    (ht : Recorded old target id (file old target id phase' before resolv))
    {E : InstallError → World H → Prop} {C : World H → Prop} :
    Triple (Before old target id l)
      (host.markPhase (file old target id phase before resolv) phase')
      (fun _ w => Before old target id l w ∧ w.phase? = some phase') E C := by
  refine (before_returns hv inferInstance inferInstance).bind fun _ => ?_
  refine Host.Obliging.triple_writeTransaction host _ (file_validate hv phase' before hr) ?_
  intro w h hw
  exact ⟨⟨hw.inv.stored ht fun _ => hw.untouched, hw.untouched, hw.locals⟩, rfl⟩

theorem before_restoreCurrent (hv : Versions old target id) {E : InstallError → World H → Prop}
    {C : World H → Prop} :
    Triple (Before old target id l) (host.restoreCurrent ["releases", old])
      (fun _ => Before old target id l) E C := by
  refine (Host.Obliging.restoreCurrent host _).triple
    (triple_restoreCurrent host (fun _ _ h => Before.steady hv h) fun w h hw hc => ?_)
  obtain ⟨hroot, hcur⟩ := hw.inv.root.move (.inl rfl) hc
  obtain ⟨s, hs, hf⟩ := hw.untouched.state
  have hun : Untouched old (w.machine.files.move Layout.currentTmp Layout.current) := by
    refine ⟨hcur, s, hs, ?_⟩
    rw [← hf]
    simp [Files.move, Layout.currentTmp, Layout.runDir, Layout.current, Layout.root,
      Layout.statePath]
  exact ⟨⟨hroot, hw.inv.recorded, fun _ _ _ => hun⟩, hun, hw.locals⟩

theorem before_writeState (hv : Versions old target id) {s : InstallState}
    (hs : s.activeVersion = old) (hm : s.manager = .systemd)
    {E : InstallError → World H → Prop} {C : World H → Prop} :
    Triple (Before old target id l) (host.writeState s) (fun _ => Before old target id l) E C := by
  refine (Host.Obliging.writeState host s).triple
    (triple_writeState host (fun _ _ h => Before.steady hv h) fun w h hw => ?_)
  have hroot := hw.inv.root.putState (.inl hs) hm
  have hun : Untouched old (w.machine.files.put Layout.statePath (.file (.state s))) := by
    refine ⟨?_, s, hs, Function.update_self ..⟩
    rw [← hw.untouched.current]
    exact Function.update_of_ne
      (by simp [Layout.current, Layout.root, Layout.statePath]) ..
  exact ⟨⟨hroot, hw.inv.recorded, fun _ _ _ => hun⟩, hun, hw.locals⟩

theorem before_rollbackNoBackup (hv : Versions old target id) {phase : Phase}
    {before : ServiceBefore} {resolv : Option Path}
    (hr : resolv = none ∨ resolv = some (Layout.resolvBackupDir id)) {s : InstallState}
    (hs : s.activeVersion = old) (hm : s.manager = .systemd)
    {E : InstallError → World H → Prop} {C : World H → Prop} :
    Triple (Before old target id l)
      (host.rollbackNoBackup (file old target id phase (some before) resolv) s)
      (fun _ w => Before old target id l w ∧ w.phase? = some .rolledBack) E C := by
  refine ((before_marked host hv hr (recorded_phase hr rfl)).consequence (fun _ h => h)
    (fun _ _ h => h.1) (fun _ _ h => h) fun _ h => h).bind fun _ => ?_
  refine Triple.bind (Q := fun _ => Before old target id l) ?_ fun _ =>
    before_marked host hv hr (recorded_phase hr rfl)
  have hservice : Within (Steady (area target)) (host.restoreServiceState
      (file old target id phase (some before) resolv) (decide (s.manager = .systemd))) :=
    inferInstance
  have hreturns : Returns (host.restoreServiceState
      (file old target id phase (some before) resolv) (decide (s.manager = .systemd))) := by
    unfold Host.restoreServiceState Host.restoreServiceNoBackup
    rw [show (file old target id phase (some before) resolv).systemdBefore = some before from rfl,
      Host.orCorrupted_some]
    infer_instance
  unfold Host.reinstateNoBackup
  refine (before_returns hv hservice hreturns).bind fun active => ?_
  rw [show (file old target id phase (some before) resolv).previousCurrent =
    some ["releases", old] from rfl, Host.orCorrupted_some, Prog.pure_andThen]
  refine (before_restoreCurrent host hv).bind fun _ => ?_
  refine (before_returns hv inferInstance inferInstance).bind fun _ => ?_
  refine before_writeState host hv ?_ ?_
  · exact hs
  · exact hm

omit hob in
theorem rollbackNoBackup_state (t : TransactionFile) (s : InstallState) :
    Triple (fun _ : World H => True) (host.rollbackNoBackup t s)
      (fun _ w => w.machine.files Layout.statePath =
        some (.file (.state { s with lastTransactionId := some t.transactionId })))
      (fun _ _ => True) fun _ => True := by
  refine (Triple.trivial _).bind fun _ => ?_
  refine Triple.bind (Q := fun _ w => w.machine.files Layout.statePath =
    some (.file (.state { s with lastTransactionId := some t.transactionId }))) ?_ fun _ => ?_
  · unfold Host.reinstateNoBackup
    refine (Triple.trivial _).bind fun _ => (Triple.trivial _).bind fun _ => ?_
    refine (Triple.trivial _).bind fun _ => (Triple.trivial _).bind fun _ => ?_
    refine (Triple.trivial _).bind fun _ => ?_
    refine host.triple_perform _ ?_ (fun _ _ _ _ _ => True.intro) (fun _ _ _ _ => True.intro)
      fun _ _ _ _ => True.intro
    intro w a out h _
    simp [Act.done, Machine.setFiles, Files.put]
  · have hlog : Within Idle (host.check .appendLog) := inferInstance
    refine ((hlog.triple ?_).ends (fun _ _ _ => True.intro)
      fun _ _ => True.intro).bind fun _ => ?_
    · rintro w _ ⟨h, rfl⟩ hw
      exact hw
    exact host.triple_writeTransaction _ _ (fun w h hw => hw) (fun _ _ _ _ => True.intro)
      (fun _ _ _ => True.intro) fun _ _ _ => True.intro

theorem RootOk.checkCurrent {files : Files Document} (h : RootOk old target files)
    (hc : files Layout.current = some (.link ["releases", old])) :
    checkCurrent files old = none := by
  have hpath : Layout.root ++ ["releases", old] = Layout.release old := rfl
  have hin : Layout.releases <+: Layout.release old := ⟨[old], rfl⟩
  simp [Deploy.checkCurrent, hc, hpath, h.release, h.releases, hin]

theorem checkCurrent_link {files : Files Document} {v version : String}
    (hc : files Layout.current = some (.link ["releases", v]))
    (h : checkCurrent files version = none) : v = version := by
  by_contra hne
  have hpath : Layout.root ++ ["releases", v] = Layout.release v := rfl
  have hrel : Layout.release v ≠ Layout.release version := by
    simpa [Layout.release, Layout.releases] using hne
  simp only [Deploy.checkCurrent, hc, hpath, hrel, ne_eq, not_false_eq_true, if_true] at h
  split at h
  · exact absurd h (by simp)
  · split at h
    · exact absurd h (by simp)
    · split at h <;> exact absurd h (by simp)

theorem Before.restored {w : World H} (h : Before old target id l w) {phase : Phase}
    (hp : w.phase? = some phase) (hterm : phase.isTerminal = true) :
    Restored old (.ok (), w) := by
  obtain ⟨s, hs, hf⟩ := h.untouched.state
  have hcheck := h.inv.root.checkCurrent h.untouched.current
  exact ⟨rfl, h.untouched.current, ⟨s, hs, hf, by rwa [hs]⟩, phase, hp, hterm⟩

theorem restored_of_triple {P : World H → Prop} {p : Flow H Unit} {phase : Phase}
    (hterm : phase.isTerminal = true)
    (h : Triple P p (fun _ w => Before old target id l w ∧ w.phase? = some phase)
      (fun _ _ => False) fun _ => False) {w : World H} (hw : P w) : Restored old (p w) := by
  have hr := h w hw
  rcases hp : p w with ⟨a | e | _, w'⟩ <;> rw [hp] at hr
  · exact hr.1.restored hr.2 hterm
  · exact hr.elim
  · exact hr.elim

theorem recoverInterrupted_eq (hv : Versions old target id) {w : World H}
    (hw : Inv old target id w) {t : TransactionFile} (ht : w.transaction = some t)
    (hterm : t.phase.isTerminal = false) :
    ∃ h, host.recoverInterrupted w = host.recoverSwitch t { w with host := h } := by
  obtain ⟨phase, before, resolv, rfl, hr, -, -⟩ := hw.recorded t ht
  obtain ⟨h, hfind⟩ := Host.Obliging.findUnfinished host ht (file_validate hv phase before hr) hterm
  exact ⟨h, Prog.bind_of_ok hfind⟩

theorem recoverSwitch_restored (hv : Versions old target id) {w : World H}
    (hw : Inv old target id w) (hun : Untouched old w.machine.files) {t : TransactionFile}
    (ht : w.transaction = some t) (hterm : t.phase.isTerminal = false) :
    Restored old (host.recoverSwitch t w) := by
  obtain ⟨phase, before, resolv, rfl, hr, hp, hb⟩ := hw.recorded t ht
  have hbefore : Before old target id w.locals w := ⟨hw, hun, rfl⟩
  have hfailed : Recorded old target id (file old target id .failed before resolv) :=
    ⟨.failed, before, resolv, rfl, hr, rfl, .inr (.inl rfl)⟩
  -- a late phase was written with the service recorded
  have hactivated : phase.isEarly = false → phase ≠ .failed →
      Restored old (host.recoverActivatedSwitch (file old target id phase before resolv) w) := by
    intro hl hf
    obtain ⟨b, rfl⟩ : ∃ b, before = some b := by
      rcases hb with rfl | rfl | hb
      · exact absurd hl (by decide)
      · exact absurd rfl hf
      · exact Option.isSome_iff_exists.mp hb
    obtain ⟨s, hs, hstate⟩ := hun.state
    obtain ⟨s', -, hm, hstate'⟩ := hw.root.state
    obtain rfl : s = s' := by simpa [hstate] using hstate'
    have hcheck : checkCurrent w.machine.files s.activeVersion = none := by
      rw [hs]
      exact hw.root.checkCurrent hun.current
    obtain ⟨h, hload⟩ := Host.Obliging.loadState host hstate hcheck
    have hrun : host.recoverActivatedSwitch (file old target id phase (some b) resolv) w =
        host.rollbackNoBackup (file old target id phase (some b) resolv) s { w with host := h } :=
      Prog.bind_of_ok hload
    rw [hrun]
    exact restored_of_triple rfl (before_rollbackNoBackup host hv hr hs hm)
      (hbefore.steady hv (.of_host w h))
  cases phase with
  | preparing =>
    exact restored_of_triple rfl ((before_returns hv inferInstance inferInstance).bind fun _ =>
      before_marked host hv hr hfailed) hbefore
  | prepared | stopping =>
    exact restored_of_triple rfl ((before_returns hv inferInstance inferInstance).bind fun _ =>
      (before_returns hv inferInstance inferInstance).bind fun _ =>
        before_marked host hv hr hfailed) hbefore
  | activating => exact hactivated rfl (by decide)
  | verifying => exact hactivated rfl (by decide)
  | rollingBack => exact hactivated rfl (by decide)
  | awaitingNetworkConfirmation | finalizing => exact absurd hp (by decide)
  | committed | rolledBack | failed => simp [file, Phase.isTerminal] at hterm

omit hob in
theorem untouched_of_restored {w : World H} (hw : Inv old target id w) {t : TransactionFile}
    (ht : w.transaction = some t) (hterm : t.phase.isTerminal = false) (hr : Restored old (host.recoverSwitch t w)) :
    Untouched old w.machine.files := by
  obtain ⟨phase, before, resolv, rfl, -, hp, -⟩ := hw.recorded t ht
  have hactivated :
      Restored old (host.recoverActivatedSwitch (file old target id phase before resolv) w) →
        Untouched old w.machine.files := by
    intro hr
    rcases hrun : host.recoverActivatedSwitch (file old target id phase before resolv) w with
      ⟨o, w'⟩
    rw [hrun] at hr
    obtain rfl : o = .ok () := hr.returned
    obtain ⟨r, w₁, hload, hroll⟩ := Prog.bind_eq_ok (p := host.loadState) hrun
    cases r with
    | none => exact absurd hroll (by simp [Prog.fail])
    | some s =>
      obtain ⟨hstate, hcheck⟩ := host.loadState_ok hload
      obtain ⟨v, hvv, hcur⟩ := hw.root.current
      obtain rfl : v = s.activeVersion := checkCurrent_link hcur hcheck
      -- the state that was loaded is the one that is written back
      have hback := rollbackNoBackup_state host (file old target id phase before resolv) s w₁
        True.intro
      dsimp only at hroll
      rw [hroll] at hback
      obtain ⟨s', hs', hstate', -⟩ := hr.state
      rw [show w'.machine.files Layout.statePath = _ from hback] at hstate'
      simp only [Option.some.injEq, Node.file.injEq, Document.state.injEq] at hstate'
      have hs : s.activeVersion = old := by
        rw [← hs', ← hstate']
      exact ⟨hs ▸ hcur, s, hs, hstate⟩
  cases phase with
  | preparing | prepared | stopping => exact hw.early _ ht rfl
  | activating => exact hactivated hr
  | verifying => exact hactivated hr
  | rollingBack => exact hactivated hr
  | awaitingNetworkConfirmation | finalizing => exact absurd hp (by decide)
  | committed | rolledBack | failed => simp [file, Phase.isTerminal] at hterm

/-- After any crash of a no-backup switch and of its recoveries, the next recovery gets the
old version back exactly when the crash left both `current` and the state alone. -/
theorem recover_restored_iff {state : InstallState} {start d : Disk}
    (hv : Versions state.activeVersion target id) (hs : Installed state start)
    (hd : Reached state id target start d) {t : TransactionFile} (ht : d.transaction = some t)
    (hterm : t.phase.isTerminal = false) (h : H) :
    Restored state.activeVersion (host.recoverInterrupted (d.boot h)) ↔
      Untouched state.activeVersion d.machine.files := by
  have hinv := hd.inv hv hs h
  obtain ⟨h', hrun⟩ := recoverInterrupted_eq host hv hinv ht hterm
  have hinv' : Inv state.activeVersion target id { d.boot h with host := h' } :=
    hinv.steady hv (.of_host _ h')
  rw [hrun]
  constructor
  · intro hr
    exact untouched_of_restored host hinv' ht hterm hr
  · intro hun
    exact recoverSwitch_restored host hv hinv' hun ht hterm

end Obliging

section Sample

def sampleState : InstallState where
  activeVersion := "1.0.0"
  webserver := ⟨"a", 1⟩
  staticArchive := ⟨"b", 1⟩
  status := .complete
  lockPresent := true
  manager := .systemd
  lastTransactionId := none

def sampleDisk : Disk where
  machine := {
    files := fun p =>
      if p = Layout.releases then some .dir
      else if p = Layout.release "1.0.0" ∨ p = Layout.release "1.1.0" then some .dir
      else if p = Layout.current then some (.link ["releases", "1.0.0"])
      else if p = Layout.statePath then some (.file (.state sampleState))
      else none
    units := fun _ => ⟨true, false, "enabled", false⟩ }
  transaction := none
  writes := []

theorem sampleDisk_installed : Installed sampleState sampleDisk := by
  constructor <;> decide +kernel

theorem sample_versions : Versions sampleState.activeVersion "1.1.0" "id" := by
  constructor <;> decide +kernel

def cutAt (cuts : {α : Type} → Act α → Bool) : Host Unit := Host.scripted (fun _ => false) cuts

def cutSwitch (cuts : {α : Type} → Act α → Bool) : Disk :=
  sampleDisk.after ((cutAt cuts).switchVersion sampleState "id" "1.1.0" true) ()

def cutBefore : Disk := cutSwitch fun act => match act with
  | .createDirAll p => p = Layout.runDir
  | _ => false

def cutBetween : Disk := cutSwitch fun act => match act with
  | .rename _ q => q = Layout.current
  | _ => false

def cutBehind : Disk := cutSwitch fun act => match act with
  | .writeFile p _ => p = Layout.statePath
  | _ => false

theorem cutBefore_restored :
    Restored "1.0.0" (Host.obliging.recoverInterrupted (cutBefore.boot ())) := by
  have hphase : cutBefore.transaction.map (fun t => t.phase) = some .activating := by
    decide +kernel
  obtain ⟨t, ht, hp⟩ := Option.map_eq_some_iff.mp hphase
  refine (recover_restored_iff Host.obliging sample_versions sampleDisk_installed
    (.switched _ ()) ht (by rw [hp]; rfl) ()).mpr ⟨?_, sampleState, rfl, ?_⟩
  · decide +kernel
  · decide +kernel

/-- Between the two writes the recovery fails, and stays where it is; after both it goes back
to the old release with the state of the new one. -/
theorem cut_not_restored :
    Reached sampleState "id" "1.1.0" sampleDisk cutBetween ∧
      ¬ Restored "1.0.0" (Host.obliging.recoverInterrupted (cutBetween.boot ())) ∧
      Reached sampleState "id" "1.1.0" sampleDisk cutBehind ∧
      ¬ Restored "1.0.0" (Host.obliging.recoverInterrupted (cutBehind.boot ())) := by
  refine ⟨.switched _ (), fun h => ?_, .switched _ (), fun h => ?_⟩
  · exact absurd h.returned (by decide +kernel)
  · obtain ⟨s, hs, hstate, -⟩ := h.state
    have hwritten : (Host.obliging.recoverInterrupted (cutBehind.boot ())).2.machine.files
        Layout.statePath = some (.file (.state { sampleState with
          activeVersion := "1.1.0"
          webserver := ⟨"", 0⟩
          staticArchive := ⟨"", 0⟩
          lockPresent := false
          lastTransactionId := some "id" })) := by
      decide +kernel
    rw [hwritten] at hstate
    simp only [Option.some.injEq, Node.file.injEq, Document.state.injEq] at hstate
    rw [← hstate] at hs
    exact absurd hs (by decide)

end Sample

end LandscapeKit.Deploy.NoBackup
