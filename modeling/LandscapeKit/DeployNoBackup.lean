import LandscapeKit.DeployRuns
import Mathlib.Data.List.ReduceOption

/-!
A switch without a `.lkb`, cut off anywhere, and the recovery of what it left. The recovery
reads the state to go back to through `load_state`, which holds `current` against it, while
the switch changes `current` first and the state later.
-/

namespace LandscapeKit.Deploy

open Faults

set_option synthInstance.maxSize 4096

def Phase.isEarly : Phase → Bool
  | .preparing | .prepared | .stopping => true
  | _ => false

def Phase.ofSwitch : Phase → Bool
  | .awaitingNetworkConfirmation | .finalizing => false
  | _ => true

namespace NoBackup

/-- What the code has checked of its input: two different versions, and an id that is one
part of a path. -/
structure Versions (old target id : String) : Prop where
  oldStable : isStableVersion old = true
  targetStable : isStableVersion target = true
  ne : target ≠ old
  id : TransactionFile.isSafePart id = true

def area (target : String) : List Path :=
  [Layout.release target, Layout.releases ++ [".install-" ++ target ++ ".tmp"],
    Layout.unitOrigin, Layout.backups, Layout.currentTmp]

def file (old target id : String) (phase : Phase) (before : Option ServiceBefore)
    (resolv : Option Path) : TransactionFile :=
  { TransactionFile.newSwitch id old target with
    phase := phase
    noBackup := true
    systemdBefore := before
    resolvConfBackup := resolv }

section Versions

variable {version : String}

theorem stable_head (h : isStableVersion version = true) :
    ∃ c cs, version.toList = c :: cs ∧ c.isDigit = true := by
  unfold isStableVersion at h
  cases hv : version.toList with
  | nil =>
    rw [hv] at h
    exact absurd h (by decide)
  | cons c cs =>
    refine ⟨c, cs, rfl, ?_⟩
    rw [hv, List.splitOn, List.splitOnP_cons_eq_if_modifyHead] at h
    -- the first part of the split begins with the first character
    split at h
    · rename_i major minor patch hs
      split at hs
      · simp only [List.cons.injEq] at hs
        simp [← hs.1, isVersionNumber] at h
      · cases hr : List.splitOnP (fun x => x == '.') cs with
        | nil => simp [hr] at hs
        | cons d ds =>
          rw [hr, List.modifyHead_cons, List.cons.injEq] at hs
          simp only [← hs.1, List.all_cons, Bool.and_eq_true, isVersionNumber] at h
          exact h.1.1.1.2.1
    · exact absurd h (by decide)

theorem isSafePart_of_stable (h : isStableVersion version = true) :
    TransactionFile.isSafePart version = true := by
  obtain ⟨c, cs, hv, hc⟩ := stable_head h
  have hne : ∀ other : String, (∀ d ds, other.toList = d :: ds → d.isDigit = false) →
      version ≠ other := by
    rintro other ho rfl
    rw [ho c cs hv] at hc
    exact absurd hc (by decide)
  have h1 := hne "" (by simp)
  have h2 := hne "." (by simp +decide)
  have h3 := hne ".." (by simp +decide)
  simp [TransactionFile.isSafePart, h1, h2, h3]

theorem stable_ne_temporary (h : isStableVersion version = true) (other : String) :
    version ≠ ".install-" ++ other ++ ".tmp" := by
  obtain ⟨c, cs, hv, hc⟩ := stable_head h
  rintro rfl
  simp only [String.toList_append, List.append_assoc] at hv
  have hd : '.' = c := by
    have := congrArg List.head? hv
    simpa using this
  subst hd
  exact absurd hc (by decide)

end Versions

variable {old target id : String}

theorem outside_area (hv : Versions old target id) {q : Path}
    (hq : q = Layout.release old ∨ q = Layout.releases ∨ q = Layout.current ∨
      q = Layout.statePath) :
    ∀ p ∈ area target, ¬ p <+: q := by
  have htmp := stable_ne_temporary hv.oldStable target
  have hne := hv.ne
  rcases hq with rfl | rfl | rfl | rfl <;>
    simp [area, Layout.release, Layout.releases, Layout.root, Layout.unitOrigin, Layout.service,
      Layout.backups, Layout.currentTmp, Layout.runDir, Layout.current, Layout.statePath, hne,
      htmp.symm]

theorem file_validate (hv : Versions old target id) (phase : Phase)
    (before : Option ServiceBefore) {resolv : Option Path}
    (hr : resolv = none ∨ resolv = some (Layout.resolvBackupDir id)) :
    (file old target id phase before resolv).validate = none := by
  have ho := isSafePart_of_stable hv.oldStable
  have ht := isSafePart_of_stable hv.targetStable
  have hi := hv.id
  have hfix : ∀ part ∈ ["releases", "backups", "host", "resolv.conf"],
      TransactionFile.isSafePart part = true := by decide
  simp only [List.forall_mem_cons, List.not_mem_nil, false_implies, implies_true, and_true] at hfix
  rcases hr with rfl | rfl <;>
    simp [TransactionFile.validate, TransactionFile.validationErrors,
      TransactionFile.recordedPaths, TransactionFile.operationErrors,
      TransactionFile.isSafeRelative, TransactionFile.hasNetwork,
      TransactionFile.lacksBothVersions, file, TransactionFile.newSwitch, TransactionFile.blank,
      List.reduceOption, Layout.resolvBackupDir, Layout.backupDir, Layout.backups, ho, ht, hi,
      hfix]

structure RootOk (old target : String) (files : Files Document) : Prop where
  release : files (Layout.release old) ≠ none
  releases : files Layout.releases ≠ none
  current : ∃ v, (v = old ∨ v = target) ∧ files Layout.current = some (.link ["releases", v])
  state : ∃ s : InstallState, (s.activeVersion = old ∨ s.activeVersion = target) ∧
    s.manager = .systemd ∧ files Layout.statePath = some (.file (.state s))

structure Untouched (old : String) (files : Files Document) : Prop where
  current : files Layout.current = some (.link ["releases", old])
  state : ∃ s : InstallState, s.activeVersion = old ∧
    files Layout.statePath = some (.file (.state s))

def Recorded (old target id : String) (t : TransactionFile) : Prop :=
  ∃ phase before resolv, t = file old target id phase before resolv ∧
    (resolv = none ∨ resolv = some (Layout.resolvBackupDir id)) ∧ phase.ofSwitch = true ∧
    (phase = .preparing ∨ phase = .failed ∨ before.isSome = true)

structure Inv {H : Type} (old target id : String) (w : World H) : Prop where
  root : RootOk old target w.machine.files
  recorded : ∀ t, w.transaction = some t → Recorded old target id t
  early : ∀ t, w.transaction = some t → t.phase.isEarly = true → Untouched old w.machine.files

section Frames

variable {H : Type} {w w' : World H}

theorem RootOk.of_eq {files files' : Files Document} (h : RootOk old target files)
    (he : ∀ q, (q = Layout.release old ∨ q = Layout.releases ∨ q = Layout.current ∨
      q = Layout.statePath) → files q ≠ none → files' q = files q) :
    RootOk old target files' := by
  obtain ⟨hr, hrs, ⟨v, hv, hc⟩, s, hs, hm, hf⟩ := h
  refine ⟨?_, ?_, ⟨v, hv, ?_⟩, s, hs, hm, ?_⟩
  · rwa [he _ (.inl rfl) hr]
  · rwa [he _ (.inr (.inl rfl)) hrs]
  · rwa [he _ (.inr (.inr (.inl rfl))) (by simp [hc])]
  · rwa [he _ (.inr (.inr (.inr rfl))) (by simp [hf])]

theorem Untouched.of_eq {files files' : Files Document} (h : Untouched old files)
    (he : ∀ q, (q = Layout.release old ∨ q = Layout.releases ∨ q = Layout.current ∨
      q = Layout.statePath) → files q ≠ none → files' q = files q) : Untouched old files' := by
  obtain ⟨hc, s, hs, hf⟩ := h
  refine ⟨?_, s, hs, ?_⟩
  · rwa [he _ (.inr (.inr (.inl rfl))) (by simp [hc])]
  · rwa [he _ (.inr (.inr (.inr rfl))) (by simp [hf])]

theorem steady_eq (hv : Versions old target id) (h : Steady (area target) w w') :
    ∀ q, (q = Layout.release old ∨ q = Layout.releases ∨ q = Layout.current ∨
      q = Layout.statePath) → w.machine.files q ≠ none →
      w'.machine.files q = w.machine.files q :=
  fun q hq hn => h.files q (outside_area hv hq) hn

theorem Inv.steady (hv : Versions old target id) (h : Steady (area target) w w')
    (hw : Inv old target id w) : Inv old target id w' := by
  have he := steady_eq hv h
  refine ⟨hw.root.of_eq he, ?_, ?_⟩
  · intro t ht
    rw [h.silent.transaction] at ht
    exact hw.recorded t ht
  · intro t ht hp
    rw [h.silent.transaction] at ht
    exact (hw.early t ht hp).of_eq he

end Frames

section Requests

instance : (Act.buildRelease target).Inside (area target) :=
  ⟨by simp [Act.touches, Act.area, area]⟩

instance : (Act.resolvBackup (Layout.resolvBackupDir id)).Inside (area target) :=
  ⟨by simp [Act.touches, Act.area, area, Layout.resolvBackupDir, Layout.backupDir,
    Layout.backups]⟩

instance : Act.writeUnitOrigin.Inside (area target) :=
  ⟨by simp [Act.touches, Act.area, area]⟩

instance : (Act.removeFile Layout.currentTmp).Inside (area target) :=
  ⟨by simp [Act.touches, area]⟩

instance (link : Path) : (Act.symlink link Layout.currentTmp).Inside (area target) :=
  ⟨by simp [Act.touches, area]⟩

instance : (Act.removeDirAll (Layout.release target)).Inside (area target) :=
  ⟨by simp [Act.touches, area]⟩

instance : (Act.removeDirAll (Layout.releases ++ [".install-" ++ target ++ ".tmp"])).Inside
    (area target) :=
  ⟨by simp [Act.touches, area]⟩

end Requests

section Triples

variable {H : Type} (host : Host H) {l : Locals}

structure Before (old target id : String) (l : Locals) (w : World H) : Prop where
  inv : Inv old target id w
  untouched : Untouched old w.machine.files
  locals : w.locals = l

structure After (old target id : String) (l : Locals) (w : World H) : Prop where
  inv : Inv old target id w
  late : ∀ t, w.transaction = some t → t.phase.isEarly = false
  locals : w.locals = l

theorem Before.steady (hv : Versions old target id) {w w' : World H}
    (h : Steady (area target) w w') (hw : Before old target id l w) :
    Before old target id l w' :=
  ⟨hw.inv.steady hv h, hw.untouched.of_eq (steady_eq hv h), h.locals.trans hw.locals⟩

theorem After.steady (hv : Versions old target id) {w w' : World H}
    (h : Steady (area target) w w') (hw : After old target id l w) :
    After old target id l w' := by
  refine ⟨hw.inv.steady hv h, fun t ht => ?_, h.locals.trans hw.locals⟩
  rw [h.silent.transaction] at ht
  exact hw.late t ht

theorem Inv.stored {w : World H} (hw : Inv old target id w) {t : TransactionFile} {call : Call}
    {h : H} (hr : Recorded old target id t)
    (he : t.phase.isEarly = true → Untouched old w.machine.files) :
    Inv old target id (Host.stored w call t h) := by
  refine ⟨hw.root, fun u hu => ?_, fun u hu => ?_⟩
  · obtain rfl : t = u := Option.some.inj hu
    exact hr
  · obtain rfl : t = u := Option.some.inj hu
    exact he

theorem recorded_phase {before : ServiceBefore} {resolv : Option Path}
    (hr : resolv = none ∨ resolv = some (Layout.resolvBackupDir id)) {phase : Phase}
    (hp : phase.ofSwitch = true) :
    Recorded old target id (file old target id phase (some before) resolv) :=
  ⟨phase, some before, resolv, rfl, hr, hp, .inr (.inr rfl)⟩

theorem after_mark (hv : Versions old target id) {t : TransactionFile} {phase : Phase}
    (ht : Recorded old target id { t with phase := phase }) (hp : phase.isEarly = false)
    (call : Call) :
    Triple (After old target id l) (host.markPhaseAs call t phase)
      (fun _ => After old target id l) (fun _ => After old target id l)
      (After old target id l) := by
  have hstored : ∀ (w : World H) h, After old target id l w →
      After old target id l (Host.stored w call { t with phase := phase } h) := by
    intro w h hw
    refine ⟨hw.inv.stored ht (by simp [hp]), fun u hu => ?_, hw.locals⟩
    obtain rfl : { t with phase := phase } = u := Option.some.inj hu
    exact hp
  have hlog : Within (Steady (area target)) (host.check .appendLog) := inferInstance
  refine (hlog.triple fun _ _ h => After.steady hv h).bind fun _ => ?_
  exact host.triple_writeTransaction call _ hstored
    (fun w _ h hw => hw.steady hv (.of_host w h)) hstored
    fun w h hw => hw.steady hv (.of_host w h)

theorem before_mark (hv : Versions old target id) {t : TransactionFile} {phase : Phase}
    (ht : Recorded old target id { t with phase := phase }) (call : Call) :
    Triple (Before old target id l) (host.markPhaseAs call t phase)
      (fun _ w => Before old target id l w ∧ w.phase? = some phase)
      (fun _ => Before old target id l) (Inv old target id) := by
  have hstored : ∀ (w : World H) h, Before old target id l w →
      Before old target id l (Host.stored w call { t with phase := phase } h) := fun w h hw =>
    ⟨hw.inv.stored ht fun _ => hw.untouched, hw.untouched, hw.locals⟩
  have hlog : Within (Steady (area target)) (host.check .appendLog) := inferInstance
  have hcheck : Triple (Before old target id l) (host.check .appendLog)
      (fun _ => Before old target id l) (fun _ => Before old target id l) (Inv old target id) :=
    (hlog.triple fun _ _ h => Before.steady hv h).ends (fun _ _ h => h) fun _ h => h.inv
  refine hcheck.bind fun _ => ?_
  exact host.triple_writeTransaction call _ (fun w h hw => ⟨hstored w h hw, rfl⟩)
    (fun w _ h hw => hw.steady hv (.of_host w h)) (fun w h hw => (hstored w h hw).inv)
    fun w h hw => (hw.steady hv (.of_host w h)).inv

theorem Before.after {w : World H} (h : Before old target id l w) {phase : Phase}
    (hp : w.phase? = some phase) (hl : phase.isEarly = false) : After old target id l w := by
  refine ⟨h.inv, fun t ht => ?_, h.locals⟩
  simp only [World.phase?, ht, Option.map_some, Option.some.injEq] at hp
  rwa [hp]

theorem RootOk.move {files : Files Document} (h : RootOk old target files) {v : String}
    (hv : v = old ∨ v = target) (hc : files Layout.currentTmp = some (.link ["releases", v])) :
    RootOk old target (files.move Layout.currentTmp Layout.current) ∧
      files.move Layout.currentTmp Layout.current Layout.current =
        some (.link ["releases", v]) := by
  have hcur : files.move Layout.currentTmp Layout.current Layout.current =
      some (.link ["releases", v]) := by
    rw [← hc]
    simp [Files.move]
  have hother : ∀ q, (q = Layout.release old ∨ q = Layout.releases ∨ q = Layout.statePath) →
      files.move Layout.currentTmp Layout.current q = files q := by
    rintro q (rfl | rfl | rfl) <;>
      simp [Files.move, Layout.currentTmp, Layout.runDir, Layout.current, Layout.root,
        Layout.release, Layout.releases, Layout.statePath]
  obtain ⟨s, hs, hm, hf⟩ := h.state
  refine ⟨⟨?_, ?_, ⟨v, hv, hcur⟩, s, hs, hm, ?_⟩, hcur⟩
  · rw [hother _ (.inl rfl)]
    exact h.release
  · rw [hother _ (.inr (.inl rfl))]
    exact h.releases
  · rw [hother _ (.inr (.inr rfl))]
    exact hf

theorem RootOk.putState {files : Files Document} (h : RootOk old target files) {s : InstallState}
    (hs : s.activeVersion = old ∨ s.activeVersion = target) (hm : s.manager = .systemd) :
    RootOk old target (files.put Layout.statePath (.file (.state s))) := by
  have hother : ∀ q, q ≠ Layout.statePath →
      files.put Layout.statePath (.file (.state s)) q = files q := fun q hq =>
    Function.update_of_ne hq ..
  obtain ⟨v, hv, hc⟩ := h.current
  refine ⟨?_, ?_, ⟨v, hv, ?_⟩, s, hs, hm, Function.update_self ..⟩
  · rw [hother _ (by simp [Layout.release, Layout.releases, Layout.root, Layout.statePath])]
    exact h.release
  · rw [hother _ (by simp [Layout.releases, Layout.root, Layout.statePath])]
    exact h.releases
  · rw [hother _ (by simp [Layout.current, Layout.root, Layout.statePath])]
    exact hc

theorem After.setFiles {w : World H} (hw : After old target id l w) {files : Files Document}
    (hr : RootOk old target files) (h : H) :
    After old target id l { w with machine := w.machine.setFiles files, host := h } := by
  refine ⟨⟨hr, hw.inv.recorded, fun t ht hp => ?_⟩, hw.late, hw.locals⟩
  -- no early phase is in the file
  rw [hw.late t ht] at hp
  exact absurd hp (by decide)

theorem triple_restoreCurrent {P : World H → Prop}
    (hsteady : ∀ w w', Steady (area target) w w' → P w → P w') {v : String}
    (hmove : ∀ w h, P w → w.machine.files Layout.currentTmp = some (.link ["releases", v]) →
      P { w with
        machine := w.machine.setFiles (w.machine.files.move Layout.currentTmp Layout.current)
        host := h }) :
    Triple P (host.restoreCurrent ["releases", v]) (fun _ => P) (fun _ => P) P := by
  have hstep : ∀ {α : Type} {p : Flow H α}, Within (Steady (area target)) p →
      Triple P p (fun _ => P) (fun _ => P) P := fun hp => hp.triple hsteady
  refine (hstep inferInstance).bind fun _ => (hstep inferInstance).bind fun _ => ?_
  have hlink : Within (Steady (area target))
      (host.perform (.symlink ["releases", v] Layout.currentTmp)) := inferInstance
  refine (hlink.triple_ok hsteady fun w a w' hw hrun => ?_).bind
    (Q := fun _ w => P w ∧
      w.machine.files Layout.currentTmp = some (.link ["releases", v])) fun _ => ?_
  · obtain ⟨out, h, rfl⟩ := host.perform_ok hrun
    simp only [Act.done, Machine.setFiles, Files.put, Function.update_self]
  · -- the rename is one step: it happens or it does not
    refine host.triple_perform _ ?_ ?_ ?_ ?_
    · rintro w a out h ⟨hw, hc⟩
      exact hmove w h hw hc
    · rintro w e out h ⟨hw, -⟩
      exact hsteady w _ (.of_host w h) hw
    · rintro w out h ⟨hw, hc⟩
      exact hmove w h hw hc
    · rintro w out h ⟨hw, -⟩
      exact hsteady w _ (.of_host w h) hw

theorem triple_writeState {P : World H → Prop}
    (hsteady : ∀ w w', Steady (area target) w w' → P w → P w') {s : InstallState}
    (hput : ∀ w h, P w → P { w with
      machine := w.machine.setFiles (w.machine.files.put Layout.statePath (.file (.state s)))
      host := h }) :
    Triple P (host.writeState s) (fun _ => P) (fun _ => P) P := by
  have hdir : Within (Steady (area target))
      (host.perform (.createDirAll Layout.statePath.dropLast)) := inferInstance
  refine (hdir.triple hsteady).bind fun _ => ?_
  refine host.triple_perform _ ?_ ?_ ?_ ?_
  · intro w a out h hw
    exact hput w h hw
  · intro w e out h hw
    exact hsteady w _ (.of_host w h) hw
  · intro w out h hw
    exact hput w h hw
  · intro w out h hw
    exact hsteady w _ (.of_host w h) hw

theorem after_restoreCurrent (hv : Versions old target id) {v : String}
    (hvv : v = old ∨ v = target) :
    Triple (After old target id l) (host.restoreCurrent ["releases", v])
      (fun _ => After old target id l) (fun _ => After old target id l)
      (After old target id l) :=
  triple_restoreCurrent host (fun _ _ h => After.steady hv h) fun _ h hw hc =>
    hw.setFiles (hw.inv.root.move hvv hc).1 h

theorem after_writeState (hv : Versions old target id) {s : InstallState}
    (hs : s.activeVersion = old ∨ s.activeVersion = target) (hm : s.manager = .systemd) :
    Triple (After old target id l) (host.writeState s) (fun _ => After old target id l)
      (fun _ => After old target id l) (After old target id l) :=
  triple_writeState host (fun _ _ h => After.steady hv h) fun _ h hw =>
    hw.setFiles (hw.inv.root.putState hs hm) h

theorem after_rollbackNoBackup (hv : Versions old target id) {phase : Phase}
    {before : ServiceBefore} {resolv : Option Path}
    (hr : resolv = none ∨ resolv = some (Layout.resolvBackupDir id)) {s : InstallState}
    (hs : s.activeVersion = old ∨ s.activeVersion = target) (hm : s.manager = .systemd) :
    Triple (After old target id l)
      (host.rollbackNoBackup (file old target id phase (some before) resolv) s)
      (fun _ => After old target id l) (fun _ => After old target id l)
      (After old target id l) := by
  have hsteady : ∀ {α : Type} {p : Flow H α}, Within (Steady (area target)) p →
      Triple (After old target id l) p (fun _ => After old target id l)
        (fun _ => After old target id l) (After old target id l) :=
    fun hp => hp.triple fun _ _ h => After.steady hv h
  refine (after_mark host hv (recorded_phase hr rfl) rfl _).bind fun _ => ?_
  refine Triple.bind (Q := fun _ => After old target id l) ?_ fun _ =>
    after_mark host hv (recorded_phase hr rfl) rfl _
  -- the service, the link, the service again, the state
  unfold Host.reinstateNoBackup
  refine (hsteady inferInstance).bind fun _ => ?_
  rw [show (file old target id phase (some before) resolv).previousCurrent =
    some ["releases", old] from rfl, Host.orCorrupted_some, Prog.pure_andThen]
  refine (after_restoreCurrent host hv (.inl rfl)).bind fun _ => ?_
  refine (hsteady inferInstance).bind fun _ => ?_
  exact after_writeState host hv hs hm

end Triples

section Recovery

variable {H : Type} (host : Host H)

theorem Inv.before_or_after {w : World H} (h : Inv old target id w) {t : TransactionFile}
    (ht : w.transaction = some t) :
    (t.phase.isEarly = true → Before old target id w.locals w) ∧
      (t.phase.isEarly = false → After old target id w.locals w) := by
  refine ⟨fun he => ⟨h, h.early t ht he, rfl⟩, fun he => ⟨h, fun u hu => ?_, rfl⟩⟩
  obtain rfl : t = u := Option.some.inj (ht.symm.trans hu)
  exact he

instance steady_removeTargetRelease (phase : Phase) (before : Option ServiceBefore)
    (resolv : Option Path) :
    Within (Steady (area target))
      (host.removeTargetRelease (file old target id phase before resolv)) := by
  have hrelease : Within (Steady (area target))
      (host.discard (some (Layout.release target))) := by
    unfold Host.discard
    infer_instance
  have htmp : Within (Steady (area target))
      (host.discard (some (Layout.releases ++ [".install-" ++ target ++ ".tmp"]))) := by
    unfold Host.discard
    infer_instance
  exact Within.andThen hrelease fun _ => htmp

theorem before_steady (hv : Versions old target id) {l : Locals} {α : Type} {p : Flow H α}
    (hp : Within (Steady (area target)) p) :
    Triple (Before old target id l) p (fun _ => Before old target id l)
      (fun _ => Inv old target id) (Inv old target id) :=
  (hp.triple fun _ _ h => Before.steady hv h).ends (fun _ _ h => h.inv) fun _ h => h.inv

theorem before_markFailed (hv : Versions old target id) {l : Locals} {phase : Phase}
    {before : Option ServiceBefore} {resolv : Option Path}
    (hr : resolv = none ∨ resolv = some (Layout.resolvBackupDir id)) :
    Triple (Before old target id l)
      (host.markPhase (file old target id phase before resolv) .failed)
      (fun _ => Inv old target id) (fun _ => Inv old target id) (Inv old target id) := by
  have hrec : Recorded old target id (file old target id .failed before resolv) :=
    ⟨.failed, before, resolv, rfl, hr, rfl, .inr (.inl rfl)⟩
  exact (before_mark host hv hrec _).consequence (fun _ h => h) (fun _ _ h => h.1.inv)
    (fun _ _ h => h.inv) fun _ h => h

theorem after_recoverActivated (hv : Versions old target id) {l : Locals} {phase : Phase}
    {before : ServiceBefore} {resolv : Option Path}
    (hr : resolv = none ∨ resolv = some (Layout.resolvBackupDir id)) :
    Triple (After old target id l)
      (host.recoverActivatedSwitch (file old target id phase (some before) resolv))
      (fun _ => After old target id l) (fun _ => After old target id l)
      (After old target id l) := by
  change Triple _ (host.loadState >>= fun state => _) _ _ _
  have hload : Within Idle host.loadState := inferInstance
  refine (hload.triple_ok (fun w w' ⟨h, he⟩ hw => he ▸ hw.steady hv (.of_host w h))
    (Q := fun r _ => ∀ s, r = some s →
      (s.activeVersion = old ∨ s.activeVersion = target) ∧ s.manager = .systemd) ?_).bind
    fun r => ?_
  · rintro w r w' hw hrun s rfl
    obtain ⟨hs, hm, hc, hf⟩ := hw.inv.root.state
    rw [(host.loadState_ok hrun).1] at hf
    simp only [Option.some.injEq, Node.file.injEq, Document.state.injEq] at hf
    exact hf ▸ ⟨hm, hc⟩
  · cases r with
    | none => exact Triple.fail _ fun w hw => hw.1
    | some s =>
      intro w hw
      obtain ⟨hs, hm⟩ := hw.2 s rfl
      exact after_rollbackNoBackup host hv hr hs hm w hw.1

theorem recover_inv (hv : Versions old target id) :
    Triple (Inv old target id) host.recoverInterrupted (fun _ => Inv old target id)
      (fun _ => Inv old target id) (Inv old target id) := by
  refine (host.triple_findUnfinished fun w h hw => hw.steady hv (.of_host w h)).bind fun r => ?_
  cases r with
  | none => exact Triple.pure _ fun w hw => hw.1
  | some t =>
    rintro w ⟨hw, ht⟩
    obtain ⟨htx, hterm⟩ := ht t rfl
    obtain ⟨phase, before, resolv, rfl, hr, -, hb⟩ := hw.recorded t htx
    obtain ⟨hearly, hlate⟩ := hw.before_or_after htx
    change Outcome.Satisfies _ _ _ (host.recoverSwitch _ w)
    -- a late phase was written with the service recorded
    have hactivated : phase.isEarly = false → phase ≠ .failed →
        Outcome.Satisfies (fun _ => Inv old target id) (fun _ => Inv old target id)
          (Inv old target id)
          (host.recoverActivatedSwitch (file old target id phase before resolv) w) := by
      intro hl hf
      rcases hb with rfl | rfl | hb
      · exact absurd hl (by decide)
      · exact absurd rfl hf
      · obtain ⟨b, rfl⟩ := Option.isSome_iff_exists.mp hb
        exact (after_recoverActivated host hv hr w (hlate hl)).mono (fun _ _ h => h.inv)
          (fun _ _ h => h.inv) fun _ h => h.inv
    cases phase with
    | preparing =>
      exact ((before_steady hv inferInstance).bind fun _ => before_markFailed host hv hr) w
        (hearly rfl)
    | prepared | stopping =>
      exact ((before_steady hv inferInstance).bind fun _ =>
        (before_steady hv inferInstance).bind fun _ => before_markFailed host hv hr) w
        (hearly rfl)
    | activating => exact hactivated rfl (by decide)
    | verifying => exact hactivated rfl (by decide)
    | rollingBack => exact hactivated rfl (by decide)
    | awaitingNetworkConfirmation | finalizing => exact hw
    | committed | rolledBack | failed => simp [file, Phase.isTerminal] at hterm

end Recovery

section Switch

variable {H : Type} (host : Host H)

def vars (old target id : String) (before : Option ServiceBefore) (resolv : Option Path)
    (activated : Bool) : Locals :=
  ⟨file old target id .preparing before resolv, activated, false⟩

def Abandoned (old target id : String) (w : World H) : Prop :=
  (∃ before resolv, (resolv = none ∨ resolv = some (Layout.resolvBackupDir id)) ∧
    Before old target id (vars old target id before resolv false) w) ∨
  ∃ before, After old target id
    (vars old target id (some before) (some (Layout.resolvBackupDir id)) true) w

def Ready (old target id : String) (before : ServiceBefore) : World H → Prop :=
  Before old target id
    (vars old target id (some before) (some (Layout.resolvBackupDir id)) false)

def Activated (old target id : String) (before : ServiceBefore) : World H → Prop :=
  After old target id
    (vars old target id (some before) (some (Layout.resolvBackupDir id)) true)

theorem early_step (hv : Versions old target id) {before : Option ServiceBefore}
    {resolv : Option Path} (hr : resolv = none ∨ resolv = some (Layout.resolvBackupDir id))
    {α : Type} {p : Flow H α} (hp : Within (Steady (area target)) p) :
    Triple (Before old target id (vars old target id before resolv false)) p
      (fun _ => Before old target id (vars old target id before resolv false))
      (fun _ => Abandoned old target id) (Inv old target id) :=
  (hp.triple fun _ _ h => Before.steady hv h).ends
    (fun _ _ h => .inl ⟨before, resolv, hr, h⟩) fun _ h => h.inv

theorem late_step (hv : Versions old target id) {before : ServiceBefore} {α : Type}
    {p : Flow H α} (hp : Within (Steady (area target)) p) :
    Triple (Activated old target id before) p (fun _ => Activated old target id before)
      (fun _ => Abandoned old target id) (Inv old target id) :=
  (hp.triple fun _ _ h => After.steady hv h).ends (fun _ _ h => .inr ⟨before, h⟩) fun _ h => h.inv

theorem ready_mark (hv : Versions old target id) (before : ServiceBefore) {phase : Phase}
    (hs : phase.ofSwitch = true) :
    Triple (Ready old target id before) (host.mark phase)
      (fun _ w => Ready old target id before w ∧ w.phase? = some phase)
      (fun _ => Abandoned old target id) (Inv old target id) := by
  refine Host.triple_getTransaction (fun w hw => congrArg Locals.transaction hw.locals) ?_
  exact (before_mark host hv (recorded_phase (.inr rfl) hs) _).ends
    (fun _ _ h => .inl ⟨_, _, .inr rfl, h⟩) fun _ h => h

theorem activated_mark (hv : Versions old target id) (before : ServiceBefore) {phase : Phase}
    (hs : phase.ofSwitch = true) (hp : phase.isEarly = false) :
    Triple (Activated old target id before) (host.mark phase)
      (fun _ => Activated old target id before) (fun _ => Abandoned old target id)
      (Inv old target id) := by
  refine Host.triple_getTransaction (fun w hw => congrArg Locals.transaction hw.locals) ?_
  exact (after_mark host hv (recorded_phase (.inr rfl) hs) hp _).ends
    (fun _ _ h => .inr ⟨before, h⟩) fun _ h => h.inv

theorem early_assign {before : Option ServiceBefore} {resolv : Option Path}
    (before' : Option ServiceBefore) (resolv' : Option Path)
    {f : TransactionFile → TransactionFile}
    (hf : f (file old target id .preparing before resolv) =
      file old target id .preparing before' resolv') {E : InstallError → World H → Prop}
    {C : World H → Prop} :
    Triple (Before old target id (vars old target id before resolv false))
      (Host.setTransaction f : Flow H Unit)
      (fun _ => Before old target id (vars old target id before' resolv' false)) E C := by
  refine Triple.modify _ fun w hw => ⟨⟨hw.inv.root, hw.inv.recorded, hw.inv.early⟩, hw.untouched, ?_⟩
  dsimp only
  rw [hw.locals]
  simp only [vars, hf]

theorem early_recordBefore (hv : Versions old target id) :
    Triple (Before old target id (vars old target id none none false)) (host.recordBefore id)
      (fun _ w => ∃ before, Ready old target id before w) (fun _ => Abandoned old target id)
      (Inv old target id) := by
  refine (early_step hv (.inl rfl) inferInstance).bind fun before => ?_
  refine (early_assign (some before) none rfl).bind fun _ => ?_
  refine (early_step hv (.inl rfl) inferInstance).bind fun _ => ?_
  exact (early_assign (some before) (some (Layout.resolvBackupDir id)) rfl).consequence
    (fun _ h => h)
    (fun _ _ h => ⟨before, h⟩) (fun _ _ h => h) fun _ h => h

theorem early_prepareSwitch (hv : Versions old target id) (state : InstallState) :
    Triple (Before old target id (vars old target id none none false))
      (host.prepareSwitch state id target true true)
      (fun _ w => ∃ before, Ready old target id before w) (fun _ => Abandoned old target id)
      (Inv old target id) := by
  unfold Host.prepareSwitch
  simp only [Bool.not_true, Prog.onlyIf_false, Prog.onlyIf_true, Prog.pure_andThen]
  refine (early_step hv (.inl rfl) inferInstance).bind fun built => ?_
  refine Triple.bind (Q := fun _ w => ∃ before, Ready old target id before w) ?_ fun _ =>
    Triple.pure _ fun _ h => h
  refine (early_recordBefore host hv).bind fun _ => ?_
  rintro w ⟨before, hw⟩
  have horigin : Within (Steady (area target)) (do
      let _ ← host.perform .writeUnitOrigin
      pure ()) := inferInstance
  exact (early_step hv (.inr rfl) horigin w hw).mono (fun _ _ h => ⟨before, h⟩)
    (fun _ _ h => h) fun _ h => h

theorem ready_activate (hv : Versions old target id) {state : InstallState}
    (before : ServiceBefore) (built : Asset × Asset) :
    Triple (Ready old target id before) (do
        host.mark .prepared
        host.stopForSwitch true
        host.mark .activating
        Host.setActivated
        host.activateCurrent target
        Prog.onlyIf true host.registerStartAndVerify
        host.commitSwitch state target id built)
      (fun _ => Inv old target id) (fun _ => Abandoned old target id) (Inv old target id) := by
  refine (ready_mark host hv before rfl).bind fun _ => ?_
  refine Triple.strengthen ?_ fun w (hw : Ready old target id before w ∧ _) => hw.1
  refine Triple.bind (Q := fun _ => Ready old target id before) ?_ fun _ => ?_
  · refine (ready_mark host hv before rfl).bind fun _ => ?_
    exact (early_step hv (.inr rfl) inferInstance).strengthen fun w hw => hw.1
  refine (ready_mark host hv before rfl).bind fun _ => ?_
  -- the file now says `activating`, so the rest may change what it likes
  refine Triple.bind (Q := fun _ => Activated old target id before)
    (Triple.modify _ fun w hw => ?_) fun _ => ?_
  · obtain ⟨hb, hp⟩ := hw
    obtain ⟨hinv, hlate, hl⟩ := hb.after hp rfl
    refine ⟨⟨hinv.root, hinv.recorded, hinv.early⟩, hlate, ?_⟩
    dsimp only
    rw [hl]
    rfl
  refine ((after_restoreCurrent host hv (.inr rfl)).ends (fun _ _ h => .inr ⟨before, h⟩)
    fun _ h => h.inv).bind fun _ => ?_
  rw [Prog.onlyIf_true]
  refine Triple.bind (Q := fun _ => Activated old target id before) ?_ fun _ => ?_
  · refine (late_step hv inferInstance).bind fun _ => (late_step hv inferInstance).bind fun _ => ?_
    refine (activated_mark host hv before rfl rfl).bind fun _ => ?_
    exact (late_step hv inferInstance).bind fun _ => late_step hv inferInstance
  refine Host.triple_getMachine fun m => ?_
  refine Triple.strengthen (P := Activated old target id before) ?_ fun w hw => hw.1
  refine Triple.bind (Q := fun _ => Activated old target id before) ?_ fun _ => ?_
  · exact (after_writeState host hv (.inr rfl) rfl).ends
      (fun _ _ h => .inr ⟨before, h⟩) fun _ h => h.inv
  · exact (activated_mark host hv before rfl rfl).consequence (fun _ h => h) (fun _ _ h => h.inv)
      (fun _ _ h => h) fun _ h => h

theorem abandoned_abandonSwitch (hv : Versions old target id) {state : InstallState}
    (hs : state.activeVersion = old) (hm : state.manager = .systemd) :
    Triple (Abandoned old target id) (host.abandonSwitch state true)
      (fun _ => Inv old target id) (fun _ => Inv old target id) (Inv old target id) := by
  rintro w (⟨before, resolv, hr, hw⟩ | ⟨before, hw⟩)
  · -- before activation: the service goes back, and the switch is over
    have hpath : Triple (Before old target id (vars old target id before resolv false))
        (host.abandonSwitch state true) (fun _ => Inv old target id)
        (fun _ => Inv old target id) (Inv old target id) := by
      refine Host.triple_getActivated (fun w hw => congrArg Locals.activated hw.locals) ?_
      refine Host.triple_getTransaction (fun w hw => congrArg Locals.transaction hw.locals) ?_
      refine (before_steady hv inferInstance).bind fun _ => Triple.ignore ?_
      refine Host.triple_getTransaction (fun w hw => congrArg Locals.transaction hw.locals) ?_
      exact before_markFailed host hv hr
    exact hpath w hw
  · have hpath : Triple (Activated old target id before) (host.abandonSwitch state true)
        (fun _ => Inv old target id) (fun _ => Inv old target id) (Inv old target id) := by
      refine Host.triple_getActivated (fun w hw => congrArg Locals.activated hw.locals) ?_
      refine Host.triple_getTransaction (fun w hw => congrArg Locals.transaction hw.locals) ?_
      refine Triple.ignore ?_
      exact (after_rollbackNoBackup host hv (.inr rfl) (.inl hs) hm).consequence (fun _ h => h)
        (fun _ _ h => h.inv) (fun _ _ h => h.inv) fun _ h => h.inv
    exact hpath w hw

/-- What a no-backup switch starts from: a complete installation whose service is down, and no
transaction under way. -/
structure Installed (state : InstallState) (d : Disk) : Prop where
  release : d.machine.files (Layout.release state.activeVersion) ≠ none
  releases : d.machine.files Layout.releases ≠ none
  current : d.machine.files Layout.current = some (.link ["releases", state.activeVersion])
  stateFile : d.machine.files Layout.statePath = some (.file (.state state))
  manager : state.manager = .systemd
  stopped : (d.machine.units routerUnit).active = false
  transaction : d.transaction = none

theorem Installed.before {state : InstallState} {w : World H} (h : Installed state w.disk)
    (target id : String) (l : Locals) :
    Before state.activeVersion target id l { w with locals := l } := by
  have hnone : ∀ t, w.transaction ≠ some t := fun t ht =>
    absurd (h.transaction.symm.trans ht) (by simp)
  refine ⟨⟨⟨h.release, h.releases, ⟨_, .inl rfl, h.current⟩, state, .inl rfl, h.manager,
    h.stateFile⟩, fun t ht => absurd ht (hnone t), fun t ht => absurd ht (hnone t)⟩,
    ⟨h.current, state, rfl, h.stateFile⟩, rfl⟩

theorem early_begin (hv : Versions old target id) :
    Triple (Before old target id (vars old target id none none false)) host.beginOwn
      (fun _ => Before old target id (vars old target id none none false))
      (fun _ => Inv old target id) (Inv old target id) := by
  refine Host.triple_getTransaction (fun w hw => congrArg Locals.transaction hw.locals) ?_
  change Triple _ (host.beginTransaction (file old target id .preparing none none)) _ _ _
  unfold Host.beginTransaction
  rw [file_validate hv .preparing none (.inl rfl)]
  refine ((host.triple_findUnfinished fun w h hw => hw.steady hv (.of_host w h)).consequence
    (fun _ h => h) (fun _ _ h => h.1) (fun _ _ h => h.inv) fun _ h => h.inv).bind fun r => ?_
  cases r with
  | some t => exact Triple.fail _ fun w hw => hw.inv
  | none =>
    refine (before_steady hv inferInstance).bind fun _ => ?_
    have hstored : ∀ (w : World H) h,
        Before old target id (vars old target id none none false) w →
        Before old target id (vars old target id none none false)
          (Host.stored w .begin (file old target id .preparing none none) h) := fun w h hw =>
      ⟨hw.inv.stored ⟨_, _, _, rfl, .inl rfl, rfl, .inl rfl⟩ fun _ => hw.untouched, hw.untouched,
        hw.locals⟩
    exact host.triple_writeTransaction .begin _ hstored
      (fun w _ h hw => (hw.steady hv (.of_host w h)).inv) (fun w h hw => (hstored w h hw).inv)
      fun w h hw => (hw.steady hv (.of_host w h)).inv

theorem switch_inv {state : InstallState} (hv : Versions state.activeVersion target id)
    (hm : state.manager = .systemd) :
    Triple (fun w : World H => Installed state w.disk) (host.switchVersion state id target true)
      (fun _ => Inv state.activeVersion target id)
      (fun _ => Inv state.activeVersion target id) (Inv state.activeVersion target id) := by
  have hinv : ∀ w : World H, Installed state w.disk → Inv state.activeVersion target id w :=
    fun w hw => (hw.before target id w.locals).inv
  have hlook : ∀ {α : Type} {p : Flow H α}, Within Idle p →
      Triple (fun w : World H => Installed state w.disk) p (fun _ w => Installed state w.disk)
        (fun _ => Inv state.activeVersion target id) (Inv state.activeVersion target id) := by
    intro α p hp
    refine (hp.triple (P := fun w : World H => Installed state w.disk) ?_).ends
      (fun _ w h => hinv w h) fun w h => hinv w h
    rintro w w' ⟨h, rfl⟩ hw
    exact hw
  unfold Host.switchVersion
  refine Triple.bind (Q := fun _ w => Installed state w.disk) ?_ fun _ => ?_
  · unfold Host.requireUpgrade
    exact hlook inferInstance
  refine (hlook inferInstance).bind fun _ => (hlook inferInstance).bind fun _ => ?_
  refine Triple.bind (Q := fun stopped w => Installed state w.disk ∧ stopped = true) ?_
    fun stopped => ?_
  · -- the unit is down, so the answer is that it is stopped
    rw [hm]
    refine Triple.bind (Q := fun active w => Installed state w.disk ∧ active = false) ?_
      fun active => Triple.pure _ fun w hw => ⟨hw.1, by rw [hw.2]; rfl⟩
    refine (hlook inferInstance).bind fun _ => Host.triple_getMachine fun m => ?_
    exact Triple.pure _ fun w hw => ⟨hw.1, hw.2 ▸ hw.1.stopped⟩
  · rintro w ⟨hw, rfl⟩
    have hblock : Triple
        (Before state.activeVersion target id (vars state.activeVersion target id none none false))
        (host.switchBlock state id target true true)
        (fun _ => Inv state.activeVersion target id)
        (fun _ => Abandoned state.activeVersion target id)
        (Inv state.activeVersion target id) := by
      refine (early_prepareSwitch host hv state).bind fun built => ?_
      rintro w ⟨before, hw⟩
      exact ready_activate host hv before built w hw
    have hrun := (early_begin host hv).bind fun _ =>
      Host.triple_withErrorPath hblock fun _ => abandoned_abandonSwitch host hv rfl hm
    rw [hm]
    exact hrun _ (hw.before target id _)

end Switch

end NoBackup

end LandscapeKit.Deploy
