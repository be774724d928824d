import LandscapeKit.DeployFootprint

/-!
Runs of one command after another. What survives a process is the disk: the files and units
of the host, and the transaction file. Each command starts on the disk the last one left, on
a host of its own, and may be cut off anywhere.
-/

namespace LandscapeKit.Deploy

open Faults

variable {H α : Type}

structure Disk where
  machine : Machine
  transaction : Option TransactionFile
  writes : List Write

def World.disk (w : World H) : Disk := ⟨w.machine, w.transaction, w.writes⟩

def Disk.boot (d : Disk) (h : H) : World H where
  machine := d.machine
  transaction := d.transaction
  writes := d.writes
  locals := ⟨.blank "" .install, false, false⟩
  host := h

def Disk.after (d : Disk) (p : Flow H α) (h : H) : Disk := (p (d.boot h)).2.disk

/-- A host on which every request succeeds, and a started service has a main pid. -/
class Host.Obliging (host : Host H) : Prop where
  ok : ∀ {α : Type} (act : Act α) (m : Machine) (h : H), ∃ a out h',
    host.answer act m h = (.ok a, out, h')
  mainPid : ∀ m h pid out h', host.answer .mainPid m h = (.ok pid, out, h') → pid ≠ 0

def Host.obliging : Host Unit := Host.scripted (fun _ => false) (fun _ => false)

instance : Host.obliging.Obliging where
  ok act m h := ⟨act.sample, m, h, rfl⟩
  mainPid m h pid out h' hans := by
    have hpid : 1 = pid := by
      simpa [Host.obliging, Host.scripted, Act.sample] using congrArg Prod.fst hans
    omega

theorem TransactionFile.validate_withPhase {t : TransactionFile} {phase : Phase}
    (h : { t with phase := phase }.mayLackBackup = t.mayLackBackup) :
    { t with phase := phase }.validate = t.validate := by
  have hop : { t with phase := phase }.operationErrors = t.operationErrors := by
    unfold TransactionFile.operationErrors
    rw [h]
    rfl
  unfold TransactionFile.validate TransactionFile.validationErrors
  rw [hop]
  rfl

/-! An installation to run the workflows on. -/

def installedSample : InstallState where
  activeVersion := "1.0.0"
  webserver := ⟨"a", 1⟩
  staticArchive := ⟨"b", 1⟩
  status := .complete
  lockPresent := true
  manager := .systemd
  lastTransactionId := none

def sampleFiles : List (Path × Node Document) :=
  [(Layout.root, .dir), (Layout.releases, .dir), (Layout.release "1.0.0", .dir),
    (Layout.release "1.0.0" ++ [Layout.webserverBinary], .file (.text "webserver")),
    (Layout.current, .link ["releases", "1.0.0"]), (Layout.service, .dir),
    (Layout.unitOrigin, .file (.text "[Unit]")), (["state"], .dir),
    (Layout.statePath, .file (.state installedSample))]

def sampleData : List (Path × Node Document) :=
  [(Layout.data, .dir), (Layout.data ++ ["landscape.toml"], .file (.text "old"))]

def Disk.holding (files : List (Path × Node Document)) : Disk where
  machine := {
    files := fun p => files.lookup p
    units := fun unit => ⟨unit = routerUnit, false, "enabled", unit = routerUnit⟩ }
  transaction := none
  writes := []

namespace Host

variable (host : Host H)

def stored (w : World H) (call : Call) (t : TransactionFile) (h : H) : World H :=
  { w with transaction := some t, writes := w.writes ++ [⟨call, t.phase⟩], host := h }

theorem perform_ok {act : Act α} {w w' : World H} {a : α}
    (h : host.perform act w = (.ok a, w')) :
    ∃ out h', w' = { w with machine := act.done out w.machine, host := h' } := by
  unfold perform at h
  split at h
  · cases h
    exact ⟨_, _, rfl⟩
  · simp at h
  · simp at h

@[simp] theorem orCorrupted_some (a : α) (message : String) :
    (orCorrupted (some a) message : Flow H α) = pure a := rfl

theorem findUnfinished_filter {w w' : World H} {r : Option TransactionFile}
    (h : host.findUnfinished w = (.ok r, w')) :
    r = w.transaction.filter (fun t => !t.phase.isTerminal) ∧
      ∀ t, w.transaction = some t → t.validate = none := by
  obtain ⟨_, w₁, hc, hr⟩ := Prog.bind_eq_ok h
  have hidle := (Idle.check host .readTransactions).rel w
  rw [hc] at hidle
  obtain ⟨h₁, rfl⟩ := hidle
  obtain ⟨v, w₂, hread, hr⟩ := Prog.bind_eq_ok hr
  cases hread
  rcases hu : w.transaction with _ | u
  · simp only [hu, pure, Prod.mk.injEq, Outcome.ok.injEq] at hr
    exact ⟨hr.1.symm, fun t ht => by cases ht⟩
  · simp only [hu] at hr
    rcases hval : u.validate with _ | e
    · simp only [hval, pure, Prod.mk.injEq, Outcome.ok.injEq] at hr
      refine ⟨hr.1.symm.trans ?_, fun t ht => Option.some.inj ht ▸ hval⟩
      cases hterm : u.phase.isTerminal <;> simp [Option.filter, hterm]
    · simp [hval, Prog.fail] at hr

theorem findUnfinished_ok {w w' : World H} {t : TransactionFile}
    (h : host.findUnfinished w = (.ok (some t), w')) :
    w.transaction = some t ∧ t.validate = none ∧ t.phase.isTerminal = false := by
  obtain ⟨hr, hval⟩ := host.findUnfinished_filter h
  obtain ⟨ht, hterm⟩ := Option.filter_eq_some_iff.mp hr.symm
  exact ⟨ht, hval t ht, by simpa using hterm⟩

theorem recoverInterrupted_ok {w w' : World H} {t : TransactionFile}
    (ht : w.transaction = some t) (hopen : t.phase.isTerminal = false)
    (hrun : host.recoverInterrupted w = (.ok (), w')) :
    ∃ h, host.recoverTransaction t { w with host := h } = (.ok (), w') := by
  obtain ⟨r, w₁, hfind, hrun⟩ := Prog.bind_eq_ok hrun
  obtain ⟨hr, -⟩ := host.findUnfinished_filter hfind
  obtain rfl : r = some t := by simp [hr, ht, Option.filter, hopen]
  have hidle := (Idle.findUnfinished host).rel w
  rw [hfind] at hidle
  obtain ⟨h, rfl⟩ := hidle
  exact ⟨h, hrun⟩

theorem triple_findUnfinished {P : World H → Prop} (hP : ∀ w h, P w → P { w with host := h }) :
    Triple P host.findUnfinished
      (fun r w => P w ∧ ∀ t, r = some t → w.transaction = some t ∧ t.phase.isTerminal = false)
      (fun _ => P) P := by
  have hframe : Within Idle host.findUnfinished := inferInstance
  refine hframe.triple_ok (fun w w' ⟨h, he⟩ hw => he ▸ hP w h hw) ?_
  rintro w r w' hw hrun t rfl
  obtain ⟨ht, -, hterm⟩ := host.findUnfinished_ok hrun
  have hidle := hframe.rel w
  rw [hrun] at hidle
  obtain ⟨h, rfl⟩ := hidle
  exact ⟨ht, hterm⟩

theorem loadState_ok {w w' : World H} {s : InstallState}
    (h : host.loadState w = (.ok (some s), w')) :
    w.machine.files Layout.statePath = some (.file (.state s)) ∧
      checkCurrent w.machine.files s.activeVersion = none := by
  obtain ⟨_, w₁, hc, hr⟩ := Prog.bind_eq_ok h
  have hidle := (Idle.perform host (.readFile Layout.statePath)).rel w
  rw [hc] at hidle
  obtain ⟨h₁, rfl⟩ := hidle
  obtain ⟨m, w₂, hread, hr⟩ := Prog.bind_eq_ok hr
  obtain ⟨v, w₃, hread, hm⟩ := Prog.bind_eq_ok hread
  cases hread
  cases hm
  rcases hu : w.machine.files Layout.statePath with _ | ⟨_ | ⟨_ | u⟩ | _⟩
  · simp [hu, pure] at hr
  · simp [hu, Prog.fail] at hr
  · simp [hu, Prog.fail] at hr
  · simp only [hu] at hr
    rcases hcheck : checkCurrent w.machine.files u.activeVersion with _ | e
    · simp only [hcheck, pure, Prod.mk.injEq, Outcome.ok.injEq, Option.some.injEq] at hr
      obtain ⟨rfl, -⟩ := hr
      exact ⟨rfl, hcheck⟩
    · simp [hcheck, Prog.fail] at hr
  · simp [hu, Prog.fail] at hr

section Rules

variable {P : World H → Prop} {E : InstallError → World H → Prop} {C : World H → Prop}

theorem triple_perform (act : Act α) {Q : α → World H → Prop}
    (hok : ∀ w a out h, P w → Q a { w with machine := act.done out w.machine, host := h })
    (herr : ∀ w e out h, P w → E e { w with machine := act.partly out w.machine, host := h })
    (hdone : ∀ w out h, P w → C { w with machine := act.done out w.machine, host := h })
    (hcut : ∀ w out h, P w → C { w with machine := act.partly out w.machine, host := h }) :
    Triple P (host.perform act) Q E C := by
  intro w hw
  unfold perform
  split
  · exact hok w _ _ _ hw
  · exact herr w _ _ _ hw
  · rename_i b out h _
    cases b
    · exact hcut w out h hw
    · exact hdone w out h hw

theorem triple_writeTransaction (call : Call) (t : TransactionFile) {Q : Unit → World H → Prop}
    (hok : ∀ w h, P w → Q () (stored w call t h))
    (herr : ∀ w e h, P w → E e { w with host := h })
    (hdone : ∀ w h, P w → C (stored w call t h))
    (hcut : ∀ w h, P w → C { w with host := h }) :
    Triple P (host.writeTransaction call t) Q E C := by
  intro w hw
  unfold writeTransaction
  split
  · exact herr w _ w.host hw
  · split
    · exact hok w _ hw
    · exact herr w _ _ hw
    · rename_i b _ h _
      cases b
      · exact hcut w h hw
      · exact hdone w h hw

section Variables

variable {Q : α → World H → Prop}

theorem triple_getTransaction {t : TransactionFile} {f : TransactionFile → Flow H α}
    (ht : ∀ w, P w → w.locals.transaction = t) (h : Triple P (f t) Q E C) :
    Triple P (getTransaction >>= f) Q E C := by
  intro w hw
  have hf := h w hw
  rw [← ht w hw] at hf
  exact hf

theorem triple_getActivated {b : Bool} {f : Bool → Flow H α}
    (hb : ∀ w, P w → w.locals.activated = b) (h : Triple P (f b) Q E C) :
    Triple P (getActivated >>= f) Q E C := by
  intro w hw
  have hf := h w hw
  rw [← hb w hw] at hf
  exact hf

theorem triple_getMachine {f : Machine → Flow H α}
    (h : ∀ m, Triple (fun w => P w ∧ w.machine = m) (f m) Q E C) :
    Triple P (getMachine >>= f) Q E C :=
  fun w hw => h w.machine w ⟨hw, rfl⟩

end Variables

theorem triple_withErrorPath {block onError : Flow H Unit} {Q : Unit → World H → Prop}
    {A : InstallError → World H → Prop} (hblock : Triple P block Q A C)
    (hpath : ∀ e, Triple (A e) onError (fun _ => E e) E C) :
    Triple P (withErrorPath block onError) Q E C := by
  refine hblock.attempt.bind fun r => ?_
  cases r with
  | ok a => exact Triple.pure _ fun w hw => hw
  | error e => exact (hpath e).bind fun _ => Triple.fail e fun w hw => hw

end Rules

namespace Obliging

variable [hob : host.Obliging]

instance perform (act : Act α) : Returns (host.perform act) := by
  refine ⟨fun w => ?_⟩
  obtain ⟨a, out, h, hans⟩ := hob.ok act w.machine w.host
  exact ⟨a, _, by rw [Host.perform, hans]⟩

instance check (c : Check) : Returns (host.check c) := perform host (.check c)

instance getMachine : Returns (Host.getMachine : Flow H Machine) := by
  unfold Host.getMachine
  infer_instance

instance requirePid (message : String) : Returns (host.requirePid message) := by
  refine ⟨fun w => ?_⟩
  obtain ⟨pid, out, h, hans⟩ := hob.ok .mainPid w.machine w.host
  have hpid := hob.mainPid _ _ _ _ _ hans
  have hrun : host.perform .mainPid w =
      (.ok pid, { w with machine := Act.done .mainPid out w.machine, host := h }) := by
    rw [Host.perform, hans]
  refine ⟨(), { w with machine := Act.done .mainPid out w.machine, host := h },
    (Prog.bind_of_ok hrun).trans ?_⟩
  rw [if_neg hpid]
  rfl

instance start : Returns host.start := perform host _

instance stopAndWait : Returns host.stopAndWait := by
  unfold Host.stopAndWait
  infer_instance

instance healthy : Returns host.healthy := by
  unfold Host.healthy
  infer_instance

instance isActive (unit : String) : Returns (host.isActive unit) := by
  unfold Host.isActive
  infer_instance

instance restoreBefore (before : ServiceBefore) : Returns (host.restoreBefore before) := by
  unfold Host.restoreBefore
  refine Returns.andThen inferInstance fun _ => ?_
  split
  · infer_instance
  · refine Returns.andThen inferInstance fun r => ?_
    split <;> infer_instance

instance resolvRestore (backup : Option Path) : Returns (host.resolvRestore backup) := by
  unfold Host.resolvRestore
  infer_instance

instance discard (path : Option Path) : Returns (host.discard path) := by
  unfold Host.discard
  split <;> infer_instance

instance removeTargetRelease (t : TransactionFile) : Returns (host.removeTargetRelease t) := by
  unfold Host.removeTargetRelease
  infer_instance

instance restorePreActivation (t : TransactionFile) : Returns (host.restorePreActivation t) := by
  unfold Host.restorePreActivation
  split <;> infer_instance

instance restoreCurrent (link : Path) : Returns (host.restoreCurrent link) := by
  unfold Host.restoreCurrent
  infer_instance

instance writeState (s : InstallState) : Returns (host.writeState s) := by
  unfold Host.writeState
  infer_instance

theorem triple_writeTransaction (call : Call) {t : TransactionFile} (ht : t.validate = none)
    {P : World H → Prop} {Q : Unit → World H → Prop} {E : InstallError → World H → Prop}
    {C : World H → Prop} (hok : ∀ w h, P w → Q () (stored w call t h)) :
    Triple P (host.writeTransaction call t) Q E C := by
  intro w hw
  obtain ⟨a, out, h, hans⟩ := hob.ok .writeTransaction w.machine w.host
  unfold writeTransaction
  rw [ht, hans]
  exact hok w h hw

theorem findUnfinished {w : World H} {t : TransactionFile} (ht : w.transaction = some t)
    (hval : t.validate = none) (hterm : t.phase.isTerminal = false) :
    ∃ h, host.findUnfinished w = (.ok (some t), { w with host := h }) := by
  obtain ⟨a, w₁, hc⟩ := (check host .readTransactions).ok w
  have hidle := (Idle.check host .readTransactions).rel w
  rw [hc] at hidle
  obtain ⟨h, rfl⟩ := hidle
  refine ⟨h, (Prog.bind_of_ok hc).trans ((Prog.bind_of_ok rfl).trans ?_)⟩
  simp only [ht, hval, hterm, Bool.false_eq_true, if_false]
  rfl

theorem loadState {w : World H} {s : InstallState}
    (hs : w.machine.files Layout.statePath = some (.file (.state s)))
    (hc : checkCurrent w.machine.files s.activeVersion = none) :
    ∃ h, host.loadState w = (.ok (some s), { w with host := h }) := by
  obtain ⟨a, w₁, hr⟩ := (perform host (.readFile Layout.statePath)).ok w
  have hidle := (Idle.perform host (.readFile Layout.statePath)).rel w
  rw [hr] at hidle
  obtain ⟨h, rfl⟩ := hidle
  refine ⟨h, (Prog.bind_of_ok hr).trans ((Prog.bind_of_ok rfl).trans ?_)⟩
  simp only [hs, hc]
  rfl

end Obliging

end Host

end LandscapeKit.Deploy
