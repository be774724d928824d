import LandscapeKit.DeployTrees

/-!
The two ways back from a migration (`rollback_migrate`, and the branch of `recover_migrate` for a
migration that had not been activated): what each makes of the units and of the files, which of
its steps change nothing of that when they are done twice, and that it gets there on a host whose
requests succeed.
-/

namespace LandscapeKit.Deploy.MigrateCut

open Faults

set_option synthInstance.maxSize 65536

variable {H : Type}

def unitBackup (t : TransactionFile) (u : LegacyUnitBefore) : Path :=
  Layout.transactionDir t.transactionId ++ ["legacy-unit", u.unit]

structure Recorded (t : TransactionFile) (u : LegacyUnitBefore) : Prop where
  operation : t.operation = .migrate
  valid : t.validate = none
  legacy : t.legacyUnit = some u
  target : ∃ version, t.targetVersion = some version ∧
    t.targetRelease = some ["releases", version]
  moved : u.fileMoved = true → ∃ file, u.filePath = some file ∧ Layout.systemUnits <+: file ∧
    u.fileBackup = some (unitBackup t u)

inductive Way
  /-- `rollback_migrate` -/
  | rollback
  /-- the branch for `prepared` and `stopping` -/
  | early
deriving DecidableEq

namespace Way

def program (host : Host H) (t : TransactionFile) : Way → Flow H Unit
  | rollback => host.rollbackMigrate t
  | early => host.recoverMigrate t

def starts : Way → Phase → Bool
  | rollback, .prepared | rollback, .stopping | rollback, .activating | rollback, .verifying
  | rollback, .rollingBack => true
  | early, .prepared | early, .stopping => true
  | _, _ => false

def resumes : Way → Phase → Bool
  | rollback, .activating | rollback, .verifying | rollback, .rollingBack => true
  | early, .prepared | early, .stopping => true
  | _, _ => false

def endPhase : Way → Phase
  | rollback => .rolledBack
  | early => .failed

end Way

/-! What a way back makes of a unit. -/

section Units

variable (t : TransactionFile) (u : LegacyUnitBefore)

def serviceUnit (name : String) (x : UnitState) : UnitState :=
  match t.systemdBefore with
  | none => x
  | some b => if name = routerUnit then { b.register x with active := b.active } else x

def enabledAs (x : UnitState) : UnitState :=
  match Host.enableVerb u.enableState with
  | some v => v.apply x
  | none => x

def legacyUnit (name : String) (x : UnitState) : UnitState :=
  if name = u.unit then { enabledAs u { x with masked := false } with active := u.active } else x

def unitAfter (way : Way) (name : String) (x : UnitState) : UnitState :=
  match way with
  | .rollback => legacyUnit u name (serviceUnit t name x)
  | .early => serviceUnit t name (legacyUnit u name x)

variable {t u}

theorem enableVerb_cases (state : String) : Host.enableVerb state = none ∨
    Host.enableVerb state = some .enable ∨ Host.enableVerb state = some .enableRuntime ∨
      Host.enableVerb state = some .mask := by
  unfold Host.enableVerb
  split <;> simp

def SetsEnableState (u : LegacyUnitBefore) : Prop :=
  Host.enableVerb u.enableState = some .enable ∨
    Host.enableVerb u.enableState = some .enableRuntime

theorem legacyUnit_congr {name : String} {x o : UnitState} (hpresent : x.present = o.present)
    (henable : x.enableState = o.enableState ∨ SetsEnableState u) (hname : name = u.unit) :
    legacyUnit u name x = legacyUnit u name o := by
  rw [legacyUnit, legacyUnit, if_pos hname, if_pos hname]
  rcases henable with henable | henable | henable
  · rcases enableVerb_cases u.enableState with h | h | h | h <;>
      simp [enabledAs, h, Verb.apply, hpresent, henable]
  · simp [enabledAs, henable, Verb.apply, hpresent]
  · simp [enabledAs, henable, Verb.apply, hpresent]

theorem serviceUnit_congr {b : ServiceBefore} (hb : t.systemdBefore = some b) {x o : UnitState}
    (hmasked : x.masked = o.masked) :
    serviceUnit t routerUnit x = serviceUnit t routerUnit o := by
  simp [serviceUnit, hb, ServiceBefore.register, hmasked]

theorem unitAfter_legacy (way : Way) {x o : UnitState} (hpresent : x.present = o.present)
    (henable : x.enableState = o.enableState ∨ SetsEnableState u) :
    unitAfter t u way u.unit x = unitAfter t u way u.unit o := by
  cases way with
  | early =>
    rw [unitAfter, unitAfter, legacyUnit_congr hpresent henable rfl]
  | rollback =>
    apply legacyUnit_congr _ _ rfl
    · unfold serviceUnit
      split
      · exact hpresent
      · split
        · rfl
        · exact hpresent
    · unfold serviceUnit
      split
      · exact henable
      · split
        · exact .inl rfl
        · exact henable

theorem unitAfter_service (way : Way) {b : ServiceBefore} (hb : t.systemdBefore = some b)
    {x o : UnitState} (hmasked : x.masked = o.masked) :
    unitAfter t u way routerUnit x = unitAfter t u way routerUnit o := by
  cases way with
  | rollback => rw [unitAfter, unitAfter, serviceUnit_congr hb hmasked]
  | early =>
    apply serviceUnit_congr hb
    unfold legacyUnit
    split
    · rcases enableVerb_cases u.enableState with h | h | h | h <;>
        simp [enabledAs, h, Verb.apply]
    · exact hmasked

end Units

theorem setUnit_setUnit (m : Machine) (unit : String) (x : UnitState) (f : UnitState → UnitState) :
    (m.setUnit unit x).setUnit unit (f ((m.setUnit unit x).units unit)) = m.setUnit unit (f x) := by
  simp [Machine.setUnit]

section Machines

variable (t : TransactionFile) (u : LegacyUnitBefore)

def serviceMachine (m : Machine) : Machine :=
  { m with units := fun name => serviceUnit t name (m.units name) }

def legacyMachine (m : Machine) : Machine :=
  { m with units := fun name => legacyUnit u name (m.units name) }

variable {t u}

theorem serviceMachine_of_none (hb : t.systemdBefore = none) (m : Machine) :
    serviceMachine t m = m := by
  simp [serviceMachine, serviceUnit, hb]

theorem serviceMachine_of_some {b : ServiceBefore} (hb : t.systemdBefore = some b) (m : Machine) :
    serviceMachine t m =
      m.setUnit routerUnit { b.register (m.units routerUnit) with active := b.active } := by
  have hunits : (fun name => serviceUnit t name (m.units name)) =
      (m.setUnit routerUnit { b.register (m.units routerUnit) with active := b.active }).units := by
    funext name
    rcases eq_or_ne name routerUnit with rfl | hname
    · simp [serviceUnit, hb, Machine.setUnit]
    · simp [serviceUnit, hb, Machine.setUnit, hname]
  rw [serviceMachine, hunits]
  rfl

theorem legacyMachine_eq (m : Machine) :
    legacyMachine u m = m.setUnit u.unit (legacyUnit u u.unit (m.units u.unit)) := by
  have hunits : (fun name => legacyUnit u name (m.units name)) =
      (m.setUnit u.unit (legacyUnit u u.unit (m.units u.unit))).units := by
    funext name
    rcases eq_or_ne name u.unit with rfl | hname
    · simp [Machine.setUnit]
    · simp [legacyUnit, Machine.setUnit, hname]
  rw [legacyMachine, hunits]
  rfl

end Machines

/-! What a way back makes of the files. -/

section Trees

def removedTrees (version : String) : List Path :=
  [Layout.release version, Layout.releases ++ [".install-" ++ version ++ ".tmp"], Layout.data,
    Layout.service, Layout.root ++ ["state"]]

def Removed (version : String) (fs : Files Document) (r : Path) : Prop :=
  (∃ p ∈ removedTrees version, p <+: r) ∨ r = Layout.currentTmp ∨ r = Layout.statePath ∨
    (r = Layout.current ∧ fs r = some (.link ["releases", version]))

instance (version : String) (fs : Files Document) (r : Path) :
    Decidable (Removed version fs r) := inferInstanceAs (Decidable (_ ∨ _))

def cleanFiles (version : String) (fs : Files Document) : Files Document := fun r =>
  if Removed version fs r then none else fs r

def returnFile (t : TransactionFile) (u : LegacyUnitBefore) (fs : Files Document) :
    Files Document :=
  match u.fileMoved, u.filePath with
  | true, some file => fs.move (unitBackup t u) file
  | _, _ => fs

def machineAfter (t : TransactionFile) (u : LegacyUnitBefore) (way : Way) (m : Machine) :
    Machine where
  files := returnFile t u (match way with
    | .rollback => cleanFiles (t.targetVersion.getD "") m.files
    | .early => m.files)
  units name := unitAfter t u way name (m.units name)

def Sheds (version : String) (fs fs' : Files Document) : Prop :=
  ∀ r, fs' r = fs r ∨ (Removed version fs r ∧ fs' r = none)

variable {version : String} {fs fs' : Files Document}

theorem Sheds.cleanFiles_eq (h : Sheds version fs fs') :
    cleanFiles version fs' = cleanFiles version fs := by
  funext r
  rcases h r with hr | ⟨hremoved, hr⟩
  · have hiff : Removed version fs' r ↔ Removed version fs r := by
      rw [Removed, Removed, hr]
    simp only [cleanFiles, hiff, hr]
  · rw [cleanFiles, cleanFiles, if_pos hremoved, hr, ite_self]

theorem sheds_remove {p : Path} (hp : p ∈ removedTrees version) :
    Sheds version fs (fs.remove p) := by
  intro r
  by_cases hr : p <+: r
  · exact .inr ⟨.inl ⟨p, hp, hr⟩, by simp [Files.remove, hr]⟩
  · exact .inl (by simp [Files.remove, hr])

theorem sheds_removePart {p : Path} (hp : p ∈ removedTrees version) (left : Files Document) :
    Sheds version fs (fs.removePart p left) := by
  intro r
  by_cases hr : p <+: r ∧ left r = none
  · exact .inr ⟨.inl ⟨p, hp, hr.1⟩, by simp [Files.removePart, hr]⟩
  · exact .inl (by simp only [Files.removePart, hr, if_false])

theorem sheds_erase {p : Path} (hp : Removed version fs p) : Sheds version fs (fs.erase p) := by
  intro r
  rcases eq_or_ne r p with rfl | hr
  · exact .inr ⟨hp, by simp [Files.erase]⟩
  · exact .inl (by simp [Files.erase, hr])

end Trees

/-! A step that is done, or begun, before the unit file is back changes nothing of the end. -/

section Alike

variable (t : TransactionFile) (u : LegacyUnitBefore) (way : Way)

structure Alike (m m' : Machine) : Prop where
  after : machineAfter t u way m' = machineAfter t u way m
  backup : m'.files (unitBackup t u) = m.files (unitBackup t u)

def Same (w w' : World H) : Prop := Alike t u way w.machine w'.machine

instance : Std.Refl (Same (H := H) t u way) := ⟨fun _ => ⟨rfl, rfl⟩⟩

instance : IsTrans (World H) (Same t u way) :=
  ⟨fun _ _ _ h g => ⟨g.after.trans h.after, g.backup.trans h.backup⟩⟩

variable {t u way}

theorem not_removed_unitBackup (version : String) (fs : Files Document) :
    ¬ Removed version fs (unitBackup t u) := by
  simp [Removed, removedTrees, unitBackup, Layout.release, Layout.releases, Layout.data,
    Layout.service, Layout.root, Layout.currentTmp, Layout.runDir, Layout.statePath,
    Layout.current, Layout.transactionDir, Layout.transactions]

theorem alike_of_sheds {m : Machine} {fs : Files Document}
    (h : Sheds (t.targetVersion.getD "") m.files fs) : Alike t u .rollback m (m.setFiles fs) where
  after := by
    simp only [machineAfter, Machine.setFiles, h.cleanFiles_eq]
  backup := (h _).resolve_right fun hr => not_removed_unitBackup _ _ hr.1

theorem alike_setUnit {m : Machine} {name : String} {x : UnitState}
    (h : unitAfter t u way name x = unitAfter t u way name (m.units name)) :
    Alike t u way m (m.setUnit name x) where
  after := by
    have hunits : (fun n => unitAfter t u way n ((m.setUnit name x).units n)) =
        fun n => unitAfter t u way n (m.units n) := by
      funext n
      rcases eq_or_ne n name with rfl | hn
      · simp [Machine.setUnit, h]
      · simp [Machine.setUnit, hn]
    simp only [machineAfter, hunits]
    rfl
  backup := rfl

variable (host : Host H)

theorem Same.perform {α : Type} {act : Act α}
    (hdone : ∀ out m, Alike t u way m (act.done out m))
    (hpartly : ∀ out m, Alike t u way m (act.partly out m)) :
    Within (Same t u way) (host.perform act) := by
  refine ⟨fun w => ?_⟩
  unfold Host.perform
  split
  · exact hdone _ _
  · exact hpartly _ _
  · dsimp only
    split
    · exact hdone _ _
    · exact hpartly _ _

instance Same.check (c : Check) : Within (Same t u way) (host.check c) :=
  Same.perform host (fun _ _ => ⟨rfl, rfl⟩) fun _ _ => ⟨rfl, rfl⟩

theorem Same.removeDirAll {p : Path} (hp : p ∈ removedTrees (t.targetVersion.getD "")) :
    Within (Same t u .rollback) (host.perform (.removeDirAll p)) :=
  Same.perform host (fun _ _ => alike_of_sheds (sheds_remove hp))
    fun _ _ => alike_of_sheds (sheds_removePart hp _)

theorem Same.removeFile {p : Path}
    (hp : ∀ fs, Removed (t.targetVersion.getD "") fs p) :
    Within (Same t u .rollback) (host.perform (.removeFile p)) :=
  Same.perform host (fun _ _ => alike_of_sheds (sheds_erase (hp _))) fun _ _ => ⟨rfl, rfl⟩

theorem Same.unitRequest {act : Act Unit} {name : String} (f : UnitState → UnitState)
    (hdone : ∀ out m, act.done out m = m.setUnit name (f (m.units name)))
    (hpartly : ∀ out m, act.partly out m = m.graftUnit out name (f (m.units name)))
    (hf : ∀ o x : UnitState, (x.present = o.present ∨ x.present = (f o).present) →
      (x.masked = o.masked ∨ x.masked = (f o).masked) →
      (x.enableState = o.enableState ∨ x.enableState = (f o).enableState) →
      unitAfter t u way name x = unitAfter t u way name o) :
    Within (Same t u way) (host.perform act) := by
  apply Same.perform
  · intro out m
    rw [hdone]
    exact alike_setUnit (hf _ _ (.inr rfl) (.inr rfl) (.inr rfl))
  · intro out m
    rw [hpartly]
    apply alike_setUnit
    apply hf
    · dsimp only
      split
      · exact .inr rfl
      · exact .inl rfl
    · dsimp only
      split
      · exact .inr rfl
      · exact .inl rfl
    · dsimp only
      split
      · exact .inr rfl
      · exact .inl rfl

theorem Same.legacyVerb (v : Verb)
    (hv : (∀ o, (v.apply o).enableState = o.enableState) ∨ SetsEnableState u) :
    Within (Same t u way) (host.perform (.systemctl v u.unit)) := by
  apply Same.unitRequest host v.apply (fun _ _ => rfl) fun _ _ => rfl
  intro o x hpresent _ henable
  have hkept : (v.apply o).present = o.present := by
    cases v <;> rfl
  apply unitAfter_legacy
  · rcases hpresent with h | h
    · exact h
    · exact h.trans hkept
  · rcases henable with h | h
    · exact .inl h
    · rcases hv with hv | hv
      · exact .inl (h.trans (hv o))
      · exact .inr hv

theorem Same.routerRequest {b : ServiceBefore} (hb : t.systemdBefore = some b) {act : Act Unit}
    (f : UnitState → UnitState)
    (hdone : ∀ out m, act.done out m = m.setUnit routerUnit (f (m.units routerUnit)))
    (hpartly : ∀ out m, act.partly out m = m.graftUnit out routerUnit (f (m.units routerUnit)))
    (hf : ∀ o, (f o).masked = o.masked) : Within (Same t u way) (host.perform act) := by
  apply Same.unitRequest host f hdone hpartly
  intro o x _ hmasked _
  apply unitAfter_service way hb
  rcases hmasked with h | h
  · exact h
  · exact h.trans (hf o)

theorem Same.of_machineKept {α : Type} {p : Flow H α} (h : Within MachineKept p) :
    Within (Same t u way) p :=
  h.mono fun w w' (hw : w'.machine = w.machine) => by
    rw [Same, hw]
    exact ⟨rfl, rfl⟩

instance Same.markPhase (t' : TransactionFile) (phase : Phase) :
    Within (Same t u way) (host.markPhase t' phase) := Same.of_machineKept inferInstance

theorem Same.restoreBefore {b : ServiceBefore} (hb : t.systemdBefore = some b) :
    Within (Same t u way) (host.restoreBefore b) := by
  have hverb : ∀ v, v = .start ∨ v = .stop →
      Within (Same t u way) (host.perform (.systemctl v routerUnit)) := by
    intro v hv
    apply Same.routerRequest host hb v.apply (fun _ _ => rfl) fun _ _ => rfl
    rcases hv with rfl | rfl <;> exact fun _ => rfl
  have hregister : Within (Same t u way) (host.perform (.restoreRegistration b)) :=
    Same.routerRequest host hb b.register (fun _ _ => rfl) (fun _ _ => rfl) fun _ => rfl
  have hstart : Within (Same t u way) host.start := hverb .start (.inl rfl)
  have hstop := hverb .stop (.inr rfl)
  unfold Host.restoreBefore Host.isActive
  refine Within.andThen hregister fun _ => ?_
  split
  · exact hstart
  · refine Within.andThen inferInstance fun r => ?_
    split
    · exact hstop
    · infer_instance

theorem Same.restoreRecordedService (t' : TransactionFile)
    (ht : t'.systemdBefore = t.systemdBefore) :
    Within (Same t u way) (host.restoreRecordedService t') := by
  unfold Host.restoreRecordedService Host.resolvRestore
  cases hb : t'.systemdBefore with
  | none =>
    dsimp only
    infer_instance
  | some b =>
    have hbefore : Within (Same t u way) (host.restoreBefore b) :=
      Same.restoreBefore host (ht.symm.trans hb)
    exact Within.andThen hbefore fun _ => inferInstance

theorem Same.restorePreActivation (t' : TransactionFile)
    (ht : t'.systemdBefore = t.systemdBefore) :
    Within (Same t u way) (host.restorePreActivation t') := by
  unfold Host.restorePreActivation
  cases hb : t'.systemdBefore with
  | none =>
    dsimp only
    infer_instance
  | some b => exact Same.restoreBefore host (ht.symm.trans hb)

theorem Same.restoreHostService :
    Within (Same t u way) (host.restoreHostService ⟨u.unit, true, u.active, u.enableState⟩) := by
  have hunmask : Within (Same t u way) (host.perform (.systemctl .unmask u.unit)) :=
    Same.legacyVerb host .unmask (.inl fun _ => rfl)
  have hlast : Within (Same t u way)
      (host.perform (.systemctl (if u.active then .start else .stop) u.unit)) := by
    apply Same.legacyVerb host
    left
    split <;> exact fun _ => rfl
  have hstate : Within (Same t u way) (host.applyEnableState u.unit u.enableState) := by
    unfold Host.applyEnableState
    rcases enableVerb_cases u.enableState with h | h | h | h
    · rw [h]
      dsimp only
      infer_instance
    · rw [h]
      exact Same.legacyVerb host .enable (.inr (.inl h))
    · rw [h]
      exact Same.legacyVerb host .enableRuntime (.inr (.inr h))
    · rw [h]
      exact Same.legacyVerb host .mask (.inl fun _ => rfl)
  unfold Host.restoreHostService
  rw [Prog.onlyIf_true]
  exact Within.andThen hunmask fun _ => Within.andThen hstate fun _ => hlast

end Alike

/-! The paths a recorded migration removes. -/

section Recorded

variable {t : TransactionFile} {u : LegacyUnitBefore} (ht : Recorded t u)

include ht

theorem Recorded.targetRelease :
    t.targetRelease = some ["releases", t.targetVersion.getD ""] := by
  obtain ⟨version, hversion, htarget⟩ := ht.target
  rw [htarget, hversion]
  rfl

theorem Recorded.targetVersion : t.targetVersion = some (t.targetVersion.getD "") := by
  obtain ⟨version, hversion, -⟩ := ht.target
  rw [hversion]
  rfl

theorem Recorded.removeTargetRelease_eq (host : Host H) (phase : Phase) :
    host.removeTargetRelease { t with phase := phase } =
      Prog.ignore (host.perform (.removeDirAll
        (Layout.root ++ ["releases", t.targetVersion.getD ""]))) >>= fun _ =>
          Prog.ignore (host.perform (.removeDirAll
            (Layout.releases ++ [".install-" ++ t.targetVersion.getD "" ++ ".tmp"]))) := by
  have hpath : ({ t with phase := phase }.targetRelease.map fun target => Layout.root ++ target) =
      some (Layout.root ++ ["releases", t.targetVersion.getD ""]) := by
    simp only [ht.targetRelease, Option.map_some]
  have hbuilt : ({ t with phase := phase }.targetVersion.map fun version =>
      Layout.releases ++ [".install-" ++ version ++ ".tmp"]) =
        some (Layout.releases ++ [".install-" ++ t.targetVersion.getD "" ++ ".tmp"]) := by
    dsimp only
    rw [ht.targetVersion]
    rfl
  unfold Host.removeTargetRelease
  rw [hpath, hbuilt]
  rfl

end Recorded

section Cleanup

variable {t : TransactionFile} {u : LegacyUnitBefore} (ht : Recorded t u) (host : Host H)
  {phase : Phase}

include ht

theorem Same.cleanupFailedFirstInstall :
    Within (Same t u .rollback)
      (host.cleanupFailedFirstInstall { t with phase := phase }) := by
  have hrelease : Within (Same t u .rollback)
      (host.perform (.removeDirAll (Layout.root ++ ["releases", t.targetVersion.getD ""]))) := by
    apply Same.removeDirAll host
    simp [removedTrees, Layout.release, Layout.releases]
  have hbuild : Within (Same t u .rollback) (host.perform (.removeDirAll
      (Layout.releases ++ [".install-" ++ t.targetVersion.getD "" ++ ".tmp"]))) := by
    apply Same.removeDirAll host
    simp [removedTrees]
  have htarget : Within (Same t u .rollback)
      (host.removeTargetRelease { t with phase := phase }) := by
    rw [ht.removeTargetRelease_eq]
    exact Within.andThen (inferInstanceAs (Within _ (Prog.ignore _)))
      fun _ => inferInstanceAs (Within _ (Prog.ignore _))
  have htmp : Within (Same t u .rollback) (host.perform (.removeFile Layout.currentTmp)) :=
    Same.removeFile host fun fs => .inr (.inl rfl)
  have hinit : Within (Same t u .rollback)
      (host.perform (.removeFile (Layout.data ++ ["landscape_init.toml"]))) :=
    Same.removeFile host fun fs =>
      .inl ⟨Layout.data, by simp [removedTrees], List.prefix_append _ _⟩
  have hstate : Within (Same t u .rollback) (host.perform (.removeFile Layout.statePath)) :=
    Same.removeFile host fun fs => .inr (.inr (.inl rfl))
  have hcurrent : Within (Same t u .rollback)
      (host.removeCurrentOfTarget { t with phase := phase }) := by
    refine ⟨fun w => ?_⟩
    -- the link is removed only where it leads to the release that is removed with it
    have hrun : ∀ c : Bool, (c = true → Removed (t.targetVersion.getD "") w.machine.files
        Layout.current) → Same t u .rollback w (Prog.onlyIf c
          (Prog.ignore (host.perform (.removeFile Layout.current))) w).2 := by
      intro c hc
      have hremove : c = true → Triple (fun v => v = w)
          (Prog.ignore (host.perform (.removeFile Layout.current)))
          (fun _ => Same t u .rollback w) (fun _ => Same t u .rollback w)
          (Same t u .rollback w) := by
        intro htrue
        have halike : Alike t u .rollback w.machine
            (w.machine.setFiles (w.machine.files.erase Layout.current)) :=
          alike_of_sheds (sheds_erase (hc htrue))
        apply Triple.ignore
        apply host.triple_perform
        · rintro v a out h rfl
          exact halike
        · rintro v e out h rfl
          exact ⟨rfl, rfl⟩
        · rintro v out h rfl
          exact halike
        · rintro v out h rfl
          exact ⟨rfl, rfl⟩
      have hall : Triple (fun v => v = w)
          (Prog.onlyIf c (Prog.ignore (host.perform (.removeFile Layout.current))))
          (fun _ => Same t u .rollback w) (fun _ => Same t u .rollback w)
          (Same t u .rollback w) := by
        apply Triple.onlyIf hremove
        rintro - v rfl
        exact ⟨rfl, rfl⟩
      exact hall.always rfl
    apply hrun
    intro hlink
    refine .inr (.inr (.inr ⟨rfl, ?_⟩))
    simpa [ht.targetRelease] using hlink
  have hservice : Within (Same t u .rollback)
      (host.restoreRecordedService { t with phase := phase }) :=
    Same.restoreRecordedService host { t with phase := phase } rfl
  unfold Host.cleanupFailedFirstInstall
  infer_instance

omit ht in
theorem Same.cleanupMigratedRoot : Within (Same t u .rollback) host.cleanupMigratedRoot := by
  have hremove : ∀ p ∈ [Layout.data, Layout.service, Layout.root ++ ["state"]],
      Within (Same t u .rollback) (host.perform (.removeDirAll p)) := by
    intro p hp
    apply Same.removeDirAll host
    simp only [List.mem_cons, List.not_mem_nil, or_false] at hp
    rcases hp with rfl | rfl | rfl <;> simp [removedTrees]
  have hdata := hremove Layout.data (by simp)
  have hservice := hremove Layout.service (by simp)
  have hstate := hremove (Layout.root ++ ["state"]) (by simp)
  unfold Host.cleanupMigratedRoot
  infer_instance

end Cleanup

/-! A way back on a host whose requests succeed. -/

def Vacuous {α : Type} (act : Act α) (m : Machine) : Prop :=
  match act with
  | .removeDirAll p => m.files.subtree p = fun _ => none
  | .removeFile p => m.files p = none
  | .rename p _ => m.files p = none
  | _ => False

/-- A request fails only where there is nothing to do, and a file that is not there cannot be
moved. The process may be cut off at any request. -/
structure Honest (host : Host H) : Prop where
  able : ∀ {α : Type} (act : Act α) m h e, (host.answer act m h).1 = .err e → Vacuous act m
  unable : ∀ p q m h a, m.files p = none → (host.answer (.rename p q) m h).1 ≠ .ok a

structure At (m : Machine) (T : Option TransactionFile) (w : World H) : Prop where
  machine : w.machine = m
  transaction : w.transaction = T

/-- The program takes one machine to another; where it is cut off, the transaction file is as it
was. -/
def Runs {α : Type} (p : Flow H α) (m m' : Machine) : Prop :=
  ∀ T, Triple (At m T) p (fun _ => At m' T) (fun _ _ => False) fun w => w.transaction = T

namespace Runs

variable {α β : Type} {p : Flow H α} {m m' m'' : Machine}

theorem pure (a : α) : Runs (Pure.pure a : Flow H α) m m :=
  fun _ => Triple.pure a fun _ h => h

theorem bind {f : α → Flow H β} (hp : Runs p m m') (hf : ∀ a, Runs (f a) m' m'') :
    Runs (p >>= f) m m'' :=
  fun T => (hp T).bind fun a => hf a T

theorem onlyIf {c : Bool} {p : Flow H Unit} (hp : c = true → Runs p m m')
    (hn : c = false → m = m') : Runs (Prog.onlyIf c p) m m' := by
  intro T
  apply Triple.onlyIf (fun hc => hp hc T)
  intro hc w hw
  rw [← hn hc]
  exact hw

variable {host : Host H} (honest : Honest host)

include honest

theorem request {act : Act α} (hv : ¬ Vacuous act m) (hdone : ∀ out, act.done out m = m') :
    Runs (host.perform act) m m' := by
  rintro T w ⟨rfl, rfl⟩
  unfold Host.perform
  split
  · exact ⟨hdone _, rfl⟩
  · rename_i e out h hanswer
    exact hv (honest.able act _ w.host e (by rw [hanswer]))
  · rfl

theorem check (c : Check) : Runs (host.check c) m m :=
  request honest nofun fun _ => rfl

theorem discard {act : Act Unit} (hdone : ∀ out, act.done out m = m')
    (hpartly : Vacuous act m → ∀ out, act.partly out m = m') :
    Runs (Prog.ignore (host.perform act)) m m' := by
  intro T
  have hperform : Triple (At m T) (host.perform act) (fun _ => At m' T) (fun _ => At m' T)
      fun w => w.transaction = T := by
    rintro w ⟨rfl, rfl⟩
    unfold Host.perform
    split
    · exact ⟨hdone _, rfl⟩
    · rename_i e out h hanswer
      exact ⟨hpartly (honest.able act _ w.host e (by rw [hanswer])) _, rfl⟩
    · rfl
  exact Triple.ignore hperform

theorem removeDirAll (p : Path) : Runs (Prog.ignore (host.perform (.removeDirAll p))) m
    (m.setFiles (m.files.remove p)) := by
  apply discard honest fun _ => rfl
  intro hv out
  have hnone : ∀ r, p <+: r → m.files r = none := by
    rintro r ⟨s, rfl⟩
    exact congrFun hv s
  have hfiles : m.files.removePart p out.files = m.files.remove p := by
    funext r
    by_cases hr : p <+: r
    · simp [Files.removePart, Files.remove, hnone r hr]
    · simp [Files.removePart, Files.remove, hr]
  simp only [Act.partly, hfiles]

theorem removeFile (p : Path) : Runs (Prog.ignore (host.perform (.removeFile p))) m
    (m.setFiles (m.files.erase p)) := by
  apply discard honest fun _ => rfl
  intro hv out
  have hfiles : m.files.erase p = m.files := by
    have hp : m.files p = none := hv
    rw [Files.erase, ← hp, Function.update_eq_self]
  rw [hfiles]
  rfl

theorem systemctl (v : Verb) (unit : String) :
    Runs (host.perform (.systemctl v unit)) m (m.setUnit unit (v.apply (m.units unit))) :=
  request honest nofun fun _ => rfl

theorem secondVerb (v : Verb) (unit : String) (x : UnitState) :
    Runs (host.perform (.systemctl v unit)) (m.setUnit unit x) (m.setUnit unit (v.apply x)) := by
  have hv : ¬ Vacuous (.systemctl v unit) (m.setUnit unit x) := fun h => h
  exact request honest hv fun _ => setUnit_setUnit m unit x v.apply

theorem restoreBefore (b : ServiceBefore) :
    Runs (host.restoreBefore b) m
      (m.setUnit routerUnit { b.register (m.units routerUnit) with active := b.active }) := by
  unfold Host.restoreBefore
  have hregister : Runs (host.perform (.restoreRegistration b)) m
      (m.setUnit routerUnit (b.register (m.units routerUnit))) :=
    request honest nofun fun _ => rfl
  refine hregister.bind fun _ => ?_
  have hverb : ∀ v : Verb, Runs (host.perform (.systemctl v routerUnit))
      (m.setUnit routerUnit (b.register (m.units routerUnit)))
      (m.setUnit routerUnit (v.apply (b.register (m.units routerUnit)))) :=
    fun v => secondVerb honest v routerUnit _
  cases hactive : b.active with
  | true => exact hverb .start
  | false =>
    rw [if_neg Bool.false_ne_true]
    intro T
    have hask : Triple (At (m.setUnit routerUnit (b.register (m.units routerUnit))) T)
        (host.isActive routerUnit)
        (fun r w => At (m.setUnit routerUnit (b.register (m.units routerUnit))) T w ∧
          r = (b.register (m.units routerUnit)).active)
        (fun _ _ => False) fun w => w.transaction = T := by
      unfold Host.isActive
      refine (check honest .query T).bind fun _ => ?_
      apply Host.triple_getMachine
      intro v
      apply Triple.pure
      rintro w ⟨hw, rfl⟩
      refine ⟨hw, ?_⟩
      rw [hw.machine]
      simp [Machine.setUnit]
    refine hask.attempt.bind fun r => ?_
    cases r with
    | error e => exact fun w hw => absurd hw id
    | ok r =>
      cases r with
      | true => exact (hverb .stop T).strengthen fun w hw => hw.1
      | false =>
        apply Triple.pure
        rintro w ⟨hw, hr⟩
        rw [hr]
        exact hw

section Units

variable {t : TransactionFile} {u : LegacyUnitBefore}

theorem restoreRecordedService {t' : TransactionFile} (ht : t'.systemdBefore = t.systemdBefore) :
    Runs (host.restoreRecordedService t') m (serviceMachine t m) := by
  unfold Host.restoreRecordedService Host.resolvRestore
  cases hb : t.systemdBefore with
  | none =>
    rw [ht, hb, serviceMachine_of_none hb]
    exact pure ()
  | some b =>
    rw [ht, hb, serviceMachine_of_some hb]
    refine (restoreBefore honest b).bind fun _ => ?_
    exact onlyIf (fun _ => check honest .resolvRestore) fun _ => rfl

theorem restorePreActivation {t' : TransactionFile} (ht : t'.systemdBefore = t.systemdBefore) :
    Runs (host.restorePreActivation t') m (serviceMachine t m) := by
  unfold Host.restorePreActivation
  cases hb : t.systemdBefore with
  | none =>
    rw [ht, hb, serviceMachine_of_none hb]
    exact pure ()
  | some b =>
    rw [ht, hb, serviceMachine_of_some hb]
    exact restoreBefore honest b

theorem restoreHostService :
    Runs (host.restoreHostService ⟨u.unit, true, u.active, u.enableState⟩) m
      (legacyMachine u m) := by
  have hverb : ∀ (x : UnitState) (v : Verb),
      Runs (host.perform (.systemctl v u.unit)) (m.setUnit u.unit x)
        (m.setUnit u.unit (v.apply x)) :=
    fun x v => secondVerb honest v u.unit x
  have hunmask : Runs (host.perform (.systemctl .unmask u.unit)) m
      (m.setUnit u.unit { m.units u.unit with masked := false }) :=
    systemctl honest .unmask u.unit
  have hstate : Runs (host.applyEnableState u.unit u.enableState)
      (m.setUnit u.unit { m.units u.unit with masked := false })
      (m.setUnit u.unit (enabledAs u { m.units u.unit with masked := false })) := by
    unfold Host.applyEnableState enabledAs
    cases Host.enableVerb u.enableState with
    | none => exact pure ()
    | some v => exact hverb _ v
  have hlast : Runs (host.perform (.systemctl (if u.active then .start else .stop) u.unit))
      (m.setUnit u.unit (enabledAs u { m.units u.unit with masked := false }))
      (legacyMachine u m) := by
    have hend : legacyUnit u u.unit (m.units u.unit) =
        (if u.active then Verb.start else .stop).apply
          (enabledAs u { m.units u.unit with masked := false }) := by
      rw [legacyUnit, if_pos rfl]
      cases u.active <;> rfl
    rw [legacyMachine_eq, hend]
    exact hverb _ _
  unfold Host.restoreHostService
  rw [Prog.onlyIf_true]
  exact hunmask.bind fun _ => hstate.bind fun _ => hlast

end Units

end Runs

/-! The whole way back, on a machine where nothing stops it. -/

section Trees

variable (version : String) (fs : Files Document)

def firstCleaned : Files Document :=
  let built := (fs.remove (Layout.root ++ ["releases", version])).remove
    (Layout.releases ++ [".install-" ++ version ++ ".tmp"])
  let unlinked := built.erase Layout.currentTmp
  let switched := if unlinked Layout.current = some (.link ["releases", version])
    then unlinked.erase Layout.current else unlinked
  (switched.erase (Layout.data ++ ["landscape_init.toml"])).erase Layout.statePath

theorem firstCleaned_eq (r : Path) : firstCleaned version fs r =
    if Layout.release version <+: r ∨ Layout.releases ++ [".install-" ++ version ++ ".tmp"] <+: r ∨
      r = Layout.currentTmp ∨ r = Layout.data ++ ["landscape_init.toml"] ∨ r = Layout.statePath ∨
      (r = Layout.current ∧ fs r = some (.link ["releases", version])) then none else fs r := by
  have hcurrent : ((fs.remove (Layout.root ++ ["releases", version])).remove
      (Layout.releases ++ [".install-" ++ version ++ ".tmp"])).erase Layout.currentTmp
        Layout.current = fs Layout.current := by
    simp [Files.erase, Files.remove, Layout.current, Layout.currentTmp, Layout.root, Layout.runDir,
      Layout.releases]
  have hrelease : Layout.root ++ ["releases", version] = Layout.release version := rfl
  unfold firstCleaned
  rw [hcurrent, hrelease]
  by_cases hlink : fs Layout.current = some (.link ["releases", version])
  · rw [if_pos hlink]
    simp only [Files.erase, Files.remove, Function.update_apply]
    rcases eq_or_ne r Layout.current with rfl | hr
    · simp [hlink]
    · simp only [hr, false_and, or_false, if_false]
      grind
  · rw [if_neg hlink]
    simp only [Files.erase, Files.remove, Function.update_apply]
    have hnot : ¬ (r = Layout.current ∧ fs r = some (.link ["releases", version])) := by
      rintro ⟨rfl, h⟩
      exact hlink h
    simp only [hnot, or_false]
    grind

theorem firstCleaned_backup {t : TransactionFile} {u : LegacyUnitBefore} (s : Path) :
    firstCleaned version fs (unitBackup t u ++ s) = fs (unitBackup t u ++ s) := by
  rw [firstCleaned_eq, if_neg]
  simp [unitBackup, Layout.release, Layout.releases, Layout.root, Layout.currentTmp, Layout.runDir,
    Layout.data, Layout.statePath, Layout.current, Layout.transactionDir, Layout.transactions]

theorem cleanFiles_backup {t : TransactionFile} {u : LegacyUnitBefore} (s : Path) :
    cleanFiles version fs (unitBackup t u ++ s) = fs (unitBackup t u ++ s) := by
  rw [cleanFiles, if_neg]
  simp [Removed, removedTrees, unitBackup, Layout.release, Layout.releases, Layout.data,
    Layout.service, Layout.root, Layout.currentTmp, Layout.runDir, Layout.statePath,
    Layout.current, Layout.transactionDir, Layout.transactions]

theorem rootRemoved_system {fs : Files Document} {file : Path} (hfile : Layout.systemUnits <+: file)
    (s : Path) : (((fs.remove Layout.data).remove Layout.service).remove
      (Layout.root ++ ["state"])) (file ++ s) = fs (file ++ s) := by
  obtain ⟨r, rfl⟩ := hfile
  simp [Files.remove, Layout.data, Layout.service, Layout.root, Layout.systemUnits]

theorem returnFile_cleaned {t : TransactionFile} {u : LegacyUnitBefore} (ht : Recorded t u) :
    (((returnFile t u (firstCleaned version fs)).remove Layout.data).remove Layout.service).remove
      (Layout.root ++ ["state"]) = returnFile t u (cleanFiles version fs) := by
  have hclean : ∀ r, (((firstCleaned version fs).remove Layout.data).remove Layout.service).remove
      (Layout.root ++ ["state"]) r = cleanFiles version fs r := by
    intro r
    have hinit : Layout.data ++ ["landscape_init.toml"] = r → Layout.data <+: r := by
      rintro rfl
      exact List.prefix_append _ _
    simp only [Files.remove, firstCleaned_eq, cleanFiles, Removed, removedTrees, List.mem_cons,
      List.not_mem_nil, or_false, exists_eq_or_imp, exists_eq_left]
    grind
  cases hmoved : u.fileMoved with
  | false =>
    simp only [returnFile, hmoved]
    exact funext hclean
  | true =>
    obtain ⟨file, hpath, hunits, -⟩ := ht.moved hmoved
    simp only [returnFile, hmoved, hpath]
    funext r
    by_cases hr : file <+: r
    · obtain ⟨s, rfl⟩ := hr
      rw [rootRemoved_system hunits]
      simp [Files.move, firstCleaned_backup, cleanFiles_backup]
    · by_cases hb : unitBackup t u <+: r
      · simp [Files.move, Files.remove, hr, hb]
      · have hr' := hclean r
        simp only [Files.remove] at hr'
        simp only [Files.move, Files.remove, hr, hb, if_false]
        exact hr'

end Trees

namespace Runs

variable {m : Machine} {host : Host H} (honest : Honest host)
  {t : TransactionFile} {u : LegacyUnitBefore}

include honest

theorem removeTargetRelease (ht : Recorded t u) {phase : Phase} :
    Runs (host.removeTargetRelease { t with phase := phase }) m
      (m.setFiles ((m.files.remove (Layout.root ++ ["releases", t.targetVersion.getD ""])).remove
        (Layout.releases ++ [".install-" ++ t.targetVersion.getD "" ++ ".tmp"]))) := by
  rw [ht.removeTargetRelease_eq]
  exact (removeDirAll honest _).bind fun _ => removeDirAll honest _

theorem removeCurrentOfTarget (ht : Recorded t u) {phase : Phase} :
    Runs (host.removeCurrentOfTarget { t with phase := phase }) m
      (m.setFiles (if m.files Layout.current = some (.link ["releases", t.targetVersion.getD ""])
        then m.files.erase Layout.current else m.files)) := by
  intro T
  apply Host.triple_getMachine
  intro v
  have hany : (({ t with phase := phase } : TransactionFile).targetRelease.any fun target =>
      v.files Layout.current = some (.link target)) =
        decide (v.files Layout.current = some (.link ["releases", t.targetVersion.getD ""])) := by
    simp only [ht.targetRelease, Option.any_some]
  rw [hany]
  apply Triple.onlyIf
  · intro hlink
    have hlink := of_decide_eq_true hlink
    intro w hw
    obtain rfl : v = m := hw.2.symm.trans hw.1.machine
    rw [if_pos hlink]
    exact removeFile honest Layout.current T w hw.1
  · intro hlink w hw
    have hlink := of_decide_eq_false hlink
    obtain rfl : v = m := hw.2.symm.trans hw.1.machine
    rw [if_neg hlink]
    exact hw.1

theorem cleanupFailedFirstInstall (ht : Recorded t u) {phase : Phase} :
    Runs (host.cleanupFailedFirstInstall { t with phase := phase }) m
      ((serviceMachine t m).setFiles (firstCleaned (t.targetVersion.getD "") m.files)) := by
  unfold Host.cleanupFailedFirstInstall
  exact (restoreRecordedService honest rfl).bind fun _ =>
    (removeTargetRelease honest ht).bind fun _ => (removeFile honest _).bind fun _ =>
      (removeCurrentOfTarget honest ht).bind fun _ => (removeFile honest _).bind fun _ =>
        removeFile honest _

theorem restoreLegacyUnit (ht : Recorded t u) {phase : Phase}
    (hbackup : u.fileMoved = true → m.files (unitBackup t u) ≠ none) :
    Runs (host.restoreLegacyUnit { t with phase := phase }) m
      (legacyMachine u (m.setFiles (returnFile t u m.files))) := by
  have hreturn : Runs (Prog.onlyIf u.fileMoved (host.returnLegacyFile u)) m
      (m.setFiles (returnFile t u m.files)) := by
    apply onlyIf
    · intro hmoved
      obtain ⟨file, hpath, -, hback⟩ := ht.moved hmoved
      have hmove : Runs (host.perform (.rename (unitBackup t u) file)) m
          (m.setFiles (m.files.move (unitBackup t u) file)) :=
        request honest (hbackup hmoved) fun _ => rfl
      unfold Host.returnLegacyFile returnFile
      rw [hback, hpath, hmoved]
      exact hmove.bind fun _ => check honest .daemonReload
    · intro hmoved
      rw [returnFile, hmoved]
      rfl
  have hlegacy : { t with phase := phase }.legacyUnit = some u := ht.legacy
  unfold Host.restoreLegacyUnit
  rw [hlegacy]
  exact (check honest .downcast).bind fun _ => hreturn.bind fun _ => restoreHostService honest

theorem cleanupMigratedRoot : Runs host.cleanupMigratedRoot m (m.setFiles
    (((m.files.remove Layout.data).remove Layout.service).remove (Layout.root ++ ["state"]))) :=
  (removeDirAll honest _).bind fun _ => (removeDirAll honest _).bind fun _ =>
    removeDirAll honest _

end Runs

section Marks

variable {t : TransactionFile} {u : LegacyUnitBefore} {way : Way}

theorem Recorded.validate_phase (ht : Recorded t u) (hstarts : way.starts t.phase = true)
    (phase : Phase) : { t with phase := phase }.validate = none := by
  have hphase : t.mayLackBackup = false := by
    cases way <;> cases hp : t.phase <;> simp_all [Way.starts, TransactionFile.mayLackBackup]
  have hnone : ∀ t' : TransactionFile, t'.validate = none ↔
      ∀ check ∈ t'.validationErrors, check.1 = false := by
    intro t'
    simp [TransactionFile.validate, List.find?_eq_none]
  have hall := (hnone t).mp ht.valid
  have hbackup : t.backup.isNone = false := by
    have hcheck := hall (t.backup.isNone && !t.mayLackBackup,
      "migrate transaction must record the migration backup unless it is still preparing or already failed")
      (by simp [TransactionFile.validationErrors, TransactionFile.operationErrors, ht.operation])
    simpa [hphase] using hcheck
  have herrors : { t with phase := phase }.operationErrors = t.operationErrors := by
    simp only [TransactionFile.operationErrors, ht.operation, hbackup, Bool.false_and]
    rfl
  have hval : { t with phase := phase }.validate = t.validate := by
    unfold TransactionFile.validate TransactionFile.validationErrors
    rw [herrors]
    rfl
  exact hval.trans ht.valid

variable {host : Host H} (honest : Honest host) {m : Machine}

include honest

theorem markPhase (t' : TransactionFile) {phase : Phase}
    (hvalid : { t' with phase := phase }.validate = none) (T : Option TransactionFile) :
    Triple (At m T) (host.markPhase t' phase)
      (fun _ => At m (some { t' with phase := phase })) (fun _ _ => False)
      fun w => w.transaction = T ∨ At m (some { t' with phase := phase }) w := by
  have hwrite : Triple (At m T) (host.writeTransaction .markPhase { t' with phase := phase })
      (fun _ => At m (some { t' with phase := phase })) (fun _ _ => False)
      fun w => w.transaction = T ∨ At m (some { t' with phase := phase }) w := by
    rintro w ⟨rfl, rfl⟩
    unfold Host.writeTransaction
    rw [hvalid]
    dsimp only
    split
    · exact ⟨rfl, rfl⟩
    · rename_i e out h hanswer
      exact honest.able .writeTransaction _ w.host e (by rw [hanswer])
    · rename_i b out h hanswer
      cases b
      · exact .inl rfl
      · exact .inr ⟨rfl, rfl⟩
  have hlog := (Runs.check honest .appendLog (m := m)) T
  apply (hlog.ends (fun _ _ h => h)
    fun _ h => .inl h).bind
  exact fun _ => hwrite

omit honest in
theorem Runs.andThen {α β : Type} {p : Flow H α} {f : α → Flow H β} {m' : Machine}
    {T : Option TransactionFile} {Q : β → World H → Prop} {E : InstallError → World H → Prop}
    {C : World H → Prop} (hp : Runs p m m') (hC : ∀ w, w.transaction = T → C w)
    (hf : ∀ a, Triple (At m' T) (f a) Q E C) : Triple (At m T) (p >>= f) Q E C := by
  have hrun : Triple (At m T) p (fun _ => At m' T) E C :=
    (hp T).ends (fun _ _ h => h.elim) hC
  exact hrun.bind hf

omit honest in
theorem early_program (host : Host H) (t : TransactionFile) {phase : Phase}
    (hphase : Way.early.starts phase = true) :
    Way.early.program host { t with phase := phase } = (do
      host.restoreLegacyUnit { t with phase := phase }
      host.restorePreActivation { t with phase := phase }
      host.markPhase { t with phase := phase } .failed) := by
  cases phase <;> first | rfl | exact absurd hphase Bool.false_ne_true

theorem triple_rollbackMigrateInner (ht : Recorded t u) (phase : Phase)
    (hvalid : { t with phase := .rolledBack }.validate = none) (T : Option TransactionFile)
    (hbackup : u.fileMoved = true → m.files (unitBackup t u) ≠ none) :
    Triple (At m T) (host.rollbackMigrateInner { t with phase := phase })
      (fun _ => At (machineAfter t u .rollback m) (some { t with phase := .rolledBack }))
      (fun _ _ => False)
      fun w => w.transaction = T ∨
        At (machineAfter t u .rollback m) (some { t with phase := .rolledBack }) w := by
  have hkept : u.fileMoved = true →
      firstCleaned (t.targetVersion.getD "") m.files (unitBackup t u) ≠ none := by
    intro hmoved
    have hsame := firstCleaned_backup (t.targetVersion.getD "") m.files (t := t) (u := u) []
    rw [List.append_nil] at hsame
    rw [hsame]
    exact hbackup hmoved
  -- the machine after the last clean-up is the one the way back is to leave
  have hend : machineAfter t u .rollback m =
      (legacyMachine u (((serviceMachine t m).setFiles
        (firstCleaned (t.targetVersion.getD "") m.files)).setFiles
          (returnFile t u (firstCleaned (t.targetVersion.getD "") m.files)))).setFiles
        ((((returnFile t u (firstCleaned (t.targetVersion.getD "") m.files)).remove
          Layout.data).remove Layout.service).remove (Layout.root ++ ["state"])) := by
    rw [returnFile_cleaned _ _ ht]
    rfl
  rw [hend]
  unfold Host.rollbackMigrateInner
  apply (Runs.check honest .downcast).andThen fun w h => .inl h
  intro _
  apply (Runs.cleanupFailedFirstInstall honest ht).andThen fun w h => .inl h
  intro _
  apply (Runs.restoreLegacyUnit honest ht hkept).andThen fun w h => .inl h
  intro _
  apply (Runs.cleanupMigratedRoot honest).andThen fun w h => .inl h
  intro _
  exact markPhase honest _ hvalid T

theorem triple_way (ht : Recorded t u) (hstarts : way.starts t.phase = true) {phase : Phase}
    (hphase : way.starts phase = true)
    (hbackup : u.fileMoved = true → m.files (unitBackup t u) ≠ none) :
    Triple (At m (some { t with phase := phase })) (way.program host { t with phase := phase })
      (fun _ => At (machineAfter t u way m) (some { t with phase := way.endPhase }))
      (fun _ _ => False)
      fun w => w.transaction = some { t with phase := phase } ∨
        (way = .rollback ∧ w.transaction = some { t with phase := .rollingBack }) ∨
        At (machineAfter t u way m) (some { t with phase := way.endPhase }) w := by
  cases way with
  | rollback =>
    have hmark := markPhase honest (m := m) { t with phase := phase }
      (ht.validate_phase hstarts .rollingBack) (some { t with phase := phase })
    have hinner := triple_rollbackMigrateInner honest ht phase
      (ht.validate_phase hstarts .rolledBack) (some { t with phase := .rollingBack }) hbackup
    unfold Way.program Host.rollbackMigrate Host.rollbackAround
    apply (hmark.ends (fun _ _ h => h) ?_).bind
    · intro _
      apply (hinner.ends (fun _ _ h => h) ?_).attempt.bind
      · intro r
        cases r with
        | ok _ => exact Triple.pure _ fun w hw => hw
        | error e => exact fun w hw => hw.elim
      · rintro w (hw | hw)
        · exact .inr (.inl ⟨rfl, hw⟩)
        · exact .inr (.inr hw)
    · rintro w (hw | hw)
      · exact .inl hw
      · exact .inr (.inl ⟨rfl, hw.transaction⟩)
  | early =>
    have hmark := markPhase honest (m := machineAfter t u .early m)
      { t with phase := phase } (ht.validate_phase hstarts .failed)
      (some { t with phase := phase })
    rw [early_program host t hphase]
    apply (Runs.restoreLegacyUnit honest ht hbackup).andThen fun w h => .inl h
    intro _
    have hpre : Runs (host.restorePreActivation { t with phase := phase })
        (legacyMachine u (m.setFiles (returnFile t u m.files))) (machineAfter t u .early m) :=
      Runs.restorePreActivation honest rfl
    apply hpre.andThen fun w h => .inl h
    intro _
    apply hmark.ends fun _ _ h => h
    rintro w (hw | hw)
    · exact .inl hw
    · exact .inr (.inr hw)

end Marks

end LandscapeKit.Deploy.MigrateCut
