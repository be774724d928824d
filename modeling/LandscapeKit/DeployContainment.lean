import Mathlib.Data.List.ReduceOption
import LandscapeKit.DeployPaths

/-!
Exactly when the text of an accepted record keeps the commands that work on it below the
directories they are meant for.
-/

namespace LandscapeKit.Deploy

open Faults

set_option synthInstance.maxSize 65536

variable {H α : Type} {territory : Path} {t : TransactionFile}

/-! ## Where the paths of a record lead -/

section Located

theorem locate_transactions : locate territory Layout.transactions = territory ++ ["transactions"] :=
  locate_names (by decide)

theorem locate_root : locate territory Layout.root = territory ++ ["landscape"] :=
  locate_names (by decide)

theorem locate_releases :
    locate territory Layout.releases = territory ++ ["landscape", "releases"] :=
  locate_names (by decide)

theorem locate_transactionDir {id last : String} {init : List String}
    (hid : parts id = init ++ [last]) (hinit : ∀ part ∈ init, IsName part) :
    locate territory (Layout.transactionDir id) =
      enter (territory ++ ["transactions"] ++ init) last := by
  rw [Layout.transactionDir, locate_append, locate_transactions]
  exact follow_of_parts hid hinit

section Ident

variable {id last : String} {init : List String}

theorem eq_iff_of_parts (hid : parts id = init ++ [last]) {x : String} (hx : '/' ∉ x.toList) :
    id = x ↔ init = [] ∧ last = x := by
  have hparts := parts_of_not_mem hx
  constructor
  · rintro rfl
    rw [hid, List.append_eq_singleton_iff] at hparts
    rcases hparts with ⟨rfl, hlast⟩ | ⟨-, hlast⟩
    · exact ⟨rfl, List.singleton_inj.mp hlast⟩
    · simp at hlast
  · rintro ⟨rfl, rfl⟩
    exact eq_of_parts_eq (hid.trans hparts.symm)

theorem isDeep_iff (hid : parts id = init ++ [last]) :
    IsDeep id ↔ ¬ (init = [] ∧ ¬ IsName last) ∧ ¬ (init.length = 1 ∧ last = "..") := by
  have htwo : (∃ x, parts id = [x, ".."]) ↔ init.length = 1 ∧ last = ".." := by
    rw [hid]
    constructor
    · rintro ⟨x, hx⟩
      have happ : init ++ [last] = [x] ++ [".."] := hx
      obtain ⟨rfl, hlast⟩ := List.append_inj' happ rfl
      exact ⟨rfl, List.singleton_inj.mp hlast⟩
    · rintro ⟨hlen, rfl⟩
      obtain ⟨x, rfl⟩ := List.length_eq_one_iff.mp hlen
      exact ⟨x, rfl⟩
  rw [← htwo, IsDeep, Ne, Ne, Ne, eq_iff_of_parts hid (x := "") (by decide),
    eq_iff_of_parts hid (x := ".") (by decide), eq_iff_of_parts hid (x := "..") (by decide), IsName]
  push Not
  tauto

theorem ne_dotdot_iff (hid : parts id = init ++ [last]) :
    id ≠ ".." ↔ ¬ (init = [] ∧ last = "..") :=
  not_congr (eq_iff_of_parts hid (by decide))

end Ident

theorem liesBelow_transactionDir_iff (ht : Accepted t) :
    LiesBelow territory Layout.transactions (Layout.transactionDir t.transactionId) ↔
      IsDeep t.transactionId := by
  obtain ⟨init, last, hid, hinit⟩ := ht.ident
  rw [LiesBelow, locate_transactions, locate_transactionDir hid hinit, isDeep_iff hid]
  exact below_enter_iff (by simp)

theorem liesBelow_child_iff (ht : Accepted t) {x : String} (hx : IsName x)
    (hs : '/' ∉ x.toList) :
    LiesBelow territory Layout.transactions (Layout.transactionDir t.transactionId ++ [x]) ↔
      t.transactionId ≠ ".." := by
  obtain ⟨init, last, hid, hinit⟩ := ht.ident
  have hlocate : locate territory (Layout.transactionDir t.transactionId ++ [x]) =
      enter (territory ++ ["transactions"] ++ init) last ++ [x] := by
    rw [locate_append, locate_transactionDir hid hinit]
    exact follow_name hs hx
  rw [LiesBelow, locate_transactions, hlocate, ne_dotdot_iff hid, below_append_name_iff]
  exact inside_enter_iff (by simp)

theorem liesBelow_root_iff {p : Path} (hp : ∀ part ∈ p, IsName part ∧ '/' ∉ part.toList) :
    LiesBelow territory Layout.releases (Layout.root ++ p) ↔ NamesRelease p := by
  have hlocate : locate territory (Layout.root ++ p) = territory ++ (["landscape"] ++ p) := by
    rw [locate_append, locate_root, locate_names hp, List.append_assoc]
  rw [LiesBelow, locate_releases, hlocate, below_append_iff]
  simp [Below, NamesRelease]

theorem LiesBelow.append {base p q : Path} (h : LiesBelow territory base p)
    (hq : ∀ part ∈ q, IsName part ∧ '/' ∉ part.toList) : LiesBelow territory base (p ++ q) := by
  rw [LiesBelow, locate_append, locate_names hq]
  exact Below.append h q

end Located

/-! ## A harmless record -/

section Contained

variable {p : Path}

theorem Harmless.contained (hs : Harmless territory t) (h1 : ¬ Layout.transactions <+: p)
    (h2 : ¬ Layout.releases <+: p) : Contained territory t p := by
  have hroot : ∀ target, NamesRelease target → p ≠ Layout.root ++ target := by
    rintro target ⟨x, xs, rfl⟩ rfl
    exact h2 ⟨x :: xs, rfl⟩
  refine ⟨fun h => absurd h h1, fun h => absurd h h2, fun target htarget hp => ?_,
    fun hstatic b hb hp => ?_⟩
  · exact absurd hp (hroot target (hs.targetRelease target htarget))
  · exact absurd hp (hroot b.target (hs.staticTarget hstatic b hb))

theorem contained_of_transactions (h : LiesBelow territory Layout.transactions p)
    (hp : Layout.transactions <+: p) : Contained territory t p := by
  obtain ⟨r, rfl⟩ := hp
  refine ⟨fun _ => h, fun hr => ?_, fun target _ hr => ?_, fun _ b _ hr => ?_⟩
  · simp [Layout.releases, Layout.root, Layout.transactions] at hr
  · simp [Layout.root, Layout.transactions] at hr
  · simp [Layout.root, Layout.transactions] at hr

theorem contained_of_releases (h : LiesBelow territory Layout.releases p)
    (hp : Layout.root <+: p) : Contained territory t p := by
  obtain ⟨r, rfl⟩ := hp
  refine ⟨fun hr => ?_, fun _ => h, fun _ _ _ => h, fun _ _ _ _ => h⟩
  simp [Layout.root, Layout.transactions] at hr

theorem contained_transactionDir (ht : Accepted t) (hdeep : IsDeep t.transactionId) :
    Contained territory t (Layout.transactionDir t.transactionId) :=
  contained_of_transactions ((liesBelow_transactionDir_iff ht).mpr hdeep) ⟨_, rfl⟩

theorem contained_child (ht : Accepted t) (hid : t.transactionId ≠ "..") {x : String}
    (hx : IsName x) (hslash : '/' ∉ x.toList) :
    Contained territory t (Layout.transactionDir t.transactionId ++ [x]) :=
  contained_of_transactions ((liesBelow_child_iff ht hx hslash).mpr hid)
    (by simp [Layout.transactionDir, List.append_assoc])

theorem contained_target (ht : Accepted t) (hp : p ∈ t.recordedPaths) (hn : NamesRelease p) :
    Contained territory t (Layout.root ++ p) :=
  contained_of_releases ((liesBelow_root_iff (ht.names p hp)).mpr hn) ⟨p, rfl⟩

theorem contained_release {v : String} (h : LiesBelow territory Layout.releases (Layout.release v))
    {q : Path} (hq : ∀ part ∈ q, IsName part ∧ '/' ∉ part.toList) :
    Contained territory t (Layout.release v ++ q) :=
  contained_of_releases (h.append hq) (by simp [Layout.release, Layout.releases])

end Contained

/-! ## The commands of a harmless record -/

section Frames

variable (host : Host H) (hs : Harmless territory t) (ht : Accepted t)

include hs in
theorem noted_layout {act : Act α} {q : Path} (h : act.touches = [q])
    (h1 : ¬ Layout.transactions <+: q) (h2 : ¬ Layout.releases <+: q) :
    act.Noted (Contained territory t) :=
  Notes.noted_of_single h (hs.contained h1 h2)

include hs in
theorem notes_restoreCurrent (target : Path) :
    Within (Notes (Contained territory t)) (host.recording.restoreCurrent target) := by
  have htmp : Contained territory t Layout.currentTmp := hs.contained (by decide) (by decide)
  have hcurrent : Contained territory t Layout.current := hs.contained (by decide) (by decide)
  have h1 : (Act.removeFile Layout.currentTmp).Noted (Contained territory t) :=
    Notes.noted_of_single rfl htmp
  have h2 : (Act.symlink target Layout.currentTmp).Noted (Contained territory t) :=
    Notes.noted_of_single rfl htmp
  have h3 : (Act.rename Layout.currentTmp Layout.current).Noted (Contained territory t) :=
    Notes.noted_rename htmp hcurrent
  unfold Host.restoreCurrent
  infer_instance

include hs in
theorem notes_writeState (s : InstallState) :
    Within (Notes (Contained territory t)) (host.recording.writeState s) := by
  have h1 : (Act.writeFile Layout.statePath (.state s)).Noted (Contained territory t) :=
    noted_layout hs rfl (by decide) (by decide)
  unfold Host.writeState
  infer_instance

include hs in
theorem notes_restoreDataFromBackup (restoreDir : Path) :
    Within (Notes (Contained territory t)) (host.recording.restoreDataFromBackup restoreDir) := by
  have h1 : (Act.copyTree (restoreDir ++ ["geo_tmp"]) (Layout.data ++ ["geo_tmp"])).Noted
      (Contained territory t) := noted_layout hs rfl (by decide) (by decide)
  have h2 : ∀ d, (Act.writeFile (Layout.data ++ ["landscape_init.toml"]) d).Noted
      (Contained territory t) := fun d => noted_layout hs rfl (by decide) (by decide)
  unfold Host.restoreDataFromBackup
  infer_instance

include hs ht in
theorem notes_removeTargetRelease :
    Within (Notes (Contained territory t)) (host.recording.removeTargetRelease t) := by
  have h1 : Within (Notes (Contained territory t)) (host.recording.discard
      (t.targetRelease.map fun target => Layout.root ++ target)) := by
    unfold Host.discard
    split
    · rename_i p hp
      obtain ⟨target, htarget, rfl⟩ := Option.map_eq_some_iff.mp hp
      have hmem : target ∈ t.recordedPaths := by
        simp [TransactionFile.recordedPaths, List.reduceOption_mem_iff, htarget]
      have hact : (Act.removeDirAll (Layout.root ++ target)).Noted (Contained territory t) :=
        Notes.noted_of_single rfl (contained_target ht hmem (hs.targetRelease target htarget))
      infer_instance
    · infer_instance
  have h2 : Within (Notes (Contained territory t)) (host.recording.discard
      (t.targetVersion.map fun version => Layout.releases ++ [".install-" ++ version ++ ".tmp"])) := by
    unfold Host.discard
    split
    · rename_i p hp
      obtain ⟨v, hv, rfl⟩ := Option.map_eq_some_iff.mp hp
      have hin : Layout.root <+: Layout.releases ++ [".install-" ++ v ++ ".tmp"] :=
        ⟨["releases", ".install-" ++ v ++ ".tmp"], rfl⟩
      have hact : (Act.removeDirAll (Layout.releases ++ [".install-" ++ v ++ ".tmp"])).Noted
          (Contained territory t) :=
        Notes.noted_of_single rfl (contained_of_releases (hs.targetVersion v hv) hin)
      infer_instance
    · infer_instance
  unfold Host.removeTargetRelease
  infer_instance

include hs ht in
theorem notes_cleanupFailedFirstInstall :
    Within (Notes (Contained territory t)) (host.recording.cleanupFailedFirstInstall t) := by
  have h1 := notes_removeTargetRelease host hs ht
  have h2 : (Act.removeFile Layout.currentTmp).Noted (Contained territory t) :=
    noted_layout hs rfl (by decide) (by decide)
  have h3 : (Act.removeFile Layout.current).Noted (Contained territory t) :=
    noted_layout hs rfl (by decide) (by decide)
  have h4 : (Act.removeFile (Layout.data ++ ["landscape_init.toml"])).Noted
      (Contained territory t) := noted_layout hs rfl (by decide) (by decide)
  have h5 : (Act.removeFile Layout.statePath).Noted (Contained territory t) :=
    noted_layout hs rfl (by decide) (by decide)
  unfold Host.cleanupFailedFirstInstall Host.removeCurrentOfTarget
  infer_instance

theorem markPhase_not_ok (h : t.rollsBack = false) {K : Type} (host : Host K) (w : World K)
    (a : Unit) (w' : World K) : host.markPhase t .rollingBack w ≠ (.ok a, w') := by
  intro hok
  obtain ⟨_, u, -, hwrite⟩ := Prog.bind_eq_ok hok
  obtain ⟨e, he⟩ : ∃ e, { t with phase := .rollingBack }.validate = some e := by
    simpa [TransactionFile.rollsBack, Option.ne_none_iff_exists'] using h
  unfold Host.writeTransaction at hwrite
  rw [he] at hwrite
  cases hwrite

theorem notes_afterMark {G : Path → Prop} {rest : Unit → Flow (H × List Path) Unit}
    (h : t.rollsBack → ∀ a, Within (Notes G) (rest a)) :
    Within (Notes G) (host.recording.markPhase t .rollingBack >>= rest) := by
  cases hr : t.rollsBack with
  | true => exact Within.andThen inferInstance (h hr)
  | false => exact Within.stops inferInstance (markPhase_not_ok hr host.recording)

include hs ht in
theorem notes_restoreFromBackup (hr : t.rollsBack) (snapshot : InstallState) (isSystemd : Bool) :
    Within (Notes (Contained territory t))
      (host.recording.restoreFromBackup t snapshot isSystemd) := by
  have hid := hs.rollback hr
  have hdata : Contained territory t Layout.data := hs.contained (by decide) (by decide)
  have hfailed : Contained territory t (Layout.failedData t.transactionId) :=
    contained_child ht hid (by decide) (by decide)
  have hrestore : Contained territory t (Layout.transactionDir t.transactionId ++ ["restore"]) :=
    contained_child ht hid (by decide) (by decide)
  have hreplaced : Contained territory t
      (Layout.transactionDir t.transactionId ++ ["replaced-release"]) :=
    contained_child ht hid (by decide) (by decide)
  have h1 : (Act.removeDirAll Layout.data).Noted (Contained territory t) :=
    Notes.noted_of_single rfl hdata
  have h2 : (Act.rename Layout.data (Layout.failedData t.transactionId)).Noted
      (Contained territory t) := Notes.noted_rename hdata hfailed
  have h3 : (Act.removeDirAll (Layout.transactionDir t.transactionId ++ ["restore"])).Noted
      (Contained territory t) := Notes.noted_of_single rfl hrestore
  have h4 : (Act.extractLkb (Layout.transactionDir t.transactionId ++ ["restore"])).Noted
      (Contained territory t) := Notes.noted_of_single rfl hrestore
  have haside : Within (Notes (Contained territory t)) (host.recording.moveDataAside Layout.data
      (Layout.failedData t.transactionId)) := by
    unfold Host.moveDataAside Host.setAside
    infer_instance
  -- what is rebuilt is the release of `from_version`, and only from a backup
  have hrebuild : t.backup.isSome → ∀ v, t.fromVersion = some v →
      Within (Notes (Contained territory t)) (host.recording.rebuildReleaseFromBackup
        (Layout.transactionDir t.transactionId) v
        (Layout.transactionDir t.transactionId ++ ["restore"])) := by
    intro hb v hv
    have hbelow := hs.fromVersion hr hb v hv
    have hrelease : Contained territory t (Layout.release v) := by
      simpa using contained_release hbelow (q := []) (by decide)
    have g1 : (Act.removeDirAll (Layout.transactionDir t.transactionId ++
        ["replaced-release"])).Noted (Contained territory t) := Notes.noted_of_single rfl hreplaced
    have g2 : (Act.rename (Layout.release v) (Layout.transactionDir t.transactionId ++
        ["replaced-release"])).Noted (Contained territory t) :=
      Notes.noted_rename hrelease hreplaced
    have g3 : ∀ source, (Act.copyFile source (Layout.release v ++ [Layout.webserverBinary])).Noted
        (Contained territory t) :=
      fun source => Notes.noted_of_single rfl (contained_release hbelow (by decide))
    have g4 : ∀ source, (Act.copyTree source (Layout.release v ++ ["static"])).Noted
        (Contained territory t) :=
      fun source => Notes.noted_of_single rfl (contained_release hbelow (by decide))
    have g5 : ∀ source, (Act.copyFile source (Layout.release v ++ ["static.zip"])).Noted
        (Contained territory t) :=
      fun source => Notes.noted_of_single rfl (contained_release hbelow (by decide))
    unfold Host.rebuildReleaseFromBackup Host.replaceRelease
    dsimp only
    infer_instance
  have hcurrent := notes_restoreCurrent host hs
  have hrestored := notes_restoreDataFromBackup host hs
  unfold Host.restoreFromBackup
  dsimp only
  refine Within.andThen inferInstance fun _ => Within.andThen inferInstance fun _ =>
    Within.andThen haside fun _ => ?_
  refine Frame.orCorrupted_bind fun backup hb => ?_
  refine Within.andThen inferInstance fun _ => Within.andThen inferInstance fun _ =>
    Within.andThen inferInstance fun _ => ?_
  refine Frame.orCorrupted_bind fun v hv => ?_
  have hbuilt := hrebuild (by simp [hb]) v hv
  unfold Host.buildRestoredState
  infer_instance

include hs ht in
theorem notes_rollbackSwitch (snapshot : InstallState) :
    Within (Notes (Contained territory t)) (host.recording.rollbackSwitch t snapshot) := by
  unfold Host.rollbackSwitch
  refine notes_afterMark host fun hr _ => ?_
  have h1 := notes_restoreFromBackup host hs ht hr
  have h2 := notes_writeState host hs
  have h3 : ∀ c, Within (Notes (Contained territory t)) (host.recording.healthOrFailed t c) := by
    intro c
    unfold Host.healthOrFailed
    refine Within.andThen inferInstance fun r => ?_
    split <;> infer_instance
  unfold Host.reinstate Host.startRestored Host.verifyRestored Host.commitRollback
  dsimp only
  infer_instance

include hs in
theorem notes_rollbackNoBackup (previous : InstallState) :
    Within (Notes (Contained territory t)) (host.recording.rollbackNoBackup t previous) := by
  have h1 := notes_restoreCurrent host hs
  have h2 := notes_writeState host hs
  unfold Host.rollbackNoBackup Host.reinstateNoBackup
  dsimp only
  infer_instance

theorem notes_rollbackAround {G : Path → Prop} {inner : Flow (H × List Path) Unit}
    (h : t.rollsBack → Within (Notes G) inner) :
    Within (Notes G) (host.recording.rollbackAround t inner) := by
  unfold Host.rollbackAround
  refine notes_afterMark host fun hr _ => ?_
  have hinner := h hr
  refine Within.andThen inferInstance fun r => ?_
  split <;> infer_instance

include hs ht in
theorem notes_restorePreviousData (hr : t.rollsBack) :
    Within (Notes (Contained territory t)) (host.recording.restorePreviousData Layout.data
      (Layout.previousData t.transactionId)) := by
  have hdata : Contained territory t Layout.data := hs.contained (by decide) (by decide)
  have hprevious : Contained territory t (Layout.previousData t.transactionId) :=
    contained_child ht (hs.rollback hr) (by decide) (by decide)
  have h1 : (Act.removeDirAll Layout.data).Noted (Contained territory t) :=
    Notes.noted_of_single rfl hdata
  have h2 : (Act.rename (Layout.previousData t.transactionId) Layout.data).Noted
      (Contained territory t) := Notes.noted_rename hprevious hdata
  unfold Host.restorePreviousData Host.putBack
  infer_instance

include hs ht in
theorem notes_restoreReplacedRelease (hr : t.rollsBack) :
    Within (Notes (Contained territory t))
      (host.recording.restoreReplacedReleaseIfSameVersion t) := by
  have hreplaced : Contained territory t
      (Layout.transactionDir t.transactionId ++ ["replaced-release"]) :=
    contained_child ht (hs.rollback hr) (by decide) (by decide)
  unfold Host.restoreReplacedReleaseIfSameVersion
  split
  · infer_instance
  · refine Within.andThen inferInstance fun m => ?_
    dsimp only
    have hmove : Within (Notes (Contained territory t)) (do
        let target ← Host.orCorrupted t.targetRelease "restore transaction is missing target_release"
        Prog.onlyIf (m.files (Layout.root ++ target)).isSome
          (host.recording.perform (.removeDirAll (Layout.root ++ target)))
        host.recording.perform (.rename (Layout.transactionDir t.transactionId ++
          ["replaced-release"]) (Layout.root ++ target))) := by
      refine Frame.orCorrupted_bind fun target htarget => ?_
      have hmem : target ∈ t.recordedPaths := by
        simp [TransactionFile.recordedPaths, List.reduceOption_mem_iff, htarget]
      have hroot : Contained territory t (Layout.root ++ target) :=
        contained_target ht hmem (hs.targetRelease target htarget)
      have h1 : (Act.removeDirAll (Layout.root ++ target)).Noted (Contained territory t) :=
        Notes.noted_of_single rfl hroot
      have h2 : (Act.rename (Layout.transactionDir t.transactionId ++ ["replaced-release"])
          (Layout.root ++ target)).Noted (Contained territory t) :=
        Notes.noted_rename hreplaced hroot
      infer_instance
    infer_instance

include hs ht in
theorem notes_rollbackRestore :
    Within (Notes (Contained territory t)) (host.recording.rollbackRestore t) := by
  unfold Host.rollbackRestore
  refine notes_rollbackAround host fun hr => ?_
  have h1 := notes_rollbackSwitch host hs ht
  have h2 := notes_rollbackNoBackup host hs
  have h3 := notes_restorePreviousData host hs ht hr
  have h4 := notes_restoreReplacedRelease host hs ht hr
  have h5 := notes_restoreCurrent host hs
  have h6 := notes_writeState host hs
  unfold Host.rollbackRestoreInner Host.rollbackRestoreInPlace
  dsimp only
  infer_instance

include hs ht in
theorem notes_rollbackReinit :
    Within (Notes (Contained territory t)) (host.recording.rollbackReinit t) := by
  unfold Host.rollbackReinit
  refine notes_rollbackAround host fun hr => ?_
  have h1 := notes_restorePreviousData host hs ht hr
  have h2 := notes_writeState host hs
  unfold Host.rollbackReinitInner
  infer_instance

end Frames

/-! ## The recovery of a harmless record -/

section Recovery

variable (host : Host H) (hs : Harmless territory t) (ht : Accepted t)

theorem notes_mono {G G' : Path → Prop} {p : Flow (H × List Path) α} (h : ∀ q, G q → G' q)
    (hp : Within (Notes G) p) : Within (Notes G') p :=
  hp.mono fun _ _ hw q hq => (hw q hq).imp_right (h q)

theorem rollsBack_of_valid (hv : t.validate = none) (h : t.mayLackBackup = false) :
    t.rollsBack := by
  have hv' : { t with phase := .rollingBack }.validate = t.validate :=
    TransactionFile.validate_withPhase (h.symm ▸ by simp [TransactionFile.mayLackBackup])
  simp [TransactionFile.rollsBack, hv', hv]

def MayTouch (territory : Path) (t : TransactionFile) (p : Path) : Prop :=
  p ∉ t.unrelated → Contained territory t p

theorem mayTouch_of_contained {p : Flow (H × List Path) α}
    (hp : Within (Notes (Contained territory t)) p) : Within (Notes (MayTouch territory t)) p :=
  notes_mono (fun _ hq _ => hq) hp

theorem noted_unrelated {act : Act α} (h : ∀ p ∈ act.touches, p ∈ t.unrelated) :
    act.Noted (MayTouch territory t) :=
  ⟨fun p hp hn => absurd (h p hp) hn⟩

include hs ht in
theorem notes_recoverInstall (hop : t.operation = .install) :
    Within (Notes (MayTouch territory t)) (host.recording.recoverInstall t) := by
  have h1 := mayTouch_of_contained (notes_cleanupFailedFirstInstall host hs ht)
  have h2 : ∀ network, t.networkTakeover = some network →
      Within (Notes (MayTouch territory t)) (host.recording.cleanupFailedTakeover network) := by
    intro network hn
    have hact : (Act.removeFile (Layout.root ++ network.recoveryBinary)).Noted
        (MayTouch territory t) := noted_unrelated (by
      simp [Act.touches, TransactionFile.unrelated, hop, hn])
    unfold Host.cleanupFailedTakeover Host.removeRecoveryUnits Host.retireUnit
    infer_instance
  have h3 : Within (Notes (MayTouch territory t)) (host.recording.cleanUpInstall t) := by
    unfold Host.cleanUpInstall Host.withErrorPath
    split
    · refine Within.andThen (Within.andThen inferInstance fun r => ?_) fun _ => inferInstance
      split <;> infer_instance
    · rename_i network hn
      have hclean := h2 network hn
      infer_instance
  unfold Host.recoverInstall
  infer_instance

include hs ht in
theorem notes_recoverSwitch :
    Within (Notes (Contained territory t)) (host.recording.recoverSwitch t) := by
  have h1 := notes_removeTargetRelease host hs ht
  have h2 := notes_rollbackSwitch host hs ht
  have h3 := notes_rollbackNoBackup host hs
  have h4 := notes_restoreCurrent host hs
  have h5 : Within (Notes (Contained territory t)) (host.recording.recoverActivatedSwitch t) := by
    unfold Host.recoverActivatedSwitch
    split
    · infer_instance
    · split
      · refine Within.andThen inferInstance fun state => ?_
        split <;> infer_instance
      · infer_instance
  unfold Host.recoverSwitch Host.refuseTerminal
  split <;> infer_instance

include hs ht in
theorem notes_removeTransactionDir (h : t.removesDirectory) :
    Within (Notes (Contained territory t)) (host.recording.removeTransactionDir t) := by
  have hact : (Act.removeDirAll (Layout.transactionDir t.transactionId)).Noted
      (Contained territory t) :=
    Notes.noted_of_single rfl (contained_transactionDir ht (hs.directory h))
  unfold Host.removeTransactionDir
  infer_instance

include hs ht in
theorem notes_recoverBinaryRepair (hr : t.rollsBack) (hb : t.backup.isSome) :
    Within (Notes (Contained territory t)) (host.recording.recoverBinaryRepair t) := by
  have h1 := notes_rollbackSwitch host hs ht
  unfold Host.recoverBinaryRepair
  refine Within.andThen inferInstance fun snapshot => ?_
  split
  · infer_instance
  · refine Frame.orCorrupted_bind fun v hv => ?_
    have hbelow := hs.fromVersion hr hb v hv
    have htmp : Contained territory t (Host.binaryTmp v) :=
      contained_release hbelow (by decide)
    have hbinary : Contained territory t (Layout.release v ++ [Layout.webserverBinary]) :=
      contained_release hbelow (by decide)
    have g1 : ∀ source, (Act.copyFile source (Host.binaryTmp v)).Noted (Contained territory t) :=
      fun source => Notes.noted_of_single rfl htmp
    have g2 : (Act.rename (Host.binaryTmp v) (Layout.release v ++ [Layout.webserverBinary])).Noted
        (Contained territory t) := Notes.noted_rename htmp hbinary
    have g3 : (Act.removeFile (Host.binaryTmp v)).Noted (Contained territory t) :=
      Notes.noted_of_single rfl htmp
    unfold Host.replaceBinary Host.withErrorPath
    refine Within.andThen (Within.andThen inferInstance fun _ => Within.andThen inferInstance
      fun _ => Within.andThen inferInstance fun r => ?_) fun _ => inferInstance
    split <;> infer_instance

include hs ht in
theorem notes_recoverStaticRepair (hst : t.restoresStatic) :
    Within (Notes (Contained territory t)) (host.recording.recoverStaticRepair t) := by
  unfold Host.recoverStaticRepair
  refine Frame.orCorrupted_bind fun b hb => ?_
  have hmem : b.target ∈ t.recordedPaths := by
    simp [TransactionFile.recordedPaths, List.reduceOption_mem_iff, hb]
  have htarget : Contained territory t (Layout.root ++ b.target) :=
    contained_target ht hmem (hs.staticTarget hst b hb)
  have g1 : (Act.removeDirAll (Layout.root ++ b.target)).Noted (Contained territory t) :=
    Notes.noted_of_single rfl htarget
  have g2 : (Act.copyTree b.path (Layout.root ++ b.target)).Noted (Contained territory t) :=
    Notes.noted_of_single rfl htarget
  unfold Host.restoreStatic
  infer_instance

include hs ht in
theorem notes_recoverRepair (hop : t.operation = .repair) :
    Within (Notes (Contained territory t)) (host.recording.recoverRepair t) := by
  have hdir : t.phase = .preparing ∨ t.phase = .prepared ∨ t.phase = .stopping →
      Within (Notes (Contained territory t)) (host.recording.removeTransactionDir t) :=
    fun hp => notes_removeTransactionDir host hs ht (by
      simpa [TransactionFile.removesDirectory, hop, or_assoc] using hp)
  have hlate : t.phase = .activating ∨ t.phase = .verifying ∨ t.phase = .rollingBack →
      Within (Notes (Contained territory t)) (host.recording.recoverActivatedRepair t) := by
    intro hp
    have hr : t.rollsBack := rollsBack_of_valid ht.valid (by
      rcases hp with hp | hp | hp <;> simp [TransactionFile.mayLackBackup, hp])
    unfold Host.recoverActivatedRepair
    split
    · exact notes_recoverBinaryRepair host hs ht hr ‹_›
    · rename_i hb
      have hst : t.restoresStatic := by
        have hnone : t.backup.isNone := by simpa using hb
        rcases hp with hp | hp | hp <;> simp [TransactionFile.restoresStatic, hop, hnone, hp]
      have hstatic := notes_recoverStaticRepair host hs ht hst
      infer_instance
  unfold Host.recoverRepair Host.refuseTerminal
  split
  · have := hdir (.inl ‹_›)
    infer_instance
  · have := hdir (.inr (.inl ‹_›))
    infer_instance
  · have := hdir (.inr (.inr ‹_›))
    infer_instance
  · exact hlate (.inl ‹_›)
  · exact hlate (.inr (.inl ‹_›))
  · exact hlate (.inr (.inr ‹_›))
  · infer_instance

include hs ht in
theorem notes_recoverRestore (hop : t.operation = .restore) :
    Within (Notes (Contained territory t)) (host.recording.recoverRestore t) := by
  have hdir : t.phase = .preparing ∨ t.phase = .prepared ∨ t.phase = .stopping →
      Within (Notes (Contained territory t)) (host.recording.removeTransactionDir t) :=
    fun hp => notes_removeTransactionDir host hs ht (by
      simpa [TransactionFile.removesDirectory, hop, or_assoc] using hp)
  have hlate := notes_rollbackRestore host hs ht
  unfold Host.recoverRestore Host.refuseTerminal
  split
  · have := hdir (.inl ‹_›)
    infer_instance
  · have := hdir (.inr (.inl ‹_›))
    infer_instance
  · have := hdir (.inr (.inr ‹_›))
    infer_instance
  all_goals infer_instance

include hs ht in
theorem notes_recoverReinit (hop : t.operation = .reinit) :
    Within (Notes (Contained territory t)) (host.recording.recoverReinit t) := by
  have hdir : t.phase = .preparing ∨ t.phase = .prepared ∨ t.phase = .stopping →
      Within (Notes (Contained territory t)) (host.recording.removeTransactionDir t) :=
    fun hp => notes_removeTransactionDir host hs ht (by
      simpa [TransactionFile.removesDirectory, hop, or_assoc] using hp)
  have hlate := notes_rollbackReinit host hs ht
  unfold Host.recoverReinit Host.refuseTerminal
  split
  · infer_instance
  · infer_instance
  · infer_instance
  · have := hdir (.inl ‹_›)
    infer_instance
  · have := hdir (.inr (.inl ‹_›))
    infer_instance
  · have := hdir (.inr (.inr ‹_›))
    infer_instance
  all_goals infer_instance

include hs in
theorem notes_recoverUninstall (hop : t.operation = .uninstall) :
    Within (Notes (MayTouch territory t)) (host.recording.recoverUninstall t) := by
  have hremove : ∀ p, MayTouch territory t p →
      Within (Notes (MayTouch territory t)) (host.recording.removePathIfPresent p) := by
    intro p hp
    have g1 : (Act.removeDirAll p).Noted (MayTouch territory t) := Notes.noted_of_single rfl hp
    have g2 : (Act.removeFile p).Noted (MayTouch territory t) := Notes.noted_of_single rfl hp
    unfold Host.removePathIfPresent
    refine Within.andThen inferInstance fun m => ?_
    split <;> infer_instance
  have h1 := hremove Layout.current fun _ => hs.contained (by decide) (by decide)
  have h2 := hremove Layout.releases fun hn => absurd (by simp [TransactionFile.unrelated, hop]) hn
  have h3 := hremove Layout.service fun _ => hs.contained (by decide) (by decide)
  have h4 := hremove Layout.data fun _ => hs.contained (by decide) (by decide)
  have h5 := hremove Layout.statePath fun _ => hs.contained (by decide) (by decide)
  have h6 : Within (Notes (MayTouch territory t)) host.recording.isActiveOrFalse := by
    unfold Host.isActiveOrFalse
    refine Within.andThen inferInstance fun r => ?_
    split <;> infer_instance
  have h7 : Within (Notes (MayTouch territory t)) host.recording.deactivate := by
    unfold Host.deactivate Host.deactivateService Host.unregister
    infer_instance
  unfold Host.recoverUninstall Host.completeUninstall Host.removeManagedContents
    Host.refuseTerminal
  split <;> infer_instance

include hs ht in
theorem notes_recoverMigrate (hop : t.operation = .migrate) :
    Within (Notes (MayTouch territory t)) (host.recording.recoverMigrate t) := by
  have h1 : Within (Notes (MayTouch territory t)) (host.recording.restoreLegacyUnit t) := by
    unfold Host.restoreLegacyUnit
    refine Within.andThen inferInstance fun _ => ?_
    split
    · infer_instance
    · rename_i before hbefore
      have hreturn : Within (Notes (MayTouch territory t))
          (host.recording.returnLegacyFile before) := by
        unfold Host.returnLegacyFile
        refine Frame.orCorrupted_bind fun backup hb => Frame.orCorrupted_bind fun file hf => ?_
        have hact : (Act.rename backup file).Noted (MayTouch territory t) :=
          noted_unrelated (by
            simp [Act.touches, TransactionFile.unrelated, hop, hbefore, hb, hf])
        infer_instance
      infer_instance
  have hfixed : ∀ q, ¬ Layout.transactions <+: q → ¬ Layout.releases <+: q →
      (Act.removeDirAll q).Noted (MayTouch territory t) := fun q h1 h2 =>
    Notes.noted_of_single rfl fun _ => hs.contained h1 h2
  have h2 : Within (Notes (MayTouch territory t)) (host.recording.rollbackMigrate t) := by
    have g1 := mayTouch_of_contained (notes_cleanupFailedFirstInstall host hs ht)
    have g2 := hfixed Layout.data (by decide) (by decide)
    have g3 := hfixed Layout.service (by decide) (by decide)
    have g4 := hfixed (Layout.root ++ ["state"]) (by decide) (by decide)
    unfold Host.rollbackMigrate
    refine notes_rollbackAround host fun _ => ?_
    unfold Host.rollbackMigrateInner Host.cleanupMigratedRoot
    infer_instance
  unfold Host.recoverMigrate Host.refuseTerminal
  split <;> infer_instance

include hs ht in
theorem Harmless.staysBelow : StaysBelow territory t := by
  have hrecover : ∀ {K : Type} (host : Host K),
      Within (Notes (MayTouch territory t)) (host.recording.recoverTransaction t) := by
    intro K host
    unfold Host.recoverTransaction
    split
    · exact notes_recoverInstall host hs ht ‹_›
    · exact mayTouch_of_contained (notes_recoverSwitch host hs ht)
    · exact mayTouch_of_contained (notes_recoverRepair host hs ht ‹_›)
    · exact mayTouch_of_contained (notes_recoverRestore host hs ht ‹_›)
    · exact notes_recoverUninstall host hs ‹_›
    · exact mayTouch_of_contained (notes_recoverReinit host hs ht ‹_›)
    · exact notes_recoverMigrate host hs ht ‹_›
  intro c K host w p hp hd
  cases c with
  | recoverInterrupted =>
    rcases (hrecover host).rel _ p hp with hnil | hmay
    · simp at hnil
    · exact hmay (hd rfl)
  | cleanupFailedFirstInstall =>
    rcases (notes_cleanupFailedFirstInstall host hs ht).rel _ p hp with hnil | hc
    · simp at hnil
    · exact hc
  | rollbackSwitch snapshot =>
    rcases (notes_rollbackSwitch host hs ht snapshot).rel _ p hp with hnil | hc
    · simp at hnil
    · exact hc

end Recovery

end LandscapeKit.Deploy
