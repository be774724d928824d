import LandscapeKit.DeployTrees

/-!
Rollbacks that are cut off and started again (`move_data_aside` and
`rebuild_release_from_backup` of `backup/rollback.rs`). The tree that was there before the first
attempt is moved aside, and a later attempt must not mistake what an attempt has built for it.
-/

namespace LandscapeKit.Deploy.Retries

open Faults

set_option synthInstance.maxSize 65536

variable {H : Type} {home aside : Path} {T : Files Document}

def replacedRelease (id : String) : Path := Layout.transactionDir id ++ ["replaced-release"]

def KeptAt (home aside : Path) (T : Files Document) (w : World H) : Prop :=
  T [] ≠ none →
    (w.machine.files.subtree home = T ∧ w.machine.files aside = none) ∨
      w.machine.files.subtree aside = T

def KeptAside (aside : Path) (T : Files Document) (w : World H) : Prop :=
  T [] ≠ none → w.machine.files.subtree aside = T

def OneFree (home aside : Path) (w : World H) : Prop :=
  w.machine.files home = none ∨ w.machine.files aside = none

section Assertions

variable {w w' : World H} {ps : List Path}

theorem KeptAside.keptAt (h : KeptAside aside T w) : KeptAt home aside T w :=
  fun hT => Or.inr (h hT)

theorem KeptAside.kept (h : KeptAside aside T w) (hw : TreesKept ps w w') (ha : aside ∈ ps) :
    KeptAside aside T w' := by
  intro hT
  rw [hw aside ha]
  exact h hT

theorem KeptAt.kept (h : KeptAt home aside T w) (hw : TreesKept ps w w') (hh : home ∈ ps)
    (ha : aside ∈ ps) : KeptAt home aside T w' := by
  intro hT
  rw [hw home hh, hw aside ha, hw.files_eq ha]
  exact h hT

theorem OneFree.kept (h : OneFree home aside w) (hw : TreesKept ps w w') (hh : home ∈ ps)
    (ha : aside ∈ ps) : OneFree home aside w' := by
  unfold OneFree
  rw [hw.files_eq hh, hw.files_eq ha]
  exact h

theorem KeptAt.aside_ne_none (h : KeptAt home aside T w) (hT : T [] ≠ none)
    (hhome : w.machine.files home = none) : w.machine.files.subtree aside = T := by
  apply (h hT).resolve_left
  rintro ⟨hin, -⟩
  apply hT
  rw [← hin, Files.subtree_nil_apply]
  exact hhome

theorem KeptAt.home_of_free (h : KeptAt home aside T w) (hT : T [] ≠ none)
    (hfree : w.machine.files aside = none) : w.machine.files.subtree home = T := by
  refine ((h hT).resolve_right ?_).1
  intro hin
  apply hT
  rw [← hin, Files.subtree_nil_apply]
  exact hfree

end Assertions

section Helpers

variable (host : Host H)

theorem triple_moveAside {P : World H → Prop} (hP : ∀ w, P w → KeptAt home aside T w)
    (hfree : ∀ w, P w → w.machine.files aside = none) :
    Triple P (host.perform (.rename home aside)) (fun _ => KeptAside aside T)
      (fun _ => KeptAt home aside T) (KeptAt home aside T) := by
  have hmoved : ∀ (w : World H) out (h : H), P w → KeptAside aside T
      { w with machine := (Act.rename home aside).done out w.machine, host := h } := by
    intro w out h hw hT
    have hsub : (w.machine.files.move home aside).subtree aside = w.machine.files.subtree home :=
      Files.subtree_move_target _
    exact hsub.trans ((hP w hw).home_of_free hT (hfree w hw))
  apply host.triple_perform
  · intro w a out h hw
    exact hmoved w out h hw
  · intro w e out h hw
    exact hP w hw
  · intro w out h hw
    exact (hmoved w out h hw).keptAt
  · intro w out h hw
    exact hP w hw

theorem triple_setAside (happart : Apart home aside) :
    Triple (KeptAt home aside T) (host.setAside home aside) (fun _ => KeptAside aside T)
      (fun _ => KeptAt home aside T) (KeptAt (H := H) home aside T) := by
  refine Host.triple_getMachine fun m => ?_
  refine Triple.ite (fun haside => ?_) fun hfree => ?_
  · -- an earlier attempt has moved the tree
    have hin : ∀ w : World H, KeptAt home aside T w ∧ w.machine = m → KeptAside aside T w := by
      rintro w ⟨hw, rfl⟩ hT
      exact (hw hT).resolve_left fun h => haside h.2
    apply Triple.strengthen _ hin
    have hclear : (Act.removeDirAll home).ClearOf [aside] :=
      have hoff : Off [aside] home := ⟨fun q hq => List.mem_singleton.mp hq ▸ happart⟩
      inferInstance
    have hkeep : Triple (KeptAside (H := H) aside T) (host.perform (.removeDirAll home))
        (fun _ => KeptAside aside T) (fun _ => KeptAside aside T) (KeptAside aside T) :=
      (TreesKept.perform host (.removeDirAll home)).triple
        fun w w' h hw => KeptAside.kept hw h (List.mem_singleton_self aside)
    apply Triple.onlyIf
    · intro _
      exact hkeep.ends (fun _ _ h => h.keptAt)
        fun _ h => h.keptAt
    · intro _ w hw
      exact hw
  · have hnone : ∀ w : World H, KeptAt home aside T w ∧ w.machine = m →
        w.machine.files aside = none := by
      rintro w ⟨-, rfl⟩
      exact not_not.mp hfree
    apply Triple.onlyIf
    · intro _
      exact triple_moveAside host (fun w hw => hw.1) hnone
    · intro habsent w hw hT
      apply hw.1.aside_ne_none hT
      rw [hw.2]
      exact Option.isNone_iff_eq_none.mp (Option.isSome_eq_false_iff.mp habsent)

def AtHome (home aside : Path) (T : Files Document) (w : World H) : Prop :=
  KeptAt home aside T w ∧ w.machine.files aside = none

theorem triple_removeAbsent (happart : Apart home aside) :
    Triple (AtHome home aside T) (host.perform (.removeDirAll aside))
      (fun _ => AtHome home aside T) (fun _ => AtHome home aside T)
      (AtHome (H := H) home aside T) := by
  have hoff : Off [home] aside := ⟨fun q hq => List.mem_singleton.mp hq ▸ happart.symm⟩
  have hclear : (Act.removeDirAll aside).ClearOf [home] := inferInstance
  have hhome : Within (TreesKept [home]) (host.perform (.removeDirAll aside)) := inferInstance
  intro w hw
  have hkept := hhome.rel w home (List.mem_singleton_self home)
  have hgone : (host.perform (.removeDirAll aside) w).2.machine.files aside = none := by
    have hdone : (w.machine.files.remove aside) aside = none := by simp [Files.remove]
    have hpartly : ∀ left, (w.machine.files.removePart aside left) aside = none :=
      fun left => Files.removePart_none _ hw.2
    unfold Host.perform
    split
    · exact hdone
    · exact hpartly _
    · dsimp only
      split
      · exact hdone
      · exact hpartly _
  have hstill : AtHome home aside T (host.perform (.removeDirAll aside) w).2 := by
    refine ⟨fun hT => Or.inl ⟨?_, hgone⟩, hgone⟩
    exact hkept.trans (hw.1.home_of_free hT hw.2)
  rcases hr : host.perform (.removeDirAll aside) w with ⟨u | e | _, w'⟩ <;> rw [hr] at hstill <;>
    exact hstill

/-- The helper for the release keeps the tree when one of the two places is free: it removes an
older copy before it moves what it finds. -/
theorem triple_replaceRelease (happart : Apart home aside) :
    Triple (fun w => KeptAt home aside T w ∧ OneFree home aside w)
      (host.replaceRelease home aside) (fun _ => KeptAside aside T)
      (fun _ => KeptAt home aside T) (KeptAt (H := H) home aside T) := by
  refine Triple.bind (Q := fun present w => (KeptAt home aside T w ∧ OneFree home aside w) ∧
    present = (w.machine.files home).isSome) ?_ fun present => ?_
  · intro w hw
    exact ⟨hw, rfl⟩
  apply Triple.onlyIf
  · rintro rfl
    -- the release is there, so nothing lies where it is moved
    have hremove : Triple (AtHome home aside T) (Prog.ignore (host.perform (.removeDirAll aside)))
        (fun _ => AtHome home aside T) (fun _ => KeptAt home aside T)
        (KeptAt (H := H) home aside T) :=
      Triple.ignore ((triple_removeAbsent host happart).ends (fun _ _ h => h) fun _ h => h.1)
    refine Triple.bind (hremove.strengthen ?_) fun _ => ?_
    · rintro w ⟨⟨hw, hfree⟩, hpresent⟩
      refine ⟨hw, hfree.resolve_left ?_⟩
      exact Option.isSome_iff_ne_none.mp hpresent.symm
    · exact triple_moveAside host (fun w hw => hw.1) fun w hw => hw.2
  · rintro rfl w ⟨⟨hw, -⟩, habsent⟩ hT
    apply hw.aside_ne_none hT
    exact Option.isNone_iff_eq_none.mp (Option.isSome_eq_false_iff.mp habsent.symm)

end Helpers

section Attempt

variable (id version : String) (D R : Files Document)

structure Kept (w : World H) : Prop where
  data : KeptAt Layout.data (Layout.failedData id) D w
  release : KeptAt (Layout.release version) (replacedRelease id) R w

structure Ready (w : World H) : Prop where
  kept : Kept id version D R w
  free : OneFree (Layout.release version) (replacedRelease id) w

structure DataMoved (w : World H) : Prop where
  data : KeptAside (Layout.failedData id) D w
  release : KeptAt (Layout.release version) (replacedRelease id) R w
  free : OneFree (Layout.release version) (replacedRelease id) w

structure BothMoved (w : World H) : Prop where
  data : KeptAside (Layout.failedData id) D w
  release : KeptAside (replacedRelease id) R w

def places : List Path :=
  [Layout.data, Layout.release version, Layout.failedData id, replacedRelease id]

def behindData : List Path := [Layout.release version, Layout.failedData id, replacedRelease id]

def behindBoth : List Path := [Layout.failedData id, replacedRelease id]

variable {id version} {D R}

section Assertions

variable {w w' : World H}

theorem DataMoved.kept (h : DataMoved id version D R w) : Kept id version D R w :=
  ⟨h.data.keptAt, h.release⟩

theorem BothMoved.kept (h : BothMoved id D R w) : Kept id version D R w :=
  ⟨h.data.keptAt, h.release.keptAt⟩

theorem Kept.frame (h : Kept id version D R w) (hw : TreesKept (places id version) w w') :
    Kept id version D R w' :=
  ⟨h.data.kept hw (by simp [places]) (by simp [places]),
    h.release.kept hw (by simp [places]) (by simp [places])⟩

theorem Ready.frame (h : Ready id version D R w) (hw : TreesKept (places id version) w w') :
    Ready id version D R w' :=
  ⟨h.kept.frame hw, h.free.kept hw (by simp [places]) (by simp [places])⟩

theorem DataMoved.frame (h : DataMoved id version D R w)
    (hw : TreesKept (behindData id version) w w') : DataMoved id version D R w' :=
  ⟨h.data.kept hw (by simp [behindData]),
    h.release.kept hw (by simp [behindData]) (by simp [behindData]),
    h.free.kept hw (by simp [behindData]) (by simp [behindData])⟩

theorem BothMoved.frame (h : BothMoved id D R w) (hw : TreesKept (behindBoth id) w w') :
    BothMoved id D R w' :=
  ⟨h.data.kept hw (by simp [behindBoth]), h.release.kept hw (by simp [behindBoth])⟩

end Assertions

section Paths

instance : Outside (places id version) (Layout.transactionDir id) := by
  refine ⟨fun q hq => ?_⟩
  simp only [places, List.mem_cons, List.not_mem_nil, or_false] at hq
  rcases hq with rfl | rfl | rfl | rfl <;>
    simp [Layout.data, Layout.root, Layout.release, Layout.releases, Layout.failedData,
      Layout.transactionDir, Layout.transactions, replacedRelease]

instance : Off (places id version) Layout.current := by
  refine ⟨fun q hq => ?_⟩
  simp only [places, List.mem_cons, List.not_mem_nil, or_false] at hq
  rcases hq with rfl | rfl | rfl | rfl <;>
    simp [Apart, Layout.current, Layout.data, Layout.root, Layout.release, Layout.releases,
      Layout.failedData, Layout.transactionDir, Layout.transactions, replacedRelease]

theorem off_places {x : String} {xs : Path} (h : x ≠ "landscape") (h' : x ≠ "transactions") :
    Off (places id version) (x :: xs) := by
  refine ⟨fun q hq => ?_⟩
  simp only [places, List.mem_cons, List.not_mem_nil, or_false] at hq
  rcases hq with rfl | rfl | rfl | rfl <;>
    simp [Apart, Layout.data, Layout.root, Layout.release, Layout.releases, Layout.failedData,
      Layout.transactionDir, Layout.transactions, replacedRelease, h, h', h.symm, h'.symm]

instance : Off (places id version) Layout.runDir := off_places (by decide) (by decide)
instance : Off (places id version) Layout.statePath := off_places (by decide) (by decide)
instance : Outside (places id version) Layout.statePath.dropLast :=
  have hoff : Off (places id version) ["state"] := off_places (by decide) (by decide)
  inferInstanceAs (Outside _ ["state"])

instance : Outside (places id version) (Layout.failedData id).dropLast :=
  inferInstanceAs (Outside _ (Layout.transactionDir id))

instance : Outside (behindData id version) Layout.data := by
  refine ⟨fun q hq => ?_⟩
  simp only [behindData, List.mem_cons, List.not_mem_nil, or_false] at hq
  rcases hq with rfl | rfl | rfl <;>
    simp [Layout.data, Layout.root, Layout.release, Layout.releases, Layout.failedData,
      Layout.transactionDir, Layout.transactions, replacedRelease]

instance : Off (behindData id version) (Layout.transactionDir id ++ ["restore"]) := by
  refine ⟨fun q hq => ?_⟩
  simp only [behindData, List.mem_cons, List.not_mem_nil, or_false] at hq
  rcases hq with rfl | rfl | rfl <;>
    simp [Apart, Layout.root, Layout.release, Layout.releases, Layout.failedData,
      Layout.transactionDir, Layout.transactions, replacedRelease]

theorem off_behindBoth {x : String} {xs : Path} (h : x ≠ "transactions") :
    Off (behindBoth id) (x :: xs) := by
  refine ⟨fun q hq => ?_⟩
  simp only [behindBoth, List.mem_cons, List.not_mem_nil, or_false] at hq
  rcases hq with rfl | rfl <;>
    simp [Apart, Layout.failedData, Layout.transactionDir, Layout.transactions, replacedRelease, h,
      h.symm]

instance : Off (behindBoth id) Layout.data := off_behindBoth (by decide)
instance : Off (behindBoth id) Layout.current := off_behindBoth (by decide)
instance : Off (behindBoth id) Layout.runDir := off_behindBoth (by decide)
instance : Off (behindBoth id) Layout.statePath := off_behindBoth (by decide)
instance : Outside (behindBoth id) Layout.statePath.dropLast :=
  have hoff : Off (behindBoth id) ["state"] := off_behindBoth (by decide)
  inferInstanceAs (Outside _ ["state"])

instance (version : String) : Off (behindBoth id) (Layout.release version) :=
  off_behindBoth (by decide)

end Paths

section Program

variable (host : Host H)

theorem triple_ready {α : Type} {p : Flow H α} [hp : Within (TreesKept (places id version)) p] :
    Triple (Ready id version D R) p (fun _ => Ready id version D R)
      (fun _ => Kept id version D R) (Kept id version D R) :=
  (hp.triple fun _ _ h hw => Ready.frame hw h).ends (fun _ _ h => h.kept) fun _ h => h.kept

theorem triple_dataMoved {α : Type} {p : Flow H α}
    [hp : Within (TreesKept (behindData id version)) p] :
    Triple (DataMoved id version D R) p (fun _ => DataMoved id version D R)
      (fun _ => Kept id version D R) (Kept id version D R) :=
  (hp.triple fun _ _ h hw => DataMoved.frame hw h).ends (fun _ _ h => h.kept) fun _ h => h.kept

theorem triple_bothMoved {α : Type} {p : Flow H α} [hp : Within (TreesKept (behindBoth id)) p] :
    Triple (BothMoved id D R) p (fun _ => BothMoved id D R) (fun _ => Kept id version D R)
      (Kept id version D R) :=
  (hp.triple fun _ _ h hw => BothMoved.frame hw h).ends (fun _ _ h => h.kept) fun _ h => h.kept

theorem triple_moveDataAside :
    Triple (Ready id version D R)
      (host.moveDataAside Layout.data (Layout.failedData id))
      (fun _ => DataMoved id version D R) (fun _ => Kept id version D R)
      (Kept (H := H) id version D R) := by
  have happart : Apart Layout.data (Layout.failedData id) := by
    simp [Apart, Layout.data, Layout.root, Layout.failedData, Layout.transactionDir,
      Layout.transactions]
  have hdata : Off [Layout.release version, replacedRelease id] Layout.data := by
    refine ⟨fun q hq => ?_⟩
    rcases List.mem_pair.mp hq with rfl | rfl <;>
      simp [Apart, Layout.data, Layout.root, Layout.release, Layout.releases, replacedRelease,
        Layout.transactionDir, Layout.transactions]
  have hfailed : Off [Layout.release version, replacedRelease id] (Layout.failedData id) := by
    refine ⟨fun q hq => ?_⟩
    rcases List.mem_pair.mp hq with rfl | rfl <;>
      simp [Apart, Layout.failedData, Layout.root, Layout.release, Layout.releases,
        replacedRelease, Layout.transactionDir, Layout.transactions]
  have hframe : Within (TreesKept [Layout.release version, replacedRelease id])
      (host.setAside Layout.data (Layout.failedData id)) := by
    unfold Host.setAside
    infer_instance
  have hset := hframe.frame
    (I := fun w => KeptAt (Layout.release version) (replacedRelease id) R w ∧
      OneFree (Layout.release version) (replacedRelease id) w)
    (fun w w' h hw => ⟨hw.1.kept h (by simp) (by simp), hw.2.kept h (by simp) (by simp)⟩)
    (triple_setAside host (T := D) happart)
  refine Triple.bind triple_ready fun _ => ?_
  refine Triple.bind (Q := fun _ => DataMoved id version D R) ?_ fun _ => triple_dataMoved
  exact hset.consequence (fun w hw => ⟨hw.kept.data, hw.kept.release, hw.free⟩)
    (fun _ w hw => ⟨hw.1, hw.2.1, hw.2.2⟩) (fun _ w hw => ⟨hw.1, hw.2.1⟩)
    fun w hw => ⟨hw.1, hw.2.1⟩

theorem triple_rebuildRelease (restoreDir : Path) :
    Triple (DataMoved id version D R)
      (host.rebuildReleaseFromBackup (Layout.transactionDir id) version restoreDir)
      (fun _ => BothMoved id D R) (fun _ => Kept id version D R)
      (Kept (H := H) id version D R) := by
  have happart : Apart (Layout.release version) (replacedRelease id) := by
    simp [Apart, Layout.root, Layout.release, Layout.releases, replacedRelease,
      Layout.transactionDir, Layout.transactions]
  have hrelease : Off [Layout.failedData id] (Layout.release version) := by
    refine ⟨fun q hq => ?_⟩
    obtain rfl := List.mem_singleton.mp hq
    simp [Apart, Layout.root, Layout.release, Layout.releases, Layout.failedData,
      Layout.transactionDir, Layout.transactions]
  have hreplaced : Off [Layout.failedData id] (replacedRelease id) := by
    refine ⟨fun q hq => ?_⟩
    obtain rfl := List.mem_singleton.mp hq
    simp [Apart, replacedRelease, Layout.failedData, Layout.transactionDir, Layout.transactions]
  have hframe : Within (TreesKept [Layout.failedData id])
      (host.replaceRelease (Layout.release version) (replacedRelease id)) := by
    unfold Host.replaceRelease
    infer_instance
  have hmove := hframe.frame (I := KeptAside (Layout.failedData id) D)
    (fun w w' h hw => hw.kept h (by simp)) (triple_replaceRelease host (T := R) happart)
  have hrest : Within (TreesKept (behindBoth id)) (do
      host.perform (.createDirAll (Layout.release version))
      Host.requireFile (restoreDir ++ [Layout.webserverBinary]) "backup is missing landscape-webserver"
      host.perform (.copyFile (restoreDir ++ [Layout.webserverBinary])
        (Layout.release version ++ [Layout.webserverBinary]))
      host.check .setPermissions
      Host.requireDir (restoreDir ++ ["static"]) "backup is missing the static directory"
      host.perform (.copyTree (restoreDir ++ ["static"]) (Layout.release version ++ ["static"]))
      Host.requireFile (restoreDir ++ ["static.zip"]) "backup is missing static.zip"
      host.perform (.copyFile (restoreDir ++ ["static.zip"])
        (Layout.release version ++ ["static.zip"]))) := by
    infer_instance
  refine Triple.bind (Q := fun _ => BothMoved id D R) ?_ fun _ =>
    @triple_bothMoved _ _ _ _ _ _ _ hrest
  exact hmove.consequence (fun w hw => ⟨⟨hw.release, hw.free⟩, hw.data⟩)
    (fun _ w hw => ⟨hw.2, hw.1⟩) (fun _ w hw => ⟨hw.2.keptAt, hw.1⟩) fun w hw => ⟨hw.2.keptAt, hw.1⟩

theorem triple_rollbackSwitch {t : TransactionFile} (hid : t.transactionId = id)
    (hfrom : t.fromVersion = some version) (snapshot : InstallState) :
    Triple (Ready id version D R) (host.rollbackSwitch t snapshot)
      (fun _ => BothMoved id D R) (fun _ => Kept id version D R)
      (Kept (H := H) id version D R) := by
  have hrestore : Triple (Ready id version D R)
      (host.restoreFromBackup t snapshot (snapshot.manager = .systemd))
      (fun _ => BothMoved id D R) (fun _ => Kept id version D R)
      (Kept (H := H) id version D R) := by
    unfold Host.restoreFromBackup
    rw [hid, hfrom]
    refine Triple.bind triple_ready fun _ => ?_
    refine Triple.bind triple_ready fun _ => ?_
    refine (triple_moveDataAside host).bind fun _ => ?_
    refine Triple.bind triple_dataMoved fun backup => ?_
    refine Triple.bind triple_dataMoved fun _ => ?_
    refine Triple.bind triple_dataMoved fun _ => ?_
    refine Triple.bind triple_dataMoved fun _ => ?_
    rw [Host.orCorrupted_some, Prog.pure_andThen]
    refine (triple_rebuildRelease host _).bind fun _ => ?_
    exact triple_bothMoved
  unfold Host.rollbackSwitch Host.reinstate
  refine Triple.bind triple_ready fun _ => ?_
  refine Triple.bind (Q := fun _ => BothMoved id D R) ?_ fun state => ?_
  · refine hrestore.bind fun state => ?_
    exact triple_bothMoved
  have hend : Within (TreesKept (behindBoth id)) (do
      host.verifyRestored t (snapshot.manager = .systemd)
      host.commitRollback t state) := by
    unfold Host.commitRollback
    infer_instance
  exact @triple_bothMoved _ _ _ _ _ _ _ hend

theorem triple_recoverActivatedSwitch {t : TransactionFile} (hid : t.transactionId = id)
    (hfrom : t.fromVersion = some version) :
    Triple (Ready id version D R) (host.recoverActivatedSwitch t)
      (fun _ => Kept id version D R) (fun _ => Kept id version D R)
      (Kept (H := H) id version D R) := by
  have hstill : ∀ {p : Flow H Unit}, Within (TreesKept (places id version)) p →
      Triple (Ready id version D R) p (fun _ => Kept id version D R)
        (fun _ => Kept id version D R) (Kept id version D R) := by
    intro p hp
    exact (@triple_ready _ _ _ _ _ _ _ hp).consequence (fun _ h => h) (fun _ _ h => h.kept)
      (fun _ _ h => h) fun _ h => h
  unfold Host.recoverActivatedSwitch
  refine Triple.ite (fun _ => ?_) fun _ => Triple.ite (fun _ => ?_) fun _ => ?_
  · refine Triple.bind triple_ready fun snapshot => ?_
    refine Triple.ite (fun _ => ?_) fun _ => hstill inferInstance
    exact (triple_rollbackSwitch host hid hfrom snapshot).consequence (fun _ h => h)
      (fun _ _ h => h.kept) (fun _ _ h => h) fun _ h => h
  · refine Triple.bind triple_ready fun state => ?_
    cases state with
    | none => exact hstill inferInstance
    | some previous =>
      apply hstill
      unfold Host.rollbackNoBackup Host.reinstateNoBackup
      dsimp only
      infer_instance
  · exact hstill inferInstance

end Program

end Attempt

section Runs

/-- How a rollback is started: by the workflow that failed, with the state it knows, or by the
recovery of a later command, from the phase in the file. -/
inductive Start
  | failure (snapshot : InstallState)
  | recovery (phase : Phase)

structure Attempt (H : Type) where
  host : Host H
  memory : H
  start : Start

def Attempt.program (t : TransactionFile) (a : Attempt H) : Flow H Unit :=
  match a.start with
  | .failure snapshot => a.host.rollbackSwitch t snapshot
  | .recovery phase => a.host.recoverActivatedSwitch { t with phase := phase }

def attempts (t : TransactionFile) (d : Disk) (as : List (Attempt H)) : Disk :=
  as.foldl (fun d a => d.after (a.program t) a.memory) d

def Disk.OneFree (t : TransactionFile) (version : String) (d : Disk) : Prop :=
  d.machine.files (Layout.release version) = none ∨
    d.machine.files (replacedRelease t.transactionId) = none

def Survives (d d' : Disk) (home aside : Path) : Prop :=
  d.machine.files home ≠ none →
    (d'.machine.files.subtree home = d.machine.files.subtree home ∧
        d'.machine.files aside = none) ∨
      d'.machine.files.subtree aside = d.machine.files.subtree home

variable {t : TransactionFile} {version : String}

theorem Kept.of_machine {H' : Type} {id : String} {D R : Files Document} {w : World H}
    {w' : World H'} (h : Kept id version D R w) (hm : w'.machine = w.machine) :
    Kept id version D R w' := by
  obtain ⟨hdata, hrelease⟩ := h
  unfold KeptAt at hdata hrelease
  rw [← hm] at hdata hrelease
  exact ⟨hdata, hrelease⟩

theorem kept_attempt {D R : Files Document} {d : Disk} (a : Attempt H)
    (hfrom : t.fromVersion = some version)
    (hkept : Kept t.transactionId version D R (d.boot a.memory))
    (hfree : Disk.OneFree t version d) :
    Kept t.transactionId version D R (a.program t (d.boot a.memory)).2 := by
  have hready : Ready t.transactionId version D R (d.boot a.memory) := ⟨hkept, hfree⟩
  have hend : ∀ r : Outcome InstallError Unit × World H,
      Outcome.Satisfies (fun _ => Kept t.transactionId version D R)
        (fun _ => Kept t.transactionId version D R) (Kept t.transactionId version D R) r →
      Kept t.transactionId version D R r.2 := by
    rintro ⟨u | e | _, w⟩ hr <;> exact hr
  apply hend
  unfold Attempt.program
  cases a.start with
  | failure snapshot =>
    have hrun := triple_rollbackSwitch a.host (D := D) (R := R) rfl hfrom snapshot
    exact (hrun _ hready).mono (fun _ _ h => h.kept) (fun _ _ h => h) fun _ h => h
  | recovery phase =>
    have hrun := triple_recoverActivatedSwitch a.host (D := D) (R := R)
      (t := { t with phase := phase }) rfl hfrom
    exact hrun _ hready

/-- Over any number of attempts, cut off anywhere, the data and the release of before the first
one survive, as long as no attempt finds both a release in its place and a copy where it would
be moved. -/
theorem attempts_keep {H : Type} (t : TransactionFile) (version : String) (d : Disk)
    (as : List (Attempt H)) (hfrom : t.fromVersion = some version)
    (hdata : d.machine.files (Layout.failedData t.transactionId) = none)
    (hrelease : d.machine.files (replacedRelease t.transactionId) = none)
    (hfree : ∀ seen a rest, as = seen ++ a :: rest → Disk.OneFree t version (attempts t d seen)) :
    Survives d (attempts t d as) Layout.data (Layout.failedData t.transactionId) ∧
      Survives d (attempts t d as) (Layout.release version) (replacedRelease t.transactionId) := by
  -- by induction on the attempts, for a disk on which the two trees are kept
  suffices hrun : ∀ (D R : Files Document) (d : Disk) (as : List (Attempt H)),
      Kept t.transactionId version D R (d.boot ()) →
      (∀ seen a rest, as = seen ++ a :: rest → Disk.OneFree t version (attempts t d seen)) →
      Kept t.transactionId version D R ((attempts t d as).boot ()) by
    have hstart : Kept t.transactionId version (d.machine.files.subtree Layout.data)
        (d.machine.files.subtree (Layout.release version)) (d.boot ()) :=
      ⟨fun _ => Or.inl ⟨rfl, hdata⟩, fun _ => Or.inl ⟨rfl, hrelease⟩⟩
    have hend := hrun _ _ d as hstart hfree
    refine ⟨fun hd => hend.data ?_, fun hr => hend.release ?_⟩
    · rw [Files.subtree_nil_apply]
      exact hd
    · rw [Files.subtree_nil_apply]
      exact hr
  intro D R d as
  induction as generalizing d with
  | nil => exact fun hkept _ => hkept
  | cons a as ih =>
    intro hkept hfree
    have hnow := kept_attempt a hfrom (hkept.of_machine rfl) (hfree [] a as rfl)
    refine ih (d.after (a.program t) a.memory) (hnow.of_machine rfl) ?_
    intro seen b rest hsplit
    apply hfree (a :: seen) b rest
    rw [hsplit]
    rfl

end Runs

section Sample

def sampleRollback : TransactionFile :=
  { TransactionFile.newSwitch "id" "1.0.0" "1.1.0" with
    phase := .verifying
    backup := some ⟨"b", ["backups", "b.lkb"], String.ofList (List.replicate 64 'a')⟩ }

def sampleDisk : Disk := Disk.holding (sampleFiles ++ sampleData)

def cutAfterCreate : Host Unit :=
  Host.scripted (fun _ => false) (fun act => match act with
    | .createDirAll p => p = Layout.release "1.0.0"
    | _ => false)

def cutAttempt : Attempt Unit := ⟨cutAfterCreate, (), .failure installedSample⟩

/-- Two attempts that are cut off there lose the release. -/
theorem attempts_lose :
    sampleRollback.fromVersion = some "1.0.0" ∧
    sampleDisk.machine.files (Layout.failedData "id") = none ∧
    sampleDisk.machine.files (replacedRelease "id") = none ∧
    ¬ Survives sampleDisk (attempts sampleRollback sampleDisk [cutAttempt, cutAttempt])
      (Layout.release "1.0.0") (replacedRelease "id") := by
  refine ⟨by decide, by decide, by decide, fun h => ?_⟩
  have hbefore : sampleDisk.machine.files (Layout.release "1.0.0") ≠ none := by decide
  have hbinary : sampleDisk.machine.files.subtree (Layout.release "1.0.0")
      [Layout.webserverBinary] = some (.file (.text "webserver")) := by decide
  have hplace : (attempts sampleRollback sampleDisk [cutAttempt, cutAttempt]).machine.files.subtree
      (Layout.release "1.0.0") [Layout.webserverBinary] = none := by decide +kernel
  have hcopy : (attempts sampleRollback sampleDisk [cutAttempt, cutAttempt]).machine.files.subtree
      (replacedRelease "id") [Layout.webserverBinary] = none := by decide +kernel
  rcases h hbefore with ⟨hin, -⟩ | hin
  · rw [hin, hbinary] at hplace
    cases hplace
  · rw [hin, hbinary] at hcopy
    cases hcopy

/-- After one attempt that is cut off there, the release lies where it was moved. -/
theorem attempts_keep_once :
    Survives sampleDisk (attempts sampleRollback sampleDisk [cutAttempt])
        Layout.data (Layout.failedData "id") ∧
      Survives sampleDisk (attempts sampleRollback sampleDisk [cutAttempt])
        (Layout.release "1.0.0") (replacedRelease "id") := by
  apply attempts_keep sampleRollback "1.0.0" sampleDisk [cutAttempt] (by decide) (by decide)
    (by decide)
  intro seen a rest hsplit
  have hnil : seen = [] := by
    have hlen := congrArg List.length hsplit
    simp only [List.length_append, List.length_cons, List.length_nil] at hlen
    exact List.eq_nil_of_length_eq_zero (by omega)
  rw [hnil]
  exact Or.inr (by decide)

end Sample

end LandscapeKit.Deploy.Retries
