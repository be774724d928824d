import LandscapeKit.DeployTrees

/-!
The repair of the static pages (`repair_static`, `recover_static_repair`). Three values belong
together: the pages, their archive, and what the state records of the archive. The repair saves
the pages before it replaces anything of them; the archive it replaces before that, and saves
nowhere.
-/

namespace LandscapeKit.Deploy.StaticRepair

open Faults

set_option synthInstance.maxSize 65536

variable {H : Type} {version id : String}

def live (version : String) : Path := Layout.release version ++ ["static"]
def archive (version : String) : Path := Layout.release version ++ ["static.zip"]
def archiveTmp (version : String) : Path := Layout.release version ++ ["static.zip.tmp"]
def saved (id : String) : Path := Layout.transactionDir id ++ ["static-backup"]
def downloaded (id : String) : Path := Layout.transactionDir id ++ ["static.zip"]

def recorded (files : Files Document) : Option Asset :=
  match files Layout.statePath with
  | some (.file (.state s)) => some s.staticArchive
  | _ => none

structure Values where
  pages : Files Document
  archive : Option (Node Document)
  identity : Option Asset

def values (version : String) (files : Files Document) : Values :=
  ⟨files.subtree (live version), files (archive version), recorded files⟩

def backupRef (version id : String) : StaticBackupRef :=
  ⟨saved id, ["releases", version, "static"]⟩

structure Mine (version id : String) (t : TransactionFile) : Prop where
  operation : t.operation = .repair
  backup : t.backup = none
  saved : ∀ b, t.staticBackup = some b → b = backupRef version id

structure Replacing (version id : String) (t : TransactionFile) : Prop where
  operation : t.operation = .repair
  backup : t.backup = none
  saved : t.staticBackup = some (backupRef version id)
  phase : t.phase = .activating

def isEarly : Phase → Bool
  | .preparing | .prepared => true
  | _ => false

structure Calm (ps : List Path) (w w' : World H) : Prop where
  trees : TreesKept ps w w'
  silent : Silent w w'
  locals : w'.locals = w.locals

namespace Calm

variable {ps : List Path} (host : Host H)

instance : Std.Refl (Calm (H := H) ps) := ⟨fun w => ⟨Std.Refl.refl w, Std.Refl.refl w, rfl⟩⟩

instance : IsTrans (World H) (Calm ps) :=
  ⟨fun _ _ _ h g => ⟨IsTrans.trans _ _ _ h.trees g.trees, IsTrans.trans _ _ _ h.silent g.silent,
    g.locals.trans h.locals⟩⟩

theorem of_kept {α : Type} {p : Flow H α} (ht : Within (TreesKept ps) p) (hs : Within Silent p)
    (hl : Within LocalsKept p) : Within (Calm ps) p :=
  ⟨fun w => ⟨ht.rel w, hs.rel w, hl.rel w⟩⟩

instance perform {α : Type} (act : Act α) [act.ClearOf ps] : Within (Calm ps) (host.perform act) :=
  of_kept inferInstance inferInstance inferInstance

instance : ServiceFrame (Calm (H := H) ps) host :=
  ⟨fun c => perform host (.check c), fun _ _ => inferInstance, fun _ => inferInstance,
    fun _ => inferInstance, fun _ => inferInstance, inferInstance⟩

end Calm

section Paths

def wholePaths (version : String) : List Path := [live version, archive version, Layout.statePath]

def prePaths (version id : String) : List Path := saved id :: wholePaths version

def restPaths (version id : String) : List Path := [archive version, Layout.statePath, saved id]

theorem off_wholePaths {p : Path} (hl : Apart p (live version)) (ha : Apart p (archive version))
    (hs : Apart p Layout.statePath) : Off (wholePaths version) p := by
  refine ⟨fun q hq => ?_⟩
  simp only [wholePaths, List.mem_cons, List.not_mem_nil, or_false] at hq
  rcases hq with rfl | rfl | rfl
  · exact hl
  · exact ha
  · exact hs

theorem off_restPaths {p : Path} (ha : Apart p (archive version)) (hs : Apart p Layout.statePath)
    (hb : Apart p (saved id)) : Off (restPaths version id) p := by
  refine ⟨fun q hq => ?_⟩
  simp only [restPaths, List.mem_cons, List.not_mem_nil, or_false] at hq
  rcases hq with rfl | rfl | rfl
  · exact ha
  · exact hs
  · exact hb

theorem off_prePaths {p : Path} (hb : Apart p (saved id)) (h : Off (wholePaths version) p) :
    Off (prePaths version id) p := by
  refine ⟨fun q hq => ?_⟩
  rcases List.mem_cons.mp hq with rfl | hq
  · exact hb
  · exact h.apart q hq

instance : Off (wholePaths version) (Layout.transactionDir id) := by
  apply off_wholePaths <;>
    simp [Apart, live, archive, Layout.transactionDir, Layout.transactions, Layout.release,
      Layout.releases, Layout.root, Layout.statePath]

instance : Off (wholePaths version) (archiveTmp version) := by
  apply off_wholePaths <;>
    simp [Apart, live, archive, archiveTmp, Layout.release, Layout.releases, Layout.root,
      Layout.statePath]

instance : Off (prePaths version id) (archiveTmp version) := by
  apply off_prePaths _ inferInstance
  simp [Apart, archiveTmp, saved, Layout.transactionDir, Layout.transactions, Layout.release,
    Layout.releases, Layout.root]

instance : Outside (prePaths version id) (Layout.transactionDir id) := by
  refine ⟨fun q hq => ?_⟩
  rcases List.mem_cons.mp hq with rfl | hq
  · intro h
    have hlen := h.length_le
    simp only [saved, List.length_append, List.length_singleton] at hlen
    omega
  · have hoff : Off (wholePaths version) (Layout.transactionDir id) := inferInstance
    exact (hoff.apart q hq).2

instance : Off (restPaths version id) (live version) := by
  apply off_restPaths <;>
    simp [Apart, live, archive, saved, Layout.transactionDir, Layout.transactions, Layout.release,
      Layout.releases, Layout.root, Layout.statePath]

instance (name : String) [h : Fact (name ≠ "static-backup")] :
    Off (restPaths version id) (Layout.transactionDir id ++ [name]) := by
  have hname := h.out
  apply off_restPaths <;>
    simp [Apart, archive, saved, Layout.transactionDir, Layout.transactions, Layout.release,
      Layout.releases, Layout.root, Layout.statePath, hname, hname.symm]

end Paths

section Values

variable {v : Values} {w w' : World H} {ps : List Path}

structure Rest (version : String) (v : Values) (w : World H) : Prop where
  archive : w.machine.files (archive version) = v.archive
  identity : recorded w.machine.files = v.identity

structure Whole (version : String) (v : Values) (w : World H) : Prop
    extends Rest version v w where
  pages : w.machine.files.subtree (live version) = v.pages

structure Saved (version id : String) (v : Values) (w : World H) : Prop
    extends Rest version v w where
  saved : w.machine.files.subtree (saved id) = v.pages

theorem recorded_congr {fs gs : Files Document} (h : gs Layout.statePath = fs Layout.statePath) :
    recorded gs = recorded fs := by
  unfold recorded
  rw [h]

theorem Whole.values_eq (h : Whole version v w) : values version w.machine.files = v := by
  unfold values
  rw [h.pages, h.archive, h.identity]

theorem whole_start (d : Disk) (memory : H) :
    Whole version (values version d.machine.files) (d.boot memory) :=
  ⟨⟨rfl, rfl⟩, rfl⟩

theorem Rest.kept (h : Rest version v w) (hw : TreesKept ps w w')
    (ha : StaticRepair.archive version ∈ ps) (hs : Layout.statePath ∈ ps) : Rest version v w' :=
  ⟨(hw.files_eq ha).trans h.archive, (recorded_congr (hw.files_eq hs)).trans h.identity⟩

theorem Whole.kept (h : Whole version v w) (hw : TreesKept ps w w')
    (hps : ∀ q ∈ wholePaths version, q ∈ ps) : Whole version v w' := by
  refine ⟨h.toRest.kept hw (hps _ ?_) (hps _ ?_), ?_⟩
  · simp [wholePaths]
  · simp [wholePaths]
  · exact (hw _ (hps _ (by simp [wholePaths]))).trans h.pages

theorem Saved.kept (h : Saved version id v w) (hw : TreesKept (restPaths version id) w w') :
    Saved version id v w' := by
  refine ⟨h.toRest.kept hw ?_ ?_, ?_⟩
  · simp [restPaths]
  · simp [restPaths]
  · exact (hw _ (by simp [restPaths])).trans h.saved

/-- What a process leaves for the recovery: an open file of this repair, which tells whether the
pages themselves are still in place or have to be taken from where they were saved. -/
def Left (version id : String) (v : Values) (w : World H) : Prop :=
  ∀ t, w.transaction = some t → t.phase.isTerminal = false →
    (isEarly t.phase = true ∧ Mine version id t ∧ Whole version v w) ∨
      (Replacing version id t ∧ Saved version id v w)

structure Before (version id : String) (v : Values) (w : World H) : Prop where
  whole : Whole version v w
  stored : ∀ t, w.transaction = some t →
    t.phase.isTerminal = true ∨ (isEarly t.phase = true ∧ Mine version id t)
  own : Mine version id w.locals.transaction
  activated : w.locals.activated = false

structure During (version id : String) (v : Values) (w : World H) : Prop where
  saved : Saved version id v w
  stored : ∀ t, w.transaction = some t → t.phase.isTerminal = true ∨ Replacing version id t
  activated : w.locals.activated = true

theorem Before.left (h : Before version id v w) : Left version id v w := by
  intro t ht hopen
  rcases h.stored t ht with hterminal | ⟨hearly, hmine⟩
  · rw [hterminal] at hopen
    cases hopen
  · exact Or.inl ⟨hearly, hmine, h.whole⟩

theorem During.left (h : During version id v w) : Left version id v w := by
  intro t ht hopen
  rcases h.stored t ht with hterminal | hreplacing
  · rw [hterminal] at hopen
    cases hopen
  · exact Or.inr ⟨hreplacing, h.saved⟩

theorem Before.calm (h : Before version id v w) (hw : Calm ps w w')
    (hps : ∀ q ∈ wholePaths version, q ∈ ps) : Before version id v w' := by
  refine ⟨h.whole.kept hw.trees hps, ?_, ?_, ?_⟩
  · rw [hw.silent.transaction]
    exact h.stored
  · rw [hw.locals]
    exact h.own
  · rw [hw.locals]
    exact h.activated

theorem During.calm (h : During version id v w) (hw : Calm (restPaths version id) w w') :
    During version id v w' := by
  refine ⟨h.saved.kept hw.trees, ?_, ?_⟩
  · rw [hw.silent.transaction]
    exact h.stored
  · rw [hw.locals]
    exact h.activated

def Vacant (id : String) (w : World H) : Prop :=
  w.machine.files.subtree (StaticRepair.saved id) = fun _ => none

def Unsaved (version id : String) (v : Values) (w : World H) : Prop :=
  Before version id v w ∧ Vacant id w

theorem Unsaved.calm (h : Unsaved version id v w) (hw : Calm (prePaths version id) w w') :
    Unsaved version id v w' :=
  ⟨h.1.calm hw fun _ hq => List.mem_cons_of_mem _ hq,
    (hw.trees _ (List.mem_cons_self ..)).trans h.2⟩

end Values

section Conditions

def Clears (host : Host H) (p : Path) : Prop :=
  ∀ m h e out h', host.answer (.removeDirAll p) m h = (.err e, out, h') →
    m.files.subtree p = fun _ => none

def CopiesBack (host : Host H) (version id : String) : Prop :=
  ∀ m h e out h', host.answer (.copyTree (saved id) (live version)) m h ≠ (.err e, out, h')

structure KeepsApart (host : Host H) (id : String) : Prop where
  official : ∀ m h, (host.answer (.fetchStatic (Layout.transactionDir id)) m h).2.1.files.subtree
    (saved id) = m.files.subtree (saved id)
  source : ∀ m h, (host.answer (.fetchFromSource (Layout.transactionDir id)) m h).2.1.files.subtree
    (saved id) = m.files.subtree (saved id)

/-- What is downloaded from the official repository is the archive that is in place, and the
identity that is recorded. -/
def DeliversSame (host : Host H) (id : String) (v : Values) : Prop :=
  ∀ m h a out h', host.answer (.fetchStatic (Layout.transactionDir id)) m h = (.ok a, out, h') →
    v.identity = some a ∧ v.archive ≠ none ∧ out.files (downloaded id) = v.archive

end Conditions

section Repair

variable (host : Host H) {v : Values}

theorem triple_unsaved {α : Type} {p : Flow H α} [q : Within (Calm (prePaths version id)) p] :
    Triple (Unsaved version id v) p (fun _ => Unsaved version id v)
      (fun _ => Before version id v) (Left version id v) :=
  (q.triple fun _ _ h hw => hw.calm h).ends (fun _ _ h => h.1) fun _ h => h.1.left

theorem triple_before {α : Type} {p : Flow H α} [q : Within (Calm (wholePaths version)) p] :
    Triple (Before version id v) p (fun _ => Before version id v) (fun _ => Before version id v)
      (Before version id v) :=
  q.triple fun _ _ h hw => hw.calm h fun _ hq => hq

theorem triple_during {α : Type} {p : Flow H α} [q : Within (Calm (restPaths version id)) p] :
    Triple (During version id v) p (fun _ => During version id v) (fun _ => During version id v)
      (During version id v) :=
  q.triple fun _ _ h hw => hw.calm h

theorem calm_download {α : Type} {act : Act α}
    (hdone : ∀ out m, act.done out m = m.graftFiles out [Layout.transactionDir id])
    (hpartly : ∀ out m, act.partly out m = m.graftFiles out [Layout.transactionDir id])
    (hapart : ∀ m h, (host.answer act m h).2.1.files.subtree (saved id) =
      m.files.subtree (saved id))
    [act.ClearOf (wholePaths version)] :
    Within (Calm (prePaths version id)) (host.perform act) := by
  have hgraft : ∀ out m : Machine, out.files.subtree (saved id) = m.files.subtree (saved id) →
      (m.graftFiles out [Layout.transactionDir id]).files.subtree (saved id) =
        m.files.subtree (saved id) := by
    intro out m hout
    rw [← hout]
    funext r
    have hunder : Layout.transactionDir id <+: saved id ++ r :=
      (List.prefix_append _ _).trans (List.prefix_append _ r)
    exact if_pos hunder
  have hsaved : Within (TreesKept [saved id]) (host.perform act) := by
    refine ⟨fun w q hq => ?_⟩
    obtain rfl := List.mem_singleton.mp hq
    have hout := hapart w.machine w.host
    unfold Host.perform
    rcases hans : host.answer act w.machine w.host with ⟨a | e | b, out, h⟩ <;> rw [hans] at hout
    · exact (congrArg (fun m : Machine => m.files.subtree _) (hdone out w.machine)).trans
        (hgraft out w.machine hout)
    · exact (congrArg (fun m : Machine => m.files.subtree _) (hpartly out w.machine)).trans
        (hgraft out w.machine hout)
    · dsimp only
      rw [hdone, hpartly, ite_self]
      exact hgraft out w.machine hout
  have hwhole : Within (TreesKept (wholePaths version)) (host.perform act) := inferInstance
  refine Calm.of_kept ⟨fun w q hq => ?_⟩ inferInstance inferInstance
  rcases List.mem_cons.mp hq with rfl | hq
  · exact hsaved.rel w _ (List.mem_singleton_self _)
  · exact hwhole.rel w q hq

def Fetched (id : String) (v : Values) (a : Asset) (w : World H) : Prop :=
  v.identity = some a ∧ v.archive ≠ none ∧ w.machine.files (downloaded id) = v.archive

theorem triple_fetchStatic (ha : KeepsApart host id) (hs : DeliversSame host id v) :
    Triple (Unsaved version id v) (host.perform (.fetchStatic (Layout.transactionDir id)))
      (fun a w => Unsaved version id v w ∧ Fetched id v a w) (fun _ => Before version id v)
      (Left version id v) := by
  have hcalm : Within (Calm (prePaths version id))
      (host.perform (.fetchStatic (Layout.transactionDir id))) :=
    calm_download host (fun _ _ => rfl) (fun _ _ => rfl) ha.official
  have hfetched : ∀ (w : World H) a w', Unsaved version id v w →
      host.perform (.fetchStatic (Layout.transactionDir id)) w = (.ok a, w') →
      Fetched id v a w' := by
    intro w a w' _ hrun
    unfold Host.perform at hrun
    rcases hans : host.answer (.fetchStatic (Layout.transactionDir id)) w.machine w.host with
      ⟨b | e | b, out, h⟩ <;> rw [hans] at hrun
    · obtain ⟨rfl, rfl⟩ : b = a ∧ _ = w' := by simpa using hrun
      obtain ⟨hidentity, hsome, hzip⟩ := hs _ _ _ _ _ hans
      have hunder : Layout.transactionDir id <+: downloaded id := List.prefix_append _ _
      exact ⟨hidentity, hsome, (if_pos hunder).trans hzip⟩
    · simp at hrun
    · simp at hrun
  exact (hcalm.triple_ok (fun _ _ h hw => hw.calm h) hfetched).ends (fun _ _ h => h.1)
    fun _ h => h.1.left

theorem triple_fetchStaticPages {custom interactive : Bool} (ha : KeepsApart host id)
    (hs : custom = true ∧ interactive = false ∨ DeliversSame host id v) :
    Triple (Unsaved version id v)
      (host.fetchStaticPages custom interactive (Layout.transactionDir id))
      (fun o w => Unsaved version id v w ∧ ∀ a, o = some a → Fetched id v a w)
      (fun _ => Before version id v) (Left version id v) := by
  have hofficial : DeliversSame host id v → Triple (Unsaved version id v) (do
        let asset ← host.perform (.fetchStatic (Layout.transactionDir id))
        pure (some asset))
      (fun o w => Unsaved version id v w ∧ ∀ a, o = some a → Fetched id v a w)
      (fun _ => Before version id v) (Left version id v) := by
    intro hs
    refine (triple_fetchStatic host ha hs).bind fun asset => Triple.pure _ ?_
    rintro w ⟨hw, hfetched⟩
    refine ⟨hw, fun a he => ?_⟩
    cases he
    exact hfetched
  have hsource : Within (Calm (prePaths version id))
      (host.perform (.fetchFromSource (Layout.transactionDir id))) :=
    calm_download host (fun _ _ => rfl) (fun _ _ => rfl) ha.source
  have hfall : Triple (Unsaved version id v)
      (host.fallBackToOfficial interactive (Layout.transactionDir id))
      (fun o w => Unsaved version id v w ∧ ∀ a, o = some a → Fetched id v a w)
      (fun _ => Before version id v) (Left version id v) := by
    unfold Host.fallBackToOfficial
    cases interactive with
    | false =>
      refine Triple.bind (Q := fun fallback w => Unsaved version id v w ∧ fallback = false)
        (Triple.pure _ fun w hw => ⟨hw, rfl⟩) fun fallback => ?_
      apply Triple.ite
      · rintro rfl w ⟨-, hfalse⟩
        cases hfalse
      · exact fun _ => Triple.fail _ fun w hw => hw.1.1
    | true =>
      refine Triple.bind triple_unsaved fun fallback => ?_
      apply Triple.ite
      · intro _
        apply hofficial (hs.resolve_left _)
        rintro ⟨-, hfalse⟩
        cases hfalse
      · exact fun _ => Triple.fail _ fun w hw => hw.1
  have hattempt : Triple (Unsaved version id v)
      (Prog.attempt (host.perform (.fetchFromSource (Layout.transactionDir id))))
      (fun _ => Unsaved version id v) (fun _ => Before version id v) (Left version id v) := by
    have hkept : Triple (Unsaved version id v)
        (host.perform (.fetchFromSource (Layout.transactionDir id)))
        (fun _ => Unsaved version id v) (fun _ => Unsaved version id v)
        (Unsaved version id v) := hsource.triple fun _ _ h hw => Unsaved.calm hw h
    refine hkept.attempt.consequence (fun _ h => h) ?_ (fun _ _ h => h) fun _ h => h.1.left
    intro r w hw
    cases r <;> exact hw
  unfold Host.fetchStaticPages
  refine Triple.ite (fun _ => ?_) fun hcustom => ?_
  · unfold Host.fetchFrontend
    refine hattempt.bind fun r => ?_
    cases r with
    | ok _ => exact Triple.pure _ fun w hw => ⟨hw, fun a ha => by cases ha⟩
    | error _ => exact hfall
  · apply hofficial (hs.resolve_left _)
    rintro ⟨hcustom', -⟩
    exact hcustom hcustom'

theorem files_rename (p q : Path) (w : World H) :
    (host.perform (.rename p q) w).2.machine.files q = w.machine.files p ∨
      (host.perform (.rename p q) w).2.machine.files q = w.machine.files q := by
  have hmoved : (w.machine.files.move p q) q = w.machine.files p := by simp [Files.move]
  unfold Host.perform
  split
  · exact Or.inl hmoved
  · exact Or.inr rfl
  · dsimp only
    split
    · exact Or.inl hmoved
    · exact Or.inr rfl

theorem triple_refreshVersionStaticZip {a : Asset} :
    Triple (fun w => Unsaved version id v w ∧ Fetched id v a w)
      (host.refreshVersionStaticZip version (downloaded id)) (fun _ => Unsaved version id v)
      (fun _ => Before version id v) (Left version id v) := by
  have hcopy : Triple (fun w => Unsaved version id v w ∧ Fetched id v a w)
      (host.perform (.copyFile (downloaded id) (archiveTmp version)))
      (fun _ w => Unsaved version id v w ∧ w.machine.files (archiveTmp version) = v.archive)
      (fun _ => Before version id v) (Left version id v) := by
    have hcalm : Within (Calm (prePaths version id))
        (host.perform (.copyFile (downloaded id) (archiveTmp version))) := inferInstance
    have hthere : Triple (fun w => Fetched id v a w)
        (host.perform (.copyFile (downloaded id) (archiveTmp version)))
        (fun _ w => w.machine.files (archiveTmp version) = v.archive) (fun _ _ => True)
        fun _ => True := by
      refine host.triple_perform _ ?_ (fun _ _ _ _ _ => trivial) (fun _ _ _ _ => trivial)
        fun _ _ _ _ => trivial
      rintro w - out h ⟨-, hsome, hzip⟩
      obtain ⟨n, hn⟩ := Option.ne_none_iff_exists'.mp hsome
      rw [hn] at hzip
      simp only [Act.done, hzip, Machine.setFiles, Files.put, Function.update_self, hn]
    refine (hcalm.frame (fun _ _ h hw => Unsaved.calm hw h) hthere).consequence
      (fun _ h => ⟨h.2, h.1⟩) (fun _ _ h => ⟨h.2, h.1⟩) (fun _ _ h => h.2.1) fun _ h => h.2.1.left
  have hrename : Triple
      (fun w => Unsaved version id v w ∧ w.machine.files (archiveTmp version) = v.archive)
      (host.perform (.rename (archiveTmp version) (archive version)))
      (fun _ => Unsaved version id v) (fun _ => Unsaved version id v) (Unsaved version id v) := by
    have hoff : Off [live version, Layout.statePath, saved id] (archive version) := by
      refine ⟨fun q hq => ?_⟩
      simp only [List.mem_cons, List.not_mem_nil, or_false] at hq
      rcases hq with rfl | rfl | rfl <;>
        simp [Apart, live, archive, saved, Layout.transactionDir, Layout.transactions,
          Layout.release, Layout.releases, Layout.root, Layout.statePath]
    have htmp : Off [live version, Layout.statePath, saved id] (archiveTmp version) := by
      have hpre : Off (prePaths version id) (archiveTmp version) := inferInstance
      refine ⟨fun q hq => hpre.apart q ?_⟩
      simp only [List.mem_cons, List.not_mem_nil, or_false] at hq
      rcases hq with rfl | rfl | rfl <;> simp [prePaths, wholePaths]
    have hcalm : Within (Calm [live version, Layout.statePath, saved id])
        (host.perform (.rename (archiveTmp version) (archive version))) := inferInstance
    apply Triple.of_always
    rintro w ⟨⟨hw, hvacant⟩, hsame⟩
    have hkept := hcalm.rel w
    have hzip : (host.perform (.rename (archiveTmp version) (archive version)) w).2.machine.files
        (archive version) = v.archive :=
      (files_rename host _ _ w).elim (fun h => h.trans hsame) fun h => h.trans hw.whole.archive
    refine ⟨⟨⟨⟨hzip, ?_⟩, ?_⟩, ?_, ?_, ?_⟩, ?_⟩
    · exact (recorded_congr (hkept.trees.files_eq (by simp))).trans hw.whole.identity
    · exact (hkept.trees _ (by simp)).trans hw.whole.pages
    · rw [hkept.silent.transaction]
      exact hw.stored
    · rw [hkept.locals]
      exact hw.own
    · rw [hkept.locals]
      exact hw.activated
    · exact (hkept.trees _ (by simp)).trans hvacant
  unfold Host.refreshVersionStaticZip Host.replaceFile
  exact hcopy.bind fun _ => hrename.ends (fun _ _ h => h.1) fun _ h => h.1.left

def Ready (version id : String) (v : Values) (w : World H) : Prop :=
  Before version id v w ∧ w.machine.files.subtree (saved id) = v.pages

theorem triple_savePages :
    Triple (Unsaved version id v) (host.perform (.copyTree (live version) (saved id)))
      (fun _ => Ready version id v) (fun _ => Before version id v)
      (Before (H := H) version id v) := by
  have hoff : Off (wholePaths version) (saved id) := Off.append
  have hcalm : Within (Calm (wholePaths version))
      (host.perform (.copyTree (live version) (saved id))) := inferInstance
  have hcopy : Triple (fun w => Whole version v w ∧ Vacant id w)
      (host.perform (.copyTree (live version) (saved id)))
      (fun _ w => w.machine.files.subtree (saved id) = v.pages) (fun _ _ => True)
      fun _ => True := by
    refine host.triple_perform _ ?_ (fun _ _ _ _ _ => trivial) (fun _ _ _ _ => trivial)
      fun _ _ _ _ => trivial
    rintro w - out h ⟨hw, hvacant⟩
    exact (Files.subtree_copy_target _ hvacant).trans hw.pages
  refine (hcalm.frame (fun _ _ h hw => Before.calm hw h fun _ hq => hq) hcopy).consequence
    (fun _ h => ⟨⟨h.1.whole, h.2⟩, h.1⟩) (fun _ _ h => ⟨h.2, h.1⟩) (fun _ _ h => h.2)
    fun _ h => h.2

theorem Before.of_host {w : World H} (h : Before version id v w) (memory : H) :
    Before version id v { w with host := memory } :=
  ⟨⟨⟨h.whole.archive, h.whole.identity⟩, h.whole.pages⟩, h.stored, h.own, h.activated⟩

theorem During.of_host {w : World H} (h : During version id v w) (memory : H) :
    During version id v { w with host := memory } :=
  ⟨⟨⟨h.saved.archive, h.saved.identity⟩, h.saved.saved⟩, h.stored, h.activated⟩

theorem Before.mark {w : World H} (h : Before version id v w) {t : TransactionFile}
    (ht : Mine version id t) {call : Call}
    (hp : t.phase.isTerminal = true ∨ isEarly t.phase = true) (memory : H) :
    Before version id v (Host.stored w call t memory) := by
  refine ⟨⟨⟨h.whole.archive, h.whole.identity⟩, h.whole.pages⟩, ?_, h.own, h.activated⟩
  intro u hu
  obtain rfl : t = u := Option.some.inj hu
  exact hp.imp (fun hp => hp) fun hp => ⟨hp, ht⟩

theorem During.mark {w : World H} (h : During version id v w) {t : TransactionFile}
    (hp : t.phase.isTerminal = true) {call : Call} (memory : H) :
    During version id v (Host.stored w call t memory) := by
  refine ⟨⟨⟨h.saved.archive, h.saved.identity⟩, h.saved.saved⟩, ?_, h.activated⟩
  intro u hu
  obtain rfl : t = u := Option.some.inj hu
  exact Or.inl hp

theorem triple_beginOwn :
    Triple (fun w => Unsaved version id v w ∧
        w.locals.transaction = TransactionFile.newRepairStatic id) host.beginOwn
      (fun _ => Unsaved version id v) (fun _ => Before version id v)
      (Left (H := H) version id v) := by
  have hfind : Triple (Unsaved version id v) host.findUnfinished (fun _ => Unsaved version id v)
      (fun _ => Before version id v) (Left (H := H) version id v) := by
    have hidle : Within Idle host.findUnfinished := inferInstance
    refine (hidle.triple ?_).ends (fun _ _ h => h.1)
      fun _ h => h.1.left
    rintro w w' ⟨h, rfl⟩ hw
    exact ⟨hw.1.of_host h, hw.2⟩
  have hmine : Mine version id (TransactionFile.newRepairStatic id) :=
    ⟨rfl, rfl, fun b hb => by cases hb⟩
  unfold Host.beginOwn
  refine Host.triple_getTransaction (t := TransactionFile.newRepairStatic id) (fun w hw => hw.2) ?_
  refine Triple.strengthen (P := Unsaved version id v) ?_ fun w hw => hw.1
  unfold Host.beginTransaction
  split
  · exact Triple.fail _ fun w hw => hw.1
  · refine hfind.bind fun unfinished => ?_
    cases unfinished with
    | some u => exact Triple.fail _ fun w hw => hw.1
    | none =>
      refine Triple.bind triple_unsaved fun _ => ?_
      exact host.triple_writeTransaction .begin _
        (fun w h hw => ⟨hw.1.mark hmine (Or.inr rfl) h, hw.2⟩) (fun w _ h hw => hw.1.of_host h)
        (fun w h hw => (hw.1.mark hmine (Or.inr rfl) h).left) fun w h hw => (hw.1.of_host h).left

theorem before_mark (phase : Phase) (hp : phase.isTerminal = true ∨ isEarly phase = true) :
    Triple (Before version id v) (host.mark phase) (fun _ => Before version id v)
      (fun _ => Before version id v) (Before (H := H) version id v) := by
  have hmark : ∀ t, Mine version id t → Triple (Before version id v) (host.markPhase t phase)
      (fun _ => Before version id v) (fun _ => Before version id v)
      (Before (H := H) version id v) := by
    intro t ht
    have hmine : Mine version id { t with phase := phase } := ⟨ht.operation, ht.backup, ht.saved⟩
    refine Triple.bind triple_before fun _ => ?_
    exact host.triple_writeTransaction .markPhase _ (fun w h hw => hw.mark hmine hp h)
      (fun w _ h hw => hw.of_host h) (fun w h hw => hw.mark hmine hp h) fun w h hw => hw.of_host h
  exact fun w hw => hmark _ hw.own w hw

theorem during_mark (phase : Phase) (hp : phase.isTerminal = true) :
    Triple (During version id v) (host.mark phase) (fun _ => During version id v)
      (fun _ => During version id v) (During (H := H) version id v) := by
  have hmark : ∀ t, Triple (During version id v) (host.markPhase t phase)
      (fun _ => During version id v) (fun _ => During version id v)
      (During (H := H) version id v) := by
    intro t
    refine Triple.bind triple_during fun _ => ?_
    exact host.triple_writeTransaction .markPhase _ (fun w h hw => hw.mark hp h)
      (fun w _ h hw => hw.of_host h) (fun w h hw => hw.mark hp h) fun w h hw => hw.of_host h
  exact fun w hw => hmark _ w hw

structure Prepared (version id : String) (v : Values) (w : World H) : Prop where
  before : Before version id v w
  saved : w.machine.files.subtree (saved id) = v.pages
  record : w.locals.transaction.staticBackup = some (backupRef version id)

theorem prepared_mark :
    Triple (Prepared version id v) (host.mark .prepared) (fun _ => Prepared version id v)
      (fun _ => Before version id v) (Left (H := H) version id v) := by
  have hmachine : Within MachineKept (host.mark .prepared) := by
    unfold Host.mark
    infer_instance
  have hlocals : Within LocalsKept (host.mark .prepared) := by
    unfold Host.mark
    infer_instance
  intro w hw
  have hend := before_mark host .prepared (Or.inr rfl) w hw.before
  have hm : (host.mark .prepared w).2.machine = w.machine := hmachine.rel w
  have hl : (host.mark .prepared w).2.locals = w.locals := hlocals.rel w
  rcases hr : host.mark .prepared w with ⟨u | e | _, w'⟩ <;> rw [hr] at hend hm hl
  · refine ⟨hend, ?_, ?_⟩
    · exact (congrArg (fun m : Machine => m.files.subtree _) hm).trans hw.saved
    · exact (congrArg (fun l : Locals => l.transaction.staticBackup) hl).trans hw.record
  · exact hend
  · exact hend.left

theorem prepared_mark_activating :
    Triple (Prepared version id v) (host.mark .activating)
      (fun _ w => During version id v { w with locals := { w.locals with activated := true } })
      (fun _ => Before version id v) (Left (H := H) version id v) := by
  have hmark : ∀ t, Mine version id t → t.staticBackup = some (backupRef version id) →
      Triple (Prepared version id v) (host.markPhase t .activating)
        (fun _ w => During version id v { w with locals := { w.locals with activated := true } })
        (fun _ => Before version id v) (Left (H := H) version id v) := by
    intro t ht hrecord
    have hcheck : Within Idle (host.check .appendLog) := inferInstance
    have hlog : Triple (Prepared version id v) (host.check .appendLog)
        (fun _ => Prepared version id v) (fun _ => Before version id v)
        (Left (H := H) version id v) := by
      refine (hcheck.triple ?_).ends (fun _ _ h => h.before) fun _ h => h.before.left
      rintro w w' ⟨h, rfl⟩ hw
      exact ⟨hw.before.of_host h, hw.saved, hw.record⟩
    have hreplacing : Replacing version id { t with phase := .activating } :=
      ⟨ht.operation, ht.backup, hrecord, rfl⟩
    have hstored : ∀ (w : World H) (h : H), Prepared version id v w →
        Saved version id v (Host.stored w .markPhase { t with phase := .activating } h) :=
      fun w h hw => ⟨⟨hw.before.whole.archive, hw.before.whole.identity⟩, hw.saved⟩
    refine hlog.bind fun _ => host.triple_writeTransaction .markPhase _ ?_
      (fun w _ h hw => hw.before.of_host h) ?_ fun w h hw => (hw.before.of_host h).left
    · intro w h hw
      have hsaved := hstored w h hw
      refine ⟨⟨⟨hsaved.archive, hsaved.identity⟩, hsaved.saved⟩, ?_, rfl⟩
      intro u hu
      obtain rfl : { t with phase := .activating } = u := Option.some.inj hu
      exact Or.inr hreplacing
    · intro w h hw u hu hopen
      obtain rfl : { t with phase := .activating } = u := Option.some.inj hu
      exact Or.inr ⟨hreplacing, hstored w h hw⟩
  exact fun w hw => hmark _ hw.before.own hw.record w hw

theorem during_writeState {s : InstallState} (hs : v.identity = some s.staticArchive) :
    Triple (During version id v) (host.writeState s) (fun _ => During version id v)
      (fun _ => During version id v) (During (H := H) version id v) := by
  have hdir : Outside (restPaths version id) Layout.statePath.dropLast := by
    refine ⟨fun q hq => ?_⟩
    simp only [restPaths, List.mem_cons, List.not_mem_nil, or_false] at hq
    rcases hq with rfl | rfl | rfl <;>
      simp [archive, saved, Layout.transactionDir, Layout.transactions, Layout.release,
        Layout.releases, Layout.root, Layout.statePath]
  have hoff : Off [archive version, saved id] Layout.statePath := by
    refine ⟨fun q hq => ?_⟩
    simp only [List.mem_cons, List.not_mem_nil, or_false] at hq
    rcases hq with rfl | rfl <;>
      simp [Apart, archive, saved, Layout.transactionDir, Layout.transactions, Layout.release,
        Layout.releases, Layout.root, Layout.statePath]
  have hcalm : Within (Calm [archive version, saved id])
      (host.perform (.writeFile Layout.statePath (.state s))) := inferInstance
  have hrecorded : ∀ w : World H, recorded w.machine.files = v.identity →
      recorded (host.perform (.writeFile Layout.statePath (.state s)) w).2.machine.files =
        v.identity := by
    intro w hw
    have hnew : recorded (w.machine.files.put Layout.statePath (.file (.state s))) = v.identity := by
      rw [hs]
      simp [recorded, Files.put]
    unfold Host.perform
    split
    · exact hnew
    · exact hw
    · dsimp only
      split
      · exact hnew
      · exact hw
  unfold Host.writeState
  refine Triple.bind triple_during fun _ => Triple.of_always fun w hw => ?_
  have hkept := hcalm.rel w
  refine ⟨⟨⟨?_, hrecorded w hw.saved.identity⟩, ?_⟩, ?_, ?_⟩
  · exact (hkept.trees.files_eq (by simp)).trans hw.saved.archive
  · exact (hkept.trees _ (by simp)).trans hw.saved.saved
  · rw [hkept.silent.transaction]
    exact hw.stored
  · rw [hkept.locals]
    exact hw.activated

theorem during_swapStatic (version id : String) :
    Within (Calm (restPaths version id)) (host.swapStatic (live version)
      (Layout.transactionDir id ++ ["static"]) (Layout.transactionDir id ++ ["static-replaced"])) := by
  have hnew : Fact ("static" ≠ "static-backup") := ⟨by decide⟩
  have hold : Fact ("static-replaced" ≠ "static-backup") := ⟨by decide⟩
  have hback : Within (Calm (restPaths version id)) (Host.withErrorPath
      (host.perform (.rename (Layout.transactionDir id ++ ["static"]) (live version)))
      (Prog.ignore (host.perform
        (.rename (Layout.transactionDir id ++ ["static-replaced"]) (live version))))) := by
    unfold Host.withErrorPath
    refine Within.andThen inferInstance fun r => ?_
    split <;> infer_instance
  unfold Host.swapStatic
  exact Within.andThen inferInstance fun _ => hback

def Failed (version id : String) (v : Values) (w : World H) : Prop :=
  Before version id v w ∨ During version id v w

theorem Failed.left {w : World H} (h : Failed version id v w) : Left version id v w :=
  h.elim Before.left During.left

theorem triple_repairStaticBlock {state : InstallState} {custom interactive : Bool}
    (hstate : v.identity = some state.staticArchive) (ha : KeepsApart host id)
    (hs : custom = true ∧ interactive = false ∨ DeliversSame host id v) :
    Triple (Unsaved state.activeVersion id v)
      (host.repairStaticBlock state id custom interactive)
      (fun _ => Left state.activeVersion id v) (fun _ => Failed state.activeVersion id v)
      (Left (H := H) state.activeVersion id v) := by
  have hfailed : ∀ {α : Type} {p : Flow H α} {P : World H → Prop} {Q : α → World H → Prop},
      Triple P p Q (fun _ => Before state.activeVersion id v)
        (Left state.activeVersion id v) →
      Triple P p Q (fun _ => Failed state.activeVersion id v) (Left state.activeVersion id v) :=
    fun h => h.ends (fun _ _ h => Or.inl h) fun _ h => h
  have hduring : ∀ {α : Type} {p : Flow H α},
      Triple (During state.activeVersion id v) p (fun _ => During state.activeVersion id v)
        (fun _ => During state.activeVersion id v) (During state.activeVersion id v) →
      Triple (During state.activeVersion id v) p (fun _ => During state.activeVersion id v)
        (fun _ => Failed state.activeVersion id v) (Left state.activeVersion id v) :=
    fun h => h.ends (fun _ _ h => Or.inr h) fun _ h => h.left
  unfold Host.repairStaticBlock
  refine (hfailed triple_unsaved).bind fun _ => ?_
  refine (hfailed (triple_fetchStaticPages host ha hs)).bind fun official => ?_
  -- the identity that is recorded in the end is the one of before
  by_cases hidentity : v.identity = some (official.getD state.staticArchive)
  swap
  · intro w hw
    cases official with
    | none => exact absurd hstate hidentity
    | some a => exact absurd (hw.2 a rfl).1 hidentity
  have hrefresh : Triple (fun w => Unsaved state.activeVersion id v w ∧
        ∀ a, official = some a → Fetched id v a w)
      (Prog.onlyIf official.isSome (host.refreshVersionStaticZip state.activeVersion
        (Layout.transactionDir id ++ ["static.zip"])))
      (fun _ => Unsaved state.activeVersion id v) (fun _ => Before state.activeVersion id v)
      (Left state.activeVersion id v) := by
    cases official with
    | none => exact Triple.pure _ fun w hw => hw.1
    | some a =>
      exact (triple_refreshVersionStaticZip host (a := a)).strengthen
        fun w hw => ⟨hw.1, hw.2 a rfl⟩
  refine (hfailed hrefresh).bind fun _ => ?_
  have hsave : Triple (Unsaved state.activeVersion id v)
      (host.perform (.copyTree (live state.activeVersion) (saved id)))
      (fun _ => Ready state.activeVersion id v) (fun _ => Failed state.activeVersion id v)
      (Left state.activeVersion id v) :=
    (triple_savePages host).ends (fun _ _ h => Or.inl h)
      fun _ h => h.left
  refine hsave.bind fun _ => Triple.bind (Q := fun _ => Prepared state.activeVersion id v)
    (Triple.modify _ fun w hw => ?_) fun _ => ?_
  · refine ⟨⟨⟨⟨hw.1.whole.archive, hw.1.whole.identity⟩, hw.1.whole.pages⟩, hw.1.stored, ?_,
      hw.1.activated⟩, hw.2, rfl⟩
    exact ⟨hw.1.own.operation, hw.1.own.backup, fun b hb => (Option.some.inj hb).symm⟩
  refine (hfailed (prepared_mark host)).bind fun _ => ?_
  refine (hfailed (prepared_mark_activating host)).bind fun _ => ?_
  refine Triple.bind (Q := fun _ => During state.activeVersion id v)
    (Triple.modify _ fun w hw => hw) fun _ => ?_
  have hswap := during_swapStatic host state.activeVersion id
  refine (hduring (hswap.triple fun _ _ h hw => During.calm hw h)).bind fun _ => ?_
  refine (hduring (during_writeState host (s := { state with
    staticArchive := official.getD state.staticArchive
    lastTransactionId := some id }) hidentity)).bind fun _ => ?_
  exact (during_mark host .committed rfl).consequence (fun _ h => h) (fun _ _ h => h.left)
    (fun _ _ h => Or.inr h) fun _ h => h.left

theorem triple_restoreStatic (hc : Clears host (live version)) :
    Triple (Saved version id v) (host.restoreStatic (live version) (saved id))
      (fun _ w => Saved version id v w ∧ w.machine.files.subtree (live version) = v.pages)
      (fun _ w => Saved version id v w ∧ ¬ CopiesBack host version id)
      (Saved (H := H) version id v) := by
  have hremove : Triple (Saved version id v)
      (Prog.ignore (host.perform (.removeDirAll (live version))))
      (fun _ w => Saved version id v w ∧
        w.machine.files.subtree (live version) = fun _ => none)
      (fun _ w => Saved version id v w ∧ ¬ CopiesBack host version id)
      (Saved version id v) := by
    have hcalm : Within (Calm (restPaths version id))
        (host.perform (.removeDirAll (live version))) := inferInstance
    apply Triple.ignore
    intro w hw
    have hend := hw.kept (hcalm.rel w).trees
    unfold Host.perform at hend ⊢
    rcases hans : host.answer (.removeDirAll (live version)) w.machine w.host with
      ⟨a | e | b, out, h⟩ <;> rw [hans] at hend
    · exact ⟨hend, Files.subtree_remove_self _⟩
    · refine ⟨hend, ?_⟩
      have hnone := hc _ _ _ _ _ hans
      funext r
      exact Files.removePart_none _ (congrFun hnone r)
    · exact hend
  have hcopy : Triple (fun w => Saved version id v w ∧
        w.machine.files.subtree (live version) = fun _ => none)
      (host.perform (.copyTree (saved id) (live version)))
      (fun _ w => Saved version id v w ∧ w.machine.files.subtree (live version) = v.pages)
      (fun _ w => Saved version id v w ∧ ¬ CopiesBack host version id)
      (Saved version id v) := by
    have hcalm : Within (Calm (restPaths version id))
        (host.perform (.copyTree (saved id) (live version))) := inferInstance
    rintro w ⟨hw, hnone⟩
    have hend := hw.kept (hcalm.rel w).trees
    unfold Host.perform at hend ⊢
    rcases hans : host.answer (.copyTree (saved id) (live version)) w.machine w.host with
      ⟨a | e | b, out, h⟩ <;> rw [hans] at hend
    · exact ⟨hend, (Files.subtree_copy_target _ hnone).trans hw.saved⟩
    · exact ⟨hend, fun hback => hback _ _ _ _ _ hans⟩
    · exact hend
  exact hremove.bind fun _ => hcopy

theorem triple_abandonRepairStatic {state : InstallState}
    (hc : Clears host (live state.activeVersion)) (hb : CopiesBack host state.activeVersion id) :
    Triple (Failed state.activeVersion id v) (host.abandonRepairStatic state id)
      (fun _ w => Whole state.activeVersion v w ∧ Left state.activeVersion id v w)
      (fun _ w => Whole state.activeVersion v w ∧ Left state.activeVersion id v w)
      (Left (H := H) state.activeVersion id v) := by
  have hbefore : Triple (Before state.activeVersion id v) host.markFailed
      (fun _ w => Whole state.activeVersion v w ∧ Left state.activeVersion id v w)
      (fun _ w => Whole state.activeVersion v w ∧ Left state.activeVersion id v w)
      (Left state.activeVersion id v) := by
    have hmark : Triple (Before state.activeVersion id v) host.markFailed
        (fun _ => Before state.activeVersion id v) (fun _ => Before state.activeVersion id v)
        (Before state.activeVersion id v) := Triple.ignore (before_mark host .failed (Or.inl rfl))
    exact hmark.consequence (fun _ h => h) (fun _ _ h => ⟨h.whole, h.left⟩)
      (fun _ _ h => ⟨h.whole, h.left⟩) fun _ h => h.left
  have hrestore : Triple (During state.activeVersion id v)
      (Prog.attempt (host.restoreStatic (live state.activeVersion) (saved id)))
      (fun r w => r = .ok () ∧ During state.activeVersion id v w ∧
        w.machine.files.subtree (live state.activeVersion) = v.pages)
      (fun _ w => Whole state.activeVersion v w ∧ Left state.activeVersion id v w)
      (Left state.activeVersion id v) := by
    have hcalm : Within (Calm (restPaths state.activeVersion id))
        (host.restoreStatic (live state.activeVersion) (saved id)) := by
      unfold Host.restoreStatic
      infer_instance
    have hboth : Triple (During state.activeVersion id v)
        (host.restoreStatic (live state.activeVersion) (saved id))
        (fun _ w => During state.activeVersion id v w ∧
          w.machine.files.subtree (live state.activeVersion) = v.pages)
        (fun _ _ => False) (During state.activeVersion id v) := by
      refine (hcalm.frame (fun _ _ h hw => During.calm hw h)
        (triple_restoreStatic host hc)).consequence (fun _ h => ⟨h.saved, h⟩)
        (fun _ _ h => ⟨h.2, h.1.2⟩) (fun _ _ h => h.1.2 hb) fun _ h => h.2
    refine hboth.attempt.consequence (fun _ h => h) ?_ (fun _ _ h => h) fun _ h => h.left
    intro r w hw
    cases r with
    | ok u => exact ⟨rfl, hw⟩
    | error e => exact hw.elim
  have hmark : Triple (fun w => During state.activeVersion id v w ∧
        w.machine.files.subtree (live state.activeVersion) = v.pages)
      (Prog.ignore (host.mark .rolledBack))
      (fun _ w => Whole state.activeVersion v w ∧ Left state.activeVersion id v w)
      (fun _ w => Whole state.activeVersion v w ∧ Left state.activeVersion id v w)
      (Left state.activeVersion id v) := by
    have hmachine : Within MachineKept (host.mark .rolledBack) := by
      unfold Host.mark
      infer_instance
    have hwrite : Triple (During state.activeVersion id v) (host.mark .rolledBack)
        (fun _ => During state.activeVersion id v) (fun _ => During state.activeVersion id v)
        (During state.activeVersion id v) := during_mark host .rolledBack rfl
    have hframe := hmachine.frame
      (I := fun w => w.machine.files.subtree (live state.activeVersion) = v.pages)
      (fun w w' (h : w'.machine = w.machine) hw => by rw [h]; exact hw) hwrite
    apply Triple.ignore
    exact hframe.consequence (fun _ h => h) (fun _ w h => ⟨⟨h.1.saved.toRest, h.2⟩, h.1.left⟩)
      (fun _ w h => ⟨⟨h.1.saved.toRest, h.2⟩, h.1.left⟩) fun _ h => h.1.left
  have hduring : Triple (During state.activeVersion id v)
      (host.rollbackStatic (live state.activeVersion) (saved id))
      (fun _ w => Whole state.activeVersion v w ∧ Left state.activeVersion id v w)
      (fun _ w => Whole state.activeVersion v w ∧ Left state.activeVersion id v w)
      (Left state.activeVersion id v) := by
    unfold Host.rollbackStatic
    refine hrestore.bind fun r => ?_
    cases r with
    | ok u => exact hmark.strengthen fun w hw => hw.2
    | error e => exact fun w hw => absurd hw.1 (by simp)
  unfold Host.abandonRepairStatic
  intro w hw
  rcases hw with hw | hw
  · exact Host.triple_getActivated (fun w (h : Before state.activeVersion id v w) => h.activated)
      hbefore w hw
  · exact Host.triple_getActivated (fun w (h : During state.activeVersion id v w) => h.activated)
      hduring w hw

theorem triple_repairStatic {state : InstallState} {custom interactive : Bool}
    (hstate : v.identity = some state.staticArchive) (ha : KeepsApart host id)
    (hs : custom = true ∧ interactive = false ∨ DeliversSame host id v)
    (hc : Clears host (live state.activeVersion)) (hb : CopiesBack host state.activeVersion id) :
    Triple (fun w => Whole state.activeVersion v w ∧ Vacant id w ∧
        ∀ t, w.transaction = some t → t.phase.isTerminal = true)
      (host.repairStatic state id custom interactive)
      (fun _ => Left state.activeVersion id v)
      (fun _ w => Whole state.activeVersion v w ∧ Left state.activeVersion id v w)
      (Left (H := H) state.activeVersion id v) := by
  unfold Host.repairStatic
  refine Triple.bind (Triple.modify (Q := fun _ w => Unsaved state.activeVersion id v w ∧
    w.locals.transaction = TransactionFile.newRepairStatic id) _ ?_) fun _ => ?_
  · rintro w ⟨hw, hvacant, hclosed⟩
    refine ⟨⟨⟨⟨⟨hw.archive, hw.identity⟩, hw.pages⟩, ?_, ?_, rfl⟩, hvacant⟩, rfl⟩
    · exact fun t ht => Or.inl (hclosed t ht)
    · exact ⟨rfl, rfl, fun b hb => by cases hb⟩
  have hbegin : Triple (fun w => Unsaved state.activeVersion id v w ∧
        w.locals.transaction = TransactionFile.newRepairStatic id) host.beginOwn
      (fun _ => Unsaved state.activeVersion id v)
      (fun _ w => Whole state.activeVersion v w ∧ Left state.activeVersion id v w)
      (Left state.activeVersion id v) :=
    (triple_beginOwn host).ends (fun _ _ h => ⟨h.whole, h.left⟩) fun _ h => h
  refine hbegin.bind fun _ => ?_
  exact Host.triple_withErrorPath (triple_repairStaticBlock host hstate ha hs)
    fun _ => triple_abandonRepairStatic host hc hb

end Repair

section Recovery

variable (host : Host H) {v : Values} {t : TransactionFile}

theorem left_failed (t : TransactionFile) (w : World H) (h : H) :
    Left version id v (Host.stored w .markPhase { t with phase := .failed } h) := by
  intro u hu hopen
  obtain rfl : { t with phase := .failed } = u := Option.some.inj hu
  cases hopen

theorem triple_recoverEarly (ht : Mine version id t) (hp : isEarly t.phase = true) :
    Triple (fun w => Whole version v w ∧ w.transaction = some t) (host.recoverTransaction t)
      (fun _ w => Whole version v w ∧ Left version id v w) (fun _ => Left version id v)
      (Left (H := H) version id v) := by
  have hleft : ∀ w : World H, Whole version v w ∧ w.transaction = some t →
      Left version id v w := by
    rintro w ⟨hw, hstored⟩ u hu -
    obtain rfl : t = u := Option.some.inj (hstored.symm.trans hu)
    exact Or.inl ⟨hp, ht, hw⟩
  have hcalm : ∀ {α : Type} {p : Flow H α}, Within (Calm (wholePaths version)) p →
      Triple (fun w => Whole version v w ∧ w.transaction = some t) p
        (fun _ w => Whole version v w ∧ w.transaction = some t) (fun _ => Left version id v)
        (Left version id v) := by
    intro α p hq
    refine (hq.triple ?_).ends (fun _ w h => hleft w h)
      fun w h => hleft w h
    rintro w w' h ⟨hw, hstored⟩
    exact ⟨hw.kept h.trees fun _ hq => hq, h.silent.transaction.trans hstored⟩
  have hmark : Triple (fun w => Whole version v w ∧ w.transaction = some t)
      (host.markPhase t .failed) (fun _ w => Whole version v w ∧ Left version id v w)
      (fun _ => Left version id v) (Left version id v) := by
    refine Triple.bind (hcalm inferInstance) fun _ => ?_
    exact host.triple_writeTransaction .markPhase _
      (fun w h hw => ⟨⟨⟨hw.1.archive, hw.1.identity⟩, hw.1.pages⟩, left_failed t w h⟩)
      (fun w _ h hw => hleft _ ⟨⟨⟨hw.1.archive, hw.1.identity⟩, hw.1.pages⟩, hw.2⟩)
      (fun w h _ => left_failed t w h)
      fun w h hw => hleft _ ⟨⟨⟨hw.1.archive, hw.1.identity⟩, hw.1.pages⟩, hw.2⟩
  have hservice : Within (Calm (wholePaths version)) (host.restorePreActivation t) := by
    unfold Host.restorePreActivation
    split <;> infer_instance
  unfold Host.recoverTransaction Host.recoverRepair Host.removeTransactionDir
  rw [ht.operation]
  dsimp only
  split
  · exact (hcalm inferInstance).bind fun _ => hmark
  · exact (hcalm hservice).bind fun _ => (hcalm inferInstance).bind fun _ => hmark
  · exact (hcalm hservice).bind fun _ => (hcalm inferInstance).bind fun _ => hmark
  all_goals simp_all [isEarly]

theorem triple_recoverReplacing (ht : Replacing version id t) (hc : Clears host (live version)) :
    Triple (fun w => Saved version id v w ∧ w.transaction = some t) (host.recoverTransaction t)
      (fun _ w => Whole version v w ∧ Left version id v w) (fun _ => Left version id v)
      (Left (H := H) version id v) := by
  have hleft : ∀ w : World H, Saved version id v w ∧ w.transaction = some t →
      Left version id v w := by
    rintro w ⟨hw, hstored⟩ u hu -
    obtain rfl : t = u := Option.some.inj (hstored.symm.trans hu)
    exact Or.inr ⟨ht, hw⟩
  have hrestore : Triple (fun w => Saved version id v w ∧ w.transaction = some t)
      (host.restoreStatic (live version) (saved id))
      (fun _ w => (Saved version id v w ∧ w.transaction = some t) ∧
        w.machine.files.subtree (live version) = v.pages)
      (fun _ => Left version id v) (Left version id v) := by
    have hsilent : Within Silent (host.restoreStatic (live version) (saved id)) := by
      unfold Host.restoreStatic
      infer_instance
    have hback : Triple (Saved version id v) (host.restoreStatic (live version) (saved id))
        (fun _ w => Saved version id v w ∧ w.machine.files.subtree (live version) = v.pages)
        (fun _ w => Saved version id v w ∧ ¬ CopiesBack host version id)
        (Saved version id v) := triple_restoreStatic host hc
    have hframe := hsilent.frame (I := fun w => w.transaction = some t)
      (fun w w' h hw => h.transaction.trans hw) hback
    exact hframe.consequence (fun _ h => h) (fun _ _ h => ⟨⟨h.1.1, h.2⟩, h.1.2⟩)
      (fun _ w h => hleft w ⟨h.1.1, h.2⟩) fun w h => hleft w h
  have hmark : Triple (fun w => (Saved version id v w ∧ w.transaction = some t) ∧
        w.machine.files.subtree (live version) = v.pages)
      (host.markPhase t .failed) (fun _ w => Whole version v w ∧ Left version id v w)
      (fun _ => Left version id v) (Left version id v) := by
    have hhost : ∀ (w : World H) (h : H), Saved version id v w ∧ w.transaction = some t →
        Saved version id v { w with host := h } ∧ w.transaction = some t :=
      fun w h hw => ⟨⟨⟨hw.1.archive, hw.1.identity⟩, hw.1.saved⟩, hw.2⟩
    have hcheck : Within Idle (host.check .appendLog) := inferInstance
    refine Triple.bind (Q := fun _ w => (Saved version id v w ∧ w.transaction = some t) ∧
      w.machine.files.subtree (live version) = v.pages) ?_ fun _ => ?_
    · refine (hcheck.triple ?_).ends (fun _ w h => hleft w h.1) fun w h => hleft w h.1
      rintro w w' ⟨h, rfl⟩ hw
      exact ⟨hhost w h hw.1, hw.2⟩
    · exact host.triple_writeTransaction .markPhase _
        (fun w h hw => ⟨⟨⟨hw.1.1.archive, hw.1.1.identity⟩, hw.2⟩, left_failed t w h⟩)
        (fun w _ h hw => hleft _ (hhost w h hw.1)) (fun w h _ => left_failed t w h)
        fun w h hw => hleft _ (hhost w h hw.1)
  unfold Host.recoverTransaction Host.recoverRepair
  rw [ht.operation, ht.phase]
  dsimp only
  unfold Host.recoverActivatedRepair Host.recoverStaticRepair
  rw [ht.backup, ht.saved]
  exact hrestore.bind fun _ => hmark

theorem triple_recoverInterrupted (hc : Clears host (live version)) :
    Triple (Left version id v) host.recoverInterrupted (fun _ => Left version id v)
      (fun _ => Left version id v) (Left (H := H) version id v) ∧
    ∀ t, t.phase.isTerminal = false →
      Triple (fun w => Left version id v w ∧ w.transaction = some t)
        (host.recoverTransaction t)
        (fun _ w => Whole version v w ∧ Left version id v w) (fun _ => Left version id v)
        (Left (H := H) version id v) := by
  have hone : ∀ t, t.phase.isTerminal = false →
      Triple (fun w => Left version id v w ∧ w.transaction = some t)
        (host.recoverTransaction t)
        (fun _ w => Whole version v w ∧ Left version id v w) (fun _ => Left version id v)
        (Left (H := H) version id v) := by
    rintro t hopen w ⟨hw, hstored⟩
    rcases hw t hstored hopen with ⟨hearly, hmine, hwhole⟩ | ⟨hreplacing, hsaved⟩
    · exact triple_recoverEarly host hmine hearly w ⟨hwhole, hstored⟩
    · exact triple_recoverReplacing host hreplacing hc w ⟨hsaved, hstored⟩
  refine ⟨?_, hone⟩
  have hhost : ∀ (w : World H) (h : H), Left version id v w →
      Left version id v { w with host := h } := by
    intro w h hw t ht hopen
    refine (hw t ht hopen).imp (fun hw => ⟨hw.1, hw.2.1, ?_⟩) fun hw => ⟨hw.1, ?_⟩
    · exact ⟨⟨hw.2.2.archive, hw.2.2.identity⟩, hw.2.2.pages⟩
    · exact ⟨⟨hw.2.archive, hw.2.identity⟩, hw.2.saved⟩
  refine (host.triple_findUnfinished hhost).bind fun unfinished => ?_
  cases unfinished with
  | none => exact Triple.pure _ fun w hw => hw.1
  | some t =>
    rintro w ⟨hw, hfound⟩
    obtain ⟨hstored, hopen⟩ := hfound t rfl
    exact (hone t hopen).consequence (fun _ h => h) (fun _ _ h => h.2) (fun _ _ h => h)
      (fun _ h => h) w ⟨hw, hstored⟩

end Recovery

section Runs

variable {state : InstallState} {custom interactive : Bool} {d : Disk}

/-- What the repair asks of the host: the official archive, where it is downloaded, is the one
that is in place, and the saved pages can be put back. -/
structure Careful (host : Host H) (state : InstallState) (id : String)
    (custom interactive : Bool) (v : Values) : Prop where
  apart : KeepsApart host id
  same : custom = true ∧ interactive = false ∨ DeliversSame host id v
  clears : Clears host (live state.activeVersion)
  back : CopiesBack host state.activeVersion id

inductive Repaired (state : InstallState) (id : String) (custom interactive : Bool) (d : Disk) :
    Disk → Prop
  | ran {H : Type} (host : Host H) (memory : H)
      (careful : Careful host state id custom interactive
        (values state.activeVersion d.machine.files)) :
      Repaired state id custom interactive d
        (d.after (host.repairStatic state id custom interactive) memory)
  | recovered {H : Type} (host : Host H) (memory : H) {d' : Disk}
      (clears : Clears host (live state.activeVersion))
      (before : Repaired state id custom interactive d d') :
      Repaired state id custom interactive d (d'.after host.recoverInterrupted memory)

/-- The disk a repair starts on: the state it was given is the one on disk, no transaction is
open, and the directory of its own transaction is new. -/
structure Starts (state : InstallState) (id : String) (d : Disk) : Prop where
  state : d.machine.files Layout.statePath = some (.file (.state state))
  closed : ∀ t, d.transaction = some t → t.phase.isTerminal = true
  fresh : d.machine.files.subtree (saved id) = fun _ => none

theorem Starts.identity (hd : Starts state id d) :
    (values state.activeVersion d.machine.files).identity = some state.staticArchive := by
  simp only [values, recorded, hd.state]

theorem Starts.triple (hd : Starts state id d) {host : Host H} (memory : H)
    (hh : Careful host state id custom interactive
      (values state.activeVersion d.machine.files)) :
    Triple (fun w => w = d.boot memory) (host.repairStatic state id custom interactive)
      (fun _ => Left state.activeVersion id (values state.activeVersion d.machine.files))
      (fun _ w => Whole state.activeVersion (values state.activeVersion d.machine.files) w ∧
        Left state.activeVersion id (values state.activeVersion d.machine.files) w)
      (Left state.activeVersion id (values state.activeVersion d.machine.files)) := by
  refine (triple_repairStatic host hd.identity hh.apart hh.same hh.clears hh.back).strengthen ?_
  rintro w rfl
  exact ⟨whole_start d memory, hd.fresh, hd.closed⟩

theorem Left.of_disk {H' : Type} {v : Values} {w : World H} {w' : World H'}
    (h : Left version id v w) (hm : w'.machine = w.machine)
    (ht : w'.transaction = w.transaction) : Left version id v w' := by
  intro t hstored hopen
  refine (h t (ht.symm.trans hstored) hopen).imp (fun h => ⟨h.1, h.2.1, ?_⟩) fun h => ⟨h.1, ?_⟩
  · obtain ⟨⟨ha, hi⟩, hp⟩ := h.2.2
    exact ⟨⟨hm ▸ ha, hm ▸ hi⟩, hm ▸ hp⟩
  · obtain ⟨⟨ha, hi⟩, hs⟩ := h.2
    exact ⟨⟨hm ▸ ha, hm ▸ hi⟩, hm ▸ hs⟩

theorem Repaired.left (hd : Starts state id d) {d' : Disk}
    (h : Repaired state id custom interactive d d') (memory : H) :
    Left state.activeVersion id (values state.activeVersion d.machine.files)
      (d'.boot memory) := by
  -- by induction on the recoveries; each starts from what the one before has left
  induction h generalizing H with
  | ran host memory' hh =>
    have hrun := (hd.triple memory' hh).ends (fun _ _ h => h.2) fun _ h => h
    exact (hrun.always rfl).of_disk rfl rfl
  | recovered host memory' hc _ ih =>
    exact ((triple_recoverInterrupted host hc).1.always (ih memory')).of_disk rfl rfl

/-- As long as no other archive is put in the place of the old one, and the saved pages can be
put back, the pages, the archive and the recorded identity are those of before the repair: when
the repair has returned an error, and when a recovery of its transaction has returned. -/
theorem repairStatic_atomic (hd : Starts state id d) :
    (∀ (H : Type) (host : Host H) (memory : H) (e : InstallError) (w : World H),
      Careful host state id custom interactive (values state.activeVersion d.machine.files) →
      host.repairStatic state id custom interactive (d.boot memory) = (.err e, w) →
      values state.activeVersion w.machine.files =
        values state.activeVersion d.machine.files) ∧
    ∀ (d' : Disk), Repaired state id custom interactive d d' →
      ∀ (H : Type) (host : Host H) (memory : H) (t : TransactionFile) (w : World H),
        Clears host (live state.activeVersion) →
        d'.transaction = some t → t.phase.isTerminal = false →
        host.recoverInterrupted (d'.boot memory) = (.ok (), w) →
        values state.activeVersion w.machine.files =
          values state.activeVersion d.machine.files := by
  constructor
  · intro H host memory e w hh hrun
    have hend := hd.triple memory hh _ rfl
    rw [hrun] at hend
    exact hend.1.values_eq
  · intro d' hd' H host memory t w hc hstored hopen hrun
    obtain ⟨h, hrun⟩ := host.recoverInterrupted_ok hstored hopen hrun
    have hleft : Left state.activeVersion id (values state.activeVersion d.machine.files)
        { d'.boot memory with host := h } := (hd'.left hd memory).of_disk rfl rfl
    have hend := (triple_recoverInterrupted host hc).2 t hopen _ ⟨hleft, hstored⟩
    rw [hrun] at hend
    exact hend.1.values_eq

end Runs

section Sample

def samplePages : List (Path × Node Document) :=
  [(live "1.0.0", .dir), (live "1.0.0" ++ ["index.html"], .file (.text "old pages")),
    (archive "1.0.0", .file (.text "old archive"))]

def sampleDisk : Disk := Disk.holding (sampleFiles ++ samplePages)

theorem sample_starts : Starts installedSample "id" sampleDisk where
  state := by decide +kernel
  closed := fun t ht => by cases ht
  fresh := by
    funext r
    simp [sampleDisk, Disk.holding, sampleFiles, samplePages, List.lookup_cons, List.lookup_nil, Files.subtree, saved,
      live, archive, Layout.transactionDir, Layout.transactions, Layout.root, Layout.releases,
      Layout.release, Layout.current, Layout.service, Layout.unitOrigin, Layout.statePath]

def fetchInto (dir : Path) (zip : String) (m : Machine) : Machine :=
  m.setFiles (((m.files.put (dir ++ ["static"]) .dir).put (dir ++ ["static", "index.html"])
    (.file (.text "new pages"))).put (dir ++ ["static.zip"]) (.file (.text zip)))

def deliver (zip : String) (identity : Asset) (reply : {α : Type} → Act α → Reply α) :
    Host Unit where
  answer act m _ :=
    match act with
    | .fetchStatic dir => (.ok identity, fetchInto dir zip m, ())
    | act => (reply act, m, ())

def fullDisk : Host Unit :=
  deliver "new archive" ⟨"c", 2⟩ fun act => match act with
    | .copyTree _ _ => .err (.io "no space left on device")
    | act => .ok act.sample

/-- The repair fails, and the new archive has taken the place of the old one. -/
theorem repair_replaces_archive :
    Starts installedSample "id" sampleDisk ∧
    (fullDisk.repairStatic installedSample "id" false false (sampleDisk.boot ())).1 =
      .err (.io "no space left on device") ∧
    values "1.0.0"
      (fullDisk.repairStatic installedSample "id" false false (sampleDisk.boot ())).2.machine.files ≠
        values "1.0.0" sampleDisk.machine.files := by
  refine ⟨sample_starts, by decide +kernel, fun h => ?_⟩
  have hnew : (fullDisk.repairStatic installedSample "id" false false
      (sampleDisk.boot ())).2.machine.files (archive "1.0.0") =
        some (.file (.text "new archive")) := by decide +kernel
  have hold : sampleDisk.machine.files (archive "1.0.0") = some (.file (.text "old archive")) := by
    decide +kernel
  have hsame : some (Node.file (Document.text "new archive")) =
      some (Node.file (Document.text "old archive")) := by
    calc
      _ = _ := hnew.symm
      _ = sampleDisk.machine.files (archive "1.0.0") := congrArg Values.archive h
      _ = _ := hold
  exact absurd hsame (by decide)

def cutAtSwap : Host Unit :=
  deliver "old archive" ⟨"b", 1⟩ fun act => match act with
    | .rename p _ => if p = live "1.0.0" then .crash true else .ok ()
    | act => .ok act.sample

theorem subtree_fetchInto (zip : String) (m : Machine) :
    (fetchInto (Layout.transactionDir "id") zip m).files.subtree (saved "id") =
      m.files.subtree (saved "id") := by
  have hapart : ∀ rest, ¬ saved "id" <+: Layout.transactionDir "id" ++ ("static" :: rest) := by
    intro rest h
    simp [saved] at h
  have hzip : ¬ saved "id" <+: Layout.transactionDir "id" ++ ["static.zip"] := by decide
  unfold fetchInto Machine.setFiles
  dsimp only
  rw [Files.subtree_put_apart _ hzip, Files.subtree_put_apart _ (hapart _),
    Files.subtree_put_apart _ (hapart _)]

theorem cutAtSwap_careful : Careful cutAtSwap installedSample "id" false false
    (values "1.0.0" sampleDisk.machine.files) where
  apart := ⟨fun m _ => subtree_fetchInto "old archive" m, fun _ _ => rfl⟩
  same := by
    refine Or.inr fun m h a out h' hans => ?_
    obtain ⟨rfl, rfl, -⟩ : (⟨"b", 1⟩ : Asset) = a ∧
        fetchInto (Layout.transactionDir "id") "old archive" m = out ∧ () = h' := by
      simpa [cutAtSwap, deliver] using hans
    have hold : (values "1.0.0" sampleDisk.machine.files).archive =
        some (.file (.text "old archive")) := by decide +kernel
    refine ⟨by decide +kernel, by rw [hold]; simp, ?_⟩
    rw [hold]
    simp [fetchInto, Machine.setFiles, Files.put, downloaded]
  clears := fun m h e out h' hans => by simp [cutAtSwap, deliver] at hans
  back := fun m h e out h' hans => by simp [cutAtSwap, deliver] at hans

/-- The pages are gone when the process ends, and back after the recovery. -/
theorem cutAtSwap_recovered :
    (sampleDisk.after (cutAtSwap.repairStatic installedSample "id" false false)
      ()).machine.files (live "1.0.0") = none ∧
    values "1.0.0" ((sampleDisk.after (cutAtSwap.repairStatic installedSample "id" false false)
      ()).after Host.obliging.recoverInterrupted ()).machine.files =
        values "1.0.0" sampleDisk.machine.files := by
  have hphase : (sampleDisk.after (cutAtSwap.repairStatic installedSample "id" false false)
      ()).transaction.map (fun t => t.phase) = some .activating := by decide +kernel
  obtain ⟨t, ht, hp⟩ := Option.map_eq_some_iff.mp hphase
  have hrun : (Host.obliging.recoverInterrupted ((sampleDisk.after
      (cutAtSwap.repairStatic installedSample "id" false false) ()).boot ())).1 = .ok () := by
    decide +kernel
  refine ⟨by decide +kernel, ?_⟩
  apply (repairStatic_atomic sample_starts).2 _ (.ran cutAtSwap () cutAtSwap_careful) Unit
    Host.obliging () t
  · intro m h e out h' hans
    simp [Host.obliging, Host.scripted] at hans
  · exact ht
  · rw [hp]
    rfl
  · exact Prod.ext hrun rfl

end Sample

end LandscapeKit.Deploy.StaticRepair
