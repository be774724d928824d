import LandscapeKit.ServiceResolv

/-!
Restores of the resolver file, one after another, each cut off anywhere. The source changes in
one operation only, the rename or the removal at the end; the temporary file is whatever the
restore before left, and every restore of one backup leaves one of the same kind.
-/

namespace LandscapeKit.Service.Resolv

open Text Utf8 Faults Prog

/-- What a restore relies on and leaves alone. Once a restore has completed (`back`), the source
is the original and stays it. -/
structure Kept (original : Option Entry) (back : Prop) (d : Disk) : Prop where
  metadata : d.metadata = some (describe original)
  content : ∀ file, original = some (.regular file) → d.content = some file.content
  source : d.source ≠ some .directory
  back : back → d.source = original

def Leaves : Option Entry → Option Entry → Prop
  | some (.regular _), tmp => ∀ entry, tmp = some entry → ∃ file, entry = .regular file
  | _, tmp => tmp ≠ some .directory

structure Ready (original : Option Entry) (back : Prop) (d : Disk) : Prop
    extends Kept original back d where
  tmp : Leaves original d.tmp

def Told : Option Entry → Prop
  | none => True
  | some (.symlink target) => IsUtf8 target.bytes
  | some (.regular file) => Plain file.mode
  | some .directory => False

section Operations

variable {original : Option Entry} {back : Prop} {P Q : Option Entry → Prop}
  {op : Disk → Except InstallError (Unit × Disk)}

theorem leaves_none (original : Option Entry) : Leaves original none := by
  match original with
  | some (.regular _) | some (.symlink _) | some .directory | none => nofun

theorem Kept.withTmp {d : Disk} (h : Kept original back d) (tmp : Option Entry) :
    Kept original back { d with tmp := tmp } :=
  ⟨h.metadata, h.content, h.source, h.back⟩

theorem call_tmp (hP : ∀ tmp, P tmp → Leaves original tmp)
    (h : ∀ d, P d.tmp → ∃ tmp, op d = .ok ((), { d with tmp := tmp }) ∧ Q tmp) :
    Triple (fun s => Kept original back s.now ∧ P s.now.tmp) (call op)
      (fun _ s => Kept original back s.now ∧ Q s.now.tmp) (fun _ _ => False)
      fun s => Ready original back s.now := by
  apply Triple.call (P := fun d => Kept original back d ∧ P d.tmp)
    (Q := fun _ d => Kept original back d ∧ Q d.tmp) (E := fun _ _ => False)
    (C := Ready original back)
  · rintro d ⟨⟩ t ⟨hkept, hd⟩ hop
    obtain ⟨tmp, heq, hQ⟩ := h d hd
    rw [heq] at hop
    cases hop
    exact ⟨hkept.withTmp tmp, hQ⟩
  · rintro d e ⟨-, hd⟩ hop
    obtain ⟨tmp, heq, -⟩ := h d hd
    rw [heq] at hop
    cases hop
  · rintro d ⟨hkept, hd⟩
    exact ⟨hkept, hP _ hd⟩

theorem call_renameTmp {entry : Entry} (hentry : original = some entry)
    (htmp : Leaves original (some entry)) (hdir : entry ≠ .directory) :
    Triple (fun s => Kept original back s.now ∧ s.now.tmp = some entry)
      (call renameTmp) (fun _ s => Ready original True s.now)
      (fun _ _ => False) fun s => Ready original back s.now := by
  have hrename (d : Disk) (hkept : Kept original back d) (hd : d.tmp = some entry) :
      renameTmp d = .ok ((), { d with source := original, tmp := none }) := by
    rw [hentry]
    match hs : d.source with
    | none | some (.symlink _) | some (.regular _) => simp only [renameTmp, hd, hs]
    | some .directory => exact absurd hs hkept.source
  apply Triple.call (P := fun d => Kept original back d ∧ d.tmp = some entry)
    (Q := fun _ => Ready original True) (E := fun _ _ => False) (C := Ready original back)
  · rintro d ⟨⟩ t ⟨hkept, hd⟩ hop
    rw [hrename d hkept hd] at hop
    cases hop
    refine ⟨⟨hkept.metadata, hkept.content, ?_, fun _ => rfl⟩, leaves_none original⟩
    rw [hentry, ne_eq, Option.some.injEq]
    exact hdir
  · rintro d e ⟨hkept, hd⟩ hop
    rw [hrename d hkept hd] at hop
    cases hop
  · rintro d ⟨hkept, hd⟩
    exact ⟨hkept, hd ▸ htmp⟩

theorem orRemoveTmp_triple {p : Host Unit} {P C : Interruptible Disk → Prop}
    {Q : Unit → Interruptible Disk → Prop} (h : Triple P p Q (fun _ _ => False) C) :
    Triple P (orRemoveTmp p) Q (fun _ _ => False) C := by
  apply Triple.bind h.attempt
  intro result
  cases result with
  | ok a => exact Triple.pure _ fun s hs => hs
  | error e => exact fun s hs => hs.elim

end Operations

section Restore

variable {back : Prop}

theorem restoreMissing_triple :
    Triple (fun s => Ready none back s.now) restoreMissing (fun _ s => Ready none True s.now)
      (fun _ _ => False) fun s => Ready none back s.now := by
  have hstat : Triple (fun s => Ready none back s.now) (call symlinkMetadata)
      (fun there s => Ready none back s.now ∧ s.now.source = there) (fun _ _ => False)
      fun s => Ready none back s.now := by
    apply Triple.call (P := Ready none back)
      (Q := fun there d => Ready none back d ∧ d.source = there) (E := fun _ _ => False)
      (C := Ready none back)
    · rintro d there t hd hop
      cases hop
      exact ⟨hd, rfl⟩
    · rintro d e - hop
      cases hop
    · exact fun d hd => hd
  apply Triple.bind hstat
  rintro (_ | entry)
  · apply Triple.pure
    rintro s ⟨hs, hsource⟩
    exact ⟨⟨hs.metadata, hs.content, hs.source, fun _ => hsource⟩, hs.tmp⟩
  · have hremove (d : Disk) (hd : Ready none back d) (hsource : d.source = some entry) :
        removeSource d = .ok ((), { d with source := none }) := by
      match entry with
      | .symlink _ | .regular _ => simp only [removeSource, hsource]
      | .directory => exact absurd hsource hd.source
    apply Triple.call (P := fun d => Ready none back d ∧ d.source = some entry)
      (Q := fun _ => Ready none True) (E := fun _ _ => False) (C := Ready none back)
    · rintro d ⟨⟩ t ⟨hd, hsource⟩ hop
      rw [hremove d hd hsource] at hop
      cases hop
      exact ⟨⟨hd.metadata, hd.content, nofun, fun _ => rfl⟩, hd.tmp⟩
    · rintro d e ⟨hd, hsource⟩ hop
      rw [hremove d hd hsource] at hop
      cases hop
    · exact fun d hd => hd.1

theorem restoreSymlink_triple {target : Target} (h : IsUtf8 target.bytes) :
    Triple (fun s => Ready (some (.symlink target)) back s.now)
      (restoreSymlink (describe (some (.symlink target))))
      (fun _ s => Ready (some (.symlink target)) True s.now) (fun _ _ => False)
      fun s => Ready (some (.symlink target)) back s.now := by
  have hfree : Triple (fun s => Ready (some (.symlink target)) back s.now)
      (ignore (call removeTmp))
      (fun _ s => Kept (some (.symlink target)) back s.now ∧ s.now.tmp = none)
      (fun _ _ => False) fun s => Ready (some (.symlink target)) back s.now := by
    apply Triple.ignore
    apply Triple.call (P := Ready (some (.symlink target)) back)
      (Q := fun _ d => Kept (some (.symlink target)) back d ∧ d.tmp = none)
      (E := fun _ d => Kept (some (.symlink target)) back d ∧ d.tmp = none)
      (C := Ready (some (.symlink target)) back)
    · rintro d ⟨⟩ t hd hop
      match htmp : d.tmp with
      | some (.symlink _) | some (.regular _) =>
        simp only [removeTmp, htmp] at hop
        cases hop
        exact ⟨hd.toKept.withTmp none, rfl⟩
      | some .directory | none =>
        simp only [removeTmp, htmp] at hop
        cases hop
    · intro d e hd hop
      refine ⟨hd.toKept, ?_⟩
      match htmp : d.tmp with
      | none => rfl
      | some .directory => exact absurd htmp hd.tmp
      | some (.symlink _) | some (.regular _) =>
        simp only [removeTmp, htmp] at hop
        cases hop
    · exact fun d hd => hd
  have hlink : Triple
      (fun s => Kept (some (.symlink target)) back s.now ∧ s.now.tmp = none)
      (call (symlink (bytes (lossy target.bytes))))
      (fun _ s => Kept (some (.symlink target)) back s.now ∧
        s.now.tmp = some (.symlink target))
      (fun _ _ => False) fun s => Ready (some (.symlink target)) back s.now := by
    apply call_tmp (P := (· = none)) (Q := (· = some (.symlink target)))
    · rintro tmp rfl
      exact leaves_none _
    · intro d hd
      refine ⟨_, ?_, rfl⟩
      rw [show bytes (lossy target.bytes) = target.bytes from h]
      simp only [symlink, dif_pos target.valid, hd]
  apply Triple.bind hfree
  intro _
  apply Triple.bind hlink
  intro _
  apply orRemoveTmp_triple
  exact call_renameTmp rfl (by nofun) (by nofun)

def Staged (file : File) (back : Prop) (p : File → Prop) (s : Interruptible Disk) : Prop :=
  Kept (some (.regular file)) back s.now ∧ ∃ g, s.now.tmp = some (.regular g) ∧ p g

variable {file : File}

theorem leaves_regular (g : File) : Leaves (some (.regular file)) (some (.regular g)) := by
  rintro entry ⟨⟩
  exact ⟨g, rfl⟩

theorem openTmp_triple :
    Triple (fun s => Ready (some (.regular file)) back s.now) (call (openTmp file.mode))
      (fun _ => Staged file back fun _ => True) (fun _ _ => False)
      fun s => Ready (some (.regular file)) back s.now := by
  refine Triple.strengthen (call_tmp (P := Leaves (some (.regular file)))
    (Q := fun tmp => ∃ g, tmp = some (.regular g) ∧ True) (fun tmp h => h) ?_)
    fun s hs => ⟨hs.toKept, hs.tmp⟩
  intro d hd
  rcases htmp : d.tmp with _ | entry
  · refine ⟨some (.regular ⟨[], file.mode, root, root⟩), ?_, _, rfl, trivial⟩
    simp only [openTmp, htmp]
  · obtain ⟨g, rfl⟩ := hd entry htmp
    refine ⟨some (.regular { g with content := [] }), ?_, _, rfl, trivial⟩
    simp only [openTmp, htmp]

theorem changeTmp_triple {p q : File → Prop} {f : File → File} (hf : ∀ g, p g → q (f g)) :
    Triple (Staged file back p) (call (changeTmp f)) (fun _ => Staged file back q)
      (fun _ _ => False) fun s => Ready (some (.regular file)) back s.now := by
  apply call_tmp (P := fun tmp => ∃ g, tmp = some (.regular g) ∧ p g)
    (Q := fun tmp => ∃ g, tmp = some (.regular g) ∧ q g)
  · rintro tmp ⟨g, rfl, -⟩
    exact leaves_regular g
  · rintro d ⟨g, hd, hg⟩
    refine ⟨some (.regular (f g)), ?_, f g, rfl, hf g hg⟩
    simp only [changeTmp, hd]

theorem quiet_triple {p : File → Prop} :
    Triple (Staged file back p) (call quiet) (fun _ => Staged file back p)
      (fun _ _ => False) fun s => Ready (some (.regular file)) back s.now := by
  apply call_tmp (P := fun tmp => ∃ g, tmp = some (.regular g) ∧ p g)
    (Q := fun tmp => ∃ g, tmp = some (.regular g) ∧ p g)
  · rintro tmp ⟨g, rfl, -⟩
    exact leaves_regular g
  · intro d hd
    exact ⟨d.tmp, rfl, hd⟩

theorem readContent_triple :
    Triple (fun s => Ready (some (.regular file)) back s.now) (call readContent)
      (fun content s => content = file.content ∧ Ready (some (.regular file)) back s.now)
      (fun _ _ => False) fun s => Ready (some (.regular file)) back s.now := by
  apply Triple.call (P := Ready (some (.regular file)) back)
    (Q := fun content d => content = file.content ∧ Ready (some (.regular file)) back d)
    (E := fun _ _ => False) (C := Ready (some (.regular file)) back)
  · intro d content t hd hop
    simp only [readContent, hd.content file rfl] at hop
    cases hop
    exact ⟨rfl, hd⟩
  · intro d e hd hop
    simp only [readContent, hd.content file rfl] at hop
    cases hop
  · exact fun d hd => hd

theorem restoreRegular_triple (h : Plain file.mode) :
    Triple (fun s => Ready (some (.regular file)) back s.now)
      (restoreRegular (describe (some (.regular file))))
      (fun _ s => Ready (some (.regular file)) True s.now) (fun _ _ => False)
      fun s => Ready (some (.regular file)) back s.now := by
  have hwrite : Triple (Staged file back fun _ => True)
      (call (changeTmp fun g => { g with content := file.content }))
      (fun _ => Staged file back fun g => g.content = file.content) (fun _ _ => False)
      fun s => Ready (some (.regular file)) back s.now :=
    changeTmp_triple fun g _ => rfl
  have hmode : Triple (Staged file back fun g => g.content = file.content)
      (call (changeTmp fun g => { g with mode := file.mode }))
      (fun _ => Staged file back fun g => g.content = file.content ∧ g.mode = file.mode)
      (fun _ _ => False) fun s => Ready (some (.regular file)) back s.now :=
    changeTmp_triple fun g hg => ⟨hg, rfl⟩
  have howner : Triple
      (Staged file back fun g => g.content = file.content ∧ g.mode = file.mode)
      (call (changeTmp fun g =>
        { g with mode := chownMode g.mode, uid := file.uid, gid := file.gid }))
      (fun _ => Staged file back (· = file))
      (fun _ _ => False) fun s => Ready (some (.regular file)) back s.now := by
    apply changeTmp_triple
    rintro ⟨content, mode, uid, gid⟩ ⟨hcontent, hm⟩
    dsimp only at hcontent hm ⊢
    rw [hcontent, hm, (chownMode_eq_iff file.mode).mpr h]
  have hplace : Triple (Staged file back (· = file)) (call renameTmp)
      (fun _ s => Ready (some (.regular file)) True s.now) (fun _ _ => False)
      fun s => Ready (some (.regular file)) back s.now := by
    refine (call_renameTmp rfl (leaves_regular file) (by nofun)).strengthen ?_
    rintro s ⟨hkept, g, htmp, rfl⟩
    exact ⟨hkept, htmp⟩
  apply Triple.bind readContent_triple
  rintro content s ⟨rfl, hs⟩
  refine Triple.bind openTmp_triple (fun _ => ?_) s hs
  apply Triple.bind hwrite
  intro _
  apply Triple.bind quiet_triple
  intro _
  apply Triple.bind hmode
  intro _
  apply Triple.bind (orRemoveTmp_triple howner)
  intro _
  exact orRemoveTmp_triple hplace

theorem restore_triple {original : Option Entry} (h : Told original) :
    Triple (fun s => Ready original back s.now) restore
      (fun _ s => Ready original True s.now) (fun _ _ => False)
      fun s => Ready original back s.now := by
  have hread : Triple (fun s => Ready original back s.now) (call readMetadata)
      (fun metadata s => metadata = describe original ∧ Ready original back s.now)
      (fun _ _ => False) fun s => Ready original back s.now := by
    apply Triple.call (P := Ready original back)
      (Q := fun metadata d => metadata = describe original ∧ Ready original back d)
      (E := fun _ _ => False) (C := Ready original back)
    · intro d metadata t hd hop
      simp only [readMetadata, hd.metadata] at hop
      cases hop
      exact ⟨rfl, hd⟩
    · intro d e hd hop
      simp only [readMetadata, hd.metadata] at hop
      cases hop
    · exact fun d hd => hd
  apply Triple.bind hread
  rintro metadata s ⟨rfl, hs⟩
  match original, h, hs with
  | none, _, hs => exact restoreMissing_triple s hs
  | some (.symlink _), h, hs => exact restoreSymlink_triple h s hs
  | some (.regular _), h, hs => exact restoreRegular_triple h s hs

end Restore

section Runs

instance orRemoveTmp_uncut (p : Host Unit) [Uncut p] : Uncut (orRemoveTmp p) := by
  apply Uncut.andThen inferInstance
  rintro (e | a)
  · exact inferInstance
  · exact inferInstance

instance restoreMissing_uncut : Uncut restoreMissing := by
  apply Uncut.andThen inferInstance
  rintro (_ | entry)
  · exact inferInstance
  · exact inferInstance

instance restoreSymlink_uncut (metadata : ResolvMetadata) : Uncut (restoreSymlink metadata) := by
  unfold restoreSymlink
  split <;> infer_instance

instance savedContent_uncut (metadata : ResolvMetadata) : Uncut (savedContent metadata) := by
  unfold savedContent
  split <;> infer_instance

instance restoreRegular_uncut (metadata : ResolvMetadata) : Uncut (restoreRegular metadata) := by
  apply Uncut.andThen inferInstance
  intro content
  iterate 3
    apply Uncut.andThen inferInstance
    intro _
  infer_instance

instance restore_uncut : Uncut restore := by
  apply Uncut.andThen inferInstance
  intro metadata
  split
  · infer_instance
  · split <;> infer_instance

theorem restores_spec {original : Option Entry} (h : Told original) (cuts : List (Option ℕ))
    (back : Prop) (d : Disk) (hd : Ready original back d) :
    (∀ outcome ∈ (restores cuts d).1, outcome = .ok () ∨ outcome = .crash) ∧
      (none ∈ cuts → .ok () ∈ (restores cuts d).1) ∧
      (back ∨ .ok () ∈ (restores cuts d).1 → (restores cuts d).2.source = original) := by
  induction cuts generalizing back d with
  | nil =>
    refine ⟨by nofun, by nofun, ?_⟩
    rintro (hback | hmem)
    · exact hd.back hback
    · cases hmem
  | cons cut cuts ih =>
    have hend := restore_triple h ⟨d, cut⟩ hd
    have hruns := restore_uncut.runs ⟨d, cut⟩
    rcases hrun : restore ⟨d, cut⟩ with ⟨⟨⟩ | e | _, t⟩
    · rw [hrun] at hend
      obtain ⟨houtcomes, -, hsource⟩ := ih True t.now hend
      simp only [restores, hrun, List.mem_cons, true_or, implies_true, true_and]
      refine ⟨?_, fun _ => hsource (.inl trivial)⟩
      rintro outcome (rfl | hmem)
      · exact .inl rfl
      · exact houtcomes outcome hmem
    · rw [hrun] at hend
      exact hend.elim
    · rw [hrun] at hend hruns
      obtain ⟨houtcomes, hcomplete, hsource⟩ := ih back t.now hend
      simp only [restores, hrun, List.mem_cons, reduceCtorEq, false_or]
      refine ⟨?_, ?_, hsource⟩
      · rintro outcome (rfl | hmem)
        · exact .inr rfl
        · exact houtcomes outcome hmem
      · rintro (rfl | hmem)
        · exact absurd rfl (hruns rfl).1
        · exact hcomplete hmem

theorem undone_of_ready {original : Option Entry} {d : Disk} (h : Told original)
    (hd : ∀ later, later ≠ some .directory →
      Ready original False { d with source := later }) : Undone original d := by
  intro later hlater cuts
  obtain ⟨houtcomes, hcomplete, hsource⟩ := restores_spec h cuts False _ (hd later hlater)
  exact ⟨houtcomes, hcomplete, fun hok => hsource (.inr hok)⟩

theorem Undone.once {original : Option Entry} {d : Disk} (h : Undone original d)
    (later : Option Entry) (hlater : later ≠ some .directory) :
    (restore ⟨{ d with source := later }, none⟩).1 = .ok () ∧
      (restore ⟨{ d with source := later }, none⟩).2.now.source = original := by
  obtain ⟨-, hcomplete, hsource⟩ := h later hlater [none]
  have hok := hcomplete List.mem_cons_self
  refine ⟨?_, hsource hok⟩
  rw [restores, restores, List.mem_singleton] at hok
  exact hok.symm

end Runs

section Inverse

variable {cut : Option ℕ}

theorem inverse_of_cut {original : Option Entry}
    (h : backup ⟨before original, cut⟩ = (.crash, ⟨before original, some 0⟩)) :
    Inverse original cut := by
  rintro (⟨metadata, hok⟩ | hmetadata)
  · rw [h] at hok
    cases hok
  · rw [h] at hmetadata
    exact absurd rfl hmetadata

theorem inverse_missing : Inverse none cut := by
  rcases backup_missing cut with h | h
  · exact inverse_of_cut h
  · intro _
    rw [h]
    have htold : Told none := trivial
    apply undone_of_ready htold
    intro later hlater
    exact ⟨⟨rfl, nofun, hlater, nofun⟩, nofun⟩

theorem isUtf8_of_restored {target : Target}
    (hok : (restore ⟨{ described (some (.symlink target)) with source := none }, none⟩).1 =
      .ok ())
    (hsource : (restore
      ⟨{ described (some (.symlink target)) with source := none }, none⟩).2.now.source =
        some (.symlink target)) : IsUtf8 target.bytes := by
  have hrun : restore ⟨{ described (some (.symlink target)) with source := none }, none⟩ =
      (call (symlink (bytes (lossy target.bytes))) >>= fun _ => orRemoveTmp (call renameTmp))
        ⟨{ described (some (.symlink target)) with source := none }, none⟩ := rfl
  have hleft : (none : Option ℕ) ≠ some 0 := by simp
  rw [hrun] at hok hsource
  by_cases hvalid : bytes (lossy target.bytes) ≠ [] ∧ 0 ∉ bytes (lossy target.bytes) ∧
      (bytes (lossy target.bytes)).length < 4096
  · have hlink : symlink (bytes (lossy target.bytes))
        { described (some (.symlink target)) with source := none } =
          .ok ((), { described (some (.symlink target)) with
            source := none, tmp := some (.symlink ⟨_, hvalid⟩) }) := by
      simp only [symlink, dif_pos hvalid]
      rfl
    rw [bind_of_ok (call_of_ok hleft hlink)] at hsource
    have htarget : some (Entry.symlink ⟨bytes (lossy target.bytes), hvalid⟩) =
        some (.symlink target) := hsource
    simp only [Option.some.injEq, Entry.symlink.injEq] at htarget
    exact congrArg Target.bytes htarget
  · have hlink : symlink (bytes (lossy target.bytes))
        { described (some (.symlink target)) with source := none } = .error .io := by
      simp only [symlink, dif_neg hvalid]
    rw [bind_of_err (call_of_error hleft hlink)] at hok
    cases hok

theorem inverse_symlink {target : Target} :
    Inverse (some (.symlink target)) cut ↔ Safe (some (.symlink target)) cut := by
  by_cases hcut : ∃ n < 7, cut = some n
  · exact iff_of_true (inverse_of_cut (backup_symlink_cut target hcut)) (.inr hcut)
  · have hnow := backup_symlink target hcut
    constructor
    · intro h
      have hundone := h (.inr (by rw [hnow]; nofun))
      rw [hnow] at hundone
      obtain ⟨hok, hsource⟩ := hundone.once none nofun
      exact .inl (isUtf8_of_restored hok hsource)
    · rintro (hutf8 | h)
      · intro _
        rw [hnow]
        have htold : Told (some (.symlink target)) := hutf8
        apply undone_of_ready htold
        intro later hlater
        exact ⟨⟨rfl, nofun, hlater, nofun⟩, nofun⟩
      · exact absurd h hcut

theorem inverse_regular {file : File} (hfile : file.content.length ≤ maxResolvBytes) :
    Inverse (some (.regular file)) cut ↔ Safe (some (.regular file)) cut := by
  by_cases hcut : ∃ n < 6, cut = some n
  · exact iff_of_true (inverse_of_cut (backup_regular_cut file hcut)) (.inr hcut)
  by_cases htorn : ∀ n, cut = some n → 12 ≤ n
  · have hnow := backup_regular file htorn hfile
    constructor
    · intro h
      have hundone := h (.inr (by rw [hnow]; nofun))
      rw [hnow] at hundone
      obtain ⟨-, hsource⟩ := hundone.once none nofun
      have hmode : some (Entry.regular { file with mode := chownMode file.mode }) =
          some (.regular file) := hsource
      simp only [Option.some.injEq, Entry.regular.injEq] at hmode
      have hplain := (chownMode_eq_iff file.mode).mp (congrArg File.mode hmode)
      exact .inl ⟨hplain, htorn⟩
    · rintro (⟨hplain, -⟩ | h)
      · intro _
        rw [hnow]
        have htold : Told (some (.regular file)) := hplain
        apply undone_of_ready htold
        intro later hlater
        exact ⟨⟨rfl, fun f hf => by cases hf; rfl, hlater, nofun⟩, leaves_none _⟩
      · exact absurd h hcut
  · push Not at htorn
    obtain ⟨n, rfl, hn⟩ := htorn
    have hsix : 6 ≤ n := by
      by_contra hlt
      exact hcut ⟨n, by omega, rfl⟩
    have hnow := backup_regular_torn file n hsix hn hfile
    apply iff_of_false
    · intro h
      have hundone := h (.inr (by rw [hnow]; nofun))
      rw [hnow] at hundone
      obtain ⟨hok, -⟩ := hundone.once none nofun
      cases hok
    · rintro (⟨-, htwelve⟩ | h)
      · exact absurd (htwelve n rfl) (by omega)
      · exact absurd h hcut

/-- A backup and its restores are inverse exactly where the backup is not cut off between its two
files, the mode of a regular file is one `chown` leaves alone and the target of a link is a
text. -/
theorem inverse_iff (original : Option Entry) (cut : Option ℕ) (h : Admissible original) :
    Inverse original cut ↔ Safe original cut := by
  match original, h with
  | none, _ => exact iff_of_true inverse_missing trivial
  | some (.symlink _), _ => exact inverse_symlink
  | some (.regular _), h => exact inverse_regular h

def sampleFile : File := ⟨[0x6E, 0x73, 0x0A], 0o644, root, root⟩

theorem inverse_sample : Inverse (some (.regular sampleFile)) none :=
  (inverse_iff (some (.regular sampleFile)) none (by decide : 3 ≤ maxResolvBytes)).mpr
    (.inl ⟨by decide, nofun⟩)

/-- Six operations of the backup are enough for a `metadata.json`, and too few for `content`. -/
theorem not_inverse_torn :
    Admissible (some (.regular sampleFile)) ∧ ¬Inverse (some (.regular sampleFile)) (some 6) := by
  have hfile : sampleFile.content.length ≤ maxResolvBytes := by decide
  refine ⟨hfile, fun h => ?_⟩
  rcases (inverse_regular hfile).mp h with ⟨-, htwelve⟩ | ⟨n, hn, hcut⟩
  · exact absurd (htwelve 6 rfl) (by decide)
  · cases hcut
    exact absurd hn (by decide)

end Inverse

end LandscapeKit.Service.Resolv
