import LandscapeKit.HostnetAtomic

/-!
What a run does to files that are not its own, and what is left of its own: it overwrites an
entry of the outside process only where that is a state it has planned for, and its temporary
files are gone unless their removal failed.
-/

namespace LandscapeKit.Hostnet

open Faults Faults.Prog

/-- Nothing has been overwritten but what `Allowed` says, and no temporary file is left but
`except`, those that were there at the start (`base`) and those that could not be removed. -/
structure Clean (process : Process) (dest : Text) (Allowed : Text → Entry → Prop)
    (base : Text → Option Entry) (except : Option Text) (s : Sys) : Prop where
  tame : Tame (Scratch process dest) s
  tidy : ∀ p, Scratch process dest p → (s.author p).isForeign = false
  log : ∀ p, ∀ x ∈ s.overwritten p, Allowed p x
  temps : ∀ p, IsTemp process p → except ≠ some p → p ∉ s.unremoved →
    ∀ c m, s.files p = some (.file c m) → base p = some (.file c m)

section Changes

variable {process : Process} {dest p q tmp : Text} {Allowed : Text → Entry → Prop}
  {base : Text → Option Entry} {except : Option Text} {s t : Sys}

theorem stable_clean : Stable (Clean process dest Allowed base except) := by
  intro s t hst hs
  refine ⟨stable_tame s t hst hs.tame, ?_, ?_, ?_⟩
  · intro p hp
    rw [(hst.own hs.tame hp).2]
    exact hs.tidy p hp
  · intro p
    rw [hst.overwritten]
    exact hs.log p
  · intro p hp
    rw [hst.unremoved, (hst.own hs.tame (.inl hp)).1]
    exact hs.temps p hp

theorem Clean.weaken (h : Clean process dest Allowed base none s) (except : Option Text) :
    Clean process dest Allowed base except s :=
  ⟨h.tame, h.tidy, h.log, fun p hp _ => h.temps p hp (by simp)⟩

theorem Clean.overwrite (h : Clean process dest Allowed base except s) {entry : Option Entry}
    (hq : Scratch process dest q ∨ ∀ x, s.files q = some x → Allowed q x)
    (hentry : IsTemp process q → except = some q ∨ ∀ c m, entry ≠ some (.file c m)) :
    Clean process dest Allowed base except (s.overwrite q entry) := by
  refine ⟨h.tame, ?_, ?_, ?_⟩
  · intro p hp
    by_cases he : p = q
    · rw [he, overwrite_author_self]
      rfl
    · rw [overwrite_author_of_ne s entry he]
      exact h.tidy p hp
  · intro p x hx
    simp only [Sys.overwrite, Sys.overwriteAll] at hx
    split at hx
    · rename_i hforeign
      obtain ⟨htouched, hforeign⟩ := hforeign
      obtain rfl : p = q := by simpa using htouched
      rcases List.mem_append.mp hx with hx | hx
      · rcases hq with hq | hq
        · rw [h.tidy p hq] at hforeign
          cases hforeign
        · exact hq x (Option.mem_toList.mp hx)
      · exact h.log p x hx
    · exact h.log p x hx
  · intro p hp hexcept hremoved c m hfile
    by_cases he : p = q
    · subst he
      rw [overwrite_files_self] at hfile
      rcases hentry hp with h' | h'
      · exact absurd h' hexcept
      · exact absurd hfile (h' c m)
    · rw [overwrite_files_of_ne s entry he] at hfile
      exact h.temps p hp hexcept hremoved c m hfile

theorem Clean.settled (h : Clean process dest Allowed base (some tmp) s)
    (hgone : tmp ∈ s.unremoved ∨ s.files tmp = none) :
    Clean process dest Allowed base none s := by
  refine ⟨h.tame, h.tidy, h.log, ?_⟩
  intro p hp _ hremoved c m hfile
  by_cases he : p = tmp
  · subst he
    rcases hgone with hgone | hgone
    · exact absurd hgone hremoved
    · rw [hgone] at hfile
      cases hfile
  · exact h.temps p hp (fun hsome => he (Option.some.inj hsome).symm) hremoved c m hfile

end Changes

section Writes

variable {process : Process} {dest tmp path dir : Text} {Allowed : Text → Entry → Prop}
  {base : Text → Option Entry} {bytes : Content} {metadata : Option FileMetadata}
  {expected : Option (Content × FileMetadata)}

def Target (process : Process) (dest : Text) (Allowed : Text → Entry → Prop) (path : Text)
    (expected : Option (Content × FileMetadata)) : Prop :=
  ¬ IsTemp process path ∧ (Scratch process dest path ∨
    ∃ c m, expected = some (c, m) ∧ Allowed path (.file c m))

theorem amend_clean {error : HostNetError} {f : Entry → Entry} {part : Fault → Entry → Entry}
    (htmp : IsTemp process tmp) :
    Spec (Clean process dest Allowed base (some tmp)) (amend error tmp f part)
      (fun _ => Clean process dest Allowed base (some tmp))
      fun _ => Clean process dest Allowed base (some tmp) := by
  apply call_spec (stable_clean.advance false)
  · intro s a t hs ha
    cases ha
    exact hs.overwrite (.inl (.inl htmp)) fun _ => .inl rfl
  · exact fun s hs _ => hs
  · exact fun s fault hs => hs.overwrite (.inl (.inl htmp)) fun _ => .inl rfl

theorem fill_clean (htmp : IsTemp process tmp) :
    Spec (Clean process dest Allowed base (some tmp)) (fill tmp bytes metadata)
      (fun _ => Clean process dest Allowed base (some tmp))
      fun _ => Clean process dest Allowed base (some tmp) := by
  apply Triple.bind (amend_clean htmp)
  intro _
  cases metadata with
  | none =>
    apply Triple.bind (amend_clean htmp)
    intro _
    exact looks_spec stable_clean
  | some metadata =>
    apply Triple.bind (amend_clean htmp)
    intro _
    apply Triple.bind (amend_clean htmp)
    intro _
    exact looks_spec stable_clean

theorem rename_clean {within : Bool} {P : Sys → Prop} (htmp : IsTemp process tmp)
    (hpath : ¬ IsTemp process path) (hP : ∀ s, P s → P (s.advance within))
    (hclean : ∀ s, P s → Clean process dest Allowed base (some tmp) s)
    (htarget : ∀ s, P s → Scratch process dest path ∨ ∀ x, s.files path = some x → Allowed path x) :
    Spec P (rename within tmp path) (fun _ => Clean process dest Allowed base none)
      fun _ => Clean process dest Allowed base (some tmp) := by
  apply call_spec hP
  · intro s a t hs ha
    have hdone (entry : Entry) : Clean process dest Allowed base none
        ((s.overwrite path (some entry)).overwrite tmp none) := by
      have h1 : Clean process dest Allowed base (some tmp) (s.overwrite path (some entry)) :=
        (hclean s hs).overwrite (htarget s hs) fun h => absurd h hpath
      have h2 : Clean process dest Allowed base (some tmp)
          ((s.overwrite path (some entry)).overwrite tmp none) :=
        h1.overwrite (.inl (.inl htmp)) fun _ => .inl rfl
      exact h2.settled (.inr (overwrite_files_self ..))
    split at ha
    · cases ha
    · cases ha
    · cases ha
      exact hdone _
  · exact fun s hs _ => hclean s hs
  · exact fun s _ hs => hclean s hs

theorem checkAndRename_clean (htmp : IsTemp process tmp)
    (htarget : Target process dest Allowed path expected) :
    Spec (Clean process dest Allowed base (some tmp)) (checkAndRename tmp path expected)
      (fun _ => Clean process dest Allowed base none)
      fun _ => Clean process dest Allowed base (some tmp) := by
  obtain ⟨hpath, htarget⟩ := htarget
  unfold checkAndRename
  split
  · rename_i c m
    have hadvance : ∀ s, Clean process dest Allowed base (some tmp) s ∧
        s.files path = some (.file c m) →
        Clean process dest Allowed base (some tmp) (s.advance true) ∧
          (s.advance true).files path = some (.file c m) :=
      fun s hs => ⟨stable_clean.advance true s hs.1, hs.2⟩
    apply Triple.bind (verifySnapshot_spec (fun w s hs => stable_clean.advance w s hs)
      fun s hs => ⟨stable_clean.advance true s hs, rfl⟩)
    intro _
    apply Triple.bind ((rejectSymlinkTarget_spec hadvance).consequence (fun s hs => hs)
      (fun _ s hs => hs) (fun _ s hs => hs.1) fun s hs => hs)
    intro _
    apply rename_clean htmp hpath hadvance fun s hs => hs.1
    intro s hs
    rcases htarget with h | ⟨c', m', he, hallowed⟩
    · exact .inl h
    · right
      intro x hx
      cases he
      rw [hs.2] at hx
      rw [← Option.some.inj hx]
      exact hallowed
  · have hscratch : Scratch process dest path := by
      rcases htarget with h | ⟨c, m, he, -⟩
      · exact h
      · cases he
    apply Triple.bind (looks_spec stable_clean)
    intro _
    exact rename_clean htmp hpath (stable_clean.advance false) (fun s hs => hs)
      fun s hs => .inl hscratch

theorem removeFile_clean (htmp : IsTemp process tmp) :
    Spec (Clean process dest Allowed base (some tmp)) (removeFile tmp)
      (fun _ => Clean process dest Allowed base none)
      fun _ => Clean process dest Allowed base none := by
  apply call_spec (stable_clean.advance false)
  · intro s a t hs ha
    split at ha
    · cases ha
    · cases ha
      have h : Clean process dest Allowed base (some tmp) (s.overwrite tmp none) :=
        hs.overwrite (.inl (.inl htmp)) fun _ => .inl rfl
      exact h.settled (.inr (overwrite_files_self ..))
  · intro s hs hnone
    split at hnone
    · rename_i hgone
      exact hs.settled (.inr hgone)
    · cases hnone
  · intro s fault hs
    have h : Clean process dest Allowed base (some tmp)
        { s with unremoved := tmp :: s.unremoved } :=
      ⟨hs.tame, hs.tidy, hs.log, fun p hp he hr =>
        hs.temps p hp he fun hmem => hr (List.mem_cons_of_mem _ hmem)⟩
    exact h.settled (.inl (List.mem_cons_self ..))

theorem writeAtomicChecked_clean (htarget : Target process dest Allowed path expected) :
    Spec (Clean process dest Allowed base none)
      (writeAtomicChecked process path bytes metadata expected)
      (fun _ => Clean process dest Allowed base none)
      fun _ => Clean process dest Allowed base none := by
  unfold writeAtomicChecked
  split
  · exact Triple.fail _ fun s hs => hs
  · exact Triple.fail _ fun s hs => hs
  rename_i dir name _ hname
  have hslash := (fileName_eq_some hname).1
  apply Triple.bind (looks_spec stable_clean)
  intro _
  have hcreate : Spec (Clean process dest Allowed base none) (createTemp process dir name)
      (fun tmp s => IsTemp process tmp ∧ Clean process dest Allowed base (some tmp) s)
      fun _ => Clean process dest Allowed base none := by
    apply createTemp_spec hslash (stable_clean.advance false)
    · exact fun s n hs => ⟨hs.tame, hs.tidy, hs.log, hs.temps⟩
    · intro s tmp m hs htmp _
      exact (hs.weaken (some tmp)).overwrite (.inl (.inl htmp)) fun _ => .inl rfl
  apply Triple.bind hcreate
  rintro tmp s ⟨htmp, hs⟩
  have hbody : Spec (Clean process dest Allowed base (some tmp))
      (fillAndRename dir tmp path bytes metadata expected)
      (fun _ => Clean process dest Allowed base none)
      fun _ => Clean process dest Allowed base (some tmp) := by
    apply Triple.bind (fill_clean htmp)
    intro _
    apply Triple.bind (checkAndRename_clean htmp htarget)
    intro _
    exact (looks_spec stable_clean).consequence (fun s hs => hs) (fun _ s hs => hs)
      (fun _ s hs => hs.weaken (some tmp)) fun s hs => hs
  apply Triple.bind hbody.attempt ?_ s hs
  intro result
  cases result with
  | ok u => exact Triple.pure _ fun s hs => hs
  | error e =>
    apply Triple.bind (removeFile_clean htmp).ignore
    intro _
    exact Triple.fail _ fun s hs => hs

end Writes

section Backups

variable {outside : Outside} {dest path : Text} {Allowed : Text → Entry → Prop}
  {base : Text → Option Entry}

theorem createDir_clean (hpath : Scratch outside.process dest path) :
    Spec (Clean outside.process dest Allowed base none) (createDir path)
      (fun _ => Clean outside.process dest Allowed base none)
      fun _ => Clean outside.process dest Allowed base none := by
  apply call_spec (stable_clean.advance false)
  · intro s a t hs ha
    split at ha
    · cases ha
    · cases ha
      exact hs.overwrite (.inl hpath) fun _ => .inr fun c m h => by cases h
  · exact fun s hs _ => hs
  · exact fun s _ hs => hs

theorem ensureDir_clean (hpath : Scratch outside.process dest path) :
    Spec (Clean outside.process dest Allowed base none) (ensureDir path)
      (fun _ => Clean outside.process dest Allowed base none)
      fun _ => Clean outside.process dest Allowed base none := by
  apply call_spec (stable_clean.advance false)
  · intro s a t hs ha
    split at ha
    · cases ha
    · cases ha
      exact hs
    · cases ha
      exact hs.overwrite (.inl hpath) fun _ => .inr fun c m h => by cases h
  · exact fun s hs _ => hs
  · exact fun s _ hs => hs

theorem Clean.removeAll {process : Process} {except : Option Text} {s : Sys}
    (h : Clean process dest Allowed base except s) {touched : Text → Bool}
    (htouched : ∀ p, touched p = true → Scratch process dest p) :
    Clean process dest Allowed base except (s.overwriteAll touched fun _ => none) := by
  refine ⟨h.tame, ?_, ?_, ?_⟩
  · intro p hp
    simp only [Sys.overwriteAll]
    split
    · rfl
    · exact h.tidy p hp
  · intro p x hx
    simp only [Sys.overwriteAll] at hx
    split at hx
    · rename_i hforeign
      rw [h.tidy p (htouched p hforeign.1)] at hforeign
      cases hforeign.2
    · exact h.log p x hx
  · intro p hp hexcept hremoved c m hfile
    simp only [Sys.overwriteAll] at hfile
    split at hfile
    · cases hfile
    · exact h.temps p hp hexcept hremoved c m hfile

theorem removeDirAll_clean :
    Spec (Clean outside.process dest Allowed base none) (removeDirAll dest)
      (fun _ => Clean outside.process dest Allowed base none)
      fun _ => Clean outside.process dest Allowed base none := by
  have hown (p : Text) (h : (decide (p = dest) || isBelow dest p) = true) :
      Scratch outside.process dest p := by
    rw [Bool.or_eq_true, decide_eq_true_eq] at h
    rcases h with h | h
    · exact .inr (.inl h)
    · exact .inr (.inr (.inl h))
  apply call_spec (stable_clean.advance false)
  · intro s a t hs ha
    cases ha
    exact hs.removeAll hown
  · exact fun s hs _ => hs
  · intro s fault hs
    apply hs.removeAll
    intro p hp
    rw [Bool.and_eq_true] at hp
    exact hown p hp.1

theorem not_isTemp_join {process : Process} {original dir name : Text}
    (horiginal : ¬ IsTemp process original) (hname : fileName original = some name) :
    ¬ IsTemp process (join dir name) := by
  obtain ⟨hslash, hne, hdots⟩ := fileName_eq_some hname
  rintro ⟨name', hname', htemp⟩
  rw [fileName_join hslash hne hdots] at hname'
  obtain rfl := Option.some.inj hname'
  exact horiginal ⟨name, hname, htemp⟩

theorem backupFiles_clean {edits : List Edit} (hedits : ∀ e ∈ edits, ¬ IsTemp outside.process e.path)
    (index : ℕ) :
    Spec (Clean outside.process dest Allowed base none) (backupFiles outside dest index edits)
      (fun _ => Clean outside.process dest Allowed base none)
      fun _ => Clean outside.process dest Allowed base none := by
  induction edits generalizing index with
  | nil => exact Triple.pure _ fun s hs => hs
  | cons edit edits ih =>
    rw [backupFiles]
    split
    · exact Triple.fail _ fun s hs => hs
    rename_i name hname
    have hdir : isBelow dest (join dest (Nat.toDigits 10 index)) = true := isBelow_join ..
    have hpath := isBelow_join_of_isBelow hdir name
    have htemp : ¬ IsTemp outside.process (join (join dest (Nat.toDigits 10 index)) name) :=
      not_isTemp_join (hedits edit (List.mem_cons_self ..)) hname
    apply Triple.bind (createDir_clean (.inr (.inr (.inl hdir))))
    intro _
    apply Triple.bind (looks_spec stable_clean)
    intro _
    apply Triple.bind (writeAtomicChecked_clean ⟨htemp, .inl (.inr (.inr (.inl hpath)))⟩)
    intro _
    apply Triple.bind (ih (fun e he => hedits e (List.mem_cons_of_mem _ he)) (index + 1))
    intro files
    exact Triple.pure _ fun s hs => hs

theorem manifest_not_isTemp {process : Process} (dest : Text) :
    ¬ IsTemp process (join dest "manifest.json".toList) := by
  rintro ⟨name, hname, -, hsuffix⟩
  rw [fileName_join (by decide +kernel) (by decide +kernel) (by decide +kernel)] at hname
  obtain rfl := Option.some.inj hname
  exact absurd hsuffix (by decide +kernel)

theorem backup_clean {edits : List Edit} (hedits : ∀ e ∈ edits, ¬ IsTemp outside.process e.path) :
    Spec (Clean outside.process dest Allowed base none) (backup outside edits dest)
      (fun _ => Clean outside.process dest Allowed base none)
      fun _ => Clean outside.process dest Allowed base none := by
  have hall : Spec (Clean outside.process dest Allowed base none) (backupAll outside edits dest)
      (fun _ => Clean outside.process dest Allowed base none)
      fun _ => Clean outside.process dest Allowed base none := by
    apply Triple.bind (backupFiles_clean hedits 0)
    intro files
    apply Triple.bind (writeAtomicChecked_clean
      ⟨manifest_not_isTemp dest, .inl (.inr (.inr (.inl (isBelow_join ..))))⟩)
    intro _
    exact Triple.pure _ fun s hs => hs
  have hto : Spec (Clean outside.process dest Allowed base none) (backupTo outside edits dest)
      (fun _ => Clean outside.process dest Allowed base none)
      fun _ => Clean outside.process dest Allowed base none := by
    unfold backupTo
    split
    · exact Triple.fail _ fun s hs => hs
    rename_i dir hdir
    have hdirs : Spec (Clean outside.process dest Allowed base none) (createDirAll dir)
        (fun _ => Clean outside.process dest Allowed base none)
        fun _ => Clean outside.process dest Allowed base none :=
      Triple.forEach_mem fun q hq => ensureDir_clean (.inr (.inr (.inr ⟨dir, hdir, hq⟩)))
    apply Triple.bind hdirs
    intro _
    apply Triple.bind (createDir_clean (.inr (.inl rfl)))
    intro _
    apply Triple.bind (looks_spec stable_clean)
    intro _
    apply Triple.bind hall.attempt
    intro result
    cases result with
    | ok manifest => exact Triple.pure _ fun s hs => hs
    | error e =>
      apply Triple.bind removeDirAll_clean.ignore
      intro _
      exact Triple.fail _ fun s hs => hs
  unfold backup
  apply Triple.ite
  · exact fun _ => Triple.fail _ fun s hs => hs
  intro _
  apply Triple.bind (looks_spec stable_clean)
  intro present
  apply Triple.ite
  · exact fun _ => Triple.fail _ fun s hs => hs
  intro _
  apply Triple.ite
  · exact fun _ => Triple.pure _ fun s hs => hs
  intro _
  apply Triple.bind (looks_spec stable_clean)
  intro _
  exact hto

end Backups

end LandscapeKit.Hostnet
