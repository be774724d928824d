import LandscapeKit.HostnetExecute

/-!
The guarded restore when nobody else is at work and every call does what it should: the files
are told apart first, and what is still as the run has left it is put back then
(`ifupdown/backup.rs`).
-/

namespace LandscapeKit.Hostnet

open Faults Faults.Prog

variable {process : Process} {edits : List Edit} {edit : Edit} {s t : Sys} {p : Text}

/-- The manifest is that of the plan: one absolute path and one backup for each edit, and the
backups hold the original contents. -/
structure Backed (s : Sys) (manifest : Manifest) (edits : List Edit) : Prop where
  version : manifest.schemaVersion = manifestSchemaVersion
  files : List.Forall₂ (fun file e => file.original = e.path ∧ file.metadata = e.metadata ∧
    isAbsolute e.path ∧ isAbsolute file.backup ∧
    ∃ m, s.files file.backup = some (.file (.utf8 e.originalContent) m)) manifest.files edits
  nodup : (edits.map (·.path)).Nodup
  named : ∀ e ∈ edits, fileName e.path ≠ none

/-- Nobody else is at work, no call fails, and whenever a file is to be written, one of the next
128 names for its temporary file is free. -/
structure Works (process : Process) (s : Sys) (edits : List Edit) : Prop where
  quiet : s.schedule = []
  sequence : s.sequence < 2 ^ 64
  temps : ∀ e ∈ edits, ∀ dir name, parent e.path = some dir → fileName e.path = some name →
    ∀ n, ∃ k < 128, s.files (join dir (tempName process name ((n + k) % 2 ^ 64))) = none

/-- Each file is treated for itself: what this plan has edited is as it was before, everything
else is untouched, and the answer says whether there was anything else. -/
structure Independent (edits : List Edit) (s : Sys) (r : Outcome HostNetError Unit × Sys) :
    Prop where
  edited : ∀ e ∈ edits, s.files e.path = some (editedEntry e) →
    r.2.files e.path = some (originalEntry e)
  others : ∀ p, (∀ e ∈ edits, e.path = p → s.files p ≠ some (editedEntry e)) →
    r.2.files p = s.files p
  answer : r.1 = .ok () ↔ ∀ e ∈ edits,
    s.files e.path = some (originalEntry e) ∨ s.files e.path = some (editedEntry e)

/-! ## Calls on a quiet system -/

section Quiet

variable {α : Type} {error : HostNetError} {within : Bool}

theorem advance_quiet (h : s.schedule = []) : s.advance within = s := by
  obtain ⟨files, sequence, schedule, author, overwritten, unremoved⟩ := s
  dsimp only at h
  subst h
  cases within <;> rfl

theorem call_quiet (h : s.schedule = []) (act : Sys → Option (α × Sys)) (part : Fault → Sys → Sys) :
    call within error act part s =
      match act s with
      | some (a, t) => (.ok a, t)
      | none => (.err error, s) := by
  have hfault : s.fault = none := by
    rw [Sys.fault, h]
    rfl
  cases hact : act s with
  | none => simp only [call, hfault, advance_quiet h, hact]
  | some r => simp only [call, hfault, advance_quiet h, hact]

theorem query_quiet (h : s.schedule = []) (ask : Sys → Option α) :
    query within error ask s =
      match ask s with
      | some a => (.ok a, s)
      | none => (.err error, s) := by
  rw [query, call_quiet h]
  cases ask s <;> rfl

theorem amend_quiet (h : s.schedule = []) (f : Entry → Entry) (part : Fault → Entry → Entry) :
    amend error p f part s = (.ok (), s.overwrite p ((s.files p).map f)) := by
  rw [amend, call_quiet h]

theorem captureMetadata_file {c : Content} {m : FileMetadata} (h : s.schedule = [])
    (hp : s.files p = some (.file c m)) : captureMetadata p s = (.ok m, s) := by
  have hquery : query false (.unreadableFile p) (fun s => s.files p) s = (.ok (.file c m), s) := by
    rw [query_quiet h, hp]
  exact bind_of_ok hquery

theorem captureMetadata_none (h : s.schedule = []) (hp : ∀ c m, s.files p ≠ some (.file c m)) :
    ∃ e, captureMetadata p s = (.err e, s) := by
  cases hs : s.files p with
  | none =>
    have hquery : query false (.unreadableFile p) (fun s => s.files p) s =
        (.err (.unreadableFile p), s) := by
      rw [query_quiet h, hs]
    exact ⟨_, bind_of_err hquery⟩
  | some entry =>
    have hquery : query false (.unreadableFile p) (fun s => s.files p) s = (.ok entry, s) := by
      rw [query_quiet h, hs]
    cases entry with
    | file c m => exact absurd hs (hp c m)
    | symlink through => exact ⟨_, bind_of_ok hquery⟩
    | other => exact ⟨_, bind_of_ok hquery⟩

theorem read_file {c : Content} {m : FileMetadata} (h : s.schedule = [])
    (hp : s.files p = some (.file c m)) : read within p s = (.ok c, s) := by
  rw [read, query_quiet h, hp]
  rfl

theorem verifySnapshot_file {c : Content} {m : FileMetadata} (h : s.schedule = [])
    (hp : s.files p = some (.file c m)) : verifySnapshot within p c m s = (.ok (), s) := by
  rw [verifySnapshot, bind_of_ok (captureMetadata_file h hp), if_neg (not_not.mpr rfl),
    bind_of_ok (read_file h hp), if_neg (not_not.mpr rfl)]
  rfl

theorem rejectSymlinkTarget_file {c : Content} {m : FileMetadata} (h : s.schedule = [])
    (hp : s.files p = some (.file c m)) : rejectSymlinkTarget within p s = (.ok (), s) := by
  have hquery : query within (.unreadableFile p) (fun s => some (s.files p)) s =
      (.ok (some (.file c m)), s) := by
    rw [query_quiet h, hp]
  exact bind_of_ok hquery

end Quiet

/-! ## One file is written -/

theorem parent_of_fileName {name : Text} (h : fileName p = some name) : ∃ dir, parent p = some dir := by
  unfold parent
  split
  · rename_i hp
    rcases hp with rfl | rfl <;> cases h
  · exact ⟨_, rfl⟩

section Write

variable {tmp dir name : Text} {bytes content : Content} {m m' : FileMetadata}

theorem createTempFrom_quiet (process : Process) {attempts : ℕ} (h : s.schedule = []) (hseq : s.sequence < 2 ^ 64)
    (hfree : ∃ k < attempts,
      s.files (join dir (tempName process name ((s.sequence + k) % 2 ^ 64))) = none) :
    ∃ tmp t, createTempFrom process dir name attempts s = (.ok tmp, t) ∧ t.schedule = [] ∧
      t.sequence < 2 ^ 64 ∧ s.files tmp = none ∧
      (∃ m, t.files tmp = some (.file (.utf8 []) m)) ∧ ∀ q, q ≠ tmp → t.files q = s.files q := by
  induction attempts generalizing s with
  | zero =>
    obtain ⟨k, hk, -⟩ := hfree
    omega
  | succ attempts ih =>
    let s' : Sys := { s with sequence := (s.sequence + 1) % 2 ^ 64 }
    let path := join dir (tempName process name s.sequence)
    have hquiet : s'.schedule = [] := h
    have hbound : s'.sequence < 2 ^ 64 := Nat.mod_lt _ (by decide)
    have hnext : createTempFrom process dir name (attempts + 1) s =
        ((openNew process path) >>= fun created =>
          if created then pure path else createTempFrom process dir name attempts) s' := rfl
    cases hs : s.files path with
    | none =>
      have hopen : openNew process path s' = (.ok true,
          s'.overwrite path (some (.file (.utf8 []) ⟨0o600, process.uid, process.gid⟩))) := by
        have hs' : s'.files path = none := hs
        rw [openNew, call_quiet hquiet, hs']
      refine ⟨path, _, hnext.trans (bind_of_ok hopen), hquiet, hbound, hs,
        ⟨_, overwrite_files_self ..⟩, fun q hq => ?_⟩
      exact overwrite_files_of_ne _ _ hq
    | some entry =>
      have hopen : openNew process path s' = (.ok false, s') := by
        have hs' : s'.files path = some entry := hs
        rw [openNew, call_quiet hquiet, hs']
      -- the next number is tried
      have hfree' : ∃ k < attempts,
          s'.files (join dir (tempName process name ((s'.sequence + k) % 2 ^ 64))) = none := by
        obtain ⟨k, hk, hnone⟩ := hfree
        cases k with
        | zero =>
          rw [Nat.add_zero, Nat.mod_eq_of_lt hseq, hs] at hnone
          cases hnone
        | succ k =>
          have hnumber : (s'.sequence + k) % 2 ^ 64 = (s.sequence + (k + 1)) % 2 ^ 64 := by
            show ((s.sequence + 1) % 2 ^ 64 + k) % 2 ^ 64 = (s.sequence + (k + 1)) % 2 ^ 64
            omega
          exact ⟨k, by omega, hnumber ▸ hnone⟩
      obtain ⟨tmp, t, hrun, hrest⟩ := ih hquiet hbound hfree'
      exact ⟨tmp, t, hnext.trans ((bind_of_ok hopen).trans hrun), hrest⟩

theorem fill_quiet (bytes : Content) (m : FileMetadata) {c : Content} {m₀ : FileMetadata}
    (h : s.schedule = [])
    (htmp : s.files tmp = some (.file c m₀)) :
    ∃ t, fill tmp bytes (some m) s = (.ok (), t) ∧ t.schedule = [] ∧ t.sequence = s.sequence ∧
      t.files tmp = some (.file bytes m) ∧ ∀ q, q ≠ tmp → t.files q = s.files q := by
  let step (f : Entry → Entry) (s : Sys) : Sys := s.overwrite tmp ((s.files tmp).map f)
  let written := step (Entry.setContent bytes) s
  let owned := step (Entry.setOwner m.uid m.gid) written
  let done := step (Entry.setMode m.mode) owned
  have hwrite : writeAll tmp bytes s = (.ok (), written) := amend_quiet h _ _
  have hown : fchown tmp m written = (.ok (), owned) := amend_quiet (s := written) h _ _
  have hmode : setPermissions tmp m.mode owned = (.ok (), done) := amend_quiet (s := owned) h _ _
  have hsync : syncAll tmp done = (.ok (), done) := query_quiet (s := done) h _
  have hself (f : Entry → Entry) (s : Sys) {x : Entry} (hx : s.files tmp = some x) :
      (step f s).files tmp = some (f x) := by
    show (s.overwrite tmp ((s.files tmp).map f)).files tmp = some (f x)
    rw [overwrite_files_self, hx, Option.map_some]
  refine ⟨done, ?_, h, rfl, hself _ _ (hself _ _ (hself _ _ htmp)), fun q hq => ?_⟩
  · rw [fill, bind_of_ok hwrite]
    exact (bind_of_ok hown).trans ((bind_of_ok hmode).trans hsync)
  · have hother (f : Entry → Entry) (s : Sys) : (step f s).files q = s.files q :=
      overwrite_files_of_ne s _ hq
    rw [hother, hother, hother]

theorem writeAtomicChecked_quiet (h : s.schedule = []) (hseq : s.sequence < 2 ^ 64)
    (hp : s.files p = some (.file content m)) (hname : fileName p ≠ none)
    (htemps : ∀ dir name, parent p = some dir → fileName p = some name → ∀ n,
      ∃ k < 128, s.files (join dir (tempName process name ((n + k) % 2 ^ 64))) = none) :
    ∃ t, writeAtomicChecked process p bytes (some m') (some (content, m)) s = (.ok (), t) ∧
      t.schedule = [] ∧ t.sequence < 2 ^ 64 ∧ t.files p = some (.file bytes m') ∧
      ∀ q, q ≠ p → t.files q = s.files q := by
  cases hn : fileName p with
  | none => exact absurd hn hname
  | some name =>
    obtain ⟨dir, hdir⟩ := parent_of_fileName hn
    obtain ⟨k, hk, hfree⟩ := htemps dir name hdir hn s.sequence
    obtain ⟨tmp, t₁, hcreate, hquiet₁, hseq₁, hnone, ⟨m₀, htmp⟩, hrest₁⟩ :=
      createTempFrom_quiet process h hseq ⟨k, hk, hfree⟩
    have hne : p ≠ tmp := by
      rintro rfl
      rw [hp] at hnone
      cases hnone
    obtain ⟨t₂, hfill, hquiet₂, hseq₂, htmp₂, hrest₂⟩ :=
      fill_quiet bytes m' hquiet₁ htmp
    have hp₂ : t₂.files p = some (.file content m) := by
      rw [hrest₂ p hne, hrest₁ p hne, hp]
    let t := (t₂.overwrite p (some (.file bytes m'))).overwrite tmp none
    have hrename : rename true tmp p t₂ = (.ok (), t) := by
      rw [rename, call_quiet hquiet₂, htmp₂, hp₂]
    have hcheck : checkAndRename tmp p (some (content, m)) t₂ = (.ok (), t) := by
      rw [checkAndRename, bind_of_ok (verifySnapshot_file hquiet₂ hp₂),
        bind_of_ok (rejectSymlinkTarget_file hquiet₂ hp₂), hrename]
    have hsync : syncAll dir t = (.ok (), t) := query_quiet (s := t) hquiet₂ _
    have hwhole : fillAndRename dir tmp p bytes (some m') (some (content, m)) t₁ = (.ok (), t) := by
      rw [fillAndRename, bind_of_ok hfill, bind_of_ok hcheck, hsync]
    refine ⟨t, ?_, hquiet₂, ?_, ?_, fun q hq => ?_⟩
    · rw [writeAtomicChecked, hdir, hn]
      dsimp only
      rw [bind_of_ok (rejectSymlinkTarget_file h hp), createTemp, bind_of_ok hcreate,
        bind_of_ok (attempt_of_ok hwhole)]
      rfl
    · show t₂.sequence < 2 ^ 64
      rw [hseq₂]
      exact hseq₁
    · show ((t₂.overwrite p (some (.file bytes m'))).overwrite tmp none).files p = _
      rw [overwrite_files_of_ne _ _ hne, overwrite_files_self]
    · show ((t₂.overwrite p (some (.file bytes m'))).overwrite tmp none).files q = _
      by_cases htq : q = tmp
      · -- the temporary file is gone again
        rw [htq, overwrite_files_self, hnone]
      · rw [overwrite_files_of_ne _ _ htq, overwrite_files_of_ne _ _ hq, hrest₂ q htq, hrest₁ q htq]

end Write

/-! ## The files are told apart -/

section Classify

variable {l : List ((ManifestFile × Content) × Edit)} {manifest : Manifest}

def toPutBack (s : Sys) (x : (ManifestFile × Content) × Edit) : Option Pending :=
  if s.files x.2.path = some (editedEntry x.2) ∧ s.files x.2.path ≠ some (originalEntry x.2) then
    some ⟨x.1.1.original, x.1.2, x.2⟩
  else none

theorem classify_regular (h : s.schedule = [])
    (hall : ∀ x ∈ l, ∃ c m, s.files x.2.path = some (.file c m)) :
    ∃ conflict, classify l s = (.ok (l.filterMap (toPutBack s), conflict), s) ∧
      (conflict = none ↔ ∀ x ∈ l, s.files x.2.path = some (originalEntry x.2) ∨
        s.files x.2.path = some (editedEntry x.2)) := by
  induction l with
  | nil => exact ⟨none, rfl, by simp⟩
  | cons x l ih =>
    obtain ⟨⟨file, original⟩, e⟩ := x
    obtain ⟨conflict, hrun, hiff⟩ := ih fun x hx => hall x (List.mem_cons_of_mem _ hx)
    obtain ⟨c, m, hfile⟩ := hall ((file, original), e) (List.mem_cons_self ..)
    dsimp only at hfile
    have hstart : classify (((file, original), e) :: l) s =
        (if m = e.metadata ∧ c = .utf8 e.originalContent then
            pure (l.filterMap (toPutBack s), conflict)
          else if m = e.metadata ∧ c = .utf8 e.content then
            pure (⟨file.original, original, e⟩ :: l.filterMap (toPutBack s), conflict)
          else pure (l.filterMap (toPutBack s), some (.concurrentModification e.path)) :
          Op (List Pending × Option HostNetError)) s := by
      rw [classify, bind_of_ok (captureMetadata_file h hfile), bind_of_ok (read_file h hfile),
        bind_of_ok hrun]
    have horiginal : s.files e.path = some (originalEntry e) ↔
        m = e.metadata ∧ c = .utf8 e.originalContent := by
      rw [hfile, originalEntry, Option.some.injEq, Entry.file.injEq, and_comm]
    have hedited : s.files e.path = some (editedEntry e) ↔
        m = e.metadata ∧ c = .utf8 e.content := by
      rw [hfile, editedEntry, Option.some.injEq, Entry.file.injEq, and_comm]
    rw [hstart, List.filterMap_cons, toPutBack]
    simp only [List.forall_mem_cons]
    by_cases ho : m = e.metadata ∧ c = .utf8 e.originalContent
    · have ho' := horiginal.mpr ho
      refine ⟨conflict, ?_, by simp only [ho', true_or, true_and, hiff]⟩
      rw [if_pos ho, if_neg fun hboth => hboth.2 ho']
      rfl
    · by_cases he : m = e.metadata ∧ c = .utf8 e.content
      · have he' := hedited.mpr he
        refine ⟨conflict, ?_, by simp only [he', or_true, true_and, hiff]⟩
        rw [if_neg ho, if_pos he, if_pos ⟨he', mt horiginal.mp ho⟩]
        rfl
      · refine ⟨some (.concurrentModification e.path), ?_, ?_⟩
        · rw [if_neg ho, if_neg he, if_neg fun hboth => he (hedited.mp hboth.1)]
          rfl
        · rw [horiginal, hedited]
          simp [ho, he]

theorem classify_irregular (h : s.schedule = [])
    (hsome : ∃ x ∈ l, ∀ c m, s.files x.2.path ≠ some (.file c m)) :
    ∃ e, classify l s = (.err e, s) := by
  induction l with
  | nil =>
    obtain ⟨x, hx, -⟩ := hsome
    exact absurd hx List.not_mem_nil
  | cons x l ih =>
    obtain ⟨⟨file, original⟩, e⟩ := x
    rw [classify]
    by_cases hfile : ∀ c m, s.files e.path ≠ some (.file c m)
    · obtain ⟨error, hmeta⟩ := captureMetadata_none h hfile
      exact ⟨error, bind_of_err hmeta⟩
    · push Not at hfile
      obtain ⟨c, m, hfile⟩ := hfile
      have hrest : ∃ x ∈ l, ∀ c m, s.files x.2.path ≠ some (.file c m) := by
        obtain ⟨x, hx, hno⟩ := hsome
        rcases List.mem_cons.mp hx with rfl | hx
        · exact absurd hfile (hno c m)
        · exact ⟨x, hx, hno⟩
      obtain ⟨error, hrun⟩ := ih hrest
      rw [bind_of_ok (captureMetadata_file h hfile), bind_of_ok (read_file h hfile)]
      exact ⟨error, bind_of_err hrun⟩

theorem readBackups_backed (h : s.schedule = []) (hb : Backed s manifest edits) :
    ∃ restoreFiles, readBackups manifest s = (.ok restoreFiles, s) ∧
      List.Forall₂ (fun r e => isBackupOf r e = true) restoreFiles edits := by
  obtain ⟨version, files⟩ := manifest
  obtain ⟨hversion, hfiles, -, -⟩ := hb
  dsimp only at hversion hfiles
  have hread : ∃ restoreFiles, readBackupFiles files s = (.ok restoreFiles, s) ∧
      List.Forall₂ (fun r e => isBackupOf r e = true) restoreFiles edits := by
    induction hfiles with
    | nil => exact ⟨[], rfl, .nil⟩
    | @cons file e files edits hfile _ ih =>
      obtain ⟨horiginal, hmetadata, habs, habs', m, hbackup⟩ := hfile
      obtain ⟨restoreFiles, hrun, hall⟩ := ih
      have hone : readBackup file s = (.ok (.utf8 e.originalContent), s) := by
        have hquery : query false (.unreadableFile file.backup) (fun s => s.files file.backup) s =
            (.ok (.file (.utf8 e.originalContent) m), s) := by
          rw [query_quiet h, hbackup]
        rw [readBackup, horiginal, habs, habs']
        exact (bind_of_ok hquery).trans (read_file h hbackup)
      refine ⟨(file, .utf8 e.originalContent) :: restoreFiles, ?_, .cons ?_ hall⟩
      · rw [readBackupFiles, bind_of_ok hone, bind_of_ok hrun]
        rfl
      · simp [isBackupOf, horiginal, hmetadata]
  obtain ⟨restoreFiles, hrun, hall⟩ := hread
  refine ⟨restoreFiles, ?_, hall⟩
  rw [readBackups, if_neg (not_not.mpr hversion), hrun]

end Classify

/-! ## The restore -/

section Restore

variable {manifest : Manifest}

theorem Works.congr (h : Works process s edits) (hquiet : t.schedule = [])
    (hseq : t.sequence < 2 ^ 64) (hnone : ∀ q, s.files q = none → t.files q = none) :
    Works process t edits := by
  refine ⟨hquiet, hseq, fun e he dir name hdir hname n => ?_⟩
  obtain ⟨k, hk, hfree⟩ := h.temps e he dir name hdir hname n
  exact ⟨k, hk, hnone _ hfree⟩

theorem forEach_putBack {pending : List Pending} (h : Works process s edits)
    (hnamed : ∀ e ∈ edits, fileName e.path ≠ none) (hnodup : (pending.map (·.path)).Nodup)
    (hfits : ∀ x ∈ pending, x.Fits edits ∧ s.files x.path = some (editedEntry x.edit)) :
    ∃ t, forEach (putBack process) pending s = (.ok (), t) ∧
      (∀ x ∈ pending, t.files x.path = some (originalEntry x.edit)) ∧
      ∀ p ∉ pending.map (·.path), t.files p = s.files p := by
  induction pending generalizing s with
  | nil => exact ⟨s, rfl, fun x hx => absurd hx List.not_mem_nil, fun p _ => rfl⟩
  | cons x pending ih =>
    rw [List.map_cons, List.nodup_cons] at hnodup
    obtain ⟨hfit, hx⟩ := hfits x (List.mem_cons_self ..)
    have hname : fileName x.path ≠ none := by
      rw [hfit.path]
      exact hnamed _ hfit.mem
    have htemps : ∀ dir name, parent x.path = some dir → fileName x.path = some name → ∀ n,
        ∃ k < 128, s.files (join dir (tempName process name ((n + k) % 2 ^ 64))) = none := by
      rw [hfit.path]
      exact h.temps _ hfit.mem
    obtain ⟨t₁, hone, hquiet, hseq, hself, hrest⟩ : ∃ t, putBack process x s = (.ok (), t) ∧
        t.schedule = [] ∧ t.sequence < 2 ^ 64 ∧
        t.files x.path = some (.file x.original x.edit.metadata) ∧
        ∀ q, q ≠ x.path → t.files q = s.files q :=
      writeAtomicChecked_quiet h.quiet h.sequence hx hname htemps
    have hworks : Works process t₁ edits := by
      apply h.congr hquiet hseq
      intro q hq
      rw [hrest q, hq]
      rintro rfl
      rw [hq] at hx
      cases hx
    have hfits' : ∀ y ∈ pending, y.Fits edits ∧ t₁.files y.path = some (editedEntry y.edit) := by
      intro y hy
      obtain ⟨hfity, hedited⟩ := hfits y (List.mem_cons_of_mem _ hy)
      refine ⟨hfity, ?_⟩
      rw [hrest y.path fun he => hnodup.1 (he ▸ List.mem_map_of_mem hy), hedited]
    obtain ⟨t, hrun, hback, hothers⟩ := ih hworks hnodup.2 hfits'
    refine ⟨t, ?_, fun y hy => ?_, fun p hp => ?_⟩
    · rw [forEach, bind_of_ok hone, hrun]
    · rcases List.mem_cons.mp hy with rfl | hy
      · rw [hothers _ hnodup.1, hself, hfit.original]
        rfl
      · exact hback y hy
    · rw [List.map_cons, List.mem_cons, not_or] at hp
      rw [hothers p hp.2, hrest p hp.1]

theorem toPutBack_edited {l : List ((ManifestFile × Content) × Edit)} {x : Pending}
    (hx : x ∈ l.filterMap (toPutBack s)) : s.files x.edit.path = some (editedEntry x.edit) ∧
      s.files x.edit.path ≠ some (originalEntry x.edit) := by
  obtain ⟨y, -, hput⟩ := List.mem_filterMap.mp hx
  unfold toPutBack at hput
  split at hput
  · rename_i hstate
    obtain rfl := Option.some.inj hput
    exact hstate
  · cases hput

theorem pending_fits {restoreFiles : List (ManifestFile × Content)}
    (hcheck : ¬ (restoreFiles.length ≠ edits.length ∨
      (restoreFiles.zip edits).any (fun x => !isBackupOf x.1 x.2) = true)) :
    (∀ x ∈ (restoreFiles.zip edits).filterMap (toPutBack s),
      x.Fits edits ∧ s.files x.path = some (editedEntry x.edit)) ∧
    ∀ e ∈ edits, s.files e.path = some (editedEntry e) → s.files e.path ≠ some (originalEntry e) →
      ∃ x ∈ (restoreFiles.zip edits).filterMap (toPutBack s), x.path = e.path ∧ x.edit = e := by
  obtain ⟨hzip, hbackup⟩ := zip_edits hcheck
  constructor
  · intro x hx
    obtain ⟨⟨⟨file, original⟩, e⟩, hmem, hput⟩ := List.mem_filterMap.mp hx
    obtain ⟨hpath, horiginal⟩ := hbackup file original e hmem
    unfold toPutBack at hput
    split at hput
    · rename_i hstate
      obtain rfl := Option.some.inj hput
      have he : e ∈ edits := hzip ▸ List.mem_map_of_mem hmem
      exact ⟨⟨he, hpath, horiginal⟩, hpath ▸ hstate.1⟩
    · cases hput
  · intro e he hedited hne
    rw [← hzip, List.mem_map] at he
    obtain ⟨⟨⟨file, original⟩, e⟩, hmem, rfl⟩ := he
    refine ⟨⟨file.original, original, e⟩, List.mem_filterMap.mpr ⟨_, hmem, ?_⟩,
      (hbackup file original e hmem).1, rfl⟩
    exact if_pos ⟨hedited, hne⟩

theorem nodup_pending {pending : List Pending} (hnodup : (edits.map (·.path)).Nodup)
    (hsub : (pending.map (·.edit)).Sublist edits) (hfits : ∀ x ∈ pending, x.Fits edits) :
    (pending.map (·.path)).Nodup := by
  have hpaths : pending.map (·.path) = (pending.map (·.edit)).map (·.path) := by
    rw [List.map_map]
    apply List.map_congr_left
    exact fun x hx => (hfits x hx).path
  rw [hpaths]
  exact (hsub.map _).nodup hnodup

theorem restoreIfUnchanged_eq (process : Process) {restoreFiles : List (ManifestFile × Content)}
    (hread : readBackups manifest s = (.ok restoreFiles, s))
    (hcheck : ¬ (restoreFiles.length ≠ edits.length ∨
      (restoreFiles.zip edits).any (fun x => !isBackupOf x.1 x.2) = true)) :
    restoreIfUnchanged process manifest edits s =
      (classify (restoreFiles.zip edits) >>= fun found => do
        forEach (putBack process) found.1
        match found.2 with
        | some error => fail error
        | none => pure ()) s :=
  (bind_of_ok hread).trans (congrFun (if_neg hcheck) s)

/-- The guarded restore treats each file for itself exactly when every file of the plan can be
looked at, or none is as the plan has left it. -/
theorem restoreIfUnchanged_independent_iff (h : Works process s edits)
    (hb : Backed s manifest edits) :
    Independent edits s (restoreIfUnchanged process manifest edits s) ↔
      (∀ e ∈ edits, ∃ c m, s.files e.path = some (.file c m)) ∨
        ∀ e ∈ edits, s.files e.path = some (editedEntry e) → e.content = e.originalContent := by
  obtain ⟨restoreFiles, hread, hbackups⟩ := readBackups_backed h.quiet hb
  have hcheck : ¬ (restoreFiles.length ≠ edits.length ∨
      (restoreFiles.zip edits).any (fun x => !isBackupOf x.1 x.2) = true) := by
    rw [not_or, not_not]
    refine ⟨hbackups.length_eq, ?_⟩
    rw [Bool.not_eq_true, List.any_eq_false]
    rintro ⟨r, e⟩ hmem
    simp [(List.forall₂_iff_zip.mp hbackups).2 hmem]
  obtain ⟨hzip, hbackup⟩ := zip_edits hcheck
  have hmem (e : Edit) : e ∈ edits ↔ ∃ x ∈ restoreFiles.zip edits, x.2 = e := by
    rw [← hzip, List.mem_map]
    simp [hzip]
  have hstart := restoreIfUnchanged_eq process hread hcheck
  by_cases hall : ∀ e ∈ edits, ∃ c m, s.files e.path = some (.file c m)
  · obtain ⟨conflict, hrun, hiff⟩ := classify_regular (l := restoreFiles.zip edits) h.quiet
      fun x hx => hall x.2 ((hmem x.2).mpr ⟨x, hx, rfl⟩)
    obtain ⟨hsub, -⟩ := classify_pending hrun
    rw [hzip] at hsub
    obtain ⟨hfits, hpends⟩ := pending_fits (s := s) hcheck
    obtain ⟨t, hputs, hback, hothers⟩ := forEach_putBack h hb.named
      (nodup_pending hb.nodup hsub fun x hx => (hfits x hx).1) hfits
    obtain ⟨r, hend, hr⟩ : ∃ r, restoreIfUnchanged process manifest edits s = (r, t) ∧
        (r = .ok () ↔ conflict = none) := by
      cases conflict with
      | none => exact ⟨.ok (), by rw [hstart, bind_of_ok hrun, bind_of_ok hputs]; rfl, by simp⟩
      | some error =>
        exact ⟨.err error, by rw [hstart, bind_of_ok hrun, bind_of_ok hputs]; rfl, by simp⟩
    rw [hend]
    refine iff_of_true ⟨fun e he hedited => ?_, fun p hp => ?_, ?_⟩ (.inl hall)
    · by_cases horiginal : s.files e.path = some (originalEntry e)
      · -- it reads the same as before, and nothing is to be put back
        rw [← horiginal]
        apply hothers
        intro hmem'
        obtain ⟨x, hx, hpath⟩ := List.mem_map.mp hmem'
        obtain ⟨-, hne⟩ := (toPutBack_edited hx)
        have hsame : x.edit = e := by
          have hinj := List.inj_on_of_nodup_map hb.nodup (hfits x hx).1.mem he
          exact hinj ((hfits x hx).1.path.symm.trans hpath)
        exact hne (hsame ▸ horiginal)
      · obtain ⟨x, hx, hpath, hedit⟩ := hpends e he hedited horiginal
        rw [← hpath, hback x hx, hedit]
    · apply hothers
      intro hmem'
      obtain ⟨x, hx, rfl⟩ := List.mem_map.mp hmem'
      obtain ⟨hfit, hedited⟩ := hfits x hx
      exact hp x.edit hfit.mem hfit.path.symm hedited
    · rw [hr, hiff]
      constructor
      · intro hstates e he
        obtain ⟨x, hx, rfl⟩ := (hmem e).mp he
        exact hstates x hx
      · exact fun hstates x hx => hstates x.2 ((hmem x.2).mpr ⟨x, hx, rfl⟩)
  · push Not at hall
    obtain ⟨e₀, he₀, hno⟩ := hall
    obtain ⟨x, hx, rfl⟩ := (hmem e₀).mp he₀
    obtain ⟨error, hrun⟩ := classify_irregular h.quiet ⟨x, hx, hno⟩
    have hend : restoreIfUnchanged process manifest edits s = (.err error, s) := by
      rw [hstart, bind_of_err hrun]
    rw [hend]
    have hirregular : ¬ ∀ e ∈ edits, ∃ c m, s.files e.path = some (.file c m) := by
      intro hall
      obtain ⟨c, m, hfile⟩ := hall x.2 he₀
      exact hno c m hfile
    rw [or_iff_right hirregular]
    constructor
    · intro hind e he hedited
      have hsame := hind.edited e he hedited
      rw [hedited, editedEntry, originalEntry, Option.some.injEq, Entry.file.injEq,
        Content.utf8.injEq] at hsame
      exact hsame.1
    · intro hsame
      refine ⟨fun e he hedited => ?_, fun p _ => rfl, ?_⟩
      · rw [hedited, editedEntry, originalEntry, hsame e he hedited]
      · -- the file that cannot be looked at is in neither state
        refine iff_of_false (by simp) fun hstates => ?_
        rcases hstates x.2 he₀ with hfile | hfile
        · exact hno _ _ hfile
        · exact hno _ _ hfile

end Restore

/-! Two files, of which one has been edited. -/

section Samples

def restoreEdits : List Edit :=
  [⟨"/etc/a".toList, "auto a".toList, "".toList, ⟨0o644, 0, 0⟩⟩,
    ⟨"/etc/b".toList, "auto b".toList, "".toList, ⟨0o644, 0, 0⟩⟩]

def restoreManifest : Manifest :=
  ⟨1, [⟨"/etc/a".toList, "/bak/0/a".toList, ⟨0o644, 0, 0⟩⟩,
    ⟨"/etc/b".toList, "/bak/1/b".toList, ⟨0o644, 0, 0⟩⟩]⟩

def restoreSys (first : Option Entry) : Sys where
  files p :=
    if p = "/etc/a".toList then first
    else if p = "/etc/b".toList then some (.file (.utf8 "".toList) ⟨0o644, 0, 0⟩)
    else if p = "/bak/0/a".toList then some (.file (.utf8 "auto a".toList) ⟨0o600, 0, 0⟩)
    else if p = "/bak/1/b".toList then some (.file (.utf8 "auto b".toList) ⟨0o600, 0, 0⟩)
    else none

theorem restoreSys_backed (first : Option Entry) :
    Backed (restoreSys first) restoreManifest restoreEdits := by
  refine ⟨rfl, .cons ⟨rfl, rfl, rfl, rfl, ⟨0o600, 0, 0⟩, ?_⟩
    (.cons ⟨rfl, rfl, rfl, rfl, ⟨0o600, 0, 0⟩, ?_⟩ .nil), by decide, by decide⟩
  · rfl
  · rfl

theorem restoreSys_works (first : Option Entry) :
    Works ⟨1, 0, 0⟩ (restoreSys first) restoreEdits := by
  refine ⟨rfl, Nat.two_pow_pos 64, fun e he dir name hdir hname n => ⟨0, by decide, ?_⟩⟩
  have hetc : dir = "/etc".toList := by
    simp only [restoreEdits, List.mem_cons, List.not_mem_nil, or_false] at he
    rcases he with rfl | rfl <;> exact (Option.some.inj hdir).symm
  -- a hidden file is none of the four
  have hhidden (q : Text) (hq : (q.drop 5).head? = some '.') : (restoreSys first).files q = none := by
    simp only [restoreSys]
    repeat
      rw [if_neg]
      rotate_left
      · rintro rfl
        cases hq
  apply hhidden
  rw [hetc]
  rfl

def changedEntry : Entry := .file (.utf8 "auto c".toList) ⟨0o644, 0, 0⟩

/-- A changed file and an edited one: the edited one is put back. -/
theorem sample_restored :
    Independent restoreEdits (restoreSys (some changedEntry))
      (restoreIfUnchanged ⟨1, 0, 0⟩ restoreManifest restoreEdits
        (restoreSys (some changedEntry))) := by
  apply (restoreIfUnchanged_independent_iff (restoreSys_works _) (restoreSys_backed _)).mpr
  left
  intro e he
  simp only [restoreEdits, List.mem_cons, List.not_mem_nil, or_false] at he
  rcases he with rfl | rfl
  · exact ⟨_, _, rfl⟩
  · exact ⟨_, _, rfl⟩

/-- A removed file keeps the edited one from being put back. -/
theorem removed_keeps_edited :
    ¬ Independent restoreEdits (restoreSys none)
      (restoreIfUnchanged ⟨1, 0, 0⟩ restoreManifest restoreEdits (restoreSys none)) := by
  intro h
  have hback := h.edited ⟨"/etc/b".toList, "auto b".toList, "".toList, ⟨0o644, 0, 0⟩⟩
    (by decide) rfl
  have hstill : (restoreIfUnchanged ⟨1, 0, 0⟩ restoreManifest restoreEdits
      (restoreSys none)).2.files "/etc/b".toList =
        some (.file (.utf8 "".toList) ⟨0o644, 0, 0⟩) := by decide +kernel
  rw [hstill] at hback
  exact absurd hback (by decide)

end Samples

end LandscapeKit.Hostnet
