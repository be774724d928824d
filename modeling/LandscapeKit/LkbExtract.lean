import LandscapeKit.LkbRoundTrip
import LandscapeKit.PublishExtract

/-!
What `extract_lkb` does to the disk around its target directory (`backup/lkb/read.rs`). The
payload is a stream of entries that may break off anywhere, and whatever was created until then
stays. A target directory that is not there before has no symbolic links in it, so the way to an
entry is made of directories this run has created.
-/

namespace LandscapeKit.Lkb

open Bytes Formats

/-- An entry of the tar stream: what its data holds as far as it can be read, and how copying
it ends. -/
structure PayloadEntry where
  name : OsName
  kind : TarKind
  content : Bytes
  copied : Read Unit

/-- What the decoder makes of the bytes behind the metadata. -/
abbrev Payload := Bytes → List (Read PayloadEntry)

/-- The entries the archive must have. -/
def requireAll (st : Unpacked) : Read Unit := do
  requireFile st "landscape-webserver"
  requireFile st "landscape_init.toml"
  requireFile st "static.zip"
  requireDir st "static"
  requireDir st "geo_tmp"

namespace Crates

variable (C : Crates)

/-- One turn of the loop. The disk it leaves is what was done before the error, if there is
one. -/
def extractEntry (base : Path) (st : Unpacked) (entry : PayloadEntry) : Unpacked × Read Unit :=
  let name := C.displayed entry.name
  if isAbsolute name ∨ '\\' ∈ name.toList then
    (st, invalid ("tar entry " ++ name ++ " is not a safe relative path"))
  else match zipPathParts name with
  | .error _ => (st, invalid ("tar entry " ++ name ++ " has an unsafe path"))
  | .ok [] => (st, .ok ())
  | .ok (p :: ps) =>
    if entry.kind = .other then
      (st, invalid ("tar entry " ++ name ++ " is not a regular file or directory"))
    else
      let normalized := joined (p :: ps)
      if normalized = "static.zip" ∧ entry.kind ≠ .file then
        (st, invalid "static.zip must be a regular file")
      else
        let target := follow base normalized
        if entry.kind = .dir then
          match createSecureDir st.fs target with
          | .error e => (st, .error e)
          | .ok fs => ({ st with fs := fs, dirs := normalized :: st.dirs }, .ok ())
        else
          match createSecureDir st.fs target.dropLast with
          | .error e => (st, .error e)
          | .ok fs =>
            match createFileMode fs target entry.content with
            | .error e => ({ st with fs := fs }, .error e)
            | .ok fs =>
              match entry.copied with
              | .error e => ({ st with fs := fs }, .error e)
              | .ok () => ({ st with fs := fs, files := normalized :: st.files }, .ok ())

def extractEntries (base : Path) (st : Unpacked) : List (Read PayloadEntry) → Unpacked × Read Unit
  | [] => (st, .ok ())
  | .error e :: _ => (st, .error e)
  | .ok entry :: rest =>
    match C.extractEntry base st entry with
    | (st, .error e) => (st, .error e)
    | (st, .ok ()) => extractEntries base st rest

/-- `extract_lkb`: the disk it leaves, and the metadata or an error. -/
def extractLkbAt (payload : Payload) (bytes : Bytes) (base : Path) (fs : Files Bytes) :
    Files Bytes × Read Metadata :=
  match C.verifyLkb bytes with
  | .error e => (fs, .error e)
  | .ok metadata =>
    match createSecureDir fs base with
    | .error e => (fs, .error e)
    | .ok fs =>
      match C.extractEntries base ⟨fs, [], []⟩ (payload (bytes.drop metadataCapacity)) with
      | (st, .error e) => (st.fs, .error e)
      | (st, .ok ()) => (st.fs, (requireAll st).map fun _ => metadata)

/-- The place of an entry below the target directory. -/
def place (entry : PayloadEntry) : Option Path :=
  match zipPathParts (C.displayed entry.name) with
  | .ok (p :: ps) => some (p :: ps)
  | _ => none

end Crates

/-! ## Names -/

section Names

variable {ps : Path}

theorem collectParts_safe {texts : List String} (h : collectParts texts = .ok ps) :
    ∀ p ∈ ps, IsName p := by
  induction texts generalizing ps with
  | nil =>
    obtain rfl := Except.ok.inj h
    simp
  | cons text rest ih =>
    unfold collectParts at h
    split at h
    · exact ih h
    · next hempty =>
      split at h
      · cases h
      · next hdots =>
        split at h
        · cases h
        · cases hrest : collectParts rest with
          | error e => simp [hrest, Except.map] at h
          | ok qs =>
            rw [hrest] at h
            obtain rfl := Except.ok.inj h
            intro p hp
            rcases List.mem_cons.mp hp with rfl | hp
            · exact ⟨hempty, fun he => hdots (.inl he), fun he => hdots (.inr he)⟩
            · exact ih hrest p hp

theorem zipPathParts_safe {name : String} (h : zipPathParts name = .ok ps) :
    (∀ p ∈ ps, IsName p) ∧ ∀ p ∈ ps, '/' ∉ p.toList := by
  unfold zipPathParts at h
  split at h
  · cases h
  · refine ⟨collectParts_safe h, fun p hp => ?_⟩
    obtain ⟨hmem, -⟩ := Publish.collectParts_names h p hp
    obtain ⟨cs, hcs, rfl⟩ := List.mem_map.mp hmem
    rw [String.toList_ofList]
    exact Text.not_mem_of_mem_splitOn hcs

theorem parts_joined (hne : ps ≠ []) (hslash : ∀ p ∈ ps, '/' ∉ p.toList) :
    parts (joined ps) = ps := by
  have hsplit : (List.intercalate ['/'] (ps.map String.toList)).splitOn '/' =
      ps.map String.toList := by
    apply List.splitOn_intercalate
    · intro l hl
      obtain ⟨p, hp, rfl⟩ := List.mem_map.mp hl
      exact hslash p hp
    · simpa using hne
  rw [parts, joined, String.toList_ofList, hsplit, List.map_map]
  simp [Function.comp_def]

theorem follow_joined {name : String} {base : Path} (h : zipPathParts name = .ok ps)
    (hne : ps ≠ []) : follow base (joined ps) = base ++ ps := by
  obtain ⟨hnames, hslash⟩ := zipPathParts_safe h
  obtain ⟨init, last, rfl⟩ : ∃ init last, ps = init ++ [last] :=
    ⟨ps.dropLast, ps.getLast hne, (List.dropLast_append_getLast hne).symm⟩
  have hinit : ∀ p ∈ init, IsName p := fun p hp => hnames p (by simp [hp])
  rw [follow_of_parts (parts_joined hne hslash) hinit, enter_name (hnames last (by simp)),
    List.append_assoc]

end Names

/-! ## What one entry does -/

open Unpack (Passable)

section Entry

variable {C : Crates} {base : Path} {st : Unpacked} {entry : PayloadEntry} {ps : Path}

theorem createSecureDir_eq_ok_iff {fs fs' : Files Bytes} {p : Path} :
    createSecureDir fs p = .ok fs' ↔ Passable fs p ∧ fs.makeDirs p = fs' := by
  have hmem : (∀ q ∈ p.inits, fs q = none ∨ fs q = some .dir) ↔ Passable fs p := by
    simp [Passable, List.mem_inits]
  unfold createSecureDir
  by_cases h : Passable fs p
  · rw [if_pos (hmem.mpr h)]
    simp [h]
  · rw [if_neg (mt hmem.mp h)]
    simp [h]

theorem place_eq_some (h : C.place entry = some ps) :
    zipPathParts (C.displayed entry.name) = .ok ps ∧ ps ≠ [] := by
  unfold Crates.place at h
  split at h
  · next p qs hparts =>
    obtain rfl := Option.some.inj h
    exact ⟨hparts, List.cons_ne_nil _ _⟩
  · cases h

theorem base_append_dropLast (h : ps ≠ []) : (base ++ ps).dropLast = base ++ ps.dropLast :=
  List.dropLast_append_of_ne_nil h

/-- What a turn of the loop can do: nothing, make a directory, or create a file after the
directories above it; a file that is there already is left alone. -/
inductive Turn (C : Crates) (base : Path) (st : Unpacked) (entry : PayloadEntry) :
    Unpacked × Read Unit → Prop
  | refused (e : Fault) : Turn C base st entry (st, .error e)
  | skipped : C.place entry = none → Turn C base st entry (st, .ok ())
  | dir {ps : Path} : C.place entry = some ps → entry.kind = .dir →
      Passable st.fs (base ++ ps) →
      Turn C base st entry
        ({ st with fs := st.fs.makeDirs (base ++ ps), dirs := joined ps :: st.dirs }, .ok ())
  | taken {ps : Path} (e : Fault) : C.place entry = some ps →
      Passable st.fs (base ++ ps.dropLast) →
      Turn C base st entry ({ st with fs := st.fs.makeDirs (base ++ ps.dropLast) }, .error e)
  | broken {ps : Path} (e : Fault) : C.place entry = some ps →
      Passable st.fs (base ++ ps.dropLast) → st.fs (base ++ ps) = none →
      Turn C base st entry ({ st with
        fs := (st.fs.makeDirs (base ++ ps.dropLast)).put (base ++ ps) (.file entry.content) },
        .error e)
  | file {ps : Path} : C.place entry = some ps → entry.kind = .file → entry.copied = .ok () →
      Passable st.fs (base ++ ps.dropLast) → st.fs (base ++ ps) = none →
      Turn C base st entry ({ st with
        fs := (st.fs.makeDirs (base ++ ps.dropLast)).put (base ++ ps) (.file entry.content)
        files := joined ps :: st.files }, .ok ())

theorem makeDirs_parent {fs : Files Bytes} (h : ps ≠ []) :
    fs.makeDirs (base ++ ps.dropLast) (base ++ ps) = fs (base ++ ps) := by
  have hne : base ++ ps ≠ [] := by simp [h]
  rw [← base_append_dropLast h]
  exact Publish.makeDirs_dropLast fs hne

theorem extractEntry_turn : Turn C base st entry (C.extractEntry base st entry) := by
  unfold Crates.extractEntry
  simp only
  split
  · exact .refused _
  · split
    · exact .refused _
    · next hparts =>
      apply Turn.skipped
      simp [Crates.place, hparts]
    · next p qs hparts =>
      have hplace : C.place entry = some (p :: qs) := by simp [Crates.place, hparts]
      have htarget : follow base (joined (p :: qs)) = base ++ p :: qs :=
        follow_joined hparts (List.cons_ne_nil _ _)
      rw [htarget, base_append_dropLast (List.cons_ne_nil _ _)]
      split
      · exact .refused _
      · next hother =>
        split
        · exact .refused _
        · split
          · next hdir =>
            cases hmade : createSecureDir st.fs (base ++ p :: qs) with
            | error e => exact .refused _
            | ok fs =>
              obtain ⟨hpass, rfl⟩ := createSecureDir_eq_ok_iff.mp hmade
              exact .dir hplace hdir hpass
          · next hdir =>
            -- neither a directory nor anything else that is refused
            have hfile : entry.kind = .file := by
              cases hk : entry.kind with
              | dir => exact absurd hk hdir
              | file => rfl
              | other => exact absurd hk hother
            cases hmade : createSecureDir st.fs (base ++ (p :: qs).dropLast) with
            | error e => exact .refused _
            | ok fs =>
              obtain ⟨hpass, rfl⟩ := createSecureDir_eq_ok_iff.mp hmade
              have hat : st.fs.makeDirs (base ++ (p :: qs).dropLast) (base ++ p :: qs) =
                  st.fs (base ++ p :: qs) := makeDirs_parent (List.cons_ne_nil p qs)
              cases hn : st.fs (base ++ p :: qs) with
              | some n =>
                simp only [createFileMode, hat, hn, reduceCtorEq, if_false]
                exact .taken _ hplace hpass
              | none =>
                simp only [createFileMode, hat, hn, if_true]
                cases hcopied : entry.copied with
                | error e => exact .broken _ hplace hpass hn
                | ok _ => exact .file hplace hfile hcopied hpass hn

end Entry

/-! ## What stays as it is -/

/-- The disk has only grown: what was there is as it was, and new are directories and regular
files, all of them inside the target directory. -/
structure Grown (base : Path) (fs fs' : Files Bytes) : Prop where
  kept : ∀ q n, fs q = some n → fs' q = some n
  below : ∀ q, fs' q ≠ fs q → Below base q
  plain : ∀ q, fs' q ≠ fs q → fs' q = some .dir ∨ ∃ c, fs' q = some (.file c)

section Grown

variable {C : Crates} {base : Path} {fs fs' fs'' : Files Bytes} {st : Unpacked} {ps : Path}

theorem Grown.refl (base : Path) (fs : Files Bytes) : Grown base fs fs :=
  ⟨fun _ _ h => h, fun _ h => absurd rfl h, fun _ h => absurd rfl h⟩

theorem Grown.trans (h : Grown base fs fs') (g : Grown base fs' fs'') : Grown base fs fs'' where
  kept q n hq := g.kept q n (h.kept q n hq)
  below q hq := by
    by_cases hmid : fs'' q = fs' q
    · exact h.below q (hmid ▸ hq)
    · exact g.below q hmid
  plain q hq := by
    by_cases hmid : fs'' q = fs' q
    · rw [hmid]
      exact h.plain q (hmid ▸ hq)
    · exact g.plain q hmid

/-- The target directory and all above it are there. -/
def Standing (base : Path) (fs : Files Bytes) : Prop := ∀ q, q <+: base → fs q ≠ none

theorem Standing.grown (h : Standing base fs) (g : Grown base fs fs') : Standing base fs' := by
  intro q hq hnone
  obtain ⟨n, hn⟩ := Option.ne_none_iff_exists'.mp (h q hq)
  rw [g.kept q n hn] at hnone
  cases hnone

theorem below_of_prefix (h : Standing base fs) {q : Path} (hq : q <+: base ++ ps)
    (hnone : fs q = none) : Below base q := by
  rcases List.prefix_or_prefix_of_prefix hq (List.prefix_append base ps) with hb | hb
  · exact absurd hnone (h q hb)
  · obtain ⟨rest, rfl⟩ := hb
    cases rest with
    | nil =>
      rw [List.append_nil] at hnone
      exact absurd hnone (h base List.prefix_rfl)
    | cons x xs => exact ⟨x, xs, rfl⟩

theorem grown_makeDirs (h : Standing base fs) (ps : Path) :
    Grown base fs (fs.makeDirs (base ++ ps)) := by
  have hcases (q : Path) : fs.makeDirs (base ++ ps) q = fs q ∨
      (q <+: base ++ ps ∧ fs q = none ∧ fs.makeDirs (base ++ ps) q = some .dir) := by
    by_cases hq : q <+: base ++ ps ∧ fs q = none
    · exact .inr ⟨hq.1, hq.2, by simp [Files.makeDirs, hq]⟩
    · exact .inl (by simp only [Files.makeDirs, hq, if_false])
  refine ⟨fun q n hn => ?_, fun q hq => ?_, fun q hq => ?_⟩
  · rcases hcases q with hsame | ⟨-, hnone, -⟩
    · rw [hsame, hn]
    · rw [hn] at hnone
      cases hnone
  · rcases hcases q with hsame | ⟨hpre, hnone, -⟩
    · exact absurd hsame hq
    · exact below_of_prefix h hpre hnone
  · rcases hcases q with hsame | ⟨-, -, hdir⟩
    · exact absurd hsame hq
    · exact .inl hdir

theorem grown_put {c : Bytes} (hps : ps ≠ []) (hnone : fs (base ++ ps) = none) :
    Grown base fs (fs.put (base ++ ps) (.file c)) := by
  have hother (q : Path) (hq : q ≠ base ++ ps) : fs.put (base ++ ps) (.file c) q = fs q :=
    Function.update_of_ne hq ..
  have hself : fs.put (base ++ ps) (.file c) (base ++ ps) = some (.file c) :=
    Function.update_self ..
  refine ⟨fun q n hn => ?_, fun q hq => ?_, fun q hq => ?_⟩
  · rw [hother q fun he => ?_, hn]
    rw [he, hnone] at hn
    cases hn
  · by_cases he : q = base ++ ps
    · obtain ⟨x, xs, rfl⟩ := List.exists_cons_of_ne_nil hps
      exact ⟨x, xs, he⟩
    · exact absurd (hother q he) hq
  · by_cases he : q = base ++ ps
    · rw [he]
      exact .inr ⟨c, hself⟩
    · exact absurd (hother q he) hq

theorem grown_create {c : Bytes} (h : Standing base fs) (hps : ps ≠ [])
    (hnone : fs (base ++ ps) = none) :
    Grown base fs ((fs.makeDirs (base ++ ps.dropLast)).put (base ++ ps) (.file c)) := by
  have hdirs := grown_makeDirs h ps.dropLast
  exact hdirs.trans (grown_put hps ((makeDirs_parent hps).trans hnone))

theorem Turn.grown {entry : PayloadEntry} {out : Unpacked × Read Unit}
    (h : Turn C base st entry out) (hs : Standing base st.fs) : Grown base st.fs out.1.fs := by
  cases h with
  | refused e => exact .refl ..
  | skipped _ => exact .refl ..
  | dir _ _ _ => exact grown_makeDirs hs _
  | taken e _ _ => exact grown_makeDirs hs _
  | broken e hplace _ hnone => exact grown_create hs (place_eq_some hplace).2 hnone
  | file hplace _ _ _ hnone => exact grown_create hs (place_eq_some hplace).2 hnone

theorem grown_extractEntries (entries : List (Read PayloadEntry)) (hs : Standing base st.fs) :
    Grown base st.fs (C.extractEntries base st entries).1.fs := by
  induction entries generalizing st with
  | nil => exact .refl ..
  | cons first rest ih =>
    cases first with
    | error e => exact .refl ..
    | ok entry =>
      have hturn : Turn C base st entry (C.extractEntry base st entry) := extractEntry_turn
      have hgrown := hturn.grown hs
      unfold Crates.extractEntries
      rcases hr : C.extractEntry base st entry with ⟨st', e | u⟩
      · rw [hr] at hgrown
        exact hgrown
      · rw [hr] at hgrown
        exact hgrown.trans (ih (hs.grown hgrown))

theorem extractEntries_append (xs ys : List (Read PayloadEntry)) :
    C.extractEntries base st (xs ++ ys) =
      match C.extractEntries base st xs with
      | (st', .error e) => (st', .error e)
      | (st', .ok ()) => C.extractEntries base st' ys := by
  induction xs generalizing st with
  | nil => rfl
  | cons first rest ih =>
    cases first with
    | error e => rfl
    | ok entry =>
      rw [List.cons_append, Crates.extractEntries, Crates.extractEntries]
      rcases C.extractEntry base st entry with ⟨st', e | u⟩
      · rfl
      · exact ih

end Grown

/-! ## What the entries have become -/

/-- Exactly one of the entries has this place, and it is a file that was read to its end. -/
def Sole (C : Crates) (entries : List PayloadEntry) (ps : Path) (content : Bytes) : Prop :=
  ∃ before entry after, entries = before ++ entry :: after ∧ C.place entry = some ps ∧
    entry.kind = .file ∧ entry.copied = .ok () ∧ entry.content = content ∧
    ∀ other ∈ before ++ after, C.place other ≠ some ps

/-- After the entries `done`: a listed file holds what its one entry held, a listed directory
is there, and the place of every entry is taken. -/
structure Accounts (C : Crates) (base : Path) (done : List PayloadEntry) (st : Unpacked) :
    Prop where
  files : ∀ name ∈ st.files, ∃ ps content, (∀ p ∈ ps, '/' ∉ p.toList) ∧ ps ≠ [] ∧
    joined ps = name ∧ Sole C done ps content ∧ st.fs (base ++ ps) = some (.file content)
  dirs : ∀ name ∈ st.dirs, ∃ ps, (∀ p ∈ ps, '/' ∉ p.toList) ∧ ps ≠ [] ∧ joined ps = name ∧
    st.fs (base ++ ps) = some .dir
  taken : ∀ entry ∈ done, ∀ ps, C.place entry = some ps → st.fs (base ++ ps) ≠ none

section Accounts

variable {C : Crates} {base : Path} {st : Unpacked} {done : List PayloadEntry}
  {entry : PayloadEntry} {ps : Path} {content : Bytes}

theorem place_slash (h : C.place entry = some ps) : ∀ p ∈ ps, '/' ∉ p.toList :=
  (zipPathParts_safe (place_eq_some h).1).2

theorem Sole.concat (h : Sole C done ps content) (hne : C.place entry ≠ some ps) :
    Sole C (done ++ [entry]) ps content := by
  obtain ⟨before, e, after, rfl, hplace, hkind, hcopied, hcontent, hother⟩ := h
  refine ⟨before, e, after ++ [entry], by simp, hplace, hkind, hcopied, hcontent, ?_⟩
  intro other hmem
  rw [← List.append_assoc, List.mem_append, List.mem_singleton] at hmem
  rcases hmem with hmem | rfl
  · exact hother other hmem
  · exact hne

theorem Accounts.step (h : Accounts C base done st) {st' : Unpacked}
    (hg : Grown base st.fs st'.fs)
    (hnew : ∀ ps content, C.place entry = some ps → st.fs (base ++ ps) ≠ some (.file content))
    (htaken : ∀ ps, C.place entry = some ps → st'.fs (base ++ ps) ≠ none)
    (hfiles : ∀ name ∈ st'.files, name ∈ st.files ∨ ∃ ps content, (∀ p ∈ ps, '/' ∉ p.toList) ∧
      ps ≠ [] ∧ joined ps = name ∧ Sole C (done ++ [entry]) ps content ∧
      st'.fs (base ++ ps) = some (.file content))
    (hdirs : ∀ name ∈ st'.dirs, name ∈ st.dirs ∨ ∃ ps, (∀ p ∈ ps, '/' ∉ p.toList) ∧ ps ≠ [] ∧
      joined ps = name ∧ st'.fs (base ++ ps) = some .dir) :
    Accounts C base (done ++ [entry]) st' := by
  refine ⟨fun name hname => ?_, fun name hname => ?_, fun e he qs hplace => ?_⟩
  · rcases hfiles name hname with hold | hnow
    · obtain ⟨qs, content, hslash, hne, hjoin, hsole, hat⟩ := h.files name hold
      refine ⟨qs, content, hslash, hne, hjoin, hsole.concat fun hplace => ?_, hg.kept _ _ hat⟩
      exact hnew qs content hplace hat
    · exact hnow
  · rcases hdirs name hname with hold | hnow
    · obtain ⟨qs, hslash, hne, hjoin, hat⟩ := h.dirs name hold
      exact ⟨qs, hslash, hne, hjoin, hg.kept _ _ hat⟩
    · exact hnow
  · rcases List.mem_append.mp he with hold | hlast
    · intro hnone
      obtain ⟨n, hn⟩ := Option.ne_none_iff_exists'.mp (h.taken e hold qs hplace)
      rw [hg.kept _ _ hn] at hnone
      cases hnone
    · rw [List.mem_singleton] at hlast
      subst hlast
      exact htaken qs hplace

theorem Accounts.turn {st' : Unpacked} (h : Accounts C base done st)
    (hs : Standing base st.fs) (ht : Turn C base st entry (st', .ok ())) :
    Accounts C base (done ++ [entry]) st' := by
  have hg := ht.grown hs
  cases ht with
  | skipped hplace =>
    have hnone (qs : Path) : C.place entry ≠ some qs := by simp [hplace]
    apply h.step hg
    · exact fun qs _ hqs => absurd hqs (hnone qs)
    · exact fun qs hqs => absurd hqs (hnone qs)
    · exact fun name hname => .inl hname
    · exact fun name hname => .inl hname
  | @dir ps hplace _ hpass =>
    have hhere : st.fs.makeDirs (base ++ ps) (base ++ ps) = some .dir := by
      rcases hpass _ List.prefix_rfl with hnone | hdir
      · simp [Files.makeDirs, hnone]
      · simp [Files.makeDirs, hdir]
    apply h.step hg
    · intro qs content hqs hat
      obtain rfl := Option.some.inj (hplace.symm.trans hqs)
      rcases hpass _ List.prefix_rfl with hnone | hdir
      · rw [hnone] at hat
        cases hat
      · rw [hdir] at hat
        cases hat
    · intro qs hqs
      obtain rfl := Option.some.inj (hplace.symm.trans hqs)
      simp [hhere]
    · exact fun name hname => .inl hname
    · intro name hname
      rcases List.mem_cons.mp hname with rfl | hold
      · exact .inr ⟨ps, place_slash hplace, (place_eq_some hplace).2, rfl, hhere⟩
      · exact .inl hold
  | @file ps hplace hkind hcopied _ hnone =>
    have hhere : (st.fs.makeDirs (base ++ ps.dropLast)).put (base ++ ps) (.file entry.content)
        (base ++ ps) = some (.file entry.content) := Function.update_self ..
    have hfree : ∀ other ∈ done, C.place other ≠ some ps := fun other hmem hother =>
      h.taken other hmem ps hother hnone
    apply h.step hg
    · intro qs content hqs hat
      obtain rfl := Option.some.inj (hplace.symm.trans hqs)
      rw [hnone] at hat
      cases hat
    · intro qs hqs
      obtain rfl := Option.some.inj (hplace.symm.trans hqs)
      simp [hhere]
    · intro name hname
      rcases List.mem_cons.mp hname with rfl | hold
      · refine .inr ⟨ps, entry.content, place_slash hplace, (place_eq_some hplace).2, rfl, ?_,
          hhere⟩
        exact ⟨done, entry, [], rfl, hplace, hkind, hcopied, rfl, by simpa using hfree⟩
      · exact .inl hold
    · exact fun name hname => .inl hname

theorem Accounts.run {entries : List (Read PayloadEntry)} {st' : Unpacked}
    (h : Accounts C base done st) (hs : Standing base st.fs)
    (hrun : C.extractEntries base st entries = (st', .ok ())) :
    ∃ more, entries = more.map .ok ∧ Accounts C base (done ++ more) st' := by
  induction entries generalizing done st with
  | nil =>
    obtain rfl : st = st' := congrArg Prod.fst hrun
    exact ⟨[], rfl, by simpa using h⟩
  | cons first rest ih =>
    cases first with
    | error e => simp [Crates.extractEntries] at hrun
    | ok entry =>
      have hturn : Turn C base st entry (C.extractEntry base st entry) := extractEntry_turn
      unfold Crates.extractEntries at hrun
      rcases hr : C.extractEntry base st entry with ⟨mid, e | u⟩
      · simp [hr] at hrun
      · rw [hr] at hturn hrun
        obtain ⟨more, rfl, haccounts⟩ := ih (h.turn hs hturn) (hs.grown (hturn.grown hs)) hrun
        exact ⟨entry :: more, rfl, by simpa using haccounts⟩

end Accounts

/-! ## The whole extraction -/

section Extraction

variable (C : Crates) (payload : Payload) (bytes : Bytes) (base : Path) (fs : Files Bytes)

theorem standing_makeDirs (base : Path) (fs : Files Bytes) : Standing base (fs.makeDirs base) := by
  intro q hq
  by_cases hnone : fs q = none
  · simp [Files.makeDirs, hq, hnone]
  · simp [Files.makeDirs, hnone]

theorem extractLkbAt_cases :
    (∀ payload, (C.extractLkbAt payload bytes base fs).1 = fs) ∨
    ∀ payload, (C.extractLkbAt payload bytes base fs).1 =
      (C.extractEntries base ⟨fs.makeDirs base, [], []⟩
        (payload (bytes.drop metadataCapacity))).1.fs := by
  unfold Crates.extractLkbAt
  cases hv : C.verifyLkb bytes with
  | error e => exact .inl fun payload => rfl
  | ok metadata =>
    cases hd : createSecureDir fs base with
    | error e => exact .inl fun payload => rfl
    | ok made =>
      obtain ⟨-, rfl⟩ := createSecureDir_eq_ok_iff.mp hd
      refine .inr fun payload => ?_
      simp only
      rcases C.extractEntries base ⟨fs.makeDirs base, [], []⟩
        (payload (bytes.drop metadataCapacity)) with ⟨st, e | u⟩
      · rfl
      · rfl

theorem extractLkbAt_ok {metadata : Metadata}
    (h : (C.extractLkbAt payload bytes base fs).2 = .ok metadata) :
    ∃ entries st, payload (bytes.drop metadataCapacity) = entries.map .ok ∧
      Accounts C base entries st ∧ requireAll st = .ok () ∧
      (C.extractLkbAt payload bytes base fs).1 = st.fs := by
  unfold Crates.extractLkbAt at h ⊢
  cases hv : C.verifyLkb bytes with
  | error e => simp [hv] at h
  | ok m =>
    cases hd : createSecureDir fs base with
    | error e => simp [hv, hd] at h
    | ok made =>
      obtain ⟨hpass, rfl⟩ := createSecureDir_eq_ok_iff.mp hd
      rcases hr : C.extractEntries base ⟨fs.makeDirs base, [], []⟩
        (payload (bytes.drop metadataCapacity)) with ⟨st, e | u⟩
      · simp [hv, hd, hr] at h
      · have hempty : Accounts C base [] ⟨fs.makeDirs base, [], []⟩ :=
          ⟨by simp, by simp, by simp⟩
        obtain ⟨entries, hentries, haccounts⟩ := hempty.run (standing_makeDirs base fs) hr
        simp only [hv, hd, hr] at h
        refine ⟨entries, st, hentries, by simpa using haccounts, ?_, by simp only [hr]⟩
        cases hreq : requireAll st with
        | error e => simp [hreq, Except.map] at h
        | ok _ => rfl

theorem Accounts.required_file {C : Crates} {base : Path} {done : List PayloadEntry}
    {st : Unpacked} (h : Accounts C base done st) {name : String} (hname : name ∈ st.files)
    (hslash : '/' ∉ name.toList) :
    ∃ content, Sole C done [name] content ∧ st.fs (base ++ [name]) = some (.file content) := by
  obtain ⟨ps, content, hps, hne, hjoin, hsole, hat⟩ := h.files name hname
  have hone : joined [name] = name := by simp [joined]
  obtain rfl : ps = [name] :=
    joined_inj hps (by simpa using hslash) hne (List.cons_ne_nil _ _) (hjoin.trans hone.symm)
  exact ⟨content, hsole, hat⟩

theorem Accounts.required_dir {C : Crates} {base : Path} {done : List PayloadEntry}
    {st : Unpacked} (h : Accounts C base done st) {name : String} (hname : name ∈ st.dirs)
    (hslash : '/' ∉ name.toList) : st.fs (base ++ [name]) = some .dir := by
  obtain ⟨ps, hps, hne, hjoin, hat⟩ := h.dirs name hname
  have hone : joined [name] = name := by simp [joined]
  obtain rfl : ps = [name] :=
    joined_inj hps (by simpa using hslash) hne (List.cons_ne_nil _ _) (hjoin.trans hone.symm)
  exact hat

theorem requireAll_eq_ok {st : Unpacked} (h : requireAll st = .ok ()) :
    (∀ name ∈ ["landscape-webserver", "landscape_init.toml", "static.zip"], name ∈ st.files) ∧
      ∀ name ∈ ["static", "geo_tmp"], name ∈ st.dirs := by
  simp only [requireAll, requireFile, requireDir, bind_eq_ok, ensure_eq_ok, exists_const] at h
  simpa [and_assoc] using h

/-- Whatever the payload is: what is created lies strictly below the target directory, apart
from that directory and what is missing above it; it is a directory or a regular file; nothing
that was there, and nothing an earlier part of the payload has put there, is changed; and when
the extraction succeeds, the three files are what their only entries held and the two
directories are there. -/
theorem extractLkb_confined :
    (∀ q, (C.extractLkbAt payload bytes base fs).1 q ≠ fs q →
      Below base q ∨ (q <+: base ∧ (C.extractLkbAt payload bytes base fs).1 q = some .dir)) ∧
    (∀ q, (C.extractLkbAt payload bytes base fs).1 q ≠ fs q →
      (C.extractLkbAt payload bytes base fs).1 q = some .dir ∨
        ∃ content, (C.extractLkbAt payload bytes base fs).1 q = some (.file content)) ∧
    (∀ q n, fs q = some n → (C.extractLkbAt payload bytes base fs).1 q = some n) ∧
    (∀ k q n, (C.extractLkbAt (fun archive => (payload archive).take k) bytes base fs).1 q =
        some n → (C.extractLkbAt payload bytes base fs).1 q = some n) ∧
    ∀ metadata, (C.extractLkbAt payload bytes base fs).2 = .ok metadata →
      ∃ entries, payload (bytes.drop metadataCapacity) = entries.map .ok ∧
        (∀ name ∈ ["landscape-webserver", "landscape_init.toml", "static.zip"],
          ∃ content, Sole C entries [name] content ∧
            (C.extractLkbAt payload bytes base fs).1 (base ++ [name]) = some (.file content)) ∧
        ∀ name ∈ ["static", "geo_tmp"],
          (C.extractLkbAt payload bytes base fs).1 (base ++ [name]) = some .dir := by
  have hstanding := standing_makeDirs base fs
  have hmade (q : Path) : fs.makeDirs base q = fs q ∨
      (q <+: base ∧ fs q = none ∧ fs.makeDirs base q = some .dir) := by
    by_cases hq : q <+: base ∧ fs q = none
    · exact .inr ⟨hq.1, hq.2, by simp [Files.makeDirs, hq]⟩
    · exact .inl (by simp only [Files.makeDirs, hq, if_false])
  have hgrown (entries : List (Read PayloadEntry)) : Grown base (fs.makeDirs base)
      (C.extractEntries base ⟨fs.makeDirs base, [], []⟩ entries).1.fs := by
    show Grown base (Unpacked.mk (fs.makeDirs base) [] []).fs _
    exact grown_extractEntries entries hstanding
  refine ⟨fun q hq => ?_, fun q hq => ?_, fun q n hn => ?_, fun k q n hn => ?_,
    fun metadata hok => ?_⟩
  · rcases extractLkbAt_cases C bytes base fs with hsame | hfs
    · rw [hsame] at hq
      exact absurd rfl hq
    · rw [hfs] at hq ⊢
      rcases hmade q with hsame | ⟨hpre, -, hdir⟩
      · exact .inl ((hgrown _).below q (hsame.symm ▸ hq))
      · exact .inr ⟨hpre, (hgrown _).kept q _ hdir⟩
  · rcases extractLkbAt_cases C bytes base fs with hsame | hfs
    · rw [hsame] at hq
      exact absurd rfl hq
    · rw [hfs] at hq ⊢
      rcases hmade q with hsame | ⟨-, -, hdir⟩
      · exact (hgrown _).plain q (hsame.symm ▸ hq)
      · exact .inl ((hgrown _).kept q _ hdir)
  · rcases extractLkbAt_cases C bytes base fs with hsame | hfs
    · rw [hsame]
      exact hn
    · rw [hfs]
      apply (hgrown _).kept q n
      rcases hmade q with hsame | ⟨-, hnone, -⟩
      · rw [hsame, hn]
      · rw [hn] at hnone
        cases hnone
  · rcases extractLkbAt_cases C bytes base fs with hsame | hfs
    · rw [hsame] at hn ⊢
      exact hn
    · rw [hfs] at hn ⊢
      have happ (xs ys : List (Read PayloadEntry)) :
          C.extractEntries base ⟨fs.makeDirs base, [], []⟩ (xs ++ ys) =
            match C.extractEntries base ⟨fs.makeDirs base, [], []⟩ xs with
            | (st', .error e) => (st', .error e)
            | (st', .ok ()) => C.extractEntries base st' ys :=
        extractEntries_append xs ys
      replace happ := happ ((payload (bytes.drop metadataCapacity)).take k)
        ((payload (bytes.drop metadataCapacity)).drop k)
      rw [List.take_append_drop] at happ
      rw [happ]
      have hg := hgrown ((payload (bytes.drop metadataCapacity)).take k)
      rcases hr : C.extractEntries base ⟨fs.makeDirs base, [], []⟩
        ((payload (bytes.drop metadataCapacity)).take k) with ⟨st, e | u⟩
      · rw [hr] at hn
        exact hn
      · -- the rest of the payload only adds to what is there
        rw [hr] at hn hg
        exact (grown_extractEntries _ (hstanding.grown hg)).kept q n hn
  · obtain ⟨entries, st, hentries, haccounts, hreq, hfs⟩ :=
      extractLkbAt_ok C payload bytes base fs hok
    obtain ⟨hfiles, hdirs⟩ := requireAll_eq_ok hreq
    rw [hfs]
    refine ⟨entries, hentries, fun name hname => ?_, fun name hname => ?_⟩
    · apply haccounts.required_file (hfiles name hname)
      revert name
      decide
    · apply haccounts.required_dir (hdirs name hname)
      revert name
      decide

end Extraction

end LandscapeKit.Lkb
