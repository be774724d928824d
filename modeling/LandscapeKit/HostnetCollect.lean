import Mathlib.Data.Finset.Option
import Mathlib.Data.List.Lex
import Mathlib.Data.Set.Finite.Basic
import LandscapeKit.LibWorklist
import LandscapeKit.HostnetExecute

/-!
Which files belong to the host's network configuration: the main file and whatever it and the
files it takes in name by `source` and `source-directory` (`ifupdown/collect.rs`). A file is told
by its canonical path.
-/

namespace LandscapeKit.Hostnet.Collect

inductive Found where
  | notFound
  | failed
  | symlink
  | file
  | directory
  | other
deriving DecidableEq

inductive DirEntry where
  | failed
  /-- A name that is not valid UTF-8. -/
  | unnamed
  | named (name : Text)
deriving DecidableEq

/-- What the file system and the glob library answer while the files are collected. Of the paths
that match a pattern, those that cannot be read are `none`. -/
structure FileSystem where
  symlinkMetadata : Text → Found
  canonicalize : Text → Option Text
  readToString : Text → Option Text
  readDir : Text → Option (List DirEntry)
  glob : Text → Except Text (List (Option Text))

inductive CollectError where
  | hostNet (error : HostNetError)
  | sourceExpansionFailed (path pattern : Text)
deriving DecidableEq

/-! ## The order of paths -/

inductive Component where
  | rootDir
  | curDir
  | parentDir
  | normal (name : Text)
deriving DecidableEq

def components (path : Text) : List Component :=
  let pieces := path.splitOn '/'
  let names := pieces.filter fun piece => piece ≠ [] ∧ piece ≠ ".".toList
  (if path.head? = some '/' then [.rootDir]
    else if pieces.head? = some ".".toList then [.curDir] else []) ++
    names.map fun name => if name = "..".toList then .parentDir else .normal name

/-- Components compare by their kind, names by their characters. -/
def Component.rank : Component → List ℕ
  | .rootDir => [0]
  | .curDir => [1]
  | .parentDir => [2]
  | .normal name => 3 :: name.map Char.toNat

def pathKey (path : Text) : List (List ℕ) := (components path).map Component.rank

def pathLe (p q : Text) : Bool := pathKey p ≤ pathKey q

def sortPaths (paths : List Text) : List Text := paths.mergeSort pathLe

theorem pairwise_sortPaths (paths : List Text) :
    (sortPaths paths).Pairwise fun p q => pathLe p q = true := by
  apply List.pairwise_mergeSort
  · intro p q r hpq hqr
    simp only [pathLe, decide_eq_true_eq] at hpq hqr ⊢
    exact hpq.trans hqr
  · intro p q
    simp only [pathLe, Bool.or_eq_true, decide_eq_true_eq]
    exact le_total _ _

theorem mem_sortPaths {paths : List Text} {p : Text} : p ∈ sortPaths paths ↔ p ∈ paths :=
  (List.mergeSort_perm paths pathLe).mem_iff

/-! ## One file -/

section Source

variable (fs : FileSystem)

def validateRegularFile (path : Text) : Except CollectError Unit :=
  match fs.symlinkMetadata path with
  | .notFound | .failed => .error (.hostNet (.unreadableFile path))
  | .symlink =>
    .error (.hostNet (.pathSafety path
      "symbolic links are not supported for host network configuration".toList))
  | .file => .ok ()
  | .directory | .other =>
    .error (.hostNet (.pathSafety path
      "host network configuration must be a regular file".toList))

/-- What the shell would expand. -/
def needsShell (pattern : Text) : Bool :=
  pattern.any (· ∈ "$`'\"\x7b\x7d\\".toList) || pattern.head? = some '~'

def resolvePattern (source : Text) (line : ℕ) (sourceDir pattern : Text) :
    Except CollectError Text :=
  if needsShell pattern then
    .error (.hostNet (.unsupportedSyntax source line ("source pattern ".toList ++ pattern ++
      " requires unsupported shell expansion".toList)))
  else .ok (if isAbsolute pattern then pattern else join sourceDir pattern)

def expandPattern (source : Text) (line : ℕ) (pattern : Text) :
    Except CollectError (List Text) :=
  match fs.glob pattern with
  | .error error =>
    .error (.hostNet (.unsupportedSyntax source line ("invalid source pattern ".toList ++
      pattern ++ ": ".toList ++ error)))
  | .ok paths => paths.mapM fun entry =>
    match entry with
    | some path => .ok path
    | none => .error (.sourceExpansionFailed source pattern)

def expandFilePattern (source : Text) (line : ℕ) (pattern : Text) :
    Except CollectError (List Text) := do
  let found ← expandPattern fs source line pattern
  found.forM (validateRegularFile fs)
  pure (sortPaths found)

/-- `is_ascii_alphanumeric`, `_` and `-`: the names `ifupdown` reads. -/
def isFragmentName (name : Text) : Bool := name.all fun c => c.isAlphanum || c = '_' || c = '-'

def entryFile (source pattern directory : Text) : DirEntry → Except CollectError (Option Text)
  | .failed => .error (.sourceExpansionFailed source pattern)
  | .unnamed => .ok none
  | .named name =>
    if isFragmentName name then do
      validateRegularFile fs (join directory name)
      pure (some (join directory name))
    else .ok none

def directoryFiles (source pattern directory : Text) : Except CollectError (List Text) :=
  match fs.symlinkMetadata directory with
  | .notFound | .failed => .error (.sourceExpansionFailed source pattern)
  | .directory =>
    match fs.readDir directory with
    | none => .error (.sourceExpansionFailed source pattern)
    | some entries => do
      let files ← entries.mapM (entryFile fs source pattern directory)
      pure files.reduceOption
  | _ =>
    .error (.hostNet (.pathSafety directory
      "source-directory must resolve to a regular directory".toList))

def expandDirectoryPattern (source : Text) (line : ℕ) (pattern : Text) :
    Except CollectError (List Text) := do
  let directories ← expandPattern fs source line pattern
  let files ← directories.mapM (directoryFiles fs source pattern)
  pure (sortPaths files.flatten)

/-- `path.parent().unwrap_or(".")`. -/
def sourceDir (path : Text) : Text := (parent path).getD ".".toList

def directiveFiles (path : Text) (directive : SourceDirective) :
    Except CollectError (List Text) := do
  let resolved ← resolvePattern path directive.line (sourceDir path) directive.pattern
  match directive.kind with
  | .file => expandFilePattern fs path directive.line resolved
  | .directory => expandDirectoryPattern fs path directive.line resolved

/-- What a file puts on the stack. -/
def sourcedFiles (path : Text) : Except CollectError (List Text) :=
  match fs.readToString path with
  | none => .error (.hostNet (.unreadableFile path))
  | some content =>
    match parse path content with
    | .error error => .error (.hostNet error)
    | .ok parsed => do
      let found ← parsed.sources.mapM (directiveFiles fs path)
      pure found.flatten

def canonicalize (path : Text) : Except CollectError Text :=
  match fs.canonicalize path with
  | none => .error (.hostNet (.unreadableFile path))
  | some canonical => .ok canonical

/-- What is done with a path before it is compared with what has been seen. -/
def canonicalFile (path : Text) : Except CollectError Text := do
  validateRegularFile fs path
  canonicalize fs path

/-- The loop of `collect`, in at most `fuel` turns. -/
def collectFrom (fuel : ℕ) (main : Text) : Option (Except CollectError (List Text)) :=
  (Worklist.run (canonicalFile fs) (sourcedFiles fs) fuel ⟨[main], [], []⟩).map
    fun result => result.map (·.done)

def collect (fuel : ℕ) (main : Text) : Option (Except CollectError FileSet) :=
  if !isAbsolute main then
    some (.error (.hostNet (.pathSafety main "interfaces path must be absolute".toList)))
  else
    match fs.symlinkMetadata main with
    | .notFound => some (.ok ⟨main, []⟩)
    | .failed => some (.error (.hostNet (.unreadableFile main)))
    | _ =>
      match validateRegularFile fs main with
      | .error error => some (.error error)
      | .ok () =>
        (collectFrom fs fuel main).map fun result =>
          result.map fun files => ⟨main, main :: sortPaths files.tail⟩

end Source

/-! ## What the pieces give -/

section Results

variable {fs : FileSystem} {source : Text} {line : ℕ} {pattern path content : Text}
  {found : List Text}

theorem validateRegularFile_ok_iff :
    validateRegularFile fs path = .ok () ↔ fs.symlinkMetadata path = .file := by
  unfold validateRegularFile
  cases fs.symlinkMetadata path <;> simp

theorem canonicalFile_ok_iff {canonical : Text} : canonicalFile fs path = .ok canonical ↔
    fs.symlinkMetadata path = .file ∧ fs.canonicalize path = some canonical := by
  rw [← validateRegularFile_ok_iff]
  simp only [canonicalFile, canonicalize, bind, Except.bind]
  cases validateRegularFile fs path with
  | error e => simp
  | ok u => cases fs.canonicalize path <;> simp

theorem expandPattern_ok (h : expandPattern fs source line pattern = .ok found) :
    fs.glob pattern = .ok (found.map some) := by
  unfold expandPattern at h
  split at h
  · cases h
  rename_i paths hglob
  rw [hglob]
  congr 1
  have hall := mapM_ok_iff.mp h
  clear h hglob
  induction hall with
  | nil => rfl
  | @cons entry path entries found hentry _ ih =>
    rw [List.map_cons, ih]
    congr 1
    cases entry with
    | none => cases hentry
    | some p => rw [Except.ok.inj hentry]

theorem expandFilePattern_ok (h : expandFilePattern fs source line pattern = .ok found) :
    ∃ matched : List Text, fs.glob pattern = .ok (matched.map some) ∧ (∀ q, q ∈ found ↔ q ∈ matched) ∧
      ∀ q ∈ found, fs.symlinkMetadata q = .file := by
  simp only [expandFilePattern, bind, Except.bind] at h
  split at h
  · cases h
  rename_i matched hmatched
  split at h
  · cases h
  rename_i u hfiles
  obtain rfl := Except.ok.inj h
  refine ⟨matched, expandPattern_ok hmatched, fun q => mem_sortPaths, fun q hq => ?_⟩
  exact validateRegularFile_ok_iff.mp (forM_ok_iff.mp hfiles q (mem_sortPaths.mp hq))

theorem entryFile_ok {directory : Text} {entry : DirEntry} {file : Option Text}
    (h : entryFile fs source pattern directory entry = .ok file) (q : Text) :
    file = some q ↔ ∃ name, entry = .named name ∧ isFragmentName name = true ∧
      q = join directory name ∧ fs.symlinkMetadata q = .file := by
  cases entry with
  | failed => cases h
  | unnamed =>
    obtain rfl := Except.ok.inj h
    simp
  | named name =>
    rw [entryFile] at h
    split at h
    · rename_i hname
      cases hv : validateRegularFile fs (join directory name) with
      | error e =>
        rw [hv] at h
        cases h
      | ok u =>
        rw [hv] at h
        obtain rfl := Except.ok.inj h
        have hfile := validateRegularFile_ok_iff.mp hv
        constructor
        · intro hq
          obtain rfl := Option.some.inj hq
          exact ⟨name, rfl, hname, rfl, hfile⟩
        · rintro ⟨name', hnamed, -, rfl, -⟩
          obtain rfl := DirEntry.named.inj hnamed
          rfl
    · rename_i hname
      obtain rfl := Except.ok.inj h
      constructor
      · intro hq
        cases hq
      · rintro ⟨name', hnamed, hname', -⟩
        obtain rfl := DirEntry.named.inj hnamed
        exact absurd hname' hname

theorem directoryFiles_ok {directory : Text}
    (h : directoryFiles fs source pattern directory = .ok found) :
    fs.symlinkMetadata directory = .directory ∧ ∃ entries, fs.readDir directory = some entries ∧
      ∀ q, q ∈ found ↔ ∃ name, .named name ∈ entries ∧ isFragmentName name = true ∧
        q = join directory name ∧ fs.symlinkMetadata q = .file := by
  unfold directoryFiles at h
  split at h
  · cases h
  · cases h
  · rename_i hdirectory
    refine ⟨hdirectory, ?_⟩
    split at h
    · cases h
    rename_i entries hentries
    refine ⟨entries, hentries, fun q => ?_⟩
    simp only [bind, Except.bind] at h
    split at h
    · cases h
    rename_i files hfiles
    obtain rfl := Except.ok.inj h
    rw [List.reduceOption_mem_iff]
    have hall := mapM_ok_iff.mp hfiles
    constructor
    · intro hq
      obtain ⟨entry, hentry, hfile⟩ := exists_of_mem_right hall hq
      obtain ⟨name, rfl, hname, hrest⟩ := (entryFile_ok hfile q).mp rfl
      exact ⟨name, hentry, hname, hrest⟩
    · rintro ⟨name, hentry, hname, hrest⟩
      obtain ⟨file, hmem, hfile⟩ := exists_of_mem_left hall hentry
      have hsome := (entryFile_ok hfile q).mpr ⟨name, rfl, hname, hrest⟩
      rw [← hsome]
      exact hmem
  · cases h

theorem expandDirectoryPattern_ok
    (h : expandDirectoryPattern fs source line pattern = .ok found) :
    ∃ matched : List Text, fs.glob pattern = .ok (matched.map some) ∧
      (∀ d ∈ matched, fs.symlinkMetadata d = .directory ∧ ∃ entries, fs.readDir d = some entries) ∧
      ∀ q, q ∈ found ↔ ∃ d ∈ matched, ∃ entries, fs.readDir d = some entries ∧ ∃ name,
        .named name ∈ entries ∧ isFragmentName name = true ∧ q = join d name ∧
        fs.symlinkMetadata q = .file := by
  simp only [expandDirectoryPattern, bind, Except.bind] at h
  split at h
  · cases h
  rename_i matched hmatched
  split at h
  · cases h
  rename_i files hfiles
  obtain rfl := Except.ok.inj h
  have hall := mapM_ok_iff.mp hfiles
  refine ⟨matched, expandPattern_ok hmatched, fun d hd => ?_, fun q => ?_⟩
  · obtain ⟨l, -, hl⟩ := exists_of_mem_left hall hd
    obtain ⟨hdirectory, entries, hentries, -⟩ := directoryFiles_ok hl
    exact ⟨hdirectory, entries, hentries⟩
  · rw [mem_sortPaths, List.mem_flatten]
    constructor
    · rintro ⟨l, hl, hq⟩
      obtain ⟨d, hd, hfile⟩ := exists_of_mem_right hall hl
      obtain ⟨-, entries, hentries, hiff⟩ := directoryFiles_ok hfile
      exact ⟨d, hd, entries, hentries, (hiff q).mp hq⟩
    · rintro ⟨d, hd, entries, hentries, hq⟩
      obtain ⟨l, hl, hfile⟩ := exists_of_mem_left hall hd
      obtain ⟨-, entries', hentries', hiff⟩ := directoryFiles_ok hfile
      rw [hentries] at hentries'
      obtain rfl := Option.some.inj hentries'
      exact ⟨l, hl, (hiff q).mpr hq⟩

theorem logicalFrom_path {cur : Option LogicalLine} {index : ℕ} {lines : List Text}
    {logical : List LogicalLine} (path' : Text) (h : logicalFrom path cur index lines = .ok logical) :
    logicalFrom path' cur index lines = .ok logical := by
  induction lines generalizing cur index logical with
  | nil =>
    cases cur with
    | none => exact h
    | some l => cases h
  | cons first lines ih =>
    rw [logicalFrom] at h ⊢
    split at h
    · rename_i hopen
      rw [if_pos hopen]
      exact ih h
    · rename_i hopen
      rw [if_neg hopen]
      simp only [bind, Except.bind] at h ⊢
      split at h
      · cases h
      · rename_i rest hrest
        rw [ih hrest]
        exact h

theorem parse_path {parsed : ParsedFile} (path' : Text) (h : parse path content = .ok parsed) :
    parse path' content = .ok parsed := by
  obtain ⟨logical, items, hlogical, hrest⟩ := parse_eq_ok_iff.mp h
  exact parse_eq_ok_iff.mpr ⟨logical, items, logicalFrom_path path' hlogical, hrest⟩

end Results

/-! ## What is collected -/

section Closure

variable {fs : FileSystem} {main : Text}

/-- A directive of the file `p` names `q`. -/
def Sources (fs : FileSystem) (p q : Text) : Prop :=
  ∃ content parsed directive found, fs.readToString p = some content ∧
    parse p content = .ok parsed ∧ directive ∈ parsed.sources ∧
    directiveFiles fs p directive = .ok found ∧ q ∈ found

def Reachable (fs : FileSystem) (main : Text) : Text → Prop := Relation.ReflTransGen (Sources fs) main

/-- No special character of the glob library. -/
def IsPlain (dir : Text) : Prop := ∀ c ∈ dir, c ∉ "*?[".toList

instance (dir : Text) : Decidable (IsPlain dir) := List.decidableBAll (· ∉ "*?[".toList) dir

/-- Relative patterns stand in directories with plain names only. -/
def PlainDirs (fs : FileSystem) (main : Text) : Prop :=
  ∀ p, Reachable fs main p → ∀ content parsed, fs.readToString p = some content →
    parse p content = .ok parsed →
    (∃ directive ∈ parsed.sources, isAbsolute directive.pattern = false) → IsPlain (sourceDir p)

/-- What does not depend on how a path is spelled: what a file holds, the directory it lies in,
what a directory holds, and what a relative pattern matches in it. -/
structure Laws (fs : FileSystem) : Prop where
  canonical : ∀ p, fs.symlinkMetadata p = .file ∨ fs.symlinkMetadata p = .directory →
    ∃ c, fs.canonicalize p = some c
  content : ∀ p q c, fs.canonicalize p = some c → fs.canonicalize q = some c →
    fs.readToString p = fs.readToString q
  parent : ∀ p q c, fs.symlinkMetadata p = .file → fs.symlinkMetadata q = .file →
    fs.canonicalize p = some c → fs.canonicalize q = some c →
    ∃ d, fs.canonicalize (sourceDir p) = some d ∧ fs.canonicalize (sourceDir q) = some d
  entries : ∀ p q c, fs.canonicalize p = some c → fs.canonicalize q = some c →
    ∀ entries entries', fs.readDir p = some entries → fs.readDir q = some entries' →
      ∀ name, .named name ∈ entries ↔ .named name ∈ entries'
  child : ∀ p q c, fs.canonicalize p = some c → fs.canonicalize q = some c → ∀ name,
    fs.canonicalize (join p name) = fs.canonicalize (join q name) ∧
      fs.symlinkMetadata (join p name) = fs.symlinkMetadata (join q name)
  matched : ∀ p q c, fs.canonicalize p = some c → fs.canonicalize q = some c → IsPlain p →
    IsPlain q → ∀ pattern, isAbsolute pattern = false → ∀ found found',
      fs.glob (join p pattern) = .ok found → fs.glob (join q pattern) = .ok found' →
        ∀ r', some r' ∈ found' → ∃ r, some r ∈ found ∧ fs.canonicalize r = fs.canonicalize r' ∧
          fs.symlinkMetadata r = fs.symlinkMetadata r'

/-- The main file comes first and the others are sorted; every canonical file that can be reached
is there once, and nothing else is. -/
structure IsClosure (fs : FileSystem) (main : Text) (files : List Text) : Prop where
  head : files.head? = some main
  sorted : files.tail.Pairwise fun p q => pathLe p q = true
  reachable : ∀ p ∈ files, Reachable fs main p ∧ ∃ c, fs.canonicalize p = some c
  once : (files.map fs.canonicalize).Nodup
  complete : ∀ q, Reachable fs main q → ∀ c, fs.canonicalize q = some c →
    ∃ p ∈ files, fs.canonicalize p = some c

theorem sourcedFiles_ok {p : Text} {found : List Text} (h : sourcedFiles fs p = .ok found) :
    ∃ content parsed, fs.readToString p = some content ∧ parse p content = .ok parsed ∧
      (∀ directive ∈ parsed.sources, ∃ named, directiveFiles fs p directive = .ok named ∧
        ∀ q ∈ named, q ∈ found) ∧
      ∀ q ∈ found, Sources fs p q := by
  unfold sourcedFiles at h
  split at h
  · cases h
  rename_i content hcontent
  split at h
  · cases h
  rename_i parsed hparsed
  simp only [bind, Except.bind] at h
  split at h
  · cases h
  rename_i lists hlists
  obtain rfl := Except.ok.inj h
  have hall := mapM_ok_iff.mp hlists
  refine ⟨content, parsed, hcontent, hparsed, fun directive hd => ?_, fun q hq => ?_⟩
  · obtain ⟨named, hnamed, hok⟩ := exists_of_mem_left hall hd
    exact ⟨named, hok, fun q hq => List.mem_flatten.mpr ⟨named, hnamed, hq⟩⟩
  · obtain ⟨named, hnamed, hq⟩ := List.mem_flatten.mp hq
    obtain ⟨directive, hd, hok⟩ := exists_of_mem_right hall hnamed
    exact ⟨content, parsed, directive, named, hcontent, hparsed, hd, hok, hq⟩

theorem directiveFiles_ok {p : Text} {directive : SourceDirective} {found : List Text}
    (h : directiveFiles fs p directive = .ok found) :
    (directive.kind = .file ∧ expandFilePattern fs p directive.line
      (if isAbsolute directive.pattern then directive.pattern
        else join (sourceDir p) directive.pattern) = .ok found) ∨
    (directive.kind = .directory ∧ expandDirectoryPattern fs p directive.line
      (if isAbsolute directive.pattern then directive.pattern
        else join (sourceDir p) directive.pattern) = .ok found) := by
  simp only [directiveFiles, bind, Except.bind, resolvePattern] at h
  split at h
  · cases h
  rename_i resolved hresolved
  split at hresolved
  · cases hresolved
  obtain rfl := Except.ok.inj hresolved
  split at h
  · rename_i hkind
    exact .inl ⟨hkind, h⟩
  · rename_i hkind
    exact .inr ⟨hkind, h⟩

theorem coherent (hlaws : Laws fs) (hplain : PlainDirs fs main) :
    Worklist.Coherent (canonicalFile fs) (sourcedFiles fs) (Sources fs) main := by
  intro p p' c found hp hp' hkey hkey' hfound q' hq'
  obtain ⟨hfile, hc⟩ := canonicalFile_ok_iff.mp hkey
  obtain ⟨hfile', hc'⟩ := canonicalFile_ok_iff.mp hkey'
  obtain ⟨content, parsed, directive, found', hread', hparse', hmem, hnames', hq'⟩ := hq'
  obtain ⟨content₀, parsed₀, hread, hparse, hall, -⟩ := sourcedFiles_ok hfound
  -- both spellings read the same directives
  rw [hlaws.content p p' c hc hc', hread'] at hread
  obtain rfl := Option.some.inj hread
  rw [parse_path p hparse'] at hparse
  obtain rfl := Except.ok.inj hparse
  obtain ⟨named, hnames, hsub⟩ := hall directive hmem
  obtain ⟨d, hd, hd'⟩ := hlaws.parent p p' c hfile hfile' hc hc'
  -- what the patterns match is the same up to the spelling
  have hmatched (matched matched' : List Text)
      (hm : fs.glob (if isAbsolute directive.pattern then directive.pattern
        else join (sourceDir p) directive.pattern) = .ok (matched.map some))
      (hm' : fs.glob (if isAbsolute directive.pattern then directive.pattern
        else join (sourceDir p') directive.pattern) = .ok (matched'.map some)) :
      ∀ r' ∈ matched', ∃ r ∈ matched, fs.canonicalize r = fs.canonicalize r' ∧
        fs.symlinkMetadata r = fs.symlinkMetadata r' := by
    intro r' hr'
    cases habs : isAbsolute directive.pattern with
    | true =>
      rw [habs, if_pos rfl] at hm hm'
      rw [hm] at hm'
      have hsame := List.map_injective_iff.mpr (Option.some_injective _) (Except.ok.inj hm')
      exact ⟨r', hsame ▸ hr', rfl, rfl⟩
    | false =>
      rw [habs, if_neg Bool.false_ne_true] at hm hm'
      obtain ⟨r, hr, hsame⟩ := hlaws.matched (sourceDir p) (sourceDir p') d hd hd'
        (hplain p hp content parsed (by rw [hlaws.content p p' c hc hc', hread'])
          (parse_path p hparse') ⟨directive, hmem, habs⟩)
        (hplain p' hp' content parsed hread' hparse' ⟨directive, hmem, habs⟩)
        directive.pattern habs _ _ hm hm' r' (List.mem_map_of_mem hr')
      obtain ⟨r₀, hr₀, he⟩ := List.mem_map.mp hr
      obtain rfl := Option.some.inj he
      exact ⟨r₀, hr₀, hsame⟩
  rcases directiveFiles_ok hnames with ⟨hkind, hexpand⟩ | ⟨hkind, hexpand⟩ <;>
    rcases directiveFiles_ok hnames' with ⟨hkind', hexpand'⟩ | ⟨hkind', hexpand'⟩
  · obtain ⟨matched, hm, hiff, -⟩ := expandFilePattern_ok hexpand
    obtain ⟨matched', hm', hiff', hfiles'⟩ := expandFilePattern_ok hexpand'
    obtain ⟨q, hq, hsame, -⟩ := hmatched matched matched' hm hm' q' ((hiff' q').mp hq')
    refine ⟨q, hsub q ((hiff q).mpr hq), fun k hk => ?_⟩
    exact canonicalFile_ok_iff.mpr
      ⟨hfiles' q' hq', hsame ▸ (canonicalFile_ok_iff.mp hk).2⟩
  · rw [hkind] at hkind'
    cases hkind'
  · rw [hkind] at hkind'
    cases hkind'
  · obtain ⟨matched, hm, hdirs, hiff⟩ := expandDirectoryPattern_ok hexpand
    obtain ⟨matched', hm', hdirs', hiff'⟩ := expandDirectoryPattern_ok hexpand'
    obtain ⟨e', he', entries', hentries', name, hname, hfragment, rfl, hregular⟩ := (hiff' q').mp hq'
    obtain ⟨e, he, hsame, -⟩ := hmatched matched matched' hm hm' e' he'
    obtain ⟨hdir, entries, hentries⟩ := hdirs e he
    obtain ⟨k, hk⟩ := hlaws.canonical e (.inr hdir)
    have hk' : fs.canonicalize e' = some k := hsame ▸ hk
    obtain ⟨hchild, hkind⟩ := hlaws.child e e' k hk hk' name
    have hname₀ : DirEntry.named name ∈ entries :=
      (hlaws.entries e e' k hk hk' entries entries' hentries hentries' name).mpr hname
    refine ⟨join e name, hsub _ ((hiff _).mpr ⟨e, he, entries, hentries, name, hname₀, hfragment,
      rfl, hkind.trans hregular⟩), fun k hk => ?_⟩
    exact canonicalFile_ok_iff.mpr ⟨hregular, hchild ▸ (canonicalFile_ok_iff.mp hk).2⟩

theorem exists_collect (hfinite : (Set.range fs.canonicalize).Finite) (main : Text) :
    ∃ n r, ∀ m, n ≤ m → collect fs m main = some r := by
  have hkeys : ∀ p c, canonicalFile fs p = .ok c → c ∈ hfinite.toFinset.eraseNone := by
    intro p c hc
    rw [Finset.mem_eraseNone, Set.Finite.mem_toFinset]
    exact ⟨p, (canonicalFile_ok_iff.mp hc).2⟩
  obtain ⟨n, r, hrun⟩ : ∃ n r, Worklist.run (canonicalFile fs) (sourcedFiles fs) n
      ⟨[main], [], []⟩ = some r :=
    Worklist.exists_run hfinite.toFinset.eraseNone hkeys _
  have hlong (m : ℕ) (hm : n ≤ m) : collect fs m main = collect fs n main := by
    have hfrom : collectFrom fs m main = collectFrom fs n main := by
      rw [collectFrom, collectFrom, hrun, Worklist.run_mono hrun hm]
    rw [collect, collect, hfrom]
  have hsome : (collectFrom fs n main).isSome := by
    rw [collectFrom, hrun]
    rfl
  obtain ⟨files, hfiles⟩ := Option.isSome_iff_exists.mp hsome
  obtain ⟨r', hr'⟩ : ∃ r', collect fs n main = some r' := by
    rw [collect, hfiles]
    split
    · exact ⟨_, rfl⟩
    split
    · exact ⟨_, rfl⟩
    · exact ⟨_, rfl⟩
    split
    · exact ⟨_, rfl⟩
    · exact ⟨_, rfl⟩
  exact ⟨n, r', fun m hm => (hlong m hm).trans hr'⟩

theorem isClosure_of_collectFrom (hlaws : Laws fs) (hplain : PlainDirs fs main) {n : ℕ}
    {files : List Text} (h : collectFrom fs n main = some (.ok files)) :
    IsClosure fs main (main :: sortPaths files.tail) := by
  rw [collectFrom, Option.map_eq_some_iff] at h
  obtain ⟨result, hrun, hresult⟩ := h
  cases result with
  | error e => cases hresult
  | ok w =>
    obtain rfl : w.done = files := Except.ok.inj hresult
    have hleads : ∀ p found, sourcedFiles fs p = .ok found → ∀ q ∈ found, Sources fs p q := by
      intro p found hfound
      obtain ⟨-, -, -, -, -, hall⟩ := sourcedFiles_ok hfound
      exact hall
    obtain ⟨hinv, hqueue⟩ := Worklist.run_ok hleads Worklist.Inv.init hrun
    have hcons : w.done = main :: w.done.tail := List.eq_cons_of_mem_head? (hinv.head_done hqueue)
    have hperm : (main :: sortPaths w.done.tail).Perm w.done := by
      rw [hcons]
      exact (List.mergeSort_perm _ _).cons main
    have hcanonical {p : Text} (hp : p ∈ w.done) :
        ∃ c, canonicalFile fs p = .ok c ∧ fs.canonicalize p = some c := by
      have hmem : canonicalFile fs p ∈ w.seen.map Except.ok := hinv.keys ▸ List.mem_map_of_mem hp
      obtain ⟨c, -, hc⟩ := List.mem_map.mp hmem
      exact ⟨c, hc.symm, (canonicalFile_ok_iff.mp hc.symm).2⟩
    refine ⟨rfl, pairwise_sortPaths _, fun p hp => ?_, ?_, fun q hq c hc => ?_⟩
    · have hp' := hperm.mem_iff.mp hp
      obtain ⟨c, -, hc⟩ := hcanonical hp'
      exact ⟨hinv.reached p (.inl hp'), c, hc⟩
    · rw [(hperm.map fs.canonicalize).nodup_iff]
      apply List.Nodup.of_map (fun c => (c.elim (.error (.hostNet (.unreadableFile main))) .ok :
        Except CollectError Text))
      rw [List.map_map]
      have hsame : w.done.map ((fun c => (c.elim (.error (.hostNet (.unreadableFile main))) .ok :
          Except CollectError Text)) ∘ fs.canonicalize) = w.done.map (canonicalFile fs) := by
        apply List.map_congr_left
        intro p hp
        obtain ⟨c, hkey, hc⟩ := hcanonical hp
        rw [Function.comp_apply, hc, hkey]
        rfl
      rw [hsame]
      exact hinv.nodup_keys
    · obtain ⟨k, hk, hkey⟩ := hinv.complete hqueue (coherent hlaws hplain) hq
      obtain ⟨p, hp, hkp⟩ := hinv.mem_seen.mp hk
      have hck : c = k := Option.some.inj (hc.symm.trans (canonicalFile_ok_iff.mp hkey).2)
      exact ⟨p, hperm.mem_iff.mpr hp, hck ▸ (canonicalFile_ok_iff.mp hkp).2⟩

end Closure

section Samples

def mainPath : Text := "/etc/network/interfaces".toList

/-- A file system in which every path is canonical. -/
def plainSystem (files : List (Text × Text)) (directories : List Text)
    (matched : List (Text × List Text)) : FileSystem where
  symlinkMetadata path :=
    if (files.lookup path).isSome then .file
    else if path ∈ directories then .directory else .notFound
  canonicalize path :=
    if (files.lookup path).isSome ∨ path ∈ directories then some path else none
  readToString path := files.lookup path
  readDir _ := none
  glob pattern := .ok (((matched.lookup pattern).getD []).map some)

/-- The main file takes in a directory and itself, and a file of the directory takes in the main
file. -/
def cyclicSystem : FileSystem :=
  plainSystem
    [(mainPath, "source interfaces.d/*\nsource interfaces\n".toList),
      ("/etc/network/interfaces.d/a".toList, "source /etc/network/interfaces\n".toList)]
    ["/etc/network".toList, "/etc/network/interfaces.d".toList]
    [("/etc/network/interfaces.d/*".toList, ["/etc/network/interfaces.d/a".toList]),
      (mainPath, [mainPath])]

theorem cyclicSystem_file {p : Text} (h : (cyclicSystem.readToString p).isSome) :
    p = mainPath ∨ p = "/etc/network/interfaces.d/a".toList := by
  simp only [cyclicSystem, plainSystem, List.lookup_cons, List.lookup_nil] at h
  split at h
  · rename_i heq
    exact .inl (eq_of_beq heq)
  · split at h
    · rename_i heq
      exact .inr (eq_of_beq heq)
    · cases h

theorem cyclicSystem_read {p : Text} (h : cyclicSystem.symlinkMetadata p = .file) :
    (cyclicSystem.readToString p).isSome := by
  simp only [cyclicSystem, plainSystem] at h ⊢
  split at h
  · rename_i hsome
    exact hsome
  · split at h <;> cases h

theorem cyclicSystem_laws : Laws cyclicSystem := by
  have hcanonical (p c : Text) (h : cyclicSystem.canonicalize p = some c) : p = c := by
    simp only [cyclicSystem, plainSystem] at h
    split at h
    · exact Option.some.inj h
    · cases h
  have hsame (p q c : Text) (hp : cyclicSystem.canonicalize p = some c)
      (hq : cyclicSystem.canonicalize q = some c) : p = q :=
    (hcanonical p c hp).trans (hcanonical q c hq).symm
  refine ⟨fun p hp => ⟨p, ?_⟩, fun p q c hp hq => ?_, fun p q c hfile _ hp hq => ?_,
    fun p q c hp hq l l' hl hl' name => ?_, fun p q c hp hq name => ?_,
    fun p q c hp hq _ _ pattern _ l l' hl hl' r hr => ?_⟩
  · simp only [cyclicSystem, plainSystem] at hp ⊢
    apply if_pos
    rcases hp with hp | hp
    · split at hp
      · rename_i hsome
        exact .inl hsome
      · split at hp <;> cases hp
    · split at hp
      · cases hp
      · split at hp
        · rename_i hmem
          exact .inr hmem
        · cases hp
  · rw [hsame p q c hp hq]
  · obtain rfl := hsame p q c hp hq
    rcases cyclicSystem_file (cyclicSystem_read hfile) with rfl | rfl
    · exact ⟨"/etc/network".toList, by decide +kernel, by decide +kernel⟩
    · exact ⟨"/etc/network/interfaces.d".toList, by decide +kernel, by decide +kernel⟩
  · cases hl
  · rw [hsame p q c hp hq]
    exact ⟨rfl, rfl⟩
  · obtain rfl := hsame p q c hp hq
    rw [hl] at hl'
    obtain rfl := Except.ok.inj hl'
    exact ⟨r, hr, rfl, rfl⟩

/-- `/srv/x[1]` is a link to `/srv/y`, and `/srv/y/a` takes in the file beside it. -/
def linkedSystem : FileSystem where
  symlinkMetadata path :=
    if path ∈ [mainPath, "/srv/y/a".toList, "/srv/x[1]/a".toList, "/srv/y/b".toList] then .file
    else .notFound
  canonicalize path :=
    if path = "/srv/x[1]/a".toList then some "/srv/y/a".toList
    else if path ∈ [mainPath, "/srv/y/a".toList, "/srv/y/b".toList] then some path
    else none
  readToString path :=
    if path = mainPath then some "source /srv/y/a\nsource /srv/x*/a\n".toList
    else if path ∈ ["/srv/y/a".toList, "/srv/x[1]/a".toList] then some "source b\n".toList
    else some []
  readDir _ := none
  glob pattern :=
    if pattern = "/srv/x*/a".toList then .ok [some "/srv/x[1]/a".toList]
    else if pattern ∈ ["/srv/y/a".toList, "/srv/y/b".toList] then .ok [some pattern]
    else .ok []

end Samples

end LandscapeKit.Hostnet.Collect
