import LandscapeKit.MirrorAptRewrite
import LandscapeKit.MirrorDisk
import LandscapeKit.MirrorDnf
import Mathlib.Algebra.GroupWithZero.Nat

/-!
The four backends: what each takes for its source files, and how it switches them to a mirror. All
of them make the backup anew before they write; `apt` has ways of its own when there is nothing to
rewrite.
-/

namespace LandscapeKit.Mirror

/-- `contains_host`: the host stands somewhere between boundaries. -/
def containsFrom (host : Text) : ℕ → Text → Bool
  | 0, _ => false
  | n + 1, rest =>
    match Text.splitOnce host rest with
    | none => false
    | some (head, after) =>
      (beginsAtBoundary head && endsAtBoundary after) || containsFrom host n after

def containsHost (text host : Text) : Bool := containsFrom host text.length text

namespace Switch

open Faults (Prog Outcome)

inductive Fallback where
  | cdromConverted
  | cdromDisabled
  | sourceAdded
deriving DecidableEq

structure ApplyReport where
  changedFiles : ℕ := 0
  skippedRepositories : ℕ := 0
  backupPath : Option Path := none
  fallback : Option Fallback := none
  cdromCommented : ℕ := 0
  unrecognizedLines : ℕ := 0
deriving DecidableEq

structure Url where
  scheme : Text
  host : Option Text
  username : Text
  password : Option Text
  port : Option ℕ
  path : Text
  query : Option Text
  fragment : Option Text

/-- What is used of the machine: its architecture, and the `url` crate. -/
structure Machine where
  arch : Text
  parseUrl : Text → Option Url

structure Host where
  family : Family
  codename : Option Text

/-- What a switch is asked for. -/
structure Request where
  mirror : MirrorName
  replaceSecurity : Bool
  disableCdrom : Bool

def Family.id : Family → String
  | .debian => "debian"
  | .ubuntu => "ubuntu"
  | .fedora => "fedora"
  | .rocky => "rocky"
  | .alma => "alma"
  | .arch => "arch"
  | .alpine => "alpine"

def backupRoot : Path := ["var", "lib", "lkit", "mirror-backup"]

def backupDir (family : Family) : Path := backupRoot ++ [Family.id family]

/-- The directory is made anew, and the files are copied into it. -/
def backup (w : Failures) (files : List Path) : Io Unit := do
  let s ← Prog.read
  Prog.onlyIf s.backup.isSome (removeDirAll w .removeBackup)
  createBackup w
  Prog.forEach (copyToBackup w) files

/-- The source files are read one after the other, before anything is written. -/
def readEach {ρ : Type} (w : Failures) (add : ρ → Path → Text → ρ) : List Path → ρ → Io ρ
  | [], found => pure found
  | file :: files, found => do
    let original ← readToString w (.read file) file
    readEach w add files (add found file original)

/-- `fs::read_to_string(..).unwrap_or_default()`. -/
def contentOrNone (sources : Tree) (file : Path) : Text :=
  ((Table.get file sources).bind Content.text?).getD []

def inDir (dir file : Path) : Bool := file.dropLast = dir && file.length = dir.length + 1

namespace Apt

def sourcesList : Path := ["etc", "apt", "sources.list"]

def sourcesListD : Path := ["etc", "apt", "sources.list.d"]

def mirrorList : Path := sourcesListD ++ ["lkit-mirror.list"]

def managedFiles (sources : Tree) : Except MirrorError (List Path) :=
  let files := (if (Table.get sourcesList sources).isSome then [sourcesList] else []) ++
    sortPaths ((sources.map Prod.fst).filter (inDir sourcesListD))
  if files = [] then .error .noSourceFiles else .ok files

def managedFilesOrNone (sources : Tree) : List Path := (managedFiles sources).toOption.getD []

/-- What becomes of one file, and how many `cdrom:` entries are commented out for it. -/
def rewriteFile (family : Family) (r : Request) (original : Text) : Option Text × ℕ :=
  let changed := rewrite family r.mirror r.replaceSecurity original
  match if r.disableCdrom then commentCdrom (changed.getD original) else none with
  | none => (changed, 0)
  | some (commented, count) =>
    -- a file that would have no entry left is dealt with by `fallback`
    if (parseSources commented).any AptEntry.enabled then (some commented, count) else (changed, 0)

structure Rewrites where
  files : List (Path × Text) := []
  alreadyMatched : Bool := false
  cdromCommented : ℕ := 0

def Rewrites.add (family : Family) (r : Request) (found : Rewrites) (file : Path)
    (original : Text) : Rewrites :=
  match rewriteFile family r original with
  | (some rewritten, count) =>
    { found with
      files := found.files ++ [(file, rewritten)]
      cdromCommented := found.cdromCommented + count }
  | (none, _) =>
    { found with
      alreadyMatched := found.alreadyMatched || alreadyTarget family r.mirror original }

def collectRewrites (w : Failures) (family : Family) (r : Request) (files : List Path) :
    Io Rewrites := readEach w (Rewrites.add family r) files {}

def unrecognizedIn (w : Failures) (sources : Tree) (file : Path) : ℕ :=
  if w.fails (.inspect file) then 0
  else (((Table.get file sources).bind Content.text?).map fun content =>
    (parseSourcesWithDiagnostics content).2.length).getD 0

def endLine (content : Text) : Text :=
  if content.getLast? = some '\n' then content else content ++ ['\n']

variable (w : Failures) (m : Machine) (host : Host) (r : Request)

def noCodename {α : Type} : Io α := do
  Prog.ignore (removeDirAll w .dropBackup)
  Prog.fail .noOfficialSource

/-- The first file with a `cdrom:` entry gets the mirror in its place, or behind it. -/
def fallbackCdrom : List Path → Io (Option Fallback)
  | [] => pure none
  | file :: files => do
    let original ← readToString w (.readAgain file) file
    if r.disableCdrom then
      match commentCdrom original, host.codename with
      | none, _ => fallbackCdrom files
      | some _, none => noCodename w
      | some (commented, _), some codename => do
        let lines := synthLines host.family r.mirror r.replaceSecurity m.arch codename
        writeOrRollback w file (endLine commented ++ lines)
        pure (some .cdromDisabled)
    else
      match convertCdrom host.family r.mirror m.arch original with
      | none => fallbackCdrom files
      | some rewritten => do
        writeOrRollback w file rewritten
        pure (some .cdromConverted)

/-- The file that new entries go to. One that has to be created leaves an empty file in the
backup. -/
def synthTarget : Io Path := do
  let s ← Prog.read
  if (Table.get sourcesList s.sources).isSome then pure sourcesList
  else do
    createDirAll w .createDir
    createDirAll w .createPlaceholderDir
    writePlaceholder w mirrorList
    pure mirrorList

def fallback : Io Fallback := do
  let s ← Prog.read
  match ← fallbackCdrom w m host r (managedFilesOrNone s.sources) with
  | some done => pure done
  | none =>
    match host.codename with
    | none => noCodename w
    | some codename => do
      let lines := synthLines host.family r.mirror r.replaceSecurity m.arch codename
      let target ← synthTarget w
      let s ← Prog.read
      writeOrRollback w target (endLine (contentOrNone s.sources target) ++ lines)
      pure .sourceAdded

def apply : Io ApplyReport := do
  let s ← Prog.read
  let files := managedFilesOrNone s.sources
  let unrecognized := (files.map (unrecognizedIn w s.sources)).sum
  let found ← collectRewrites w host.family r files
  if found.files = [] && found.alreadyMatched then
    pure { unrecognizedLines := unrecognized }
  else do
    backup w files
    let backupPath := some (backupDir host.family)
    if found.files = [] then do
      let done ← fallback w m host r
      pure { changedFiles := 1, fallback := some done, backupPath, unrecognizedLines := unrecognized }
    else do
      Prog.forEach (fun e => writeOrRollback w e.1 e.2) found.files
      pure
        { changedFiles := found.files.length, cdromCommented := found.cdromCommented, backupPath,
          unrecognizedLines := unrecognized }

end Apt

namespace Dnf

def reposDir : Path := ["etc", "yum.repos.d"]

/-- Where dnf5 has the files of the distribution. -/
def vendorDir : Path := ["usr", "share", "dnf5", "repos.d"]

def isRepo (file : Path) : Bool :=
  (inDir reposDir file || inDir vendorDir file) &&
    (file.getLast?.any fun name => ".repo".toList.isSuffixOf name.toList)

def managedFiles (w : Failures) (call : Call) : Io (List Path) := fun s =>
  if w.fails call then (.err .io, s)
  else
    let files := (s.sources.map Prod.fst).filter isRepo
    if files = [] then (.err .noSourceFiles, s) else (.ok (sortPaths files).dedup, s)

def alreadyTarget (family : Family) (mirror : MirrorName) (content : Text) : Bool :=
  (Mirror.Dnf.targets family mirror).any (containsHost content)

structure Rewrites where
  files : List (Path × Text) := []
  alreadyMatched : Bool := false
  skippedRepositories : ℕ := 0

def Rewrites.add (family : Family) (mirror : MirrorName) (found : Rewrites) (file : Path)
    (original : Text) : Rewrites :=
  match Mirror.Dnf.rewrite original family mirror with
  | some rewritten =>
    { found with
      files := found.files ++ [(file, rewritten.content)]
      skippedRepositories := found.skippedRepositories + rewritten.skippedRepositories }
  | none =>
    { found with
      alreadyMatched := found.alreadyMatched || alreadyTarget family mirror original }

def collectRewrites (w : Failures) (family : Family) (mirror : MirrorName) (files : List Path) :
    Io Rewrites := readEach w (Rewrites.add family mirror) files {}

/-- The files are listed once more for the backup. -/
def backup (w : Failures) : Io Unit := do
  let s ← Prog.read
  Prog.onlyIf s.backup.isSome (removeDirAll w .removeBackup)
  createBackup w
  let files ← managedFiles w .listAgain
  Prog.forEach (copyToBackup w) files

def apply (w : Failures) (family : Family) (mirror : MirrorName) : Io ApplyReport := do
  let files ← managedFiles w .list
  let found ← collectRewrites w family mirror files
  if found.files = [] then
    if found.alreadyMatched then pure { skippedRepositories := found.skippedRepositories }
    else Prog.fail .noOfficialSource
  else do
    backup w
    Prog.forEach (fun e => writeOrRollback w e.1 e.2) found.files
    pure
      { changedFiles := found.files.length, skippedRepositories := found.skippedRepositories,
        backupPath := some (backupDir family) }

end Dnf

namespace Pacman

def mirrorlist : Path := ["etc", "pacman.d", "mirrorlist"]

def mirrorHostOf (mirror : MirrorName) : Text :=
  (mirrorHost mirror).getD "geo.mirror.pkgbuild.com".toList

def mirrorlistContent (mirror : MirrorName) : Text :=
  "# Generated by lkit set-mirror; previous mirrorlist is backed up under ".toList ++
    "/var/lib/lkit/mirror-backup\nServer = https://".toList ++ mirrorHostOf mirror ++
    "/archlinux/$repo/os/$arch\n".toList

def apply (w : Failures) (mirror : MirrorName) : Io ApplyReport := do
  let s ← Prog.read
  if Table.get mirrorlist s.sources = none then Prog.fail .noSourceFiles
  else do
    backup w [mirrorlist]
    writeOrRollback w mirrorlist (mirrorlistContent mirror)
    pure { changedFiles := 1, backupPath := some (backupDir .arch) }

end Pacman

namespace Apk

def repositories : Path := ["etc", "apk", "repositories"]

def officialHost : Text := "dl-cdn.alpinelinux.org".toList

def recognizedHost (host : Text) : Bool :=
  host = officialHost || host ∈ recognizedMirrorHosts ||
    host ∈ ["dl-1.alpinelinux.org".toList, "dl-2.alpinelinux.org".toList,
      "dl-3.alpinelinux.org".toList, "dl-4.alpinelinux.org".toList, "dl-5.alpinelinux.org".toList]

/-- A plain URL of a known host is one that may be moved. -/
def isMovable (url : Url) : Bool :=
  (url.scheme = "http".toList || url.scheme = "https".toList) && url.host.any recognizedHost &&
    url.username = [] && url.password.isNone && url.port.isNone && url.query.isNone &&
    url.fragment.isNone

/-- The repository of a line behind its tag, and what follows it. -/
def repositoryOf (first : Text) (tokens : List Text) : Text × List Text :=
  if first.head? = some '@' then (tokens.head?.getD [], tokens.tail) else (first, tokens)

def replacementOf (m : Machine) (mirror : MirrorName) (repository : Text) : Option Text :=
  ((m.parseUrl repository).filter isMovable).bind fun url =>
    (Text.stripLead "/alpine/".toList url.path).map fun suffix =>
      "https://".toList ++ (mirrorHost mirror).getD officialHost ++ "/alpine/".toList ++ suffix

def replaceFirst (pattern replacement line : Text) : Text :=
  match Text.splitOnce pattern line with
  | none => line
  | some (head, after) => head ++ replacement ++ after

/-- The line, and whether it names a repository that stays where it is. -/
def rewriteLine (m : Machine) (mirror : MirrorName) (line : Text) : Text × Bool :=
  match Hostnet.splitWhitespace (line.takeWhile (· ≠ '#')) with
  | [] => (line, false)
  | first :: tokens =>
    let (repository, more) := repositoryOf first tokens
    match if more = [] then replacementOf m mirror repository else none with
    | some url => (replaceFirst repository url line, false)
    | none => (line, true)

def rewrite (m : Machine) (content : Text) (mirror : MirrorName) : Text × ℕ :=
  let rewritten := (Text.splitInclusive '\n' content).map (rewriteLine m mirror)
  ((rewritten.map Prod.fst).flatten, rewritten.countP Prod.snd)

def apply (w : Failures) (m : Machine) (mirror : MirrorName) : Io ApplyReport := do
  let s ← Prog.read
  if Table.get repositories s.sources = none then Prog.fail .noSourceFiles
  else do
    let original ← readToString w (.read repositories) repositories
    let (content, skipped) := rewrite m original mirror
    if content = original then pure { skippedRepositories := skipped }
    else do
      backup w [repositories]
      writeOrRollback w repositories content
      pure
        { changedFiles := 1, skippedRepositories := skipped,
          backupPath := some (backupDir .alpine) }

end Apk

def apply (w : Failures) (m : Machine) (host : Host) (r : Request) : Io ApplyReport :=
  match host.family with
  | .debian | .ubuntu => Apt.apply w m host r
  | .fedora | .rocky | .alma => Dnf.apply w host.family r.mirror
  | .arch => Pacman.apply w r.mirror
  | .alpine => Apk.apply w m r.mirror

end Switch

end LandscapeKit.Mirror
