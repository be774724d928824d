import LandscapeKit.LibTree
import LandscapeKit.LkbContainer

/-!
`create_backup` packs a binary, an init config and two directory trees into the tar.gz of a
container, and `extract_lkb` unpacks one. tar, gzip and zip are outside crates: `Crates` lists
what is used of them, an archive being the list of its entries.
-/

namespace LandscapeKit.Lkb

open Bytes Formats

inductive ZipPathError
  | invalidCharacters
  | dotComponent
  | drivePrefix
deriving DecidableEq

def collectParts : List String → Except ZipPathError (List String)
  | [] => .ok []
  | part :: rest =>
    if part = "" then collectParts rest
    else if part = "." ∨ part = ".." then .error .dotComponent
    else if ':' ∈ part.toList then .error .drivePrefix
    else (collectParts rest).map (part :: ·)

def zipPathParts (relative : String) : Except ZipPathError (List String) :=
  if '\\' ∈ relative.toList ∨ '\x00' ∈ relative.toList then .error .invalidCharacters
  else collectParts (parts relative)

def joined (ps : List String) : String :=
  String.ofList (List.intercalate ['/'] (ps.map String.toList))

inductive TarKind
  | dir
  | file
  | other
deriving DecidableEq

structure TarEntry where
  name : String
  kind : TarKind
  content : Bytes
deriving DecidableEq

structure ZipEntry where
  name : String
  isDir : Bool
  symlink : Bool
  special : Bool
  content : Bytes
deriving DecidableEq

structure Crates extends Formats where
  tarGz : List TarEntry → Bytes
  untarGz : Bytes → Option (List TarEntry)
  zip : List ZipEntry → Bytes
  unzip : Bytes → Option (List ZipEntry)
  /-- How a name that is not UTF-8 is displayed. -/
  lossy : Bytes → String

/-! File operations below the target directory. -/

/-- `create_dir_all`, which follows no file as if it were a directory. -/
def createSecureDir (fs : Files Bytes) (p : Path) : Read (Files Bytes) :=
  if ∀ q ∈ p.inits, fs q = none ∨ fs q = some .dir then .ok (fs.makeDirs p)
  else .error (.io .notADirectory)

/-- A new file, never one that is there already. -/
def createFileMode (fs : Files Bytes) (p : Path) (content : Bytes) : Read (Files Bytes) :=
  if fs p = none then .ok (fs.put p (.file content)) else .error (.io .alreadyExists)

def createFile (fs : Files Bytes) (p : Path) (content : Bytes) : Read (Files Bytes) :=
  if fs p = some .dir then .error (.io .isADirectory) else .ok (fs.put p (.file content))

def emptyDir : Files Bytes := fun p => if p = [] then some .dir else none

/-! Unpacking. -/

structure Unpacked where
  fs : Files Bytes
  files : List String
  dirs : List String

def unpackEntry (st : Unpacked) (e : TarEntry) : Read Unpacked :=
  if isAbsolute e.name ∨ '\\' ∈ e.name.toList then
    invalid ("tar entry " ++ e.name ++ " is not a safe relative path")
  else match zipPathParts e.name with
  | .error _ => invalid ("tar entry " ++ e.name ++ " has an unsafe path")
  | .ok [] => .ok st
  | .ok ps =>
    if e.kind = .other then
      invalid ("tar entry " ++ e.name ++ " is not a regular file or directory")
    else if joined ps = "static.zip" ∧ e.kind ≠ .file then
      invalid "static.zip must be a regular file"
    else if e.kind = .dir then do
      let fs ← createSecureDir st.fs ps
      pure { st with fs := fs, dirs := joined ps :: st.dirs }
    else do
      let fs ← createSecureDir st.fs ps.dropLast
      let fs ← createFileMode fs ps e.content
      pure { st with fs := fs, files := joined ps :: st.files }

def requireFile (st : Unpacked) (name : String) : Read Unit :=
  ensure (name ∈ st.files) ("archive is missing the " ++ name ++ " entry")

def requireDir (st : Unpacked) (name : String) : Read Unit :=
  ensure (name ∈ st.dirs) ("archive is missing the " ++ name ++ " directory")

namespace Crates

variable (C : Crates)

/-- `extract_lkb` into a directory that did not exist: the metadata and what it then holds. -/
def extractLkb (bytes : Bytes) : Read (Metadata × Files Bytes) := do
  let metadata ← C.verifyLkb bytes
  match C.untarGz (bytes.drop metadataCapacity) with
  | none => invalid "tar decode failed"
  | some entries => do
    let st ← entries.foldlM unpackEntry ⟨emptyDir, [], []⟩
    requireFile st "landscape-webserver"
    requireFile st "landscape_init.toml"
    requireFile st "static.zip"
    requireDir st "static"
    requireDir st "geo_tmp"
    pure (metadata, st.fs)

/-! Packing `static.zip`, which is unpacked again as a check. -/

def displayed : OsName → String
  | .utf8 name => name
  | .raw bytes => C.lossy bytes

def packEntry (rel : String) : Listing Bytes → Read (List ZipEntry)
  | .nil => .ok []
  | .cons name (.dir listing) rest => do
    let zipName := rel ++ "/" ++ C.displayed name
    let inner ← packEntry zipName listing
    let after ← packEntry rel rest
    pure (⟨zipName ++ "/", true, false, false, []⟩ :: (inner ++ after))
  | .cons name (.file content) rest => do
    let after ← packEntry rel rest
    pure (⟨rel ++ "/" ++ C.displayed name, false, false, false, content⟩ :: after)
  | .cons name .symlink _ =>
    invalid ("the static directory contains an unsupported entry " ++ C.displayed name)
  | .cons name .other _ =>
    invalid ("the static directory contains an unsupported entry " ++ C.displayed name)

structure Extracted where
  fs : Files Bytes
  outputPaths : List String
  totalWritten : ℕ

def extractStaticEntry (limit : ℕ) (st : Extracted) (e : ZipEntry) : Read Extracted := do
  ensure (e.symlink = false) ("entry " ++ e.name ++ " is a symbolic link")
  ensure (e.special = false) ("entry " ++ e.name ++ " is a device file or special file")
  match Text.stripLead "static/".toList e.name.toList with
  | none => invalid ("entry " ++ e.name ++ " is not under the static/ prefix")
  | some relative =>
    match zipPathParts (String.ofList relative) with
    | .error _ => invalid ("entry " ++ e.name ++ " has an unsafe path")
    | .ok [] =>
      if e.isDir ∧ e.name = "static/" then .ok st
      else invalid ("entry " ++ e.name ++ " has no valid relative path")
    | .ok ps => do
      ensure (joined ps ∉ st.outputPaths)
        ("entry " ++ e.name ++ " duplicates existing path " ++ joined ps)
      let outputPaths := joined ps :: st.outputPaths
      if e.isDir then do
        let fs ← createSecureDir st.fs ps
        pure { st with fs := fs, outputPaths := outputPaths }
      else do
        ensure (e.content.length ≤ limit - st.totalWritten)
          ("entry " ++ e.name ++ " exceeds the decompression byte limit")
        let fs ← createSecureDir st.fs ps.dropLast
        let fs ← createFile fs ps e.content
        pure ⟨fs, outputPaths, st.totalWritten + e.content.length⟩

/-- At most twenty times what the archive declares, and at most 1 GiB. -/
def staticLimit (declaredSize : ℕ) : ℕ := min (declaredSize*20) (1024*1024*1024)

def extractStaticArchive (archive : Bytes) (declaredSize : ℕ) : Read Unit :=
  match C.unzip archive with
  | none => invalid "invalid Zip archive"
  | some entries => do
    let st ← entries.foldlM (extractStaticEntry (staticLimit declaredSize)) ⟨emptyDir, [], 0⟩
    ensure (st.fs.isFile ["index.html"]) "decompressed result is missing static/index.html"

def packStaticZip (static : Listing Bytes) : Read Bytes := do
  let entries ← C.packEntry "static" static
  let archive := C.zip entries
  C.extractStaticArchive archive archive.length
  pure archive

end Crates

/-! Appending a tree to the tar. -/

/-- One directory: its entries, and the directories in it that are still to be read. -/
def appendListing (rel : String) :
    Listing Bytes → Read (List TarEntry × List (Listing Bytes × String))
  | .nil => .ok ([], [])
  | .cons (.raw _) _ _ => invalid "archive source contains a non-UTF-8 file name"
  | .cons (.utf8 name) .symlink _ => invalid (rel ++ "/" ++ name ++ " is a symbolic link")
  | .cons (.utf8 name) .other _ =>
    invalid (rel ++ "/" ++ name ++ " is not a regular file or directory")
  | .cons (.utf8 name) (.dir listing) rest => do
    let after ← appendListing rel rest
    pure (⟨rel ++ "/" ++ name, .dir, []⟩ :: after.1, (listing, rel ++ "/" ++ name) :: after.2)
  | .cons (.utf8 name) (.file content) rest => do
    let after ← appendListing rel rest
    pure (⟨rel ++ "/" ++ name, .file, content⟩ :: after.1, after.2)

/-- `while let Some((path, rel)) = stack.pop()`. Every round reads one directory, so as many
rounds as there are directories are enough. -/
def appendLoop : ℕ → List (Listing Bytes × String) → Read (List TarEntry)
  | 0, _ => .ok []
  | _+1, [] => .ok []
  | fuel+1, (listing, rel) :: stack => do
    let read ← appendListing rel listing
    -- the directory that was pushed last is the next to be popped
    let rest ← appendLoop fuel (read.2.reverse ++ stack)
    pure (read.1 ++ rest)

def appendTree (top : String) (listing : Listing Bytes) : Read (List TarEntry) := do
  let entries ← appendLoop (listing.dirs + 1) [(listing, top)]
  pure (⟨top, .dir, []⟩ :: entries)

/-- What `create_backup` is given: `none` where the path is no directory. -/
structure Source where
  webserver : Bytes
  initConfig : Bytes
  staticDir : Option (Listing Bytes)
  geoTmp : Option (Listing Bytes)

namespace Source

variable (src : Source)

def appendGeo : Read (List TarEntry) :=
  match src.geoTmp with
  | some listing => appendTree "geo_tmp" listing
  | none => .ok [⟨"geo_tmp/", .dir, []⟩]

def tarEntries (static : Listing Bytes) (staticZip : Bytes) : Read (List TarEntry) := do
  let tree ← appendTree "static" static
  let geo ← src.appendGeo
  pure (⟨"landscape-webserver", .file, src.webserver⟩ ::
    ⟨"landscape_init.toml", .file, src.initConfig⟩ :: ⟨"static.zip", .file, staticZip⟩ ::
    (tree ++ geo))

end Source

/-! The backup. -/

def backupIdAttempts : ℕ := 8

/-- What the machine contributes to a backup: the clock, random suffixes, its name, and which
backups are there already. -/
structure BackupEnv where
  now : DateTime
  suffix : ℕ → UInt32
  hostname : Text
  lkitVersion : Text
  taken : Text → Bool

def isControl (c : Char) : Bool := c.toNat < 0x20 || (0x7f ≤ c.toNat && c.toNat ≤ 0x9f)

def validateRemark (remark : Text) : Read Unit :=
  if remark.length > 256 then .error (.usage "remark must be at most 256 characters")
  else if remark.any isControl then .error (.usage "remark must not contain control characters")
  else .ok ()

def parseArchitecture (value : String) : Read Architecture :=
  match value with
  | "x86_64" => .ok .x86_64
  | "aarch64" => .ok .aarch64
  | "riscv64" => .ok .riscv64
  | "loongarch64" => .ok .loongarch64
  | _ => invalid ("unsupported architecture " ++ value)

def newBackupId (createdAt : DateTime) (suffix : UInt32) : Text :=
  createdAt.format ++ ['-'] ++ List.leftpad 8 '0' (Nat.toDigits 16 suffix.toNat)

structure BackupRequest where
  landscapeVersion : Semver
  architecture : String
  remark : Text
  auto : Bool

structure Published where
  backupId : Text
  sha256 : Text
  bytes : Bytes

namespace Crates

variable (C : Crates) (env : BackupEnv) (req : BackupRequest)

def metadataOf (architecture : Architecture) (backupId : Text) (archive : Bytes) : Metadata where
  schemaVersion := 1
  backupId := backupId
  createdAt := env.now
  landscapeVersion := req.landscapeVersion.display
  lkitVersion := env.lkitVersion
  architecture := architecture
  hostname := env.hostname
  remark := req.remark
  auto := req.auto
  scope := .minimal
  contents := ⟨true, true, true, true, true⟩
  checksum := "sha256:".toList ++ hex (C.sha256 archive)

/-- The rounds over fresh backup IDs; a round whose name is taken goes on to the next. -/
def publish (architecture : Architecture) (archive : Bytes) : List UInt32 → Read Published
  | [] => invalid "could not allocate a unique backup ID after multiple attempts"
  | suffix :: rest => do
    let backupId := newBackupId env.now suffix
    let json := C.toVec (C.metadataOf env req architecture backupId archive)
    ensure (json.length ≤ metadataCapacity - headerLen) "backup metadata exceeds the 1 MiB capacity"
    let written := container json archive
    let _ ← C.verifyLkb written
    if env.taken backupId then publish architecture archive rest
    else pure ⟨backupId, hex (C.sha256 written), written⟩

def createBackup (src : Source) : Read Published := do
  validateRemark req.remark
  match src.staticDir with
  | none => .error (.io .notFound)
  | some static => do
    let staticZip ← C.packStaticZip static
    let entries ← src.tarEntries static staticZip
    let architecture ← parseArchitecture req.architecture
    C.publish env req architecture (C.tarGz entries) ((List.range backupIdAttempts).map env.suffix)

end Crates

end LandscapeKit.Lkb
