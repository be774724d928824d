import LandscapeKit.LibUnpack
import LandscapeKit.LkbRoundTrip

/-!
`static.zip` on both sides of a release: the publisher's `validate_static_archive`,
which only reads, and the installer's `extract_static_archive`, which creates
what it reads. An archive is the list of its entries as the zip crate presents
them; an entry that cannot be opened is `none`.
-/

namespace LandscapeKit.Publish

open Lkb (zipPathParts ZipPathError joined)

structure StaticEntry where
  name : String
  unixMode : Option ℕ
  /-- the size the directory of the archive declares -/
  size : ℕ
  /-- what can be read of the content -/
  content : Bytes
  /-- reading ends in an error, such as a wrong checksum -/
  broken : Bool

abbrev Archive := List (Option StaticEntry)

namespace StaticEntry

variable (e : StaticEntry)

def isDir : Bool := e.name.toList.getLast? = some '/' ∨ e.name.toList.getLast? = some '\\'

def isSymlink : Bool := e.unixMode.any fun mode => mode &&& 0o120000 = 0o120000

/-- A character or block device, a pipe or a socket. -/
def isSpecial : Bool :=
  e.unixMode.any fun mode => mode &&& 0o170000 ∈ [0o020000, 0o060000, 0o010000, 0o140000]

end StaticEntry

/-- How the content of an entry comes in, for a buffer of the given size. -/
structure Reader where
  chunks : ℕ → Bytes → List Bytes
  whole : ∀ size content, (chunks size content).flatten = content

inductive EntryError where
  | unreadable
  | symlink (name : String)
  | special (name : String)
  | outside (name : String)
  | unsafePath (name : String) (reason : ZipPathError)
  | noPath (name : String)
  | duplicate (name normalized : String)
  | exceeds (name : String)
  | exceedsTotal
  | readFailed
  | createFailed
  | missingIndex
deriving DecidableEq

def zipPathErrorText : ZipPathError → String
  | .invalidCharacters => "path contains invalid characters"
  | .dotComponent => "path contains . or .. components"
  | .drivePrefix => "path contains a drive prefix"

/-- An error of the publisher: a reason for the version, or one of the operating system. -/
inductive PublishError where
  | invalidAsset (reason : String)
  | io
deriving DecidableEq

inductive RepositoryError where
  | extract (reason : String)
  | io
deriving DecidableEq

def publishError (version : String) : EntryError → PublishError
  | .unreadable => .invalidAsset ("version " ++ version ++ " invalid zip entry")
  | .symlink name => .invalidAsset ("version " ++ version ++ " zip contains a symbolic link: " ++ name)
  | .special name => .invalidAsset ("version " ++ version ++ " zip contains a special file: " ++ name)
  | .outside name =>
    .invalidAsset ("version " ++ version ++ " zip entry must be under static/: " ++ name)
  | .unsafePath name reason =>
    .invalidAsset ("version " ++ version ++ " zip contains an unsafe path " ++ name ++ ": " ++
      zipPathErrorText reason)
  | .noPath name =>
    .invalidAsset ("version " ++ version ++ " zip entry has no relative path: " ++ name)
  | .duplicate _ normalized =>
    .invalidAsset ("version " ++ version ++ " zip contains duplicate path: " ++ normalized)
  | .exceeds _ | .exceedsTotal =>
    .invalidAsset ("version " ++ version ++ " zip exceeds the decompressed size limit")
  | .missingIndex => .invalidAsset ("version " ++ version ++ " zip is missing static/index.html")
  | .readFailed | .createFailed => .io

def extractError : EntryError → RepositoryError
  | .unreadable => .extract "invalid Zip archive"
  | .symlink name => .extract ("entry " ++ name ++ " is a symbolic link")
  | .special name => .extract ("entry " ++ name ++ " is a device file or special file")
  | .outside name => .extract ("entry " ++ name ++ " is not under the static/ prefix")
  | .unsafePath name reason =>
    .extract ("entry " ++ name ++ " has an unsafe path: " ++ zipPathErrorText reason)
  | .noPath name => .extract ("entry " ++ name ++ " has no valid relative path")
  | .duplicate name normalized =>
    .extract ("entry " ++ name ++ " duplicates existing path " ++ normalized)
  | .exceeds name => .extract ("entry " ++ name ++ " exceeds the decompression byte limit")
  | .exceedsTotal => .extract "total decompressed bytes exceed the limit"
  | .missingIndex => .extract "decompressed result is missing static/index.html"
  | .readFailed => .extract "read failed"
  | .createFailed => .io

/-- The checks on the type bits and the name, the same on both sides: the path below `static/`,
or none for the entry of that directory itself. -/
def StaticEntry.outputPath (e : StaticEntry) : Except EntryError (Option Path) :=
  if e.isSymlink then .error (.symlink e.name)
  else if e.isSpecial then .error (.special e.name)
  else match Text.stripLead "static/".toList e.name.toList with
    | none => .error (.outside e.name)
    | some relative =>
      match zipPathParts (String.ofList relative) with
      | .error reason => .error (.unsafePath e.name reason)
      | .ok [] => if e.isDir ∧ e.name = "static/" then .ok none else .error (.noPath e.name)
      | .ok ps => .ok (some ps)

/-- The loop over the buffer: every chunk counts against the limit before it is used. -/
def readChunks (limit total : ℕ) (broken : Bool) : List Bytes → Except EntryError (ℕ × Bytes)
  | [] => if broken then .error .readFailed else .ok (total, [])
  | chunk :: rest =>
    if limit < total + chunk.length then .error .exceedsTotal
    else (readChunks limit (total + chunk.length) broken rest).map fun r => (r.1, chunk ++ r.2)

def maxDecompressedBytes : ℕ := 1024*1024*1024

def staticLimit (archiveLength : ℕ) : ℕ := min (archiveLength*20) maxDecompressedBytes

/-! The publisher. -/

structure Scan where
  outputPaths : List String
  totalRead : ℕ
  hasIndex : Bool

def validateEntry (reader : Reader) (limit : ℕ) (st : Scan) :
    Option StaticEntry → Except EntryError Scan
  | none => .error .unreadable
  | some e =>
    match e.outputPath with
    | .error err => .error err
    | .ok none => .ok st
    | .ok (some ps) =>
      if joined ps ∈ st.outputPaths then .error (.duplicate e.name (joined ps))
      else if e.isDir then .ok { st with outputPaths := joined ps :: st.outputPaths }
      else if limit - st.totalRead < e.size then .error (.exceeds e.name)
      else
        match readChunks limit st.totalRead e.broken (reader.chunks (64*1024) e.content) with
        | .error err => .error err
        | .ok (total, _) =>
          .ok ⟨joined ps :: st.outputPaths, total, st.hasIndex || joined ps = "index.html"⟩

def validateStaticArchive (version : String) (reader : Reader) (archiveLength : ℕ)
    (archive : Archive) : Except PublishError Unit :=
  match archive.foldlM (validateEntry reader (staticLimit archiveLength)) ⟨[], 0, false⟩ with
  | .error err => .error (publishError version err)
  | .ok st => if st.hasIndex then .ok () else .error (publishError version .missingIndex)

/-! The installer. -/

structure Extraction where
  fs : Files Bytes
  outputPaths : List String
  totalWritten : ℕ

def createDirAll (fs : Files Bytes) (p : Path) : Except EntryError (Files Bytes) :=
  if ∀ q ∈ p.inits, fs q = none ∨ fs q = some .dir then .ok (fs.makeDirs p)
  else .error .createFailed

def createFile (fs : Files Bytes) (p : Path) : Except EntryError (Files Bytes) :=
  if fs p = some .dir then .error .createFailed else .ok (fs.put p (.file []))

/-- The parents of a file, then the file. -/
def createWithParents (fs : Files Bytes) (p : Path) : Except EntryError (Files Bytes) := do
  let fs ← createDirAll fs p.dropLast
  createFile fs p

def extractEntry (reader : Reader) (limit : ℕ) (st : Extraction) :
    Option StaticEntry → Except EntryError Extraction
  | none => .error .unreadable
  | some e =>
    match e.outputPath with
    | .error err => .error err
    | .ok none => .ok st
    | .ok (some ps) =>
      if joined ps ∈ st.outputPaths then .error (.duplicate e.name (joined ps))
      else if e.isDir then do
        let fs ← createDirAll st.fs ps
        return { st with fs := fs, outputPaths := joined ps :: st.outputPaths }
      else if limit - st.totalWritten < e.size then .error (.exceeds e.name)
      else do
        let fs ← createWithParents st.fs ps
        let (total, written) ←
          readChunks limit st.totalWritten e.broken (reader.chunks (128*1024) e.content)
        return ⟨fs.put ps (.file written), joined ps :: st.outputPaths, total⟩

/-- Into a target directory that did not exist. -/
def extractStaticArchive (reader : Reader) (declaredSize : ℕ) (archive : Archive) :
    Except RepositoryError (Files Bytes) :=
  match archive.foldlM (extractEntry reader (staticLimit declaredSize)) ⟨Unpack.empty, [], 0⟩ with
  | .error err => .error (extractError err)
  | .ok st =>
    if st.fs.isFile ["index.html"] then .ok st.fs else .error (extractError .missingIndex)

end LandscapeKit.Publish
