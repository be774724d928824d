import LandscapeKit.HostnetSystem
import Mathlib.Algebra.Group.Nat.Defs

/-!
`execute_unmanage`: the files are planned, backed up, replaced one by one through temporary
files, and checked by a dry run of `ifup`; a failure behind the backup puts back what is still
as this run has left it.
-/

namespace LandscapeKit.Hostnet

open Faults Faults.Prog

abbrev Edit := FileEdit FileMetadata

abbrev Op := Prog Sys HostNetError

structure FileSet where
  interfaces : Text
  files : List Text
deriving DecidableEq

structure ManifestFile where
  original : Text
  backup : Text
  metadata : FileMetadata
deriving DecidableEq

structure Manifest where
  schemaVersion : ℕ
  files : List ManifestFile
deriving DecidableEq

def manifestSchemaVersion : ℕ := 1

inductive Validation where
  | clean
  | unavailable
  | failed (exit : Option ℤ) (stderr : Text)
deriving DecidableEq

structure UnmanageOutcome where
  manifest : Option Manifest
  edited : List Text
  validation : Validation
deriving DecidableEq

structure DryRun where
  success : Bool
  code : Option ℤ
  stderr : Text

/-- What the transaction uses from outside: the process it runs in, the patterns of the glob
library, the serializer of the manifest, and `ifup`, if the path of one is given; a tool that is
not there or cannot be started gives no answer. -/
structure Outside where
  process : Process
  glob : Text → Except Text (Text → Bool)
  toVecPretty : Manifest → Text
  ifup : Option ((Text → Option Entry) → Option DryRun)

def captureMetadata (path : Text) : Op FileMetadata := do
  let entry ← query false (.unreadableFile path) fun s => s.files path
  match entry with
  | .file _ metadata => pure metadata
  | _ =>
    fail (.pathSafety path
      "host network configuration must be a regular non-symlink file".toList)

def read (within : Bool) (path : Text) : Op Content :=
  query within (.unreadableFile path) fun s => (s.files path).bind Entry.read?

/-- `within` says that nothing happens between the two calls. -/
def verifySnapshot (within : Bool) (path : Text) (expectedContent : Content)
    (expectedMetadata : FileMetadata) : Op Unit := do
  let metadata ← captureMetadata path
  if metadata ≠ expectedMetadata then fail (.concurrentModification path)
  else do
    let content ← read within path
    if content ≠ expectedContent then fail (.concurrentModification path) else pure ()

def verifyEdit (edit : Edit) : Op Unit :=
  verifySnapshot false edit.path (.utf8 edit.originalContent) edit.metadata

section WriteAtomic

variable (process : Process)

def rejectSymlinkTarget (within : Bool) (path : Text) : Op Unit := do
  let entry ← query within (.unreadableFile path) fun s => some (s.files path)
  match entry with
  | none => pure ()
  | some (.file _ _) => pure ()
  | some (.symlink _) =>
    fail (.pathSafety path "refusing to replace a symbolic link".toList)
  | some .other =>
    fail (.pathSafety path "atomic write target must be a regular file".toList)

/-- `TEMP_SEQUENCE.fetch_add(1)` on 64 bits. -/
def nextSequence : Op ℕ := fun s =>
  (.ok s.sequence, { s with sequence := (s.sequence + 1) % 2 ^ 64 })

/-- What stands between the file's name and the number in the name of a temporary file. -/
def tempMark : Text := ".lkit-hostnet.".toList ++ Nat.toDigits 10 process.pid ++ ".".toList

def tempName (name : Text) (sequence : ℕ) : Text :=
  ".".toList ++ name ++ tempMark process ++ Nat.toDigits 10 sequence ++ ".tmp".toList

/-- `create_new`: whether the file has been created; `false` when there is one already. -/
def openNew (path : Text) : Op Bool :=
  call false (.atomicWriteFailed path)
    (fun s =>
      match s.files path with
      | some _ => some (false, s)
      | none =>
        some (true, s.overwrite path
          (some (.file (.utf8 []) ⟨0o600, process.uid, process.gid⟩))))
    fun _ s => s

def createTempFrom (dir name : Text) : ℕ → Op Text
  | 0 => fail (.atomicWriteFailed dir)
  | attempts + 1 => do
    let sequence ← nextSequence
    let path := join dir (tempName process name sequence)
    let created ← openNew process path
    if created then pure path else createTempFrom dir name attempts

def createTemp (dir name : Text) : Op Text := createTempFrom process dir name 128

def writeAll (tmp : Text) (bytes : Content) : Op Unit :=
  amend (.atomicWriteFailed tmp) tmp (Entry.setContent bytes)
    fun fault => Entry.setContent (bytes.take fault.done)

def fchown (tmp : Text) (metadata : FileMetadata) : Op Unit :=
  amend (.atomicWriteFailed tmp) tmp (Entry.setOwner metadata.uid metadata.gid) fun _ e => e

def setPermissions (tmp : Text) (mode : ℕ) : Op Unit :=
  amend (.atomicWriteFailed tmp) tmp (Entry.setMode mode) fun _ e => e

def syncAll (path : Text) : Op Unit := query false (.atomicWriteFailed path) fun _ => some ()

def rename (within : Bool) (tmp path : Text) : Op Unit :=
  call within (.atomicWriteFailed path)
    (fun s =>
      match s.files tmp, s.files path with
      | none, _ => none
      | some _, some .other => none
      | some entry, _ => some ((), (s.overwrite path (some entry)).overwrite tmp none))
    fun _ s => s

def removeFile (tmp : Text) : Op Unit :=
  call false (.unreadableFile tmp)
    (fun s =>
      match s.files tmp with
      | none => none
      | some _ => some ((), s.overwrite tmp none))
    fun _ s => { s with unremoved := tmp :: s.unremoved }

/-- The check against the snapshot and the rename. With a snapshot to check against they are one
step. -/
def checkAndRename (tmp path : Text) (expected : Option (Content × FileMetadata)) : Op Unit :=
  match expected with
  | some (content, metadata) => do
    verifySnapshot true path content metadata
    rejectSymlinkTarget true path
    rename true tmp path
  | none => do
    rejectSymlinkTarget false path
    rename false tmp path

/-- The content, the owner and the mode of the temporary file. -/
def fill (tmp : Text) (bytes : Content) (metadata : Option FileMetadata) : Op Unit := do
  writeAll tmp bytes
  match metadata with
  | some metadata => fchown tmp metadata
  | none => pure ()
  setPermissions tmp (metadata.elim 0o600 (·.mode))
  syncAll tmp

/-- The closure in `write_atomic_checked`. -/
def fillAndRename (dir tmp path : Text) (bytes : Content) (metadata : Option FileMetadata)
    (expected : Option (Content × FileMetadata)) : Op Unit := do
  fill tmp bytes metadata
  checkAndRename tmp path expected
  syncAll dir

def writeAtomicChecked (path : Text) (bytes : Content) (metadata : Option FileMetadata)
    (expected : Option (Content × FileMetadata)) : Op Unit :=
  match parent path, fileName path with
  | none, _ => fail (.pathSafety path "target has no parent directory".toList)
  | some _, none => fail (.pathSafety path "target has no file name".toList)
  | some dir, some name => do
    rejectSymlinkTarget false path
    let tmp ← createTemp process dir name
    let result ← attempt (fillAndRename dir tmp path bytes metadata expected)
    match result with
    | .ok () => pure ()
    | .error error => do
      ignore (removeFile tmp)
      fail error

def writeAtomic (path : Text) (bytes : Content) : Op Unit :=
  writeAtomicChecked process path bytes none none

end WriteAtomic

section Backup

variable (outside : Outside)

def createDir (path : Text) : Op Unit :=
  call false (.unreadableFile path)
    (fun s =>
      match s.files path with
      | some _ => none
      | none => some ((), s.overwrite path (some .other)))
    fun _ s => s

def ensureDir (path : Text) : Op Unit :=
  call false (.unreadableFile path)
    (fun s =>
      match s.files path with
      | some (.file _ _) => none
      | some _ => some ((), s)
      | none => some ((), s.overwrite path (some .other)))
    fun _ s => s

/-- The directories above a path and the path itself, the root apart. -/
def ancestors (path : Text) : List Text :=
  path.inits.filter fun dir => dir ≠ [] ∧ (dir = path ∨ isBelow dir path)

def createDirAll (path : Text) : Op Unit := forEach ensureDir (ancestors path)

/-- `set_permissions` on a directory. -/
def restrictDir (path : Text) : Op Unit := query false (.unreadableFile path) fun _ => some ()

def removeDirAll (dir : Text) : Op Unit :=
  call false (.unreadableFile dir)
    (fun s => some ((), s.overwriteAll (fun p => p = dir || isBelow dir p) fun _ => none))
    fun fault s =>
      s.overwriteAll (fun p => (p = dir || isBelow dir p) && !fault.kept p) fun _ => none

/-- The loop over the edits, from the given index on. -/
def backupFiles (dest : Text) : ℕ → List Edit → Op (List ManifestFile)
  | _, [] => pure []
  | index, edit :: edits =>
    match fileName edit.path with
    | none => fail (.pathSafety edit.path "original has no file name".toList)
    | some name => do
      let backupDir := join dest (Nat.toDigits 10 index)
      createDir backupDir
      restrictDir backupDir
      let backupPath := join backupDir name
      writeAtomic outside.process backupPath (.utf8 edit.originalContent)
      let files ← backupFiles dest (index + 1) edits
      pure (⟨edit.path, backupPath, edit.metadata⟩ :: files)

def backupAll (edits : List Edit) (dest : Text) : Op Manifest := do
  let files ← backupFiles outside dest 0 edits
  let manifest : Manifest := ⟨manifestSchemaVersion, files⟩
  writeAtomic outside.process (join dest "manifest.json".toList)
    (.utf8 (outside.toVecPretty manifest))
  pure manifest

def verifyOriginal (edit : Edit) : Op Unit :=
  if !isAbsolute edit.path then
    fail (.pathSafety edit.path "original path must be absolute".toList)
  else verifyEdit edit

/-- `symlink_metadata(dest).is_ok()`. -/
def exists? (path : Text) : Op Bool := do
  let result ← attempt (query false (.unreadableFile path) fun s => s.files path)
  match result with
  | .ok _ => pure true
  | .error _ => pure false

/-- What is left of `backup` once the destination is known to be new. -/
def backupTo (edits : List Edit) (dest : Text) : Op Manifest :=
  match parent dest with
  | none => fail (.pathSafety dest "backup destination has no parent directory".toList)
  | some dir => do
    createDirAll dir
    createDir dest
    restrictDir dest
    let result ← attempt (backupAll outside edits dest)
    match result with
    | .ok manifest => pure manifest
    | .error error => do
      ignore (removeDirAll dest)
      fail error

def backup (edits : List Edit) (dest : Text) : Op Manifest :=
  if !isAbsolute dest then
    fail (.pathSafety dest "backup destination must be absolute".toList)
  else do
    let present ← exists? dest
    if present then fail (.pathSafety dest "backup destination already exists".toList)
    else if edits = [] then pure ⟨manifestSchemaVersion, []⟩
    else do
      forEach verifyOriginal edits
      backupTo outside edits dest

end Backup

section Apply

variable (process : Process)

/-- One turn of the second loop of `apply`. -/
def applyEdit (edit : Edit) : Op Unit := do
  verifyEdit edit
  writeAtomicChecked process edit.path (.utf8 edit.content) (some edit.metadata)
    (some (.utf8 edit.originalContent, edit.metadata))

/-- Gives back the paths that were edited. -/
def apply (edits : List Edit) : Op (List Text) := do
  forEach verifyEdit edits
  forEach (applyEdit process) edits
  pure (edits.map (·.path))

end Apply

section Restore

variable (process : Process)

def manifestPath : Text := "<manifest>".toList

def readBackup (file : ManifestFile) : Op Content :=
  if !isAbsolute file.original || !isAbsolute file.backup then
    fail (.invalidManifest file.backup "manifest paths must be absolute".toList)
  else do
    let entry ← query false (.unreadableFile file.backup) fun s => s.files file.backup
    match entry with
    | .file _ _ => read false file.backup
    | _ =>
      fail (.invalidManifest file.backup "backup must be a regular non-symlink file".toList)

def readBackupFiles : List ManifestFile → Op (List (ManifestFile × Content))
  | [] => pure []
  | file :: files => do
    let bytes ← readBackup file
    let rest ← readBackupFiles files
    pure ((file, bytes) :: rest)

def readBackups (manifest : Manifest) : Op (List (ManifestFile × Content)) :=
  if manifest.schemaVersion ≠ manifestSchemaVersion then
    fail (.invalidManifest manifestPath ("unsupported manifest schema version ".toList ++
      Nat.toDigits 10 manifest.schemaVersion))
  else readBackupFiles manifest.files

def isBackupOf (backup : ManifestFile × Content) (edit : Edit) : Bool :=
  backup.1.original = edit.path ∧ backup.1.metadata = edit.metadata ∧
    backup.2 = .utf8 edit.originalContent

/-- A file this run has edited and is to put back. -/
structure Pending where
  path : Text
  original : Content
  edit : Edit

/-- The loop that tells the files apart: at their original, at their edited state, or changed by
someone else. Only the first conflict is reported. -/
def classify : List ((ManifestFile × Content) × Edit) → Op (List Pending × Option HostNetError)
  | [] => pure ([], none)
  | ((file, original), edit) :: rest => do
    let metadata ← captureMetadata edit.path
    let current ← read false edit.path
    let (pending, conflict) ← classify rest
    if metadata = edit.metadata ∧ current = .utf8 edit.originalContent then
      pure (pending, conflict)
    else if metadata = edit.metadata ∧ current = .utf8 edit.content then
      pure (⟨file.original, original, edit⟩ :: pending, conflict)
    else pure (pending, some (.concurrentModification edit.path))

def putBack (pending : Pending) : Op Unit :=
  writeAtomicChecked process pending.path pending.original (some pending.edit.metadata)
    (some (.utf8 pending.edit.content, pending.edit.metadata))

def restoreIfUnchanged (manifest : Manifest) (edits : List Edit) : Op Unit := do
  let restoreFiles ← readBackups manifest
  if restoreFiles.length ≠ edits.length ∨
      (restoreFiles.zip edits).any (fun x => !isBackupOf x.1 x.2) then
    fail (.invalidManifest manifestPath "manifest does not match the edit plan".toList)
  else do
    let (pending, conflict) ← classify (restoreFiles.zip edits)
    forEach (putBack process) pending
    match conflict with
    | some error => fail error
    | none => pure ()

end Restore

section Execute

variable (outside : Outside)

/-- What a call gives for each path, an error included. -/
def observe {α : Type} (look : Text → Op α) :
    List Text → Op (List (Text × Except HostNetError α))
  | [] => pure []
  | path :: paths => do
    let seen ← attempt (look path)
    let rest ← observe look paths
    pure ((path, seen) :: rest)

def readToString (path : Text) : Op Text :=
  query false (.unreadableFile path) fun s =>
    ((s.files path).bind Entry.read?).bind Content.text?

def seenAs {α : Type} (seen : List (Text × Except HostNetError α)) (path : Text) :
    Except HostNetError α :=
  (seen.lookup path).getD (.error (.unreadableFile path))

/-- `plan_unmanage` on the files as they are read one after the other, with metadata that is
looked up behind the contents. -/
def planFiles (selected files : List Text) : Op (EditPlan FileMetadata) := do
  let contents ← observe readToString files
  let metadata ← observe captureMetadata files
  let env : Env FileMetadata := {
    readToString := fun path => (seenAs contents path).toOption
    captureMetadata := seenAs metadata
    glob := outside.glob }
  match planUnmanage env selected files with
  | .ok plan => pure plan
  | .error error => fail error

/-- The dry run sees the files as they are; an error in it is no answer. -/
def validate (fileSet : FileSet) : Op Validation :=
  if fileSet.files = [] then pure .clean
  else
    match outside.ifup with
    | none => pure .unavailable
    | some ifup => do
      let result ← attempt (query false (.unreadableFile fileSet.interfaces) fun s => ifup s.files)
      match result with
      | .error _ => pure .unavailable
      | .ok output =>
        if output.success then pure .clean else pure (.failed output.code output.stderr)

def restoreAfterFailure (manifest : Manifest) (edits : List Edit) (operation : HostNetError) :
    Op UnmanageOutcome := do
  let result ← attempt (restoreIfUnchanged outside.process manifest edits)
  match result with
  | .ok () => fail operation
  | .error recovery => fail (.recoveryFailed operation recovery)

/-- `execute_unmanage` once there is something to edit. -/
def executePlan (fileSet : FileSet) (edits : List Edit) (backupDir : Text) :
    Op UnmanageOutcome := do
  let manifest ← backup outside edits backupDir
  let applied ← attempt (apply outside.process edits)
  match applied with
  | .error operation => restoreAfterFailure outside manifest edits operation
  | .ok edited => do
    let validated ← attempt (validate outside fileSet)
    match validated with
    | .error operation => restoreAfterFailure outside manifest edits operation
    | .ok (.failed exit stderr) =>
      restoreAfterFailure outside manifest edits (.validationFailed exit stderr)
    | .ok validation => pure ⟨some manifest, edited, validation⟩

/-- `fileSet` is what `collect` gave. -/
def executeUnmanage (fileSet : FileSet) (selected : List Text) (backupDir : Text) :
    Op UnmanageOutcome := do
  let plan ← planFiles outside selected fileSet.files
  if plan.edits = [] then pure ⟨none, [], .clean⟩
  else executePlan outside fileSet plan.edits backupDir

end Execute

end LandscapeKit.Hostnet
