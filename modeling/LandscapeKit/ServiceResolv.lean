import LandscapeKit.LibInterrupt
import LandscapeKit.LibLossy

/-!
The resolver file of the host is kept before a service is installed and put back when it
goes: `service/resolv.rs`. What is kept are two files, `metadata.json` and, of a regular file,
`content`. Every file operation is a point where the program can be cut off. The temporary
files of the backup are read by nobody and left out; the one beside the source is in the model,
since a restore finds it as the restore before it left it.
-/

namespace LandscapeKit.Service.Resolv

open Text Utf8 Faults Prog

/-- What the kernel takes as the target of a link. -/
structure Target where
  bytes : Bytes
  valid : bytes ≠ [] ∧ 0 ∉ bytes ∧ bytes.length < 4096
deriving DecidableEq

/-- A user or a group. The last number of 32 bits is no owner: to `chown` it says "unchanged". -/
abbrev Owner := Fin (2 ^ 32 - 1)

def root : Owner := ⟨0, by decide⟩

/-- A regular file. The mode is the twelve bits of `stat.mode() & 0o7777`. -/
structure File where
  content : Bytes
  mode : BitVec 12
  uid : Owner
  gid : Owner
deriving DecidableEq

inductive Entry
  | symlink (target : Target)
  | regular (file : File)
  | directory
deriving DecidableEq

inductive FileType
  | regular
  | symlink
  | missing
deriving DecidableEq

/-- `ResolvMetadata`, without the two fields nothing reads: `path` and `captured_at`. -/
structure ResolvMetadata where
  schemaVersion : ℕ
  fileType : FileType
  symlinkTarget : Option Text
  mode : BitVec 12
  uid : Owner
  gid : Owner
  contentSaved : Bool
deriving DecidableEq

inductive InstallError
  | io
  | unsupportedType
  | tooLarge
  | unsupportedSchema (version : ℕ)
  | missingTarget
deriving DecidableEq

/-- The source, the temporary file beside it, and the two files of the backup directory. -/
structure Disk where
  source : Option Entry
  tmp : Option Entry
  metadata : Option ResolvMetadata
  content : Option Bytes
deriving DecidableEq

abbrev Host := Prog (Interruptible Disk) InstallError

def maxResolvBytes : ℕ := 1024 * 1024

section Operations

/-- An operation that changes nothing the model keeps. -/
def quiet (d : Disk) : Except InstallError (Unit × Disk) := .ok ((), d)

def symlinkMetadata (d : Disk) : Except InstallError (Option Entry × Disk) := .ok (d.source, d)

def readLink (d : Disk) : Except InstallError (Target × Disk) :=
  match d.source with
  | some (.symlink target) => .ok (target, d)
  | _ => .error .io

/-- `metadata().len()` and `read`, of a source that was found to be a regular file. -/
def readSource (d : Disk) : Except InstallError (Bytes × Disk) :=
  match d.source with
  | some (.regular file) => .ok (file.content, d)
  | _ => .error .io

def putMetadata (metadata : ResolvMetadata) (d : Disk) : Except InstallError (Unit × Disk) :=
  .ok ((), { d with metadata := some metadata })

def putContent (content : Bytes) (d : Disk) : Except InstallError (Unit × Disk) :=
  .ok ((), { d with content := some content })

def readMetadata (d : Disk) : Except InstallError (ResolvMetadata × Disk) :=
  match d.metadata with
  | some metadata => .ok (metadata, d)
  | none => .error .io

def readContent (d : Disk) : Except InstallError (Bytes × Disk) :=
  match d.content with
  | some content => .ok (content, d)
  | none => .error .io

def removeSource (d : Disk) : Except InstallError (Unit × Disk) :=
  match d.source with
  | some (.symlink _) | some (.regular _) => .ok ((), { d with source := none })
  | _ => .error .io

def removeTmp (d : Disk) : Except InstallError (Unit × Disk) :=
  match d.tmp with
  | some (.symlink _) | some (.regular _) => .ok ((), { d with tmp := none })
  | _ => .error .io

/-- `symlink(target, &tmp)`, which takes no name that is in use. -/
def symlink (target : Bytes) (d : Disk) : Except InstallError (Unit × Disk) :=
  if h : target ≠ [] ∧ 0 ∉ target ∧ target.length < 4096 then
    match d.tmp with
    | none => .ok ((), { d with tmp := some (.symlink ⟨target, h⟩) })
    | some _ => .error .io
  else .error .io

/-- `open` with `create` and `truncate`. A file that is there keeps its mode and its owner; a new
one belongs to root. Behind a link would be another file, which no run meets. -/
def openTmp (mode : BitVec 12) (d : Disk) : Except InstallError (Unit × Disk) :=
  match d.tmp with
  | none => .ok ((), { d with tmp := some (.regular ⟨[], mode, root, root⟩) })
  | some (.regular file) => .ok ((), { d with tmp := some (.regular { file with content := [] }) })
  | _ => .error .io

def changeTmp (f : File → File) (d : Disk) : Except InstallError (Unit × Disk) :=
  match d.tmp with
  | some (.regular file) => .ok ((), { d with tmp := some (.regular (f file)) })
  | _ => .error .io

/-- What `chown` leaves of a mode, for root as for everybody: never the set-user-ID bit, and the
set-group-ID bit only where the group cannot execute the file. -/
def chownMode (mode : BitVec 12) : BitVec 12 :=
  if mode &&& 0o0010 ≠ 0 then mode &&& 0o1777 else mode &&& 0o3777

def renameTmp (d : Disk) : Except InstallError (Unit × Disk) :=
  match d.tmp, d.source with
  | none, _ => .error .io
  | some _, some .directory => .error .io
  | some entry, _ => .ok ((), { d with source := some entry, tmp := none })

end Operations

def capture : Host ResolvMetadata := do
  match ← call symlinkMetadata with
  | none => pure ⟨1, .missing, none, 0, root, root, false⟩
  | some (.symlink _) => do
    let target ← call readLink
    -- `target.display()`: what is no UTF-8 is replaced
    pure ⟨1, .symlink, some (lossy target.bytes), 0, root, root, false⟩
  | some (.regular file) => pure ⟨1, .regular, none, file.mode, file.uid, file.gid, true⟩
  | some .directory => fail .unsupportedType

def readLimited : Host Bytes := do
  let content ← call readSource
  if maxResolvBytes < content.length then fail .tooLarge else call readSource

/-- `write_atomic`: open, write and sync the temporary file, and rename it to its place. -/
def writeAtomic (place : Disk → Except InstallError (Unit × Disk)) : Host Unit := do
  call quiet
  call quiet
  call quiet
  call place

def backup : Host ResolvMetadata := do
  call quiet -- `create_dir_all`
  let metadata ← capture
  writeAtomic (putMetadata metadata)
  if metadata.fileType = .regular then do
    let content ← readLimited
    writeAtomic (putContent content)
    pure metadata
  else pure metadata

/-- On an error the temporary file goes as well, if it can. -/
def orRemoveTmp (p : Host Unit) : Host Unit := do
  match ← attempt p with
  | .ok () => pure ()
  | .error e => do
    ignore (call removeTmp)
    fail e

def restoreMissing : Host Unit := do
  match ← call symlinkMetadata with
  | some _ => call removeSource
  | none => pure ()

def restoreSymlink (metadata : ResolvMetadata) : Host Unit :=
  match metadata.symlinkTarget with
  | none => fail .missingTarget
  | some target => do
    ignore (call removeTmp)
    call (symlink (bytes target))
    orRemoveTmp (call renameTmp)

def savedContent (metadata : ResolvMetadata) : Host Bytes :=
  if metadata.contentSaved then call readContent else pure []

def restoreRegular (metadata : ResolvMetadata) : Host Unit := do
  let content ← savedContent metadata
  call (openTmp metadata.mode)
  call (changeTmp fun file => { file with content := content })
  call quiet -- `sync_all`
  call (changeTmp fun file => { file with mode := metadata.mode })
  orRemoveTmp (call (changeTmp fun file =>
    { file with mode := chownMode file.mode, uid := metadata.uid, gid := metadata.gid }))
  orRemoveTmp (call renameTmp)

def restore : Host Unit := do
  let metadata ← call readMetadata
  if metadata.schemaVersion ≠ 1 then fail (.unsupportedSchema metadata.schemaVersion)
  else
    match metadata.fileType with
    | .missing => restoreMissing
    | .symlink => restoreSymlink metadata
    | .regular => restoreRegular metadata

/-- Restores one after another, each cut off after its number of operations or not at all. -/
def restores : List (Option ℕ) → Disk → List (Outcome InstallError Unit) × Disk
  | [], d => ([], d)
  | cut :: cuts, d =>
    let first := restore ⟨d, cut⟩
    let rest := restores cuts first.2.now
    (first.1 :: rest.1, rest.2)

/-- Whatever the source has become but a directory: no restore fails, one that is not cut off
completes, and after one that has completed the source is the original. -/
def Undone (original : Option Entry) (d : Disk) : Prop :=
  ∀ later, later ≠ some .directory → ∀ cuts,
    let run := restores cuts { d with source := later }
    (∀ outcome ∈ run.1, outcome = .ok () ∨ outcome = .crash) ∧
      (none ∈ cuts → .ok () ∈ run.1) ∧ (.ok () ∈ run.1 → run.2.source = original)

/-- The host before the backup, whose directory is a new one. -/
def before (original : Option Entry) : Disk := ⟨original, none, none, none⟩

/-- The backup and the restores are inverse: of a backup that is cut off, or not, once it has
returned or its `metadata.json` is there. -/
def Inverse (original : Option Entry) (cut : Option ℕ) : Prop :=
  let run := backup ⟨before original, cut⟩
  (∃ metadata, run.1 = .ok metadata) ∨ run.2.now.metadata ≠ none → Undone original run.2.now

/-- The sources the backup is for. -/
def Admissible : Option Entry → Prop
  | none | some (.symlink _) => True
  | some (.regular file) => file.content.length ≤ maxResolvBytes
  | some .directory => False

/-- A mode `chown` leaves as it is: without the set-user-ID bit, and without the set-group-ID bit
where the group can execute the file. -/
def Plain (mode : BitVec 12) : Prop :=
  mode &&& 0o4000 = 0 ∧ (mode &&& 0o0010 = 0 ∨ mode &&& 0o2000 = 0)

instance (mode : BitVec 12) : Decidable (Plain mode) := inferInstanceAs (Decidable (_ ∧ _))

/-- The backup of this source, cut off there, can be restored. Of a regular file `metadata.json`
is there after six operations and `content` after twelve; of a link it is there after seven. -/
def Safe : Option Entry → Option ℕ → Prop
  | some (.symlink target), cut => IsUtf8 target.bytes ∨ ∃ n < 7, cut = some n
  | some (.regular file), cut =>
    Plain file.mode ∧ (∀ n, cut = some n → 12 ≤ n) ∨ ∃ n < 6, cut = some n
  | _, _ => True

theorem and_eq_self_iff {w : ℕ} (x m : BitVec w) : x &&& m = x ↔ x &&& ~~~m = 0#w := by
  constructor
  · intro h
    calc x &&& ~~~m = x &&& m &&& ~~~m := by rw [h]
      _ = 0#w := by
        rw [BitVec.and_assoc, BitVec.and_not_self]
        exact BitVec.and_zero
  · intro h
    calc x &&& m = x &&& m ||| x &&& ~~~m := by rw [h, BitVec.or_zero]
      _ = x := by rw [← BitVec.and_or_distrib_left, BitVec.or_not_self, BitVec.and_allOnes]

theorem chownMode_eq_iff (mode : BitVec 12) : chownMode mode = mode ↔ Plain mode := by
  simp only [chownMode, Plain, BitVec.ofNat_eq_ofNat]
  by_cases hgroup : mode &&& 8#12 = 0#12
  · rw [if_neg (not_not.mpr hgroup), and_eq_self_iff, and_iff_left (.inl hgroup)]
    exact Iff.rfl
  · have hsplit : ~~~(1023#12) = 2048#12 ||| 1024#12 := rfl
    rw [if_pos hgroup, and_eq_self_iff, hsplit, BitVec.and_or_distrib_left, BitVec.or_eq_zero_iff,
      or_iff_right hgroup]

section Backup

/-- What `capture` says of an entry. -/
def describe : Option Entry → ResolvMetadata
  | some (.symlink target) => ⟨1, .symlink, some (lossy target.bytes), 0, root, root, false⟩
  | some (.regular file) => ⟨1, .regular, none, file.mode, file.uid, file.gid, true⟩
  | _ => ⟨1, .missing, none, 0, root, root, false⟩

variable {cut : Option ℕ}

/-- A source that is no regular file needs `metadata.json` only. -/
def described (original : Option Entry) : Disk :=
  { before original with metadata := some (describe original) }

/-- The original of a regular file, with both files of its backup. -/
def saved (file : File) : Disk :=
  { described (some (.regular file)) with content := some file.content }

theorem backup_missing (cut : Option ℕ) :
    backup ⟨before none, cut⟩ = (.crash, ⟨before none, some 0⟩) ∨
      (backup ⟨before none, cut⟩).2.now = described none := by
  match cut with
  | none | some (n + 6) => exact .inr rfl
  | some 0 | some 1 | some 2 | some 3 | some 4 | some 5 => exact .inl rfl

theorem backup_symlink_cut (target : Target) (h : ∃ n < 7, cut = some n) :
    backup ⟨before (some (.symlink target)), cut⟩ =
      (.crash, ⟨before (some (.symlink target)), some 0⟩) := by
  obtain ⟨n, hn, rfl⟩ := h
  match n, hn with
  | 0, _ | 1, _ | 2, _ | 3, _ | 4, _ | 5, _ | 6, _ => rfl

theorem backup_symlink (target : Target) (h : ¬∃ n < 7, cut = some n) :
    (backup ⟨before (some (.symlink target)), cut⟩).2.now =
      described (some (.symlink target)) := by
  match cut with
  | none | some (n + 7) => rfl
  | some 0 | some 1 | some 2 | some 3 | some 4 | some 5 | some 6 =>
    exact absurd ⟨_, by decide, rfl⟩ h

theorem backup_regular_cut (file : File) (h : ∃ n < 6, cut = some n) :
    backup ⟨before (some (.regular file)), cut⟩ =
      (.crash, ⟨before (some (.regular file)), some 0⟩) := by
  obtain ⟨n, hn, rfl⟩ := h
  match n, hn with
  | 0, _ | 1, _ | 2, _ | 3, _ | 4, _ | 5, _ => rfl

theorem readLimited_eq (file : File) (hfile : file.content.length ≤ maxResolvBytes) (d : Disk)
    (left : Option ℕ) (hd : d.source = some (.regular file)) :
    readLimited ⟨d, left⟩ = (do
      let _ ← call readSource
      call readSource : Host Bytes) ⟨d, left⟩ := by
  apply andThen_congr
  intro content s hs
  have hread : readSource d = .ok (file.content, d) := by
    rw [readSource, hd]
  by_cases hleft : left = some 0
  · rw [hleft, call_cut] at hs
    cases hs
  · rw [call_of_ok hleft hread] at hs
    cases hs
    rw [if_neg (not_lt_of_ge hfile)]

/-- What `backup` still does once `metadata.json` of a regular file is there. -/
def saveContent (file : File) : Host ResolvMetadata := do
  let _ ← call readSource
  let content ← call readSource
  writeAtomic (putContent content)
  pure (describe (some (.regular file)))

theorem backup_regular_eq (file : File) (hfile : file.content.length ≤ maxResolvBytes)
    (left : Option ℕ) :
    backup ⟨before (some (.regular file)), left.map (· + 6)⟩ =
      saveContent file ⟨described (some (.regular file)), left⟩ := by
  have hread := readLimited_eq file hfile (described (some (.regular file))) left rfl
  match left with
  | none =>
    change (readLimited >>= _) ⟨described (some (.regular file)), none⟩ = _
    rw [andThen_congr_left hread, andThen_assoc]
    rfl
  | some k =>
    change (readLimited >>= _) ⟨described (some (.regular file)), some k⟩ = _
    rw [andThen_congr_left hread, andThen_assoc]
    rfl

theorem backup_regular_torn (file : File) (n : ℕ) (h : 6 ≤ n) (hn : n < 12)
    (hfile : file.content.length ≤ maxResolvBytes) :
    (backup ⟨before (some (.regular file)), some n⟩).2.now =
      described (some (.regular file)) := by
  obtain ⟨k, rfl⟩ := Nat.exists_eq_add_of_le' h
  have heq := backup_regular_eq file hfile (some k)
  rw [Option.map_some] at heq
  rw [heq]
  match k, hn with
  | 0, _ | 1, _ | 2, _ | 3, _ | 4, _ | 5, _ => rfl

theorem backup_regular (file : File) (h : ∀ n, cut = some n → 12 ≤ n)
    (hfile : file.content.length ≤ maxResolvBytes) :
    (backup ⟨before (some (.regular file)), cut⟩).2.now = saved file := by
  match cut with
  | none =>
    have heq := backup_regular_eq file hfile none
    rw [Option.map_none] at heq
    rw [heq]
    rfl
  | some n =>
    obtain ⟨k, rfl⟩ := Nat.exists_eq_add_of_le' (h n rfl)
    have heq := backup_regular_eq file hfile (some (k + 6))
    rw [Option.map_some] at heq
    rw [heq]
    rfl

end Backup

end LandscapeKit.Service.Resolv
