import LandscapeKit.LibBytes
import LandscapeKit.LibText
import Mathlib.Data.FinEnum

/-!
The `.lkb` container: a header, the metadata as JSON, zeros up to 1 MiB, and the archive.
Three readers look at it. `verify_lkb` checks everything, `read_backup_metadata` the first
1 MiB, and `read_backup_metadata_streamed` only the header and the JSON. serde_json, sha2 and
semver are outside crates; `Formats` lists what the code uses of them.
-/

namespace LandscapeKit.Lkb

open Bytes

def magic : Bytes := [76, 75, 66, 49]
def headerLen : ℕ := 32
def metadataCapacity : ℕ := 1024*1024
def minLen : ℕ := 1024*1024 + 1

inductive Architecture
  | x86_64
  | aarch64
  | riscv64
  | loongarch64
deriving DecidableEq

inductive Scope
  | minimal
deriving DecidableEq

structure Contents where
  binary : Bool
  static : Bool
  staticArchive : Bool
  initConfig : Bool
  geoCache : Bool
deriving DecidableEq

structure DateTime where
  year : Int
  month : ℕ
  day : ℕ
  hour : ℕ
  minute : ℕ
  second : ℕ
  nanos : ℕ
deriving DecidableEq

structure Metadata where
  schemaVersion : ℕ
  backupId : Text
  createdAt : DateTime
  landscapeVersion : Text
  lkitVersion : Text
  architecture : Architecture
  hostname : Text
  remark : Text
  auto : Bool
  scope : Scope
  contents : Contents
  checksum : Text
deriving DecidableEq

structure Semver where
  major : ℕ
  minor : ℕ
  patch : ℕ
  pre : Text
  build : Text
deriving DecidableEq

namespace Semver

def display (v : Semver) : Text :=
  Nat.toDigits 10 v.major ++ ['.'] ++ Nat.toDigits 10 v.minor ++ ['.'] ++
    Nat.toDigits 10 v.patch ++ (if v.pre = [] then [] else '-' :: v.pre) ++
    (if v.build = [] then [] else '+' :: v.build)

end Semver

/-- What the readers and the writer use of other crates. -/
structure Formats where
  fromSlice : Bytes → Except String Metadata
  toVec : Metadata → Bytes
  sha256 : Bytes → Bytes
  parseVersion : Text → Except String Semver
  /-- The end of input is no JSON value. -/
  fromSlice_nil : ∃ e, fromSlice [] = .error e

inductive IoError
  | alreadyExists
  | notADirectory
  | isADirectory
  | notFound
deriving DecidableEq

/-- `outOfRange` is the panic of an index or of a slice that reaches too far. -/
inductive Fault
  | invalid (reason : String)
  | usage (reason : String)
  | io (error : IoError)
  | outOfRange
deriving DecidableEq

abbrev Read := Except Fault

def invalid {α : Type} (reason : String) : Read α := .error (.invalid reason)

/-- An early return with an error unless the condition holds. -/
def ensure (c : Prop) [Decidable c] (reason : String) : Read Unit :=
  if c then .ok () else invalid reason

/-- `&xs[i..j]`. -/
def range {α : Type} (xs : List α) (i j : ℕ) : Read (List α) :=
  if i ≤ j ∧ j ≤ xs.length then .ok ((xs.drop i).take (j - i)) else .error .outOfRange

def hexDigit (n : ℕ) : Char := "0123456789abcdef".toList.getD n '0'

def hex (bytes : Bytes) : Text :=
  bytes.flatMap fun b => [hexDigit (b.toNat/16), hexDigit (b.toNat%16)]

def isSha256 (value : Text) : Bool := value.length == 64 && value.all Text.isLowerHex

/-- Only the shape `YYYYMMDD-HHMMSS-<8 hex>`. -/
def backupIdFormatOk (value : Text) : Bool :=
  match value.splitOn '-' with
  | [date, time, suffix] =>
    date.length == 8 && date.all Char.isDigit && (time.length == 6 && time.all Char.isDigit) &&
      (suffix.length == 8 && suffix.all Text.isLowerHex)
  | _ => false

namespace DateTime

/-- `%Y`: a year that does not have four digits is written with its sign. -/
def formatYear (year : Int) : Text :=
  if 0 ≤ year ∧ year ≤ 9999 then Text.padded 4 year.toNat
  else (if year < 0 then '-' else '+') :: Text.padded 4 year.natAbs

/-- `%Y%m%d-%H%M%S`. -/
def format (t : DateTime) : Text :=
  formatYear t.year ++ Text.padded 2 t.month ++ Text.padded 2 t.day ++ ['-'] ++
    Text.padded 2 t.hour ++ Text.padded 2 t.minute ++ Text.padded 2 t.second

end DateTime

def validBackupId (value : Text) (createdAt : DateTime) : Read Bool :=
  if !backupIdFormatOk value then .ok false
  else
    let expected := createdAt.format
    match value.splitOn '-' with
    | date :: time :: _ => do
      let expectedDate ← range expected 0 8
      if date = expectedDate then do
        let expectedTime ← range expected 9 expected.length
        pure (time == expectedTime)
      else pure false
    | _ => .ok false

namespace Formats

variable (F : Formats)

def parseStableVersion (value : Text) : Except String Semver :=
  match F.parseVersion value with
  | .error error => .error ("invalid semantic version: " ++ error)
  | .ok version =>
    if version.pre ≠ [] ∨ version.build ≠ [] then
      .error ("prerelease and build metadata are not supported: " ++ String.ofList version.display)
    else if version.display ≠ value then
      .error ("version must use canonical SemVer: " ++ String.ofList value)
    else .ok version

def checkVersion (value : Text) : Read Unit :=
  match F.parseStableVersion value with
  | .error error =>
    invalid ("invalid landscape version " ++ (String.ofList value).quote ++ ": " ++ error)
  | .ok _ => .ok ()

def validateMetadata (m : Metadata) : Read Unit := do
  ensure (m.schemaVersion = 1) s!"unsupported metadata schema version {m.schemaVersion}"
  ensure (m.scope = .minimal) "unsupported backup scope"
  ensure (m.contents.binary ∧ m.contents.static ∧ m.contents.staticArchive ∧
    m.contents.initConfig ∧ m.contents.geoCache) "backup contents must all be true"
  ensure (isSha256 ((Text.stripLead "sha256:".toList m.checksum).getD []))
    "checksum must be sha256: followed by 64 lowercase hex characters"
  F.checkVersion m.landscapeVersion
  let idOk ← validBackupId m.backupId m.createdAt
  ensure (idOk = true) ("invalid backup_id " ++ String.ofList m.backupId)

def parseMetadataJson (json : Bytes) : Read Metadata :=
  match F.fromSlice json with
  | .error error => invalid ("invalid metadata JSON: " ++ error)
  | .ok metadata => do
    F.validateMetadata metadata
    pure metadata

/-- The checks on the 32 bytes, which both readers of the header make in this order. -/
def headerJsonLen (header : Bytes) : Read ℕ := do
  let lead ← range header 0 4
  ensure (lead = magic) "missing LKB1 magic"
  let version ← range header 4 6
  ensure (leNat version = 1) s!"unsupported container version {leNat version}"
  let len ← range header 6 10
  ensure (leNat len ≠ 0) "empty metadata length"
  ensure (leNat len ≤ metadataCapacity - headerLen) "metadata length exceeds the 1 MiB capacity"
  let reserved ← range header 10 header.length
  ensure (∀ x ∈ reserved, x = 0) "non-zero reserved header bytes"
  pure (leNat len)

def validateLkbHeader (bytes : Bytes) : Read ℕ := do
  let header ← range bytes 0 headerLen
  let jsonLen ← headerJsonLen header
  let padding ← range bytes (headerLen + jsonLen) metadataCapacity
  ensure (∀ x ∈ padding, x = 0) "non-zero metadata padding"
  pure jsonLen

def readBackupMetadata (bytes : Bytes) : Read Metadata := do
  ensure (metadataCapacity ≤ bytes.length) s!"file length {bytes.length} must be at least 1 MiB"
  let jsonLen ← validateLkbHeader bytes
  let json ← range bytes headerLen (headerLen + jsonLen)
  F.parseMetadataJson json

/-- The last check of `verify_lkb`: the archive is the one the metadata was written for. -/
def checkArchive (metadata : Metadata) (archive : Bytes) : Read Metadata :=
  match Text.stripLead "sha256:".toList metadata.checksum with
  | none => invalid "checksum must use the sha256: prefix"
  | some expected => do
    let actual := hex (F.sha256 archive)
    ensure (actual = expected) ("tar.gz checksum mismatch: expected " ++
      String.ofList expected ++ ", got " ++ String.ofList actual)
    pure metadata

def verifyLkb (bytes : Bytes) : Read Metadata := do
  ensure (minLen < bytes.length) s!"file length {bytes.length} must be greater than 1 MiB"
  let jsonLen ← validateLkbHeader bytes
  let json ← range bytes headerLen (headerLen + jsonLen)
  let metadata ← F.parseMetadataJson json
  let archive ← range bytes metadataCapacity bytes.length
  F.checkArchive metadata archive

/-- `read_exact`: the next `n` bytes and the rest of the stream. -/
def readExact (n : ℕ) (stream : Bytes) (reason : String) : Read (Bytes × Bytes) :=
  if n ≤ stream.length then .ok (stream.take n, stream.drop n) else invalid reason

def readBackupMetadataStreamed (reader : Bytes) (fileLen : ℕ) : Read Metadata := do
  ensure (minLen < fileLen) s!"file length {fileLen} must be greater than 1 MiB"
  let header ← readExact headerLen reader "file is shorter than the LKB1 header"
  let jsonLen ← headerJsonLen header.1
  let json ← readExact jsonLen header.2 "file is shorter than the declared metadata length"
  F.parseMetadataJson json.1

end Formats

def header (jsonLen : ℕ) : Bytes :=
  magic ++ (leBytes 2 1 ++ (leBytes 4 jsonLen ++ List.replicate 22 0))

/-- The bytes `write_lkb_container` lays out, for a JSON its caller found to fit. -/
def container (json archive : Bytes) : Bytes :=
  header json.length ++
    (json ++ (List.replicate (metadataCapacity - headerLen - json.length) 0 ++ archive))

end LandscapeKit.Lkb
