import LandscapeKit.LibContent
import LandscapeKit.LibFaults
import LandscapeKit.HostnetEdit

/-!
The machine `execute_unmanage` runs on. Every call into the operating system takes one turn of
a schedule: first an outside process does what the turn says, then the call is made, and it may
fail halfway. Calls that belong to one step with the call before them skip the outside process.

The last three fields of the system are not on the machine. They record who changed a file
last, which entries of the outside process were overwritten, and which temporary files could
not be removed.
-/

namespace LandscapeKit.Hostnet

open Faults

structure FileMetadata where
  mode : ℕ
  uid : ℕ
  gid : ℕ
deriving DecidableEq

/-- What lies at a path. A symbolic link comes with what is read through it, directories and
special files are told apart from regular files only. -/
inductive Entry where
  | file (content : Content) (metadata : FileMetadata)
  | symlink (through : Option Content)
  | other
deriving DecidableEq

inductive Foreign where
  | replace (path : Text) (entry : Entry)
  | chmod (path : Text) (metadata : FileMetadata)
  | delete (path : Text)
deriving DecidableEq

def Foreign.path : Foreign → Text
  | replace path _ => path
  | chmod path _ => path
  | delete path => path

/-- Who changed a file last. `foreign true` is the outside process, over what this run had put
there. -/
inductive Author where
  | found
  | run
  | foreign (overRun : Bool)
deriving DecidableEq

namespace Author

def isForeign : Author → Bool
  | foreign _ => true
  | _ => false

def meddled : Author → Author
  | found => foreign false
  | run => foreign true
  | foreign overRun => foreign overRun

@[simp]
theorem meddled_meddled (a : Author) : a.meddled.meddled = a.meddled := by
  cases a <;> rfl

@[simp]
theorem isForeign_meddled (a : Author) : a.meddled.isForeign = true := by
  cases a <;> rfl

end Author

structure Fault where
  done : ℕ
  kept : Text → Bool

structure Turn where
  foreign : List Foreign := []
  fault : Option Fault := none

/-- The running process: its id is part of the names of its temporary files, and what it
creates belongs to its user and group. -/
structure Process where
  pid : ℕ
  uid : ℕ
  gid : ℕ

structure Sys where
  files : Text → Option Entry
  sequence : ℕ := 0
  schedule : List Turn := []
  author : Text → Author := fun _ => .found
  overwritten : Text → List Entry := fun _ => []
  unremoved : List Text := []

namespace Entry

def read? : Entry → Option Content
  | file content _ => some content
  | symlink through => through
  | other => none

def setContent (content : Content) : Entry → Entry
  | file _ metadata => file content metadata
  | entry => entry

def setOwner (uid gid : ℕ) : Entry → Entry
  | file content metadata => file content { metadata with uid, gid }
  | entry => entry

def setMode (mode : ℕ) : Entry → Entry
  | file content metadata => file content { metadata with mode }
  | entry => entry

end Entry

namespace Sys

def meddle (s : Sys) : Foreign → Sys
  | .replace path entry =>
    { s with
      files := Function.update s.files path (some entry)
      author := Function.update s.author path (s.author path).meddled }
  | .chmod path metadata =>
    match s.files path with
    | some (.file content _) =>
      { s with
        files := Function.update s.files path (some (.file content metadata))
        author := Function.update s.author path (s.author path).meddled }
    | _ => s
  | .delete path =>
    { s with
      files := Function.update s.files path none
      author := Function.update s.author path (s.author path).meddled }

/-- The run changes every file that `touched` picks; what it finds there of the outside process
is recorded. -/
def overwriteAll (s : Sys) (touched : Text → Bool) (entry : Text → Option Entry) : Sys :=
  { s with
    files := fun p => if touched p then entry p else s.files p
    author := fun p => if touched p then .run else s.author p
    overwritten := fun p =>
      if touched p ∧ (s.author p).isForeign then (s.files p).toList ++ s.overwritten p
      else s.overwritten p }

def overwrite (s : Sys) (path : Text) (entry : Option Entry) : Sys :=
  s.overwriteAll (fun p => p = path) fun _ => entry

def advance (s : Sys) (within : Bool) : Sys :=
  let turn := s.schedule.headD {}
  let s := { s with schedule := s.schedule.tail }
  if within then s else turn.foreign.foldl meddle s

def fault (s : Sys) : Option Fault := (s.schedule.headD {}).fault

end Sys

section Calls

variable {α : Type}

/-- One call: `act` is what it does, or `none` when it cannot, and `part` what is left of it when
it fails. -/
def call (within : Bool) (error : HostNetError) (act : Sys → Option (α × Sys))
    (part : Fault → Sys → Sys) : Prog Sys HostNetError α := fun s =>
  match s.fault with
  | some fault => (.err error, part fault (s.advance within))
  | none =>
    match act (s.advance within) with
    | some (a, t) => (.ok a, t)
    | none => (.err error, s.advance within)

def query (within : Bool) (error : HostNetError) (ask : Sys → Option α) :
    Prog Sys HostNetError α :=
  call within error (fun s => (ask s).map fun a => (a, s)) fun _ s => s

def amend (error : HostNetError) (path : Text) (f : Entry → Entry) (part : Fault → Entry → Entry) :
    Prog Sys HostNetError Unit :=
  call false error (fun s => some ((), s.overwrite path ((s.files path).map f)))
    fun fault s => s.overwrite path ((s.files path).map (part fault))

end Calls

/-! Paths are texts without doubled or trailing slashes. -/

def isAbsolute (path : Text) : Bool := path.head? = some '/'

def fileName (path : Text) : Option Text :=
  let name := (path.reverse.takeWhile (· ≠ '/')).reverse
  if name = [] ∨ name = "..".toList then none else some name

def parent (path : Text) : Option Text :=
  if path = [] ∨ path = "/".toList then none
  else
    let dir := (path.reverse.dropWhile (· ≠ '/')).reverse
    some (if dir = "/".toList then dir else dir.dropLast)

def join (dir name : Text) : Text :=
  if dir = [] ∨ dir.getLast? = some '/' then dir ++ name else dir ++ '/' :: name

def isBelow (dir path : Text) : Bool := (join dir []).isPrefixOf path

end LandscapeKit.Hostnet
