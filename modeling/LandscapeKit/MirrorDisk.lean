import Mathlib.Data.List.Sort
import LandscapeKit.LibContent
import LandscapeKit.LibFaults
import LandscapeKit.LibFiles
import LandscapeKit.LibTable
import LandscapeKit.MirrorHosts

/-!
The files of a switch: the source files of the package manager and the one backup of them. Every
call on the disk may fail, and one that fails may have been partly done.
-/

namespace LandscapeKit.Mirror.Switch

open Faults (Prog Outcome)

/-- Files by their paths, in the order in which directories are read. -/
abbrev Tree := List (Path × Content)

/-- `sources` is what lies below the root, `backup` the backup directory of the family. -/
structure Disk where
  sources : Tree
  backup : Option Tree
deriving DecidableEq

abbrev Io (α : Type) := Prog Disk MirrorError α

/-- The calls that are made in the course of a switch. -/
inductive Call where
  | list
  | inspect (file : Path)
  | read (file : Path)
  | removeBackup
  | createBackup
  | listAgain
  | copyToBackup (file : Path)
  | readAgain (file : Path)
  | createDir
  | createPlaceholderDir
  | writePlaceholder
  | writeAtomic (file : Path)
  | walk
  | copyBack (file : Path)
  | dropBackup
deriving DecidableEq

/-- The calls that fail. A directory that could not be removed may still have some of its files, and
a file that could not be copied may be there cut short, or with something else in it. -/
structure Failures where
  fails : Call → Bool
  keeps : Call → Path → Bool
  leaves : Call → Option Content

def allWell : Failures := ⟨fun _ => false, fun _ _ => false, fun _ => none⟩

section Common

variable (w : Failures)

def sortPaths (paths : List Path) : List Path := paths.insertionSort fun p q => ¬ q < p

/-- What is left of a file after a copy onto it that failed. -/
def Failures.cut (call : Call) (file : Path) (tree : Tree) : Tree :=
  match w.leaves call with
  | none => tree
  | some content => Table.set file content tree

/-- What is left of a directory that could not be removed. -/
def Failures.remains (call : Call) (tree : Tree) : Tree := tree.filter fun e => w.keeps call e.1

def readToString (call : Call) (file : Path) : Io Text := fun s =>
  match (Table.get file s.sources).bind Content.text? with
  | some text => if w.fails call then (.err .io, s) else (.ok text, s)
  | none => (.err .io, s)

/-- The file is replaced whole, or stays as it is. -/
def writeAtomic (file : Path) (content : Text) : Io Unit := fun s =>
  if w.fails (.writeAtomic file) then (.err .io, s)
  else (.ok (), { s with sources := Table.set file (.utf8 content) s.sources })

def removeDirAll (call : Call) : Io Unit := fun s =>
  if w.fails call then (.err .io, { s with backup := s.backup.map (w.remains call) })
  else (.ok (), { s with backup := none })

/-- `fs::create_dir_all` on the backup directory. -/
def createBackup : Io Unit := fun s =>
  if w.fails .createBackup then (.err .io, s) else (.ok (), { s with backup := some [] })

/-- A call that creates a directory, with nothing to show for it in the files. -/
def createDirAll (call : Call) : Io Unit := fun s =>
  if w.fails call then (.err .io, s) else (.ok (), s)

/-- A source file is copied to where it belongs in the backup directory. -/
def copyToBackup (file : Path) : Io Unit := fun s =>
  match Table.get file s.sources with
  | none => (.err .io, s)
  | some content =>
    if w.fails (.copyToBackup file) then
      (.err .io, { s with backup := s.backup.map (w.cut (.copyToBackup file) file) })
    else (.ok (), { s with backup := s.backup.map (Table.set file content) })

/-- An empty file in the backup, for one that is going to be created. -/
def writePlaceholder (file : Path) : Io Unit := fun s =>
  if w.fails .writePlaceholder then (.err .io, s)
  else (.ok (), { s with backup := s.backup.map (Table.set file (.utf8 [])) })

/-- A file of the backup is copied to where it came from. -/
def copyBack (file : Path) : Io Unit := fun s =>
  match s.backup.bind (Table.get file) with
  | none => (.err .io, s)
  | some content =>
    if w.fails (.copyBack file) then
      (.err .io, { s with sources := w.cut (.copyBack file) file s.sources })
    else (.ok (), { s with sources := Table.set file content s.sources })

def walkFiles : Io (List Path) := fun s =>
  match s.backup with
  | none => (.err .io, s)
  | some tree =>
    if w.fails .walk then (.err .io, s) else (.ok (sortPaths (tree.map Prod.fst)), s)

def restoreFiles : Io Unit := do
  let files ← walkFiles w
  Prog.forEach (copyBack w) files

def rollback : Io Unit := do
  restoreFiles w
  removeDirAll w .dropBackup

/-- A write that takes everything back when it fails. -/
def writeOrRollback (file : Path) (content : Text) : Io Unit := do
  match ← Prog.attempt (writeAtomic w file content) with
  | .ok () => pure ()
  | .error error => do
    Prog.ignore (rollback w)
    Prog.fail error

/-- `restore`, which is the same for all families. -/
def restore : Io Unit := do
  let s ← Prog.read
  if s.backup = none then Prog.fail .noBackup
  else do
    restoreFiles w
    removeDirAll w .dropBackup

end Common

end LandscapeKit.Mirror.Switch
