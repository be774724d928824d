import Mathlib.Data.Set.Insert
import LandscapeKit.LibProgress

/-!
A custom frontend put in the place of `static/` (`apply_frontend` and `replace_static_dir`,
`frontend/mod.rs`): every call that can fail or be the last one before a crash is a step. A
removal goes on file by file, so it can stop with a part of the tree.
-/

namespace LandscapeKit.Frontend

open Relation

/-- A tree with all its pages, or what is left of one. -/
inductive Tree (α : Type)
  | whole (pages : α)
  | torn

/-- `target/static`, `target/.frontend-old-static` and the `static` of the work directory. -/
structure Dirs (α : Type) where
  live : Option (Tree α)
  backup : Option (Tree α)
  work : Option (Tree α)

inductive ApplyError
  | io
  | frontendSource
  | download

/-- Where `apply_frontend` is; `idle` when it does not run. -/
inductive Stage
  | idle
  | clearingWork
  | fetching
  | clearingBackup
  | moving
  | placing
  | restoring
  | dropping
  | clearingUp (result : Except ApplyError Unit)
  | returned (result : Except ApplyError Unit)

/-- With the trees that were there at first or have been fetched since. -/
structure State (α : Type) extends Dirs α where
  stage : Stage
  known : Set α

section Steps

variable {α : Type}

inductive Step : State α → State α → Prop
  | begin {s : State α} (h : s.stage = .idle ∨ ∃ result, s.stage = .returned result) :
      Step s { s with stage := .clearingWork }
  | tearWork {s : State α} (h : s.stage = .clearingWork ∨ ∃ result, s.stage = .clearingUp result) :
      Step s { s with work := s.work.map fun _ => .torn }
  /-- Whether the directory could be removed is not looked at. -/
  | workCleared {s : State α} {work : Option (Tree α)} (h : s.stage = .clearingWork)
      (hwork : work = none ∨ work = s.work) : Step s { s with work, stage := .fetching }
  /-- `create_dir_all` fails. -/
  | workRefused {s : State α} (h : s.stage = .clearingWork) :
      Step s { s with stage := .returned (.error .io) }
  | notConfigured {s : State α} (h : s.stage = .fetching) :
      Step s { s with stage := .clearingUp (.ok ()) }
  | fetchFailed {s : State α} {work : Option (Tree α)} (error : ApplyError)
      (h : s.stage = .fetching) (hwork : work = s.work ∨ work = some .torn) :
      Step s { s with work, stage := .clearingUp (.error error) }
  /-- The archive is unpacked only where nothing is. -/
  | fetched {s : State α} (pages : α) (h : s.stage = .fetching) (hwork : s.work = none) :
      Step s { s with
        work := some (.whole pages)
        stage := .clearingBackup
        known := insert pages s.known }
  | tearBackup {s : State α} (h : s.stage = .clearingBackup ∨ s.stage = .dropping) :
      Step s { s with backup := s.backup.map fun _ => .torn }
  | backupCleared {s : State α} {backup : Option (Tree α)} (h : s.stage = .clearingBackup)
      (hbackup : backup = none ∨ backup = s.backup) : Step s { s with backup, stage := .moving }
  | nothingToMove {s : State α} (h : s.stage = .moving) (hlive : s.live = none) :
      Step s { s with stage := .placing }
  | moved {s : State α} (h : s.stage = .moving) (hlive : s.live ≠ none) :
      Step s { s with live := none, backup := s.live, stage := .placing }
  | moveFailed {s : State α} (h : s.stage = .moving) (hlive : s.live ≠ none) :
      Step s { s with stage := .clearingUp (.error .io) }
  | placed {s : State α} (h : s.stage = .placing) (hlive : s.live = none) (hwork : s.work ≠ none) :
      Step s { s with live := s.work, work := none, stage := .dropping }
  | placeFailed {s : State α} (h : s.stage = .placing) : Step s { s with stage := .restoring }
  | restored {s : State α} (h : s.stage = .restoring) (hlive : s.live = none)
      (hbackup : s.backup ≠ none) :
      Step s { s with live := s.backup, backup := none, stage := .clearingUp (.error .io) }
  | restoreFailed {s : State α} (h : s.stage = .restoring) :
      Step s { s with stage := .clearingUp (.error .io) }
  | dropped {s : State α} {backup : Option (Tree α)} (h : s.stage = .dropping)
      (hbackup : backup = none ∨ backup = s.backup) :
      Step s { s with backup, stage := .clearingUp (.ok ()) }
  | clearedUp {s : State α} {work : Option (Tree α)} {result : Except ApplyError Unit}
      (h : s.stage = .clearingUp result) (hwork : work = none ∨ work = s.work) :
      Step s { s with work, stage := .returned result }
  | crash {s : State α} : Step s { s with stage := .idle }

/-- A directory with a `static/` tree and whatever earlier runs have left beside it. -/
def start (old : α) (backup work : Option (Tree α)) : State α where
  live := some (.whole old)
  backup := backup
  work := work
  stage := .idle
  known := {old}

/-- A whole tree, the first one or a fetched one, is in its place. -/
def Served (s : State α) : Prop := ∃ pages ∈ s.known, s.live = some (.whole pages)

def Saved (s : State α) : Prop := ∃ pages ∈ s.known, s.backup = some (.whole pages)

def Fetched (s : State α) : Prop := ∃ pages ∈ s.known, s.work = some (.whole pages)

structure Safe (s : State α) : Prop where
  kept : Served s ∨ Saved s
  served : ∀ result, s.stage = .returned result → Served s

/-- No crash while nothing is in the place of `static/`, and the tree that was moved away can be
put back where the new one could not be put there. -/
structure Careful (s t : State α) : Prop where
  crash : t.stage = .idle → s.live ≠ none
  restore : s.stage = .restoring → t.live ≠ none

def CarefulStep (s t : State α) : Prop := Step s t ∧ Careful s t

/-- What is where, by the place in the code: the one gap is between the two renames, and there the
whole tree is in the side copy. -/
def At (s : State α) : Stage → Prop
  | .clearingBackup | .moving => Served s ∧ Fetched s
  | .placing => s.live = none ∧ Saved s ∧ Fetched s
  | .restoring => s.live = none ∧ Saved s
  | _ => Served s

variable {s t : State α}

theorem at_safe (h : At s s.stage) : Safe s := by
  constructor
  · cases hstage : s.stage with
    | placing =>
      rw [hstage] at h
      exact .inr h.2.1
    | restoring =>
      rw [hstage] at h
      exact .inr h.2
    | clearingBackup =>
      rw [hstage] at h
      exact .inl h.1
    | moving =>
      rw [hstage] at h
      exact .inl h.1
    | _ =>
      rw [hstage] at h
      exact .inl h
  · intro result hstage
    rw [hstage] at h
    exact h

theorem Served.live_ne (h : Served s) : s.live ≠ none := by
  obtain ⟨pages, -, hlive⟩ := h
  rw [hlive]
  exact Option.some_ne_none _

theorem at_step (h : At s s.stage) (hstep : Step s t) (hcareful : Careful s t) : At t t.stage := by
  cases hstep with
  | begin hstage =>
    rcases hstage with hstage | ⟨result, hstage⟩ <;>
    · rw [hstage] at h
      exact h
  | tearWork hstage =>
    rcases hstage with hstage | ⟨result, hstage⟩ <;>
    · dsimp only
      rw [hstage] at h ⊢
      exact h
  | workCleared hstage _ =>
    rw [hstage] at h
    exact h
  | workRefused hstage =>
    rw [hstage] at h
    exact h
  | notConfigured hstage =>
    rw [hstage] at h
    exact h
  | fetchFailed _ hstage _ =>
    rw [hstage] at h
    exact h
  | fetched pages hstage _ =>
    rw [hstage] at h
    obtain ⟨old, hold, hlive⟩ := h
    exact ⟨⟨old, Set.mem_insert_of_mem _ hold, hlive⟩, pages, Set.mem_insert _ _, rfl⟩
  | tearBackup hstage =>
    rcases hstage with hstage | hstage <;>
    · dsimp only
      rw [hstage] at h ⊢
      exact h
  | backupCleared hstage _ =>
    rw [hstage] at h
    exact h
  | nothingToMove hstage hlive =>
    rw [hstage] at h
    exact absurd hlive h.1.live_ne
  | moved hstage _ =>
    rw [hstage] at h
    exact ⟨rfl, h.1, h.2⟩
  | moveFailed hstage _ =>
    rw [hstage] at h
    exact h.1
  | placed hstage _ _ =>
    rw [hstage] at h
    exact h.2.2
  | placeFailed hstage =>
    rw [hstage] at h
    exact ⟨h.1, h.2.1⟩
  | restored hstage _ _ =>
    rw [hstage] at h
    exact h.2
  | restoreFailed hstage =>
    rw [hstage] at h
    exact absurd h.1 (hcareful.restore hstage)
  | dropped hstage _ =>
    rw [hstage] at h
    exact h
  | clearedUp hstage _ =>
    rw [hstage] at h
    exact h
  | crash =>
    have hlive := hcareful.crash rfl
    cases hstage : s.stage with
    | placing =>
      rw [hstage] at h
      exact absurd h.1 hlive
    | restoring =>
      rw [hstage] at h
      exact absurd h.1 hlive
    | clearingBackup =>
      rw [hstage] at h
      exact h.1
    | moving =>
      rw [hstage] at h
      exact h.1
    | _ =>
      rw [hstage] at h
      exact h

/-- Runs of `apply_frontend` one after the other, failing or crashing anywhere else. -/
theorem safe_of_careful {old : α} {backup work : Option (Tree α)}
    (h : ReflTransGen CarefulStep (start old backup work) s) : Safe s := by
  have hstart : At (start old backup work) (start old backup work).stage := ⟨old, rfl, rfl⟩
  have hstep (s t : State α) (hs : At s s.stage) (hst : CarefulStep s t) : At t t.stage :=
    at_step hs hst.1 hst.2
  exact at_safe (Progress.invariant (P := fun s => At s s.stage) hstart hstep h)

theorem careful_of_stage (hs : s.stage ≠ .restoring) (ht : t.stage ≠ .idle) : Careful s t :=
  ⟨fun h => absurd h ht, fun h => absurd h hs⟩

end Steps

section Samples

/-- A run that replaces the tree `0` by `1`. -/
theorem safe_of_careful_replaced :
    Safe (⟨⟨some (.whole 1), none, none⟩, .returned (.ok ()), {1, 0}⟩ : State ℕ) := by
  have hcareful {s t : State ℕ} (h : Step s t) (hs : s.stage ≠ .restoring)
      (ht : t.stage ≠ .idle) : CarefulStep s t := ⟨h, careful_of_stage hs ht⟩
  have hrun : ReflTransGen CarefulStep (start 0 none none)
      (⟨⟨some (.whole 1), none, none⟩, .returned (.ok ()), {1, 0}⟩ : State ℕ) :=
    ((((((((ReflTransGen.refl
      |>.tail (hcareful (.begin (.inl rfl)) (fun h => by cases h) nofun))
      |>.tail (hcareful (.workCleared rfl (.inl rfl)) nofun nofun))
      |>.tail (hcareful (.fetched 1 rfl rfl) nofun nofun))
      |>.tail (hcareful (.backupCleared rfl (.inl rfl)) nofun nofun))
      |>.tail (hcareful (.moved rfl (Option.some_ne_none _)) nofun nofun))
      |>.tail (hcareful (.placed rfl rfl (Option.some_ne_none _)) nofun nofun))
      |>.tail (hcareful (.dropped rfl (.inl rfl)) nofun nofun))
      |>.tail (hcareful (.clearedUp rfl (.inl rfl)) nofun nofun))
  exact safe_of_careful hrun

/-- After a crash between the two renames the whole tree is in the side copy only. -/
def gap : State ℕ := ⟨⟨none, some (.whole 0), some (.whole 1)⟩, .idle, {1, 0}⟩

theorem start_gap : ReflTransGen Step (start 0 none none) gap :=
  ((((((ReflTransGen.refl
    |>.tail (.begin (.inl rfl)))
    |>.tail (.workCleared rfl (.inl rfl)))
    |>.tail (.fetched 1 rfl rfl))
    |>.tail (.backupCleared rfl (.inl rfl)))
    |>.tail (.moved rfl (Option.some_ne_none _)))
    |>.tail .crash)

/-- The next run either returns before it comes to the renames, and then nothing is served, or
begins them by removing the one whole tree. -/
theorem not_safe_of_gap :
    (∃ s : State ℕ, ReflTransGen Step (start 0 none none) s ∧
      s.stage = .returned (.error .frontendSource) ∧ s.live = none ∧ ¬ Safe s) ∧
    ∃ s : State ℕ, ReflTransGen Step (start 0 none none) s ∧
      s.live = none ∧ s.backup = none ∧ ¬ Safe s := by
  have hcleared : ReflTransGen Step (start 0 none none) { gap with work := none, stage := .fetching } :=
    (start_gap |>.tail (.begin (.inl rfl))) |>.tail (.workCleared rfl (.inl rfl))
  constructor
  · refine ⟨{ gap with work := none, stage := .returned (.error .frontendSource) },
      (hcleared |>.tail (.fetchFailed .frontendSource rfl (.inl rfl)))
        |>.tail (.clearedUp rfl (.inl rfl)), rfl, rfl, fun h => ?_⟩
    exact (h.served _ rfl).live_ne rfl
  · refine ⟨_, (hcleared |>.tail (.fetched 2 rfl rfl)) |>.tail (.backupCleared rfl (.inl rfl)),
      rfl, rfl, fun h => ?_⟩
    rcases h.kept with ⟨pages, -, hlive⟩ | ⟨pages, -, hbackup⟩
    · cases hlive
    · cases hbackup

end Samples

end LandscapeKit.Frontend
