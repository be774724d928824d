import Mathlib.Data.List.Dedup
import LandscapeKit.MirrorSteps

/-!
What the steps of a switch have in common: the backup is made anew, files are copied into it, and
only then is anything written, to files that are in the backup.
-/

namespace LandscapeKit.Mirror.Switch

open Faults (Prog Outcome Within)

namespace Step

def isMiddle : Step → Bool
  | removeBackup | createBackup | write _ _ => false
  | _ => true

def isCopy : Step → Bool
  | copyToBackup _ => true
  | _ => false

def isPlaceholder : Step → Bool
  | writePlaceholder _ => true
  | _ => false

def copies (sources backup : Tree) : Step → Tree
  | copyToBackup file =>
    match Table.get file sources with
    | none => backup
    | some content => Table.set file content backup
  | writePlaceholder file => Table.set file (.utf8 []) backup
  | _ => backup

def writes (sources : Tree) : Step → Tree
  | write file content => Table.set file (.utf8 content) sources
  | _ => sources

end Step

def copied (s : Disk) (steps : List Step) : Tree := steps.foldl (Step.copies s.sources) []

def written (s : Disk) (steps : List Step) : Tree := steps.foldl Step.writes s.sources

def writeSteps (rewrites : List (Path × Text)) : List Step := rewrites.map fun e => .write e.1 e.2

def CopiesFirst (steps : List Step) : Prop := ∃ first second, steps = first ++ second ∧
  (∀ step ∈ first, step.isPlaceholder = false) ∧ ∀ step ∈ second, step.isCopy = false

structure Planned (s : Disk) (middle : List Step) (rewrites : List (Path × Text)) : Prop where
  possible : ∀ step ∈ middle, step.isMiddle = true ∧ step.Possible s
  copies : CopiesFirst middle
  saved : ∀ e ∈ rewrites,
    Step.copyToBackup e.1 ∈ middle ∨ Step.writePlaceholder e.1 ∈ middle
  same : ∀ e ∈ rewrites, ∀ e' ∈ rewrites, e.1 = e'.1 → e.2 = e'.2

def IsPlan (s : Disk) (steps : List Step) : Prop := ∃ middle rewrites,
  steps = freshBackup s ++ (middle ++ writeSteps rewrites) ∧ Planned s middle rewrites

section Files

variable {s : Disk} {file : Path}

theorem mem_keys_iff {sources : Tree} :
    file ∈ sources.map Prod.fst ↔ Table.get file sources ≠ none := by
  induction sources with
  | nil => simp
  | cons e sources ih =>
    obtain ⟨p, content⟩ := e
    rw [List.map_cons, List.mem_cons, ih, Table.get]
    by_cases hp : p = file
    · simp [hp]
    · rw [if_neg hp]
      exact or_iff_right fun h => hp h.symm

theorem mem_sortPaths {paths : List Path} : file ∈ sortPaths paths ↔ file ∈ paths :=
  (List.perm_insertionSort _ paths).mem_iff

theorem Dnf.mem_filesOf {sources : Tree} (h : file ∈ filesOf sources) :
    Table.get file sources ≠ none := by
  rw [filesOf, List.mem_dedup, mem_sortPaths] at h
  exact mem_keys_iff.mp (List.mem_of_mem_filter h)

theorem Apt.mem_managedFiles_iff {sources : Tree} : file ∈ managedFilesOrNone sources ↔
    file ∈ (if (Table.get sourcesList sources).isSome then [sourcesList] else []) ++
      sortPaths ((sources.map Prod.fst).filter (inDir sourcesListD)) := by
  rw [managedFilesOrNone, managedFiles]
  generalize (if (Table.get sourcesList sources).isSome then [sourcesList] else []) ++
    sortPaths ((sources.map Prod.fst).filter (inDir sourcesListD)) = files
  by_cases hfiles : files = []
  · rw [if_pos hfiles, hfiles]
    rfl
  · rw [if_neg hfiles]
    rfl

theorem Apt.mem_managedFiles {sources : Tree} (h : file ∈ managedFilesOrNone sources) :
    Table.get file sources ≠ none := by
  rcases List.mem_append.mp (mem_managedFiles_iff.mp h) with h | h
  · split at h
    case isTrue hlist =>
      rw [List.mem_singleton.mp h]
      exact Option.isSome_iff_ne_none.mp hlist
    case isFalse => cases h
  · exact mem_keys_iff.mp (List.mem_of_mem_filter (mem_sortPaths.mp h))

theorem Apt.sourcesList_mem {sources : Tree} (h : (Table.get sourcesList sources).isSome) :
    sourcesList ∈ managedFilesOrNone sources := by
  rw [mem_managedFiles_iff, if_pos h]
  exact List.mem_cons_self ..

theorem mem_foundIn {ρ : Type} {add : ρ → Path → Text → ρ} (out : ρ → List (Path × Text))
    {becomes : Text → Option Text}
    (hadd : ∀ found file text, ∀ e ∈ out (add found file text),
      e ∈ out found ∨ e.1 = file ∧ becomes text = some e.2)
    {sources : Tree} {files : List Path} {found : ρ} {e : Path × Text}
    (he : e ∈ out (foundIn add sources files found)) :
    e ∈ out found ∨ e.1 ∈ files ∧ becomes (contentOrNone sources e.1) = some e.2 := by
  induction files generalizing found with
  | nil => exact .inl he
  | cons file files ih =>
    rcases ih he with h | ⟨hmem, hbecomes⟩
    · rcases hadd found file _ e h with h | ⟨hfile, hbecomes⟩
      · exact .inl h
      · rw [← hfile] at hbecomes
        exact .inr ⟨hfile ▸ List.mem_cons_self .., hbecomes⟩
    · exact .inr ⟨List.mem_cons_of_mem _ hmem, hbecomes⟩

theorem Apt.mem_add {family : Family} {r : Request} (found : Rewrites) (file : Path) (text : Text) :
    ∀ e ∈ (found.add family r file text).files,
      e ∈ found.files ∨ e.1 = file ∧ (rewriteFile family r text).1 = some e.2 := by
  intro e he
  rw [Rewrites.add] at he
  split at he
  case h_1 rewritten count hrewrite =>
    rcases List.mem_append.mp he with he | he
    · exact .inl he
    · rw [List.mem_singleton.mp he, hrewrite]
      exact .inr ⟨rfl, rfl⟩
  case h_2 => exact .inl he

theorem Dnf.mem_add {family : Family} {mirror : MirrorName} (found : Rewrites) (file : Path)
    (text : Text) : ∀ e ∈ (found.add family mirror file text).files,
      e ∈ found.files ∨
        e.1 = file ∧ (Mirror.Dnf.rewrite text family mirror).map Mirror.Dnf.DnfRewrite.content =
          some e.2 := by
  intro e he
  rw [Rewrites.add] at he
  split at he
  case h_1 rewritten hrewrite =>
    rcases List.mem_append.mp he with he | he
    · exact .inl he
    · rw [List.mem_singleton.mp he, hrewrite]
      exact .inr ⟨rfl, rfl⟩
  case h_2 => exact .inl he

end Files

section Plans

variable {w : Failures} {m : Machine} {host : Host} {r : Request} {s : Disk}

/-- Steps that may follow the copies: every file that is written is one of these, or is held open
in the backup. -/
structure Continues (s : Disk) (files : List Path) (steps : List Step) (middle : List Step)
    (rewrites : List (Path × Text)) : Prop where
  steps : steps = middle ++ writeSteps rewrites
  possible : ∀ step ∈ middle, (step.isMiddle = true ∧ step.isCopy = false) ∧ step.Possible s
  saved : ∀ e ∈ rewrites, e.1 ∈ files ∨ Step.writePlaceholder e.1 ∈ middle
  same : ∀ e ∈ rewrites, ∀ e' ∈ rewrites, e.1 = e'.1 → e.2 = e'.2

theorem Continues.isPlan {files : List Path} {steps middle : List Step}
    {rewrites : List (Path × Text)} (h : Continues s files steps middle rewrites)
    (hfiles : ∀ file ∈ files, Table.get file s.sources ≠ none) :
    IsPlan s (backupSteps s files ++ steps) := by
  refine ⟨files.map .copyToBackup ++ middle, rewrites, ?_, ?_, ?_, ?_, h.same⟩
  · rw [h.steps, backupSteps, List.append_assoc, List.append_assoc]
  · intro step hstep
    rcases List.mem_append.mp hstep with hstep | hstep
    · obtain ⟨file, hfile, rfl⟩ := List.mem_map.mp hstep
      exact ⟨rfl, hfiles file hfile⟩
    · exact ⟨(h.possible step hstep).1.1, (h.possible step hstep).2⟩
  · refine ⟨_, _, rfl, fun step hstep => ?_, fun step hstep => (h.possible step hstep).1.2⟩
    obtain ⟨file, -, rfl⟩ := List.mem_map.mp hstep
    rfl
  · intro e he
    rcases h.saved e he with hfile | hheld
    · exact .inl (List.mem_append_left _ (List.mem_map_of_mem hfile))
    · exact .inr (List.mem_append_right _ hheld)

theorem Continues.writes {files : List Path} {rewrites : List (Path × Text)}
    (h : ∀ e ∈ rewrites, e.1 ∈ files)
    (hsame : ∀ e ∈ rewrites, ∀ e' ∈ rewrites, e.1 = e'.1 → e.2 = e'.2) :
    Continues s files (writeSteps rewrites) [] rewrites :=
  ⟨rfl, nofun, fun e he => .inl (h e he), hsame⟩

theorem same_of_singleton (e : Path × Text) :
    ∀ e₁ ∈ [e], ∀ e₂ ∈ [e], e₁.1 = e₂.1 → e₁.2 = e₂.2 := by
  intro e₁ h₁ e₂ h₂ _
  rw [List.mem_singleton.mp h₁, List.mem_singleton.mp h₂]

theorem Continues.write {files : List Path} {file : Path} (content : Text) (h : file ∈ files) :
    Continues s files [.write file content] [] [(file, content)] := by
  refine ⟨rfl, nofun, fun e he => .inl ?_, same_of_singleton _⟩
  rw [List.mem_singleton.mp he]
  exact h

theorem Continues.noCodename (files : List Path) :
    Continues s files [.noCodename] [.noCodename] [] := by
  refine ⟨rfl, ?_, nofun, nofun⟩
  intro step hstep
  rw [List.mem_singleton.mp hstep]
  exact ⟨⟨rfl, rfl⟩, trivial⟩

theorem Continues.cons {files : List Path} {steps middle : List Step}
    {rewrites : List (Path × Text)} {step : Step} (h : Continues s files steps middle rewrites)
    (hmiddle : step.isMiddle = true ∧ step.isCopy = false) (hpossible : step.Possible s) :
    Continues s files (step :: steps) (step :: middle) rewrites := by
  refine ⟨by rw [h.steps, List.cons_append], ?_, fun e he => ?_, h.same⟩
  · exact List.forall_mem_cons.mpr ⟨⟨hmiddle, hpossible⟩, h.possible⟩
  · exact (h.saved e he).imp_right (List.mem_cons_of_mem _)

theorem Apt.synthSteps_continues : ∃ middle rewrites, Continues s (managedFilesOrNone s.sources)
    (synthSteps m host r s.sources) middle rewrites := by
  rw [synthSteps]
  cases host.codename with
  | none => exact ⟨_, _, Continues.noCodename _⟩
  | some codename =>
    dsimp only
    rw [targetOf]
    split
    case isTrue hlist => exact ⟨_, _, Continues.write _ (sourcesList_mem hlist)⟩
    case isFalse =>
      refine ⟨[.createDir, .createPlaceholderDir, .writePlaceholder mirrorList],
        [(mirrorList, _)], rfl, ?_, ?_, same_of_singleton _⟩
      · intro step hstep
        simp only [List.mem_cons, List.not_mem_nil, or_false] at hstep
        obtain rfl | rfl | rfl := hstep <;> exact ⟨⟨rfl, rfl⟩, trivial⟩
      · intro e he
        rw [List.mem_singleton.mp he]
        exact .inr (List.mem_cons_of_mem _ (List.mem_cons_of_mem _ (List.mem_cons_self ..)))

theorem Apt.cdromSteps_continues {all files : List Path} {more : List Step}
    (hread : ∀ file ∈ files, readable w s.sources file = true) (hall : ∀ file ∈ files, file ∈ all)
    (hmore : ∃ middle rewrites, Continues s all more middle rewrites) :
    ∃ middle rewrites, Continues s all (cdromSteps m host r s.sources more files) middle
      rewrites := by
  induction files with
  | nil => exact hmore
  | cons file files ih =>
    obtain ⟨hfile, hfiles⟩ := List.forall_mem_cons.mp hread
    obtain ⟨hmem, hmems⟩ := List.forall_mem_cons.mp hall
    have hpossible : Step.Possible s (.readAgain file) := by
      rw [readable, Bool.and_eq_true] at hfile
      exact Option.isSome_iff_ne_none.mp hfile.1
    have hrest := ih hfiles hmems
    rw [cdromSteps]
    split
    · split
      · obtain ⟨middle, rewrites, h⟩ := hrest
        exact ⟨_, _, h.cons ⟨rfl, rfl⟩ hpossible⟩
      · exact ⟨_, _, (Continues.noCodename all).cons ⟨rfl, rfl⟩ hpossible⟩
      · exact ⟨_, _, (Continues.write _ hmem).cons ⟨rfl, rfl⟩ hpossible⟩
    · split
      · obtain ⟨middle, rewrites, h⟩ := hrest
        exact ⟨_, _, h.cons ⟨rfl, rfl⟩ hpossible⟩
      · exact ⟨_, _, (Continues.write _ hmem).cons ⟨rfl, rfl⟩ hpossible⟩

theorem Apt.steps_isPlan : steps w m host r s = [] ∨ IsPlan s (steps w m host r s) := by
  rw [steps]
  split
  · exact .inl rfl
  case isFalse hread =>
    rw [Bool.not_eq_true, Bool.not_eq_false', List.all_eq_true] at hread
    have hfiles : ∀ file ∈ managedFilesOrNone s.sources, Table.get file s.sources ≠ none :=
      fun file hfile => mem_managedFiles hfile
    split
    · exact .inl rfl
    · right
      split
      · obtain ⟨middle, rewrites, h⟩ := cdromSteps_continues (w := w) (m := m) (r := r) hread
          (fun _ h => h) (synthSteps_continues (m := m) (r := r))
        exact h.isPlan hfiles
      · have hfound (e : Path × Text) (he : e ∈ (foundIn (Rewrites.add host.family r) s.sources
            (managedFilesOrNone s.sources) {}).files) :=
          (mem_foundIn Rewrites.files mem_add he).resolve_left List.not_mem_nil
        apply (Continues.writes (fun e he => (hfound e he).1) _).isPlan hfiles
        intro e he e' he' hname
        have hbecomes := (hfound e he).2
        rw [hname, (hfound e' he').2] at hbecomes
        exact (Option.some.inj hbecomes).symm

theorem Dnf.steps_isPlan {family : Family} {mirror : MirrorName} :
    steps w s family mirror = [] ∨ IsPlan s (steps w s family mirror) := by
  rw [steps]
  split
  · exact .inl rfl
  · split
    · exact .inl rfl
    case isFalse hsome =>
      have hfound (e : Path × Text) (he : e ∈ (foundIn (Rewrites.add family mirror) s.sources
          (filesOf s.sources) {}).files) :=
        (mem_foundIn Rewrites.files mem_add he).resolve_left List.not_mem_nil
      right
      refine ⟨.listAgain :: (filesOf s.sources).map .copyToBackup, _, List.append_assoc _ _ _,
        ?_, ?_, ?_, ?_⟩
      · rw [List.forall_mem_cons]
        refine ⟨⟨rfl, ?_⟩, ?_⟩
        · intro hnone
          rw [filesOf, hnone] at hsome
          exact hsome rfl
        · intro step hstep
          obtain ⟨file, hfile, rfl⟩ := List.mem_map.mp hstep
          exact ⟨rfl, mem_filesOf hfile⟩
      · refine ⟨_, [], (List.append_nil _).symm, ?_, fun _ h => absurd h List.not_mem_nil⟩
        rw [List.forall_mem_cons]
        refine ⟨rfl, fun step hstep => ?_⟩
        obtain ⟨file, -, rfl⟩ := List.mem_map.mp hstep
        rfl
      · intro e he
        exact .inl (List.mem_cons_of_mem _ (List.mem_map_of_mem (hfound e he).1))
      · intro e he e' he' hname
        have hbecomes := (hfound e he).2
        rw [hname, (hfound e' he').2] at hbecomes
        exact (Option.some.inj hbecomes).symm

theorem single_isPlan {file : Path} {content : Text} (h : Table.get file s.sources ≠ none) :
    IsPlan s (backupSteps s [file] ++ [.write file content]) := by
  apply (Continues.write content (List.mem_singleton_self file)).isPlan
  intro p hp
  rwa [List.mem_singleton.mp hp]

theorem steps_isPlan (w : Failures) (m : Machine) (host : Host) (r : Request) (s : Disk) :
    steps w m host r s = [] ∨ IsPlan s (steps w m host r s) := by
  rw [steps]
  cases host.family with
  | debian | ubuntu => exact Apt.steps_isPlan
  | fedora | rocky | alma => exact Dnf.steps_isPlan
  | arch =>
    dsimp only
    rw [Pacman.steps]
    split
    case isTrue => exact .inl rfl
    case isFalse h => exact .inr (single_isPlan h)
  | alpine =>
    dsimp only
    rw [Apk.steps]
    split
    case isTrue => exact .inl rfl
    case isFalse h =>
      split
      · exact .inl rfl
      · right
        apply single_isPlan
        intro hnone
        rw [readable, hnone] at h
        exact h rfl

end Plans

section States

variable {s : Disk} {middle : List Step} {rewrites : List (Path × Text)} {file : Path}

theorem copies_of_ne (sources : Tree) {backup : Tree} {step : Step}
    (hcopy : step ≠ .copyToBackup file) (hheld : step ≠ .writePlaceholder file) :
    Table.get file (step.copies sources backup) = Table.get file backup := by
  cases step with
  | copyToBackup p =>
    rw [Step.copies]
    split
    · rfl
    · have hne : p ≠ file := fun h => hcopy (congrArg Step.copyToBackup h)
      rw [Table.get_set, if_neg hne]
  | writePlaceholder p =>
    have hne : p ≠ file := fun h => hheld (congrArg Step.writePlaceholder h)
    rw [Step.copies, Table.get_set, if_neg hne]
  | _ => rfl

theorem get_copies {sources backup : Tree} {steps : List Step}
    (hheld : ∀ step ∈ steps, step.isPlaceholder = false)
    (hpossible : ∀ step ∈ steps, step = .copyToBackup file → Table.get file sources ≠ none) :
    Table.get file (steps.foldl (Step.copies sources) backup) =
      if Step.copyToBackup file ∈ steps then Table.get file sources
      else Table.get file backup := by
  induction steps generalizing backup with
  | nil => rfl
  | cons step steps ih =>
    obtain ⟨hstep, hsteps⟩ := List.forall_mem_cons.mp hheld
    obtain ⟨hfile, hfiles⟩ := List.forall_mem_cons.mp hpossible
    rw [List.foldl_cons, ih hsteps hfiles]
    by_cases hmem : Step.copyToBackup file ∈ steps
    · rw [if_pos hmem, if_pos (List.mem_cons_of_mem _ hmem)]
    · rw [if_neg hmem]
      by_cases hthis : step = .copyToBackup file
      · obtain ⟨content, hcontent⟩ := Option.ne_none_iff_exists'.mp (hfile hthis)
        rw [hthis, if_pos (List.mem_cons_self ..), Step.copies, hcontent]
        dsimp only
        rw [Table.get_set, if_pos rfl]
      · have hno : Step.copyToBackup file ∉ step :: steps := by
          rw [List.mem_cons, not_or]
          exact ⟨fun h => hthis h.symm, hmem⟩
        rw [if_neg hno]
        apply copies_of_ne sources hthis
        rintro rfl
        cases hstep

theorem get_placeholders {sources backup : Tree} {steps : List Step}
    (hcopy : ∀ step ∈ steps, step.isCopy = false) :
    Table.get file (steps.foldl (Step.copies sources) backup) =
      if Step.writePlaceholder file ∈ steps then some (.utf8 [])
      else Table.get file backup := by
  induction steps generalizing backup with
  | nil => rfl
  | cons step steps ih =>
    obtain ⟨hstep, hsteps⟩ := List.forall_mem_cons.mp hcopy
    rw [List.foldl_cons, ih hsteps]
    by_cases hmem : Step.writePlaceholder file ∈ steps
    · rw [if_pos hmem, if_pos (List.mem_cons_of_mem _ hmem)]
    · rw [if_neg hmem]
      by_cases hthis : step = .writePlaceholder file
      · rw [hthis, if_pos (List.mem_cons_self ..), Step.copies, Table.get_set, if_pos rfl]
      · have hno : Step.writePlaceholder file ∉ step :: steps := by
          rw [List.mem_cons, not_or]
          exact ⟨fun h => hthis h.symm, hmem⟩
        rw [if_neg hno]
        refine copies_of_ne sources ?_ hthis
        rintro rfl
        cases hstep

theorem get_copied (file : Path) {steps : List Step} (hfirst : CopiesFirst steps)
    (hpossible : ∀ step ∈ steps, step.Possible s) : Table.get file (copied s steps) =
      if Step.writePlaceholder file ∈ steps then some (.utf8 [])
      else if Step.copyToBackup file ∈ steps then Table.get file s.sources else none := by
  obtain ⟨first, second, rfl, hheld, hcopy⟩ := hfirst
  have hfile : ∀ step ∈ first, step = .copyToBackup file → Table.get file s.sources ≠ none := by
    rintro step hstep rfl
    exact hpossible _ (List.mem_append_left _ hstep)
  have hnoheld : Step.writePlaceholder file ∉ first := fun h => nomatch hheld _ h
  have hnocopy : Step.copyToBackup file ∉ second := fun h => nomatch hcopy _ h
  rw [copied, List.foldl_append, get_placeholders hcopy, get_copies hheld hfile]
  simp only [List.mem_append, hnoheld, hnocopy, false_or, or_false, Table.get_nil]

theorem get_written {sources : Tree} {steps : List Step}
    (h : ∀ content, Step.write file content ∉ steps) :
    Table.get file (steps.foldl Step.writes sources) = Table.get file sources := by
  induction steps generalizing sources with
  | nil => rfl
  | cons step steps ih =>
    rw [List.foldl_cons, ih fun content hmem => h content (List.mem_cons_of_mem _ hmem)]
    cases step with
    | write p content =>
      have hne : p ≠ file := by
        rintro rfl
        exact h content (List.mem_cons_self ..)
      rw [Step.writes, Table.get_set, if_neg hne]
    | _ => rfl

theorem effects_middle {u : Disk} {backup : Tree} (hbackup : u.backup = some backup)
    (hmiddle : ∀ step ∈ middle, step.isMiddle = true) : middle.foldl Step.effect u =
      ⟨u.sources, some (middle.foldl (Step.copies u.sources) backup)⟩ := by
  induction middle generalizing u backup with
  | nil => rw [List.foldl_nil, List.foldl_nil, ← hbackup]
  | cons step middle ih =>
    obtain ⟨hstep, hrest⟩ := List.forall_mem_cons.mp hmiddle
    have heffect : step.effect u = ⟨u.sources, some (step.copies u.sources backup)⟩ := by
      cases step with
      | removeBackup | createBackup | write p content => cases hstep
      | copyToBackup p =>
        rw [Step.effect, Step.copies]
        cases Table.get p u.sources with
        | none =>
          dsimp only
          rw [← hbackup]
        | some content =>
          dsimp only
          rw [hbackup]
          rfl
      | writePlaceholder p =>
        rw [Step.effect, Step.copies, hbackup]
        rfl
      | _ => rw [Step.effect, Step.copies, ← hbackup] <;> simp
    rw [List.foldl_cons, List.foldl_cons, heffect]
    exact ih rfl hrest

theorem effects_writes (u : Disk) : (writeSteps rewrites).foldl Step.effect u =
    ⟨(writeSteps rewrites).foldl Step.writes u.sources, u.backup⟩ := by
  induction rewrites generalizing u with
  | nil => rfl
  | cons e rewrites ih =>
    rw [writeSteps, List.map_cons, List.foldl_cons, List.foldl_cons]
    exact ih _

theorem writes_middle {sources : Tree} (hmiddle : ∀ step ∈ middle, step.isMiddle = true) :
    middle.foldl Step.writes sources = sources := by
  induction middle with
  | nil => rfl
  | cons step middle ih =>
    obtain ⟨hstep, hrest⟩ := List.forall_mem_cons.mp hmiddle
    rw [List.foldl_cons]
    cases step with
    | write p content => cases hstep
    | _ => exact ih hrest

theorem copies_writes (sources backup : Tree) :
    (writeSteps rewrites).foldl (Step.copies sources) backup = backup := by
  induction rewrites with
  | nil => rfl
  | cons e rewrites ih => exact ih

theorem effects_fresh (s : Disk) :
    (freshBackup s).foldl Step.effect s = ⟨s.sources, some []⟩ := by
  rw [freshBackup]
  split <;> rfl

theorem effects_eq (rewrites : List (Path × Text)) (hmiddle : ∀ step ∈ middle, step.isMiddle = true) :
    (freshBackup s ++ (middle ++ writeSteps rewrites)).foldl Step.effect s =
      ⟨written s (writeSteps rewrites), some (copied s middle)⟩ := by
  rw [List.foldl_append, effects_fresh, List.foldl_append, effects_middle rfl hmiddle,
    effects_writes]
  rfl

theorem possible_congr {t : Disk} (h : t.sources = s.sources) (step : Step) :
    step.Possible t ↔ step.Possible s := by
  cases step <;> simp only [Step.Possible, h]

theorem sources_middle {u : Disk} {step : Step} (h : step.isMiddle = true) :
    (step.effect u).sources = u.sources := by
  cases step with
  | write p content => cases h
  | copyToBackup p =>
    rw [Step.effect]
    split <;> rfl
  | _ => rfl

theorem ready_middle {u : Disk}
    (h : ∀ step ∈ middle, step.isMiddle = true ∧ step.Possible u) :
    Ready u (middle ++ writeSteps rewrites) := by
  induction middle generalizing u with
  | nil =>
    rw [List.nil_append]
    induction rewrites generalizing u with
    | nil => exact trivial
    | cons e rewrites ih => exact ⟨trivial, ih nofun⟩
  | cons step middle ih =>
    obtain ⟨hstep, hrest⟩ := List.forall_mem_cons.mp h
    refine ⟨hstep.2, ih fun next hnext => ⟨(hrest next hnext).1, ?_⟩⟩
    exact (possible_congr (sources_middle hstep.1) next).mpr (hrest next hnext).2

theorem Planned.ready (h : Planned s middle rewrites) :
    Ready s (freshBackup s ++ (middle ++ writeSteps rewrites)) := by
  rw [ready_append, effects_fresh]
  constructor
  · rw [freshBackup]
    split
    · exact ⟨trivial, trivial, trivial⟩
    · exact ⟨trivial, trivial⟩
  · apply ready_middle
    intro step hstep
    obtain ⟨hmiddle, hpossible⟩ := h.possible step hstep
    have hsame : (⟨s.sources, some []⟩ : Disk).sources = s.sources := rfl
    exact ⟨hmiddle, (possible_congr hsame step).mpr hpossible⟩

theorem stages {done rest first second : List Step} {step : Step}
    (h : first ++ second = done ++ step :: rest) :
    (∃ rest', first = done ++ step :: rest') ∨
      ∃ done', done = first ++ done' ∧ second = done' ++ step :: rest := by
  obtain ⟨more, hdone, hsecond⟩ | ⟨more, hfirst, hstep⟩ := List.append_eq_append_iff.mp h
  · exact .inr ⟨more, hdone, hsecond⟩
  · cases more with
    | nil =>
      right
      refine ⟨[], ?_, hstep.symm⟩
      rw [List.append_nil, hfirst, List.append_nil]
    | cons step' more =>
      obtain ⟨rfl, -⟩ := List.cons.inj hstep
      exact .inl ⟨more, hfirst⟩

end States

end LandscapeKit.Mirror.Switch
