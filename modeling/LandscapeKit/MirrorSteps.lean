import LandscapeKit.MirrorBackends

/-!
A switch as a list of steps. Once it is known what is to be changed, a backend takes one step after
the other until one fails; what the steps are can be told from the files and from the readings that
fail.
-/

namespace LandscapeKit.Mirror.Switch

open Faults (Prog Outcome Within)

inductive Step where
  | removeBackup
  | createBackup
  | listAgain
  | copyToBackup (file : Path)
  | readAgain (file : Path)
  | noCodename
  | createDir
  | createPlaceholderDir
  | writePlaceholder (file : Path)
  | write (file : Path) (content : Text)
deriving DecidableEq

namespace Step

def call : Step → Option Call
  | removeBackup => some .removeBackup
  | createBackup => some .createBackup
  | listAgain => some .listAgain
  | copyToBackup file => some (.copyToBackup file)
  | readAgain file => some (.readAgain file)
  | noCodename => none
  | createDir => some .createDir
  | createPlaceholderDir => some .createPlaceholderDir
  | writePlaceholder _ => some .writePlaceholder
  | write file _ => some (.writeAtomic file)

def fails (w : Failures) (step : Step) : Bool := step.call.all w.fails

def run (w : Failures) : Step → Io Unit
  | removeBackup => removeDirAll w .removeBackup
  | createBackup => Switch.createBackup w
  | listAgain => Dnf.managedFiles w .listAgain >>= fun _ => pure ()
  | copyToBackup file => Switch.copyToBackup w file
  | readAgain file => readToString w (.readAgain file) file >>= fun _ => pure ()
  | noCodename => Apt.noCodename w
  | createDir => createDirAll w .createDir
  | createPlaceholderDir => createDirAll w .createPlaceholderDir
  | writePlaceholder file => Switch.writePlaceholder w file
  | write file content => writeOrRollback w file content

def effect (s : Disk) : Step → Disk
  | removeBackup => { s with backup := none }
  | createBackup => { s with backup := some [] }
  | copyToBackup file =>
    match Table.get file s.sources with
    | none => s
    | some content => { s with backup := s.backup.map (Table.set file content) }
  | writePlaceholder file => { s with backup := s.backup.map (Table.set file (.utf8 [])) }
  | write file content => { s with sources := Table.set file (.utf8 content) s.sources }
  | _ => s

def Possible (s : Disk) : Step → Prop
  | listAgain => (s.sources.map Prod.fst).filter Dnf.isRepo ≠ []
  | copyToBackup file => Table.get file s.sources ≠ none
  | readAgain file => (Table.get file s.sources).bind Content.text? ≠ none
  | _ => True

variable {w : Failures} {s : Disk} {step : Step}

theorem run_of_ok (h : step.fails w = false) (hpossible : step.Possible s) :
    step.run w s = (.ok (), step.effect s) := by
  cases step with
  | noCodename => cases h
  | listAgain =>
    have hcall : w.fails .listAgain = false := h
    have hlist : Dnf.managedFiles w .listAgain s =
        (.ok (sortPaths ((s.sources.map Prod.fst).filter Dnf.isRepo)).dedup, s) := by
      rw [Dnf.managedFiles, hcall, if_neg Bool.false_ne_true]
      exact if_neg hpossible
    exact Prog.bind_of_ok hlist
  | copyToBackup file =>
    have hcall : w.fails (.copyToBackup file) = false := h
    obtain ⟨content, hfile⟩ := Option.ne_none_iff_exists'.mp hpossible
    rw [run, Switch.copyToBackup, effect, hfile]
    exact if_neg (Bool.not_eq_true _ ▸ hcall)
  | readAgain file =>
    have hcall : w.fails (.readAgain file) = false := h
    obtain ⟨text, htext⟩ := Option.ne_none_iff_exists'.mp hpossible
    have hread : readToString w (.readAgain file) file s = (.ok text, s) := by
      rw [readToString, htext]
      exact if_neg (Bool.not_eq_true _ ▸ hcall)
    exact Prog.bind_of_ok hread
  | write file content =>
    have hcall : w.fails (.writeAtomic file) = false := h
    have hwrite : writeAtomic w file content s =
        (.ok (), { s with sources := Table.set file (.utf8 content) s.sources }) :=
      if_neg (Bool.not_eq_true _ ▸ hcall)
    exact Prog.bind_of_ok (Prog.attempt_of_ok hwrite)
  | removeBackup | createBackup | createDir | createPlaceholderDir | writePlaceholder file =>
    exact if_neg (Bool.not_eq_true _ ▸ h)

end Step

def execute (w : Failures) (steps : List Step) : Io Unit := Prog.forEach (Step.run w) steps

section Execute

variable {w : Failures} {s t : Disk} {steps : List Step}

theorem execute_append (w : Failures) (first second : List Step) :
    execute w (first ++ second) = execute w first >>= fun _ => execute w second :=
  Prog.forEach_append _ first second

def Ready (s : Disk) : List Step → Prop
  | [] => True
  | step :: steps => step.Possible s ∧ Ready (step.effect s) steps

theorem ready_append {first second : List Step} : Ready s (first ++ second) ↔
    Ready s first ∧ Ready (first.foldl Step.effect s) second := by
  induction first generalizing s with
  | nil => exact ⟨fun h => ⟨trivial, h⟩, And.right⟩
  | cons step first ih => rw [List.cons_append, Ready, ih, Ready, and_assoc, List.foldl_cons]

theorem execute_of_ok (hready : Ready s steps) (h : ∀ step ∈ steps, step.fails w = false) :
    execute w steps s = (.ok (), steps.foldl Step.effect s) := by
  induction steps generalizing s with
  | nil => rfl
  | cons step steps ih =>
    obtain ⟨hstep, hsteps⟩ := List.forall_mem_cons.mp h
    rw [execute, Prog.forEach, Prog.bind_of_ok (Step.run_of_ok hstep hready.1)]
    exact ih hready.2 hsteps

end Execute

def Io.forget {α : Type} (p : Io α) : Io Unit := p >>= fun _ => pure ()

def Follows {α : Type} (w : Failures) (p : Io α) (steps : List Step) (s : Disk) : Prop :=
  p.forget s = execute w steps s ∨ steps = [] ∧ (p s).2 = s

section Backups

variable (w : Failures) (s : Disk)

def freshBackup : List Step :=
  (if s.backup.isSome then [.removeBackup] else []) ++ [.createBackup]

def backupSteps (files : List Path) : List Step := freshBackup s ++ files.map .copyToBackup

theorem execute_copies (files : List Path) :
    Prog.forEach (copyToBackup w) files = execute w (files.map .copyToBackup) := by
  induction files with
  | nil => rfl
  | cons file files ih =>
    rw [Prog.forEach, ih]
    rfl

theorem freshBackup_run {α : Type} (f : Unit → Io α) :
    ((Prog.read : Io Disk) >>= fun s => Prog.onlyIf s.backup.isSome (removeDirAll w .removeBackup)
      >>= fun _ => createBackup w >>= f) s = (execute w (freshBackup s) >>= f) s := by
  have hread : (Prog.read : Io Disk) s = (.ok s, s) := rfl
  rw [Prog.bind_of_ok hread]
  cases hb : s.backup.isSome with
  | true =>
    rw [Prog.onlyIf_true, freshBackup, hb, if_pos rfl, List.singleton_append]
    have hrun : execute w [.removeBackup, .createBackup] =
        removeDirAll w .removeBackup >>= fun _ => createBackup w >>= fun _ => pure () := rfl
    rw [hrun, Prog.andThen_assoc]
    apply Prog.andThen_congr
    intro _ t _
    rw [Prog.andThen_assoc]
    rfl
  | false =>
    rw [Prog.onlyIf_false, freshBackup, hb, if_neg Bool.false_ne_true, List.nil_append]
    have hrun : execute w [.createBackup] = createBackup w >>= fun _ => pure () := rfl
    rw [hrun, Prog.andThen_assoc]
    rfl

theorem backup_run (files : List Path) : backup w files s = execute w (backupSteps s files) s := by
  rw [backupSteps, execute_append, ← execute_copies]
  exact freshBackup_run w s fun _ => Prog.forEach (copyToBackup w) files

variable {w s}

theorem forget_bind {α β : Type} (p : Io α) (f : α → Io β) :
    Io.forget (p >>= f) = p >>= fun a => (f a).forget := Prog.andThen_assoc _ _ _

theorem forget_pure {α : Type} (a : α) : Io.forget (pure a) = pure () := rfl

theorem backup_follows {α : Type} {files : List Path} {p : Io α} {more : List Step}
    (h : ∀ t, backup w files s = (.ok (), t) → p.forget t = execute w more t) :
    Io.forget (backup w files >>= fun _ => p) s = execute w (backupSteps s files ++ more) s := by
  rw [forget_bind, execute_append]
  calc (backup w files >>= fun _ => p.forget) s
      = (backup w files >>= fun _ => execute w more) s := Prog.andThen_congr fun _ t ht => h t ht
    _ = (execute w (backupSteps s files) >>= fun _ => execute w more) s :=
        Prog.andThen_congr_left (backup_run w s files)

def KeepsSources (s t : Disk) : Prop := t.sources = s.sources

instance : Std.Refl KeepsSources := ⟨fun _ => rfl⟩

instance : IsTrans Disk KeepsSources := ⟨fun _ _ _ h h' => Eq.trans h' h⟩

instance (call : Call) : Within KeepsSources (removeDirAll w call) := by
  refine ⟨fun s => ?_⟩
  rw [removeDirAll]
  split <;> rfl

instance : Within KeepsSources (createBackup w) := by
  refine ⟨fun s => ?_⟩
  rw [createBackup]
  split <;> rfl

instance (call : Call) : Within KeepsSources (createDirAll w call) := by
  refine ⟨fun s => ?_⟩
  rw [createDirAll]
  split <;> rfl

instance (file : Path) : Within KeepsSources (writePlaceholder w file) := by
  refine ⟨fun s => ?_⟩
  rw [writePlaceholder]
  split <;> rfl

instance (file : Path) : Within KeepsSources (copyToBackup w file) := by
  refine ⟨fun s => ?_⟩
  rw [copyToBackup]
  split
  · rfl
  · split <;> rfl

instance (files : List Path) : Within KeepsSources (backup w files) := by
  unfold backup
  infer_instance

end Backups

section Follows

variable {α β : Type} {w : Failures} {s : Disk} {steps : List Step}

theorem Follows.bind {p : Io α} {a : α} {f : α → Io β} (hp : p s = (.ok a, s))
    (h : Follows w (f a) steps s) : Follows w (p >>= f) steps s := by
  rcases h with h | ⟨hnil, hs⟩
  · left
    rw [forget_bind, Prog.bind_of_ok hp]
    exact h
  · right
    rw [Prog.bind_of_ok hp]
    exact ⟨hnil, hs⟩

theorem Follows.refused {p : Io α} {e : MirrorError} {f : α → Io β} (hp : p s = (.err e, s)) :
    Follows w (p >>= f) [] s := by
  right
  rw [Prog.bind_of_err hp]
  exact ⟨rfl, rfl⟩

theorem Follows.read {f : Disk → Io β} (h : Follows w (f s) steps s) :
    Follows w (Prog.read >>= f) steps s := Follows.bind (p := Prog.read) rfl h

theorem Follows.fail (e : MirrorError) : Follows w (Prog.fail e : Io α) [] s := .inr ⟨rfl, rfl⟩

theorem Follows.pure (a : α) : Follows w (Pure.pure a : Io α) [] s := .inr ⟨rfl, rfl⟩

theorem Follows.backup {files : List Path} {p : Io α}
    (h : ∀ t, t.sources = s.sources → p.forget t = execute w steps t) :
    Follows w (backup w files >>= fun _ => p) (backupSteps s files ++ steps) s := by
  left
  apply backup_follows
  intro t ht
  have hkeeps := (inferInstance : Within KeepsSources (Switch.backup w files)).rel s
  rw [ht] at hkeeps
  exact h t hkeeps

end Follows

section Reading

def readable (w : Failures) (sources : Tree) (file : Path) : Bool :=
  ((Table.get file sources).bind Content.text?).isSome && !w.fails (.read file)

def foundIn {ρ : Type} (add : ρ → Path → Text → ρ) (sources : Tree) (files : List Path)
    (found : ρ) : ρ :=
  files.foldl (fun found file => add found file (contentOrNone sources file)) found

variable {ρ : Type} {w : Failures} {s : Disk}

theorem readToString_run (call : Call) (file : Path) : readToString w call file s =
    if ((Table.get file s.sources).bind Content.text?).isSome && !w.fails call then
      (.ok (contentOrNone s.sources file), s)
    else (.err .io, s) := by
  rw [readToString, contentOrNone]
  cases (Table.get file s.sources).bind Content.text? with
  | none => rfl
  | some text => cases w.fails call <;> rfl

theorem readEach_run (add : ρ → Path → Text → ρ) (files : List Path) (found : ρ) :
    readEach w add files found s =
    if files.all (readable w s.sources) then (.ok (foundIn add s.sources files found), s)
    else (.err .io, s) := by
  induction files generalizing found with
  | nil => rfl
  | cons file files ih =>
    have hread := readToString_run (w := w) (s := s) (.read file) file
    rw [readEach, List.all_cons]
    cases hfile : readable w s.sources file with
    | false =>
      rw [readable] at hfile
      rw [hfile, if_neg Bool.false_ne_true] at hread
      rw [Prog.bind_of_err hread, Bool.false_and, if_neg Bool.false_ne_true]
    | true =>
      rw [readable] at hfile
      rw [hfile, if_pos rfl] at hread
      rw [Prog.bind_of_ok hread, ih, Bool.true_and]
      rfl

end Reading

section Single

def Pacman.steps (s : Disk) (mirror : MirrorName) : List Step :=
  if Table.get mirrorlist s.sources = none then []
  else backupSteps s [mirrorlist] ++ [.write mirrorlist (mirrorlistContent mirror)]

theorem Pacman.follows (w : Failures) (mirror : MirrorName) (s : Disk) :
    Follows w (Pacman.apply w mirror) (Pacman.steps s mirror) s := by
  apply Follows.read
  rw [Pacman.steps]
  split
  · exact Follows.fail _
  · apply Follows.backup
    intro t _
    rw [forget_bind]
    rfl

def Apk.steps (w : Failures) (m : Machine) (s : Disk) (mirror : MirrorName) : List Step :=
  let content := (rewrite m (contentOrNone s.sources repositories) mirror).1
  if !readable w s.sources repositories then []
  else if content = contentOrNone s.sources repositories then []
  else backupSteps s [repositories] ++ [.write repositories content]

theorem Apk.follows (w : Failures) (m : Machine) (mirror : MirrorName) (s : Disk) :
    Follows w (Apk.apply w m mirror) (Apk.steps w m s mirror) s := by
  have hread := readToString_run (w := w) (s := s) (.read repositories) repositories
  apply Follows.read
  rw [Apk.steps]
  cases hfile : readable w s.sources repositories with
  | false =>
    rw [readable] at hfile
    rw [hfile, if_neg Bool.false_ne_true] at hread
    split
    · exact Follows.fail _
    · exact Follows.refused hread
  | true =>
    rw [readable] at hfile
    rw [hfile, if_pos rfl] at hread
    have hsome : Table.get repositories s.sources ≠ none := by
      intro hnone
      rw [hnone] at hfile
      cases hfile
    rw [if_neg hsome]
    apply Follows.bind hread
    dsimp only
    rw [Bool.not_true, if_neg Bool.false_ne_true]
    split
    · exact Follows.pure _
    · apply Follows.backup
      intro t _
      rw [forget_bind]
      rfl

end Single

section Dnf

def Dnf.filesOf (sources : Tree) : List Path :=
  (sortPaths ((sources.map Prod.fst).filter isRepo)).dedup

def Dnf.steps (w : Failures) (s : Disk) (family : Family) (mirror : MirrorName) : List Step :=
  let files := filesOf s.sources
  let found := foundIn (Rewrites.add family mirror) s.sources files {}
  if w.fails .list || !files.all (readable w s.sources) then []
  else if found.files = [] then []
  else freshBackup s ++ .listAgain :: files.map .copyToBackup ++
    found.files.map fun e => .write e.1 e.2

theorem execute_writes (w : Failures) (rewrites : List (Path × Text)) :
    Prog.forEach (fun e => writeOrRollback w e.1 e.2) rewrites =
      execute w (rewrites.map fun e => .write e.1 e.2) := by
  induction rewrites with
  | nil => rfl
  | cons e rewrites ih =>
    rw [Prog.forEach, ih]
    rfl

variable {w : Failures} {s : Disk}

theorem Dnf.managedFiles_run {call : Call} (hcall : w.fails call = false)
    (hsome : (s.sources.map Prod.fst).filter isRepo ≠ []) :
    managedFiles w call s = (.ok (filesOf s.sources), s) := by
  rw [managedFiles, hcall, if_neg Bool.false_ne_true]
  exact if_neg hsome

theorem freshBackup_keeps : Within KeepsSources (execute w (freshBackup s)) := by
  rw [freshBackup]
  split
  · exact inferInstanceAs (Within KeepsSources
      (removeDirAll w .removeBackup >>= fun _ => createBackup w >>= fun _ => pure ()))
  · exact inferInstanceAs (Within KeepsSources (createBackup w >>= fun _ => pure ()))

theorem Dnf.backup_run (hsome : (s.sources.map Prod.fst).filter isRepo ≠ []) :
    backup w s =
      execute w (freshBackup s ++ .listAgain :: (filesOf s.sources).map .copyToBackup) s := by
  calc backup w s
      = (execute w (freshBackup s) >>= fun _ =>
          managedFiles w .listAgain >>= fun files => Prog.forEach (copyToBackup w) files) s :=
        freshBackup_run w s fun _ =>
          managedFiles w .listAgain >>= fun files => Prog.forEach (copyToBackup w) files
    _ = (execute w (freshBackup s) >>= fun _ =>
          execute w (.listAgain :: (filesOf s.sources).map .copyToBackup)) s := by
        apply Prog.andThen_congr
        intro _ t ht
        have hkeeps : t.sources = s.sources := by
          have hrel := (freshBackup_keeps (w := w) (s := s)).rel s
          rwa [ht] at hrel
        rw [← hkeeps] at hsome ⊢
        cases hcall : w.fails .listAgain with
        | true =>
          have hfail : managedFiles w .listAgain t = (.err .io, t) := by
            rw [managedFiles, hcall, if_pos rfl]
          rw [Prog.bind_of_err hfail]
          have hrun : Step.run w .listAgain t = (.err .io, t) := Prog.bind_of_err hfail
          exact (Prog.bind_of_err (f := fun _ => execute w _) hrun).symm
        | false =>
          have hok := managedFiles_run hcall hsome
          rw [Prog.bind_of_ok hok, execute_copies]
          have hrun : Step.run w .listAgain t = (.ok (), t) := Prog.bind_of_ok hok
          exact (Prog.bind_of_ok (f := fun _ => execute w _) hrun).symm
    _ = _ := by rw [execute_append]

theorem Dnf.follows (w : Failures) (family : Family) (mirror : MirrorName) (s : Disk) :
    Follows w (Dnf.apply w family mirror) (Dnf.steps w s family mirror) s := by
  have hread := readEach_run (w := w) (s := s) (Rewrites.add family mirror) (filesOf s.sources) {}
  rw [Dnf.steps]
  cases hlist : w.fails .list with
  | true =>
    have hfail : managedFiles w .list s = (.err .io, s) := by rw [managedFiles, hlist, if_pos rfl]
    rw [Bool.true_or, if_pos rfl]
    exact Follows.refused hfail
  | false =>
    by_cases hsome : (s.sources.map Prod.fst).filter isRepo = []
    · have hfail : managedFiles w .list s = (.err .noSourceFiles, s) := by
        rw [managedFiles, hlist, if_neg Bool.false_ne_true, if_pos hsome]
      have hnone : filesOf s.sources = [] := by
        rw [filesOf, hsome]
        rfl
      rw [hnone]
      exact Follows.refused hfail
    · rw [Bool.false_or]
      apply Follows.bind (managedFiles_run hlist hsome)
      cases hall : (filesOf s.sources).all (readable w s.sources) with
      | false =>
        rw [hall, if_neg Bool.false_ne_true] at hread
        exact Follows.refused hread
      | true =>
        rw [hall, if_pos rfl] at hread
        rw [Bool.not_true, if_neg Bool.false_ne_true]
        apply Follows.bind hread
        split
        · split
          · exact Follows.pure _
          · exact Follows.fail _
        · left
          rw [forget_bind, execute_append, execute_writes]
          calc (backup w >>= fun _ => Io.forget _) s
              = (backup w >>= fun _ => execute w _) s := by
                apply Prog.andThen_congr
                intro _ t _
                rw [forget_bind, forget_pure, Prog.andThen_done]
            _ = _ := Prog.andThen_congr_left (backup_run hsome)

end Dnf

namespace Apt

variable (w : Failures) (m : Machine) (host : Host) (r : Request)

def cdromSteps (sources : Tree) (more : List Step) : List Path → List Step
  | [] => more
  | file :: files =>
    let original := contentOrNone sources file
    .readAgain file ::
      if r.disableCdrom then
        match commentCdrom original, host.codename with
        | none, _ => cdromSteps sources more files
        | some _, none => [.noCodename]
        | some (commented, _), some codename =>
          [.write file (endLine commented ++
            synthLines host.family r.mirror r.replaceSecurity m.arch codename)]
      else
        match convertCdrom host.family r.mirror m.arch original with
        | none => cdromSteps sources more files
        | some rewritten => [.write file rewritten]

def targetOf (sources : Tree) : Path :=
  if (Table.get sourcesList sources).isSome then sourcesList else mirrorList

def synthSteps (sources : Tree) : List Step :=
  match host.codename with
  | none => [.noCodename]
  | some codename =>
    (if (Table.get sourcesList sources).isSome then []
      else [.createDir, .createPlaceholderDir, .writePlaceholder mirrorList]) ++
    [.write (targetOf sources) (endLine (contentOrNone sources (targetOf sources)) ++
      synthLines host.family r.mirror r.replaceSecurity m.arch codename)]

def fallbackSteps (sources : Tree) : List Step :=
  cdromSteps m host r sources (synthSteps m host r sources) (managedFilesOrNone sources)

def steps (s : Disk) : List Step :=
  let files := managedFilesOrNone s.sources
  let found := foundIn (Rewrites.add host.family r) s.sources files {}
  if !files.all (readable w s.sources) then []
  else if found.files = [] && found.alreadyMatched then []
  else backupSteps s files ++
    if found.files = [] then fallbackSteps m host r s.sources
    else found.files.map fun e => .write e.1 e.2

variable {w m host r} {s : Disk}

theorem noCodename_run {α : Type} (s : Disk) :
    Io.forget (noCodename w : Io α) s = execute w [.noCodename] s := by
  rw [noCodename, forget_bind]
  have hrun : execute w [.noCodename] =
      (Prog.ignore (removeDirAll w .dropBackup) >>= fun _ => Prog.fail .noOfficialSource) >>=
        fun _ => pure () := rfl
  rw [hrun, Prog.andThen_assoc]
  rfl

theorem noCodename_bind {α β : Type} (f : α → Io β) :
    (noCodename w : Io α) >>= f = (noCodename w : Io β) := by
  rw [noCodename, Prog.andThen_assoc]
  rfl

theorem write_run {f : Option Fallback → Io Fallback} (hdone : ∀ done, f (some done) = pure done)
    {done : Fallback} (file : Path) (content : Text) (s : Disk) :
    Io.forget ((writeOrRollback w file content >>= fun _ => pure (some done)) >>= f) s =
      execute w [.write file content] s := by
  rw [Prog.andThen_assoc, forget_bind]
  simp only [Prog.pure_andThen, hdone]
  rfl

theorem synth_run (s : Disk) :
    Io.forget (match host.codename with
      | none => noCodename w
      | some codename => do
        let lines := synthLines host.family r.mirror r.replaceSecurity m.arch codename
        let target ← synthTarget w
        let s ← (Prog.read : Io Disk)
        writeOrRollback w target (endLine (contentOrNone s.sources target) ++ lines)
        pure Fallback.sourceAdded) s = execute w (synthSteps m host r s.sources) s := by
  have hread : (Prog.read : Io Disk) s = (.ok s, s) := rfl
  rw [synthSteps]
  cases host.codename with
  | none => exact noCodename_run s
  | some codename =>
    dsimp only
    rw [forget_bind, synthTarget, Prog.andThen_assoc, Prog.bind_of_ok hread, targetOf]
    split
    · rw [Prog.pure_andThen, forget_bind, Prog.bind_of_ok hread, forget_bind]
      rfl
    · rw [execute_append]
      have hrun : execute w [.createDir, .createPlaceholderDir, .writePlaceholder mirrorList] =
          createDirAll w .createDir >>= fun _ => createDirAll w .createPlaceholderDir >>= fun _ =>
            writePlaceholder w mirrorList >>= fun _ => pure () := rfl
      have hkeeps : Within KeepsSources
          (execute w [.createDir, .createPlaceholderDir, .writePlaceholder mirrorList]) := by
        rw [hrun]
        infer_instance
      calc _ = (execute w [.createDir, .createPlaceholderDir, .writePlaceholder mirrorList] >>=
              fun _ => Prog.read >>= fun t => Io.forget (writeOrRollback w mirrorList
                (endLine (contentOrNone t.sources mirrorList) ++ synthLines host.family r.mirror
                  r.replaceSecurity m.arch codename) >>= fun _ => pure Fallback.sourceAdded)) s := by
              rw [hrun]
              simp only [Prog.andThen_assoc, Prog.pure_andThen, forget_bind]
        _ = _ := by
              apply Prog.andThen_congr
              intro _ t ht
              have hrel : t.sources = s.sources := by
                have hrel := hkeeps.rel s
                rwa [ht] at hrel
              have hread' : (Prog.read : Io Disk) t = (.ok t, t) := rfl
              rw [Prog.bind_of_ok hread', hrel, forget_bind]
              rfl

theorem fallbackCdrom_run {f : Option Fallback → Io Fallback} {more : List Step}
    (hdone : ∀ done, f (some done) = pure done)
    (hmore : (f none).forget s = execute w more s) (files : List Path) :
    Io.forget (fallbackCdrom w m host r files >>= f) s =
      execute w (cdromSteps m host r s.sources more files) s := by
  induction files with
  | nil => exact hmore
  | cons file files ih =>
    have hread := readToString_run (w := w) (s := s) (.readAgain file) file
    rw [fallbackCdrom, Prog.andThen_assoc, forget_bind, cdromSteps]
    split at hread
    · have hrun : Step.run w (.readAgain file) s = (.ok (), s) := Prog.bind_of_ok hread
      rw [Prog.bind_of_ok hread, execute, Prog.forEach, Prog.bind_of_ok hrun]
      cases hcdrom : r.disableCdrom with
      | true =>
        rw [if_pos rfl, if_pos rfl]
        cases commentCdrom (contentOrNone s.sources file) with
        | none => exact ih
        | some commented =>
          cases host.codename with
          | none =>
            dsimp only
            rw [noCodename_bind]
            exact noCodename_run s
          | some codename => exact write_run hdone file _ s
      | false =>
        rw [if_neg Bool.false_ne_true, if_neg Bool.false_ne_true]
        cases convertCdrom host.family r.mirror m.arch (contentOrNone s.sources file) with
        | none => exact ih
        | some rewritten => exact write_run hdone file _ s
    · have hrun : Step.run w (.readAgain file) s = (.err .io, s) := Prog.bind_of_err hread
      rw [Prog.bind_of_err hread, execute, Prog.forEach, Prog.bind_of_err hrun]

theorem fallback_run (s : Disk) :
    Io.forget (fallback w m host r) s = execute w (fallbackSteps m host r s.sources) s := by
  have hread : (Prog.read : Io Disk) s = (.ok s, s) := rfl
  rw [fallback, forget_bind, Prog.bind_of_ok hread]
  apply fallbackCdrom_run
  · intro done
    rfl
  · exact synth_run s

theorem follows (s : Disk) : Follows w (apply w m host r) (steps w m host r s) s := by
  have hread := readEach_run (w := w) (s := s) (Rewrites.add host.family r)
    (managedFilesOrNone s.sources) {}
  apply Follows.read
  rw [steps]
  cases hall : (managedFilesOrNone s.sources).all (readable w s.sources) with
  | false =>
    rw [hall, if_neg Bool.false_ne_true] at hread
    exact Follows.refused hread
  | true =>
    rw [hall, if_pos rfl] at hread
    rw [Bool.not_true, if_neg Bool.false_ne_true]
    apply Follows.bind hread
    split
    · exact Follows.pure _
    · apply Follows.backup
      intro t ht
      split
      · rw [forget_bind, ← ht, ← fallback_run t]
        rfl
      · rw [forget_bind, execute_writes, forget_pure, Prog.andThen_done]

end Apt

def steps (w : Failures) (m : Machine) (host : Host) (r : Request) (s : Disk) : List Step :=
  match host.family with
  | .debian | .ubuntu => Apt.steps w m host r s
  | .fedora | .rocky | .alma => Dnf.steps w s host.family r.mirror
  | .arch => Pacman.steps s r.mirror
  | .alpine => Apk.steps w m s r.mirror

theorem follows (w : Failures) (m : Machine) (host : Host) (r : Request) (s : Disk) :
    Follows w (apply w m host r) (steps w m host r s) s := by
  rw [apply, steps]
  cases host.family with
  | debian | ubuntu => exact Apt.follows s
  | fedora | rocky | alma => exact Dnf.follows w _ r.mirror s
  | arch => exact Pacman.follows w r.mirror s
  | alpine => exact Apk.follows w m r.mirror s

end LandscapeKit.Mirror.Switch
