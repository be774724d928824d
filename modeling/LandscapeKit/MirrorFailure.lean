import LandscapeKit.MirrorPlan

/-!
Switches that fail. What a failed switch leaves behind is compared with what was there: the source
files, and the backup that an earlier switch has made.
-/

namespace LandscapeKit.Mirror.Switch

open Faults (Prog Outcome Within Lives)

section Rollback

variable {w : Failures} {u : Disk} {backup sources : Tree} {file : Path}

def putBack (backup sources : Tree) (file : Path) : Tree :=
  match Table.get file backup with
  | none => sources
  | some content => Table.set file content sources

def backedUp (backup : Tree) : List Path := sortPaths (backup.map Prod.fst)

theorem mem_backedUp : file ∈ backedUp backup ↔ Table.get file backup ≠ none := by
  rw [backedUp, mem_sortPaths, mem_keys_iff]

def restored (w : Failures) (backup : Tree) : List Path :=
  if w.fails .walk then [] else (backedUp backup).takeWhile fun file => !w.fails (.copyBack file)

def stoppedAt (w : Failures) (backup : Tree) : Option Path :=
  if w.fails .walk then none else (backedUp backup).find? fun file => w.fails (.copyBack file)

def Failures.cutAt (w : Failures) (stopped : Option Path) (sources : Tree) : Tree :=
  match stopped with
  | none => sources
  | some file => w.cut (.copyBack file) file sources

def backFails (w : Failures) (backup : Tree) : Bool :=
  w.fails .walk || (stoppedAt w backup).isSome

theorem get_putBacks (file : Path) (sources : Tree) {files : List Path}
    (hfiles : ∀ p ∈ files, Table.get p backup ≠ none) :
    Table.get file (files.foldl (putBack backup) sources) =
      if file ∈ files then Table.get file backup else Table.get file sources := by
  induction files generalizing sources with
  | nil => rfl
  | cons p files ih =>
    obtain ⟨hp, hrest⟩ := List.forall_mem_cons.mp hfiles
    obtain ⟨content, hcontent⟩ := Option.ne_none_iff_exists'.mp hp
    rw [List.foldl_cons, ih _ hrest, putBack, hcontent]
    dsimp only
    by_cases hmem : file ∈ files
    · rw [if_pos hmem, if_pos (List.mem_cons_of_mem _ hmem)]
    · rw [if_neg hmem, Table.get_set]
      by_cases hthis : p = file
      · rw [if_pos hthis, if_pos (hthis ▸ List.mem_cons_self ..), ← hthis, hcontent]
      · have hno : file ∉ p :: files := by
          rw [List.mem_cons, not_or]
          exact ⟨fun h => hthis h.symm, hmem⟩
        rw [if_neg hthis, if_neg hno]

theorem copyBack_run (hbackup : u.backup = some backup) (hfile : Table.get file backup ≠ none) :
    copyBack w file u = if w.fails (.copyBack file) then
        (.err .io, { u with sources := w.cut (.copyBack file) file u.sources })
      else (.ok (), { u with sources := putBack backup u.sources file }) := by
  obtain ⟨content, hcontent⟩ := Option.ne_none_iff_exists'.mp hfile
  rw [copyBack, hbackup, Option.bind_some, putBack, hcontent]

theorem copyBacks_run {files : List Path} (hbackup : u.backup = some backup)
    (hfiles : ∀ p ∈ files, Table.get p backup ≠ none) : Prog.forEach (copyBack w) files u =
      let done := (files.takeWhile fun file => !w.fails (.copyBack file)).foldl (putBack backup)
        u.sources
      match files.find? fun file => w.fails (.copyBack file) with
      | none => (.ok (), { u with sources := done })
      | some file => (.err .io, { u with sources := w.cut (.copyBack file) file done }) := by
  induction files generalizing u with
  | nil => rfl
  | cons p files ih =>
    obtain ⟨hp, hrest⟩ := List.forall_mem_cons.mp hfiles
    have hrun := copyBack_run (w := w) hbackup hp
    rw [Prog.forEach]
    cases hcall : w.fails (.copyBack p) with
    | true =>
      rw [hcall, if_pos rfl] at hrun
      rw [Prog.bind_of_err hrun, List.takeWhile_cons, List.find?_cons, hcall]
      rfl
    | false =>
      rw [hcall, if_neg Bool.false_ne_true] at hrun
      have hnext := ih (u := ⟨putBack backup u.sources p, u.backup⟩) hbackup hrest
      rw [Prog.bind_of_ok hrun, hnext, List.takeWhile_cons, List.find?_cons, hcall]
      rfl

theorem mem_restored (h : file ∈ restored w backup) : file ∈ backedUp backup := by
  rw [restored] at h
  split at h
  · cases h
  · exact (List.takeWhile_sublist _).subset h

def afterRollback (w : Failures) (backup sources : Tree) : Tree :=
  w.cutAt (stoppedAt w backup) ((restored w backup).foldl (putBack backup) sources)

theorem restoreFiles_run (hbackup : u.backup = some backup) : restoreFiles w u =
    (if backFails w backup then .err .io else .ok (),
      { u with sources := afterRollback w backup u.sources }) := by
  have hwalk : walkFiles w u =
      if w.fails .walk then (.err .io, u) else (.ok (backedUp backup), u) := by
    rw [walkFiles, hbackup]
    rfl
  rw [restoreFiles, backFails, afterRollback, stoppedAt, restored]
  cases hcall : w.fails .walk with
  | true =>
    rw [hcall, if_pos rfl] at hwalk
    rw [Prog.bind_of_err hwalk]
    rfl
  | false =>
    rw [hcall, if_neg Bool.false_ne_true] at hwalk
    rw [Prog.bind_of_ok hwalk, copyBacks_run hbackup fun p hp => mem_backedUp.mp hp]
    simp only [Bool.false_eq_true, if_false, Bool.false_or]
    cases (backedUp backup).find? fun file => w.fails (.copyBack file) <;> rfl

theorem rollback_run (hbackup : u.backup = some backup) : (rollback w u).2 =
    ⟨afterRollback w backup u.sources, if backFails w backup then some backup
      else if w.fails .dropBackup then some (w.remains .dropBackup backup) else none⟩ := by
  have hrestore := restoreFiles_run (w := w) hbackup
  rw [rollback]
  cases hfails : backFails w backup with
  | true =>
    rw [hfails, if_pos rfl] at hrestore
    rw [Prog.bind_of_err hrestore, if_pos rfl, hbackup]
  | false =>
    rw [hfails, if_neg Bool.false_ne_true] at hrestore
    rw [Prog.bind_of_ok hrestore, if_neg Bool.false_ne_true, removeDirAll, hbackup]
    split <;> rfl

theorem of_backFails (h : backFails w backup = false) :
    restored w backup = backedUp backup ∧ stoppedAt w backup = none := by
  rw [backFails, Bool.or_eq_false_iff, Option.isSome_eq_false_iff, Option.isNone_iff_eq_none] at h
  obtain ⟨hwalk, hstopped⟩ := h
  refine ⟨?_, hstopped⟩
  rw [stoppedAt, hwalk, if_neg Bool.false_ne_true, List.find?_eq_none] at hstopped
  rw [restored, hwalk, if_neg Bool.false_ne_true, List.takeWhile_eq_self_iff]
  intro file hfile
  rw [Bool.not_eq_true']
  exact Bool.eq_false_of_not_eq_true (hstopped file hfile)

theorem stoppedAt_not_restored {stopped : Path} (h : stoppedAt w backup = some stopped) :
    stopped ∉ restored w backup := by
  intro hmem
  rw [stoppedAt] at h
  rw [restored] at hmem
  split at h
  · cases h
  case isFalse hwalk =>
    rw [if_neg hwalk] at hmem
    have hok := List.mem_takeWhile_imp hmem
    rw [List.find?_some h] at hok
    cases hok

theorem get_cut (call : Call) {other : Path} (h : other ≠ file) :
    Table.get file (w.cut call other sources) = Table.get file sources := by
  rw [Failures.cut]
  split
  · rfl
  · rw [Table.get_set, if_neg h]

theorem get_cut_congr (call : Call) {other : Path} {sources' : Tree}
    (h : Table.get file sources' = Table.get file sources) :
    Table.get file (w.cut call other sources') = Table.get file (w.cut call other sources) := by
  rw [Failures.cut, Failures.cut]
  split
  · exact h
  · rw [Table.get_set, Table.get_set, h]

theorem get_afterRollback : Table.get file (afterRollback w backup sources) =
    if file ∈ restored w backup then Table.get file backup
    else Table.get file (w.cutAt (stoppedAt w backup) sources) := by
  have hfiles : ∀ p ∈ restored w backup, Table.get p backup ≠ none :=
    fun p hp => mem_backedUp.mp (mem_restored hp)
  have hget := get_putBacks file sources hfiles
  rw [afterRollback]
  cases hstopped : stoppedAt w backup with
  | none => exact hget
  | some stopped =>
    dsimp only [Failures.cutAt]
    by_cases hmem : file ∈ restored w backup
    · have hne : stopped ≠ file := fun hsame => stoppedAt_not_restored hstopped (hsame ▸ hmem)
      rw [get_cut _ hne, hget, if_pos hmem, if_pos hmem]
    · rw [if_neg hmem] at hget ⊢
      exact get_cut_congr _ hget

end Rollback

section Property

variable {s t : Disk} {old new : Tree} {file : Path}

def SameBackup : Option Tree → Option Tree → Prop
  | none, none => True
  | some old, some new => ∀ file, Table.get file new = Table.get file old
  | _, _ => False

/-- The files that were there hold what they held, the earlier backup is still there, and restoring
it does what it would have done. -/
structure ChangesNothing (s t : Disk) : Prop where
  sources : ∀ file content, Table.get file s.sources = some content →
    Table.get file t.sources = some content
  backup : SameBackup s.backup t.backup
  result : (restore allWell t).1 = (restore allWell s).1
  restored : ∀ file content, Table.get file (restore allWell s).2.sources = some content →
    Table.get file (restore allWell t).2.sources = some content

theorem backFails_allWell (tree : Tree) : backFails allWell tree = false := by
  have hstopped : stoppedAt allWell tree = none :=
    List.find?_eq_none.mpr fun _ _ => Bool.false_ne_true
  rw [backFails, hstopped]
  rfl

theorem restore_none (h : s.backup = none) : restore allWell s = (.err .noBackup, s) := by
  have hread : (Prog.read : Io Disk) s = (.ok s, s) := rfl
  rw [restore, Prog.bind_of_ok hread, if_pos h]
  rfl

theorem restore_some (h : s.backup = some old) :
    restore allWell s = (.ok (), ⟨afterRollback allWell old s.sources, none⟩) := by
  have hread : (Prog.read : Io Disk) s = (.ok s, s) := rfl
  have hsome : s.backup ≠ none := by rw [h]; exact Option.some_ne_none old
  have hrun := restoreFiles_run (w := allWell) h
  rw [backFails_allWell, if_neg Bool.false_ne_true] at hrun
  rw [restore, Prog.bind_of_ok hread, if_neg hsome, Prog.bind_of_ok hrun]
  rfl

theorem get_restored {w : Failures} {sources : Tree} (h : backFails w old = false) :
    Table.get file (afterRollback w old sources) =
      (Table.get file old).or (Table.get file sources) := by
  obtain ⟨hall, hstopped⟩ := of_backFails h
  rw [get_afterRollback, hall, hstopped]
  by_cases hfile : file ∈ backedUp old
  · obtain ⟨content, hcontent⟩ := Option.ne_none_iff_exists'.mp (mem_backedUp.mp hfile)
    rw [if_pos hfile, hcontent]
    rfl
  · have hnone : Table.get file old = none := by
      by_contra hsome
      exact hfile (mem_backedUp.mpr hsome)
    rw [if_neg hfile, hnone]
    rfl

theorem ChangesNothing.of (hsources : ∀ file content, Table.get file s.sources = some content →
    Table.get file t.sources = some content) (hbackup : SameBackup s.backup t.backup) :
    ChangesNothing s t := by
  have hrestored : (restore allWell t).1 = (restore allWell s).1 ∧ ∀ file content,
      Table.get file (restore allWell s).2.sources = some content →
        Table.get file (restore allWell t).2.sources = some content := by
    cases hs : s.backup with
    | none =>
      cases ht : t.backup with
      | none =>
        rw [restore_none hs, restore_none ht]
        exact ⟨rfl, hsources⟩
      | some new =>
        rw [hs, ht] at hbackup
        exact hbackup.elim
    | some old =>
      cases ht : t.backup with
      | none =>
        rw [hs, ht] at hbackup
        exact hbackup.elim
      | some new =>
        rw [hs, ht] at hbackup
        rw [restore_some hs, restore_some ht]
        refine ⟨rfl, fun file content h => ?_⟩
        rw [get_restored (backFails_allWell _)] at h ⊢
        rw [hbackup file]
        cases hold : Table.get file old with
        | none =>
          rw [hold, Option.none_or] at h
          rw [Option.none_or]
          exact hsources file content h
        | some c =>
          rw [hold] at h
          exact h
  exact ⟨hsources, hbackup, hrestored.1, hrestored.2⟩

theorem ChangesNothing.refl (s : Disk) : ChangesNothing s s := by
  apply ChangesNothing.of fun _ _ h => h
  cases s.backup with
  | none => exact trivial
  | some old => exact fun _ => rfl

end Property

section Condition

def Again (s : Disk) (tree : Tree) : Prop :=
  ∃ old, s.backup = some old ∧ ∀ file, Table.get file tree = Table.get file old

def HeldEmpty (s : Disk) (done : List Step) (file : Path) : Prop :=
  Step.writePlaceholder file ∈ done → ∀ content, Table.get file s.sources = some content →
    content = .utf8 []

/-- A write that fails does no harm when there was no earlier backup and everything is copied back
and the new backup removed. -/
def HarmlessWrite (w : Failures) (s : Disk) (done : List Step) : Prop :=
  let backup := copied s done
  if backFails w backup then
    Again s backup ∧ (∀ file ∈ restored w backup, HeldEmpty s done file) ∧
      ∀ file content, file ∉ restored w backup → Table.get file s.sources = some content →
        Table.get file (w.cutAt (stoppedAt w backup) (written s done)) = some content
  else
    (∀ file, HeldEmpty s done file) ∧
      if w.fails .dropBackup then Again s (w.remains .dropBackup backup) else s.backup = none

def Harmless (w : Failures) (s : Disk) (done : List Step) : Step → Prop
  | .removeBackup => ∀ old, s.backup = some old → ∀ e ∈ old, w.keeps .removeBackup e.1 = true
  | .createBackup => s.backup = none
  | .copyToBackup file => Again s (w.cut (.copyToBackup file) file (copied s done))
  | .noCodename =>
    if w.fails .dropBackup then Again s (w.remains .dropBackup (copied s done))
    else s.backup = none
  | .write _ _ => HarmlessWrite w s done
  | _ => Again s (copied s done)

end Condition

section Steps

variable {w : Failures} {s u : Disk} {done : List Step} {step : Step}

instance : Lives (walkFiles w) := by
  refine ⟨fun s t h => ?_⟩
  rw [walkFiles] at h
  split at h
  · cases h
  · split at h <;> cases h

instance (file : Path) : Lives (copyBack w file) := by
  refine ⟨fun s t h => ?_⟩
  rw [copyBack] at h
  split at h
  · cases h
  · split at h <;> cases h

instance (call : Call) : Lives (removeDirAll w call) := by
  refine ⟨fun s t h => ?_⟩
  rw [removeDirAll] at h
  split at h <;> cases h

instance : Lives (rollback w) := by
  unfold rollback restoreFiles
  infer_instance

def Step.failure (w : Failures) (u : Disk) : Step → Disk
  | removeBackup => { u with backup := u.backup.map (w.remains .removeBackup) }
  | copyToBackup file => { u with backup := u.backup.map (w.cut (.copyToBackup file) file) }
  | noCodename => (removeDirAll w .dropBackup u).2
  | write _ _ => (rollback w u).2
  | _ => u

theorem Step.run_of_fails (h : step.fails w = true) (hpossible : step.Possible u) :
    ∃ e, step.run w u = (.err e, step.failure w u) := by
  cases step with
  | noCodename =>
    have hdrop := Lives.ignore_run (removeDirAll w .dropBackup) u
    exact ⟨.noOfficialSource, Prog.bind_of_ok hdrop⟩
  | listAgain =>
    have hlist : Dnf.managedFiles w .listAgain u = (.err .io, u) := if_pos h
    exact ⟨.io, Prog.bind_of_err hlist⟩
  | copyToBackup file =>
    obtain ⟨content, hfile⟩ := Option.ne_none_iff_exists'.mp hpossible
    refine ⟨.io, ?_⟩
    rw [run, Switch.copyToBackup, hfile]
    exact if_pos h
  | readAgain file =>
    have hread : readToString w (.readAgain file) file u = (.err .io, u) := by
      have hcall : w.fails (.readAgain file) = true := h
      rw [readToString_run, hcall, Bool.not_true, Bool.and_false]
      rfl
    exact ⟨.io, Prog.bind_of_err hread⟩
  | write file content =>
    have hwrite : writeAtomic w file content u = (.err .io, u) := if_pos h
    refine ⟨.io, ?_⟩
    rw [run, writeOrRollback, Prog.bind_of_ok (Prog.attempt_of_err hwrite)]
    exact Prog.bind_of_ok (Lives.ignore_run (rollback w) u)
  | removeBackup | createBackup | createDir | createPlaceholderDir | writePlaceholder file =>
    exact ⟨.io, if_pos h⟩

theorem get_remains {call : Call} {tree : Tree} {file : Path} :
    Table.get file (w.remains call tree) =
      if w.keeps call file then Table.get file tree else none :=
  Table.get_filter _ file tree

theorem same_none_iff {s : Disk} : SameBackup s.backup none ↔ s.backup = none := by
  cases s.backup with
  | none => exact ⟨fun _ => rfl, fun _ => trivial⟩
  | some old => exact ⟨fun h => h.elim, fun h => nomatch h⟩

theorem same_some_iff {s : Disk} {tree : Tree} : SameBackup s.backup (some tree) ↔ Again s tree := by
  rw [Again]
  cases s.backup with
  | none =>
    constructor
    · intro h
      exact h.elim
    · rintro ⟨old, h, -⟩
      cases h
  | some old =>
    constructor
    · intro h
      exact ⟨old, rfl, h⟩
    · rintro ⟨_, ⟨⟩, h⟩
      exact h

theorem changesNothing_iff (s : Disk) (backup : Option Tree) :
    ChangesNothing s ⟨s.sources, backup⟩ ↔ SameBackup s.backup backup := by
  constructor
  · intro hnothing
    exact hnothing.backup
  · exact ChangesNothing.of (t := ⟨s.sources, backup⟩) fun _ _ hfile => hfile

theorem copied_fresh (done : List Step) : copied s (freshBackup s ++ done) = copied s done := by
  rw [copied, List.foldl_append, freshBackup]
  split <;> rfl

theorem written_fresh (done : List Step) : written s (freshBackup s ++ done) = written s done := by
  rw [written, List.foldl_append, freshBackup]
  split <;> rfl

theorem failure_fresh_iff {rest : List Step} (h : freshBackup s = done ++ step :: rest) :
    ChangesNothing s (step.failure w (done.foldl Step.effect s)) ↔ Harmless w s done step := by
  have hremove : ChangesNothing s (Step.failure w s .removeBackup) ↔
      Harmless w s [] .removeBackup := by
    apply (changesNothing_iff s (s.backup.map (w.remains .removeBackup))).trans
    rw [Harmless]
    cases hbackup : s.backup with
    | none => exact ⟨fun _ _ h => (nomatch h), fun _ => trivial⟩
    | some old =>
      have hsame : SameBackup (some old) ((some old).map (w.remains .removeBackup)) ↔
          ∀ file, Table.get file (w.remains .removeBackup old) = Table.get file old := Iff.rfl
      rw [hsame]
      constructor
      · rintro h _ ⟨⟩ e he
        have hfile := h e.1
        rw [get_remains] at hfile
        by_contra hgone
        rw [if_neg hgone] at hfile
        exact mem_keys_iff.mp (List.mem_map_of_mem he) hfile.symm
      · intro h file
        rw [get_remains]
        split
        · rfl
        case isFalse hgone =>
          by_contra hsome
          obtain ⟨e, he, rfl⟩ := List.mem_map.mp (mem_keys_iff.mpr (Ne.symm hsome))
          exact hgone (h old rfl e he)
  rw [freshBackup] at h
  cases hbackup : s.backup with
  | none =>
    have hlist : [.createBackup] = done ++ step :: rest := by rwa [hbackup] at h
    rcases done with - | ⟨earlier, done⟩
    · obtain ⟨rfl, -⟩ := List.cons.inj hlist
      exact ⟨fun _ => hbackup, fun _ => ChangesNothing.refl s⟩
    · simp at hlist
  | some old =>
    have hlist : [.removeBackup, .createBackup] = done ++ step :: rest := by rwa [hbackup] at h
    rcases done with - | ⟨earlier, - | ⟨next, done⟩⟩
    · obtain ⟨rfl, -⟩ := List.cons.inj hlist
      exact hremove
    · simp only [List.cons_append, List.nil_append, List.cons.injEq] at hlist
      obtain ⟨rfl, rfl, -⟩ := hlist
      exact (changesNothing_iff s none).trans same_none_iff
    · simp at hlist

theorem failure_middle_iff (hmiddle : ∀ step ∈ done, step.isMiddle = true)
    (hstep : step.isMiddle = true) :
    ChangesNothing s (step.failure w ((freshBackup s ++ done).foldl Step.effect s)) ↔
      Harmless w s (freshBackup s ++ done) step := by
  have hstate : (freshBackup s ++ done).foldl Step.effect s = ⟨s.sources, some (copied s done)⟩ := by
    have heffects := effects_eq (s := s) [] hmiddle
    rw [writeSteps, List.map_nil, List.append_nil] at heffects
    exact heffects
  rw [hstate]
  cases step with
  | removeBackup | createBackup | write file content => cases hstep
  | noCodename =>
    rw [Harmless, copied_fresh]
    have hfailure : Step.failure w ⟨s.sources, some (copied s done)⟩ .noCodename =
        ⟨s.sources, if w.fails .dropBackup then some (w.remains .dropBackup (copied s done))
          else none⟩ := by
      rw [Step.failure, removeDirAll]
      split <;> rfl
    rw [hfailure]
    apply (changesNothing_iff s _).trans
    split
    · exact same_some_iff
    · exact same_none_iff
  | copyToBackup file =>
    rw [Harmless, copied_fresh]
    exact (changesNothing_iff s _).trans same_some_iff
  | listAgain | readAgain file | createDir | createPlaceholderDir | writePlaceholder file =>
    rw [Harmless, copied_fresh]
    · exact (changesNothing_iff s _).trans same_some_iff
    all_goals simp

end Steps

section Writes

variable {w : Failures} {s : Disk} {middle : List Step} {before rewrites : List (Path × Text)}
  {file : Path}

theorem copied_writes (s : Disk) (middle : List Step) (before : List (Path × Text)) :
    copied s (freshBackup s ++ (middle ++ writeSteps before)) = copied s middle := by
  rw [copied_fresh, copied, List.foldl_append, copies_writes]
  rfl

theorem written_writes (hmiddle : ∀ step ∈ middle, step.isMiddle = true) :
    written s (freshBackup s ++ (middle ++ writeSteps before)) = written s (writeSteps before) := by
  rw [written_fresh, written, List.foldl_append, writes_middle hmiddle]
  rfl

theorem placeholder_mem_iff : Step.writePlaceholder file ∈
    freshBackup s ++ (middle ++ writeSteps before) ↔ Step.writePlaceholder file ∈ middle := by
  have hfresh : Step.writePlaceholder file ∉ freshBackup s := by
    rw [freshBackup]
    split <;> simp
  have hwrites : Step.writePlaceholder file ∉ writeSteps before := by
    rw [writeSteps]
    simp
  rw [List.mem_append, List.mem_append, or_iff_right hfresh, or_iff_left hwrites]

theorem heldEmpty_iff (hplan : Planned s middle rewrites)
    (hfile : Table.get file (copied s middle) ≠ none) :
    HeldEmpty s (freshBackup s ++ (middle ++ writeSteps before)) file ↔
      ∀ content, Table.get file s.sources = some content →
        Table.get file (copied s middle) = some content := by
  have hget := get_copied file hplan.copies fun step hstep =>
    (hplan.possible step hstep).2
  rw [HeldEmpty, placeholder_mem_iff]
  by_cases hheld : Step.writePlaceholder file ∈ middle
  · rw [if_pos hheld] at hget
    rw [hget]
    constructor
    · intro h content hcontent
      rw [h hheld content hcontent]
    · intro h _ content hcontent
      exact (Option.some.inj (h content hcontent)).symm
  · rw [if_neg hheld] at hget
    constructor
    · intro _ content hcontent
      split at hget
      · rw [hget, hcontent]
      · exact absurd hget hfile
    · intro _ h
      exact absurd h hheld

theorem get_written_of_not_backedUp (hplan : Planned s middle rewrites)
    (hbefore : ∀ e ∈ before, e ∈ rewrites) (hfile : file ∉ backedUp (copied s middle)) :
    Table.get file (written s (writeSteps before)) = Table.get file s.sources := by
  apply get_written
  intro content hmem
  obtain ⟨e, he, hwrite⟩ := List.mem_map.mp hmem
  have hname : e.1 = file := (Step.write.inj hwrite).1
  have hget := get_copied file hplan.copies fun step hstep =>
    (hplan.possible step hstep).2
  rw [mem_backedUp, not_not, hget] at hfile
  rcases hplan.saved e (hbefore e he) with hcopy | hheld
  · rw [hname] at hcopy
    rw [if_pos hcopy] at hfile
    split at hfile
    · cases hfile
    · exact (hplan.possible _ hcopy).2 hfile
  · rw [hname] at hheld
    rw [if_pos hheld] at hfile
    cases hfile

theorem changesNothing_iff_and {t : Disk} : ChangesNothing s t ↔
    (∀ file content, Table.get file s.sources = some content →
      Table.get file t.sources = some content) ∧ SameBackup s.backup t.backup :=
  ⟨fun h => ⟨h.sources, h.backup⟩, fun h => .of h.1 h.2⟩

theorem failure_write_iff (hplan : Planned s middle rewrites)
    (hbefore : ∀ e ∈ before, e ∈ rewrites) {content : Text} :
    ChangesNothing s (Step.failure w
      ((freshBackup s ++ (middle ++ writeSteps before)).foldl Step.effect s)
        (.write file content)) ↔
      Harmless w s (freshBackup s ++ (middle ++ writeSteps before)) (.write file content) := by
  have hmiddle : ∀ step ∈ middle, step.isMiddle = true :=
    fun step hstep => (hplan.possible step hstep).1
  have hrollback := rollback_run (w := w)
    (u := ⟨written s (writeSteps before), some (copied s middle)⟩) rfl
  rw [effects_eq _ hmiddle, Step.failure, hrollback, changesNothing_iff_and, Harmless, HarmlessWrite,
    copied_writes, written_writes hmiddle]
  dsimp only
  have hsources : (∀ p c, Table.get p s.sources = some c →
      Table.get p (afterRollback w (copied s middle) (written s (writeSteps before))) = some c) ↔
      (∀ p ∈ restored w (copied s middle),
        HeldEmpty s (freshBackup s ++ (middle ++ writeSteps before)) p) ∧
      ∀ p c, p ∉ restored w (copied s middle) → Table.get p s.sources = some c →
        Table.get p (w.cutAt (stoppedAt w (copied s middle)) (written s (writeSteps before))) =
          some c := by
    constructor
    · intro h
      constructor
      · intro p hp
        apply (heldEmpty_iff hplan (mem_backedUp.mp (mem_restored hp))).mpr
        intro c hc
        have hback := h p c hc
        rwa [get_afterRollback, if_pos hp] at hback
      · intro p c hp hc
        have hback := h p c hc
        rwa [get_afterRollback, if_neg hp] at hback
    · rintro ⟨hheld, hleft⟩ p c hc
      rw [get_afterRollback]
      split
      case isTrue hp =>
        exact (heldEmpty_iff hplan (mem_backedUp.mp (mem_restored hp))).mp (hheld p hp) c hc
      case isFalse hp => exact hleft p c hp hc
  rw [hsources]
  cases hfails : backFails w (copied s middle) with
  | true =>
    rw [if_pos rfl, if_pos rfl, same_some_iff]
    exact and_comm
  | false =>
    rw [if_neg Bool.false_ne_true, if_neg Bool.false_ne_true]
    obtain ⟨hall, hstopped⟩ := of_backFails hfails
    rw [hall, hstopped]
    have hheld : ((∀ p ∈ backedUp (copied s middle),
        HeldEmpty s (freshBackup s ++ (middle ++ writeSteps before)) p) ∧
          ∀ p c, p ∉ backedUp (copied s middle) → Table.get p s.sources = some c →
            Table.get p (written s (writeSteps before)) = some c) ↔
        ∀ p, HeldEmpty s (freshBackup s ++ (middle ++ writeSteps before)) p := by
      constructor
      · rintro ⟨h, -⟩ p hp
        refine h p ?_ hp
        rw [mem_backedUp, get_copied _ hplan.copies fun step hstep => (hplan.possible step hstep).2,
          if_pos (placeholder_mem_iff.mp hp)]
        exact Option.some_ne_none _
      · intro h
        refine ⟨fun p _ => h p, fun p c hp hc => ?_⟩
        rw [get_written_of_not_backedUp hplan hbefore hp, hc]
    apply and_congr hheld
    split
    · exact same_some_iff
    · exact same_none_iff

end Writes

section Main

variable {w : Failures} {s : Disk} {steps done rest : List Step} {step : Step}

theorem failure_iff (hplan : IsPlan s steps) (hsteps : steps = done ++ step :: rest) :
    ChangesNothing s (step.failure w (done.foldl Step.effect s)) ↔ Harmless w s done step := by
  obtain ⟨middle, rewrites, rfl, hplan⟩ := hplan
  obtain ⟨more, hfresh⟩ | ⟨later, rfl, hlater⟩ := stages hsteps
  · exact failure_fresh_iff hfresh
  · obtain ⟨more, hmiddle⟩ | ⟨writes, rfl, hwrites⟩ := stages hlater
    · have hmem (other : Step) (h : other ∈ later ++ step :: more) : other.isMiddle = true := by
        rw [← hmiddle] at h
        exact (hplan.possible other h).1
      apply failure_middle_iff
      · exact fun other h => hmem other (List.mem_append_left _ h)
      · exact hmem step (List.mem_append_right _ (List.mem_cons_self ..))
    · rw [writeSteps] at hwrites
      obtain ⟨before, after, hrewrites, rfl, hafter⟩ := List.map_eq_append_iff.mp hwrites
      obtain ⟨e, others, rfl, rfl, -⟩ := List.map_eq_cons_iff.mp hafter
      apply failure_write_iff hplan
      intro e' he'
      rw [hrewrites]
      exact List.mem_append_left _ he'

theorem IsPlan.ready (h : IsPlan s steps) : Ready s steps := by
  obtain ⟨middle, rewrites, rfl, hplan⟩ := h
  exact hplan.ready

theorem execute_of_fails (hready : Ready s (done ++ step :: rest))
    (hdone : ∀ earlier ∈ done, earlier.fails w = false) (hfails : step.fails w = true) :
    ∃ e, execute w (done ++ step :: rest) s =
      (.err e, step.failure w (done.foldl Step.effect s)) := by
  obtain ⟨hready, hpossible, -⟩ := ready_append.mp hready
  obtain ⟨e, hrun⟩ := Step.run_of_fails hfails hpossible
  refine ⟨e, ?_⟩
  rw [execute_append, Prog.bind_of_ok (execute_of_ok hready hdone), execute, Prog.forEach]
  exact Prog.bind_of_err hrun

theorem forget_eq_err {α : Type} {p : Io α} {e : MirrorError} {t : Disk} :
    p.forget s = (.err e, t) ↔ p s = (.err e, t) := by
  constructor
  · intro h
    rcases Prog.bind_eq_err h with h | ⟨a, u, -, h⟩
    · exact h
    · cases h
  · exact Prog.bind_of_err

theorem exists_first (h : ¬ ∀ step ∈ steps, step.fails w = false) :
    ∃ done step rest, steps = done ++ step :: rest ∧
      (∀ earlier ∈ done, earlier.fails w = false) ∧ step.fails w = true := by
  cases hfind : steps.find? (Step.fails w) with
  | none =>
    rw [List.find?_eq_none] at hfind
    exact absurd (fun step hstep => Bool.eq_false_of_not_eq_true (hfind step hstep)) h
  | some step =>
    obtain ⟨hfails, done, rest, hsteps, hdone⟩ := List.find?_eq_some_iff_append.mp hfind
    refine ⟨done, step, rest, hsteps, fun earlier hearlier => ?_, hfails⟩
    rw [← Bool.not_eq_true']
    exact hdone earlier hearlier

/-- A switch that fails changes nothing exactly when the first of its steps that fails is one that
does no harm. -/
theorem apply_changesNothing_iff (w : Failures) (m : Machine) (host : Host) (r : Request)
    (s : Disk) :
    (∀ e t, apply w m host r s = (.err e, t) → ChangesNothing s t) ↔
      ∀ done step rest, Switch.steps w m host r s = done ++ step :: rest →
        (∀ earlier ∈ done, earlier.fails w = false) → step.fails w = true →
          Harmless w s done step := by
  have hfollows := follows w m host r s
  have hplan := steps_isPlan w m host r s
  constructor
  · intro h done step rest hsteps hdone hfails
    have hplan := hplan.resolve_left fun hnil => by
      rw [hnil] at hsteps
      exact absurd hsteps.symm (List.append_ne_nil_of_right_ne_nil _ (List.cons_ne_nil _ _))
    have hready := hplan.ready
    rw [hsteps] at hready
    obtain ⟨e, hrun⟩ := execute_of_fails hready hdone hfails
    apply (failure_iff hplan hsteps).mp
    apply h e
    rcases hfollows with hsame | ⟨hnil, -⟩
    · apply forget_eq_err.mp
      rw [hsame, hsteps, hrun]
    · rw [hnil] at hsteps
      exact absurd hsteps.symm (List.append_ne_nil_of_right_ne_nil _ (List.cons_ne_nil _ _))
  · intro h e t ht
    rcases hfollows with hsame | ⟨-, hsame⟩
    · rw [forget_eq_err.mpr ht] at hsame
      have hready : Ready s (Switch.steps w m host r s) := by
        rcases hplan with hnil | hplan
        · rw [hnil]
          exact trivial
        · exact hplan.ready
      by_cases hall : ∀ step ∈ Switch.steps w m host r s, step.fails w = false
      · rw [execute_of_ok hready hall] at hsame
        cases hsame
      · obtain ⟨done, step, rest, hsteps, hdone, hfails⟩ := exists_first hall
        have hharmless := h done step rest hsteps hdone hfails
        rw [hsteps] at hready hsame hplan
        have hplan := hplan.resolve_left
          (List.append_ne_nil_of_right_ne_nil _ (List.cons_ne_nil _ _))
        obtain ⟨e', hrun⟩ := execute_of_fails hready hdone hfails
        rw [hrun] at hsame
        obtain ⟨-, rfl⟩ := Prod.mk.inj hsame
        exact (failure_iff hplan rfl).mpr hharmless
    · rw [ht] at hsame
      obtain rfl : t = s := hsame
      exact ChangesNothing.refl t

def plainMachine : Machine := ⟨"x86_64".toList, fun _ => none⟩

def noWrites : Failures where
  fails
    | .writeAtomic _ => true
    | _ => false
  keeps _ _ := false
  leaves _ := none

def archServer : Disk := ⟨[(Pacman.mirrorlist, .utf8 "Server = https://a.org\n".toList)], none⟩

def localDebian : Disk := ⟨[(Apt.mirrorList, .utf8 "deb http://a.org/debian stable main\n".toList)], none⟩

/-- After a switch that went well, one that fails takes the backup away, and the first list can not be
restored. Where the entries of an apt system are in `lkit-mirror.list`, a switch that fails empties
that file. -/
theorem not_apply_changesNothing :
    (let earlier := (apply allWell plainMachine ⟨.arch, none⟩ ⟨.tuna, false, true⟩ archServer).2
      ∃ e t, apply noWrites plainMachine ⟨.arch, none⟩ ⟨.ustc, false, true⟩ earlier = (.err e, t) ∧
        ¬ ChangesNothing earlier t ∧ (restore allWell earlier).2.sources = archServer.sources ∧
        restore allWell t = (.err .noBackup, t)) ∧
    ∃ e t, apply noWrites plainMachine ⟨.debian, some "trixie".toList⟩ ⟨.tuna, false, true⟩
        localDebian = (.err e, t) ∧
      ¬ ChangesNothing localDebian t ∧ t.sources = [(Apt.mirrorList, .utf8 [])] := by
  constructor
  · have hrun : apply noWrites plainMachine ⟨.arch, none⟩ ⟨.ustc, false, true⟩
        (apply allWell plainMachine ⟨.arch, none⟩ ⟨.tuna, false, true⟩ archServer).2 =
        (.err .io, ⟨[(Pacman.mirrorlist, .utf8 (Pacman.mirrorlistContent .tuna))], none⟩) := by
      decide +kernel
    refine ⟨_, _, hrun, fun h => ?_, by decide +kernel, by decide +kernel⟩
    exact absurd (same_none_iff.mp h.backup) (by decide +kernel)
  · have hrun : apply noWrites plainMachine ⟨.debian, some "trixie".toList⟩ ⟨.tuna, false, true⟩
        localDebian = (.err .io, ⟨[(Apt.mirrorList, .utf8 [])], none⟩) := by
      decide +kernel
    refine ⟨_, _, hrun, fun h => ?_, rfl⟩
    have hfile := h.sources Apt.mirrorList _ rfl
    exact absurd hfile (by decide +kernel)

end Main

end LandscapeKit.Mirror.Switch
