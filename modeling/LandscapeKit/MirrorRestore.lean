import Mathlib.Logic.Relation
import LandscapeKit.MirrorFailure

/-!
Switch after switch, and then `restore`. The backup is made for the last switch that wrote
anything, so it brings back what that one found, as long as no switch writes what is already there.
-/

namespace LandscapeKit.Mirror.Switch

open Faults (Prog Outcome)

/-- A disk with what it was before the last switch that changed a file, and the last request. A
switch to where the files have just been switched is no change. -/
structure Traced where
  disk : Disk
  before : Option Disk
  last : Option Request

def Changed (s t : Disk) : Prop := ∃ file, Table.get file t.sources ≠ Table.get file s.sources

inductive Switches (m : Machine) (host : Host) (w : Failures) (r : Request) :
    Traced → Traced → Prop
  | change {x : Traced} {t : Disk} {report : ApplyReport}
      (ok : apply w m host r x.disk = (.ok report, t)) (changed : Changed x.disk t)
      (new : x.last ≠ some r) : Switches m host w r x ⟨t, some x.disk, some r⟩
  | same {x : Traced} {t : Disk} {report : ApplyReport}
      (ok : apply w m host r x.disk = (.ok report, t))
      (same : ¬ Changed x.disk t ∨ x.last = some r) : Switches m host w r x ⟨t, x.before, some r⟩

/-- The switch has nothing to do, or it holds no place in the backup for a file that is there and,
once something has been changed, is not a repetition and writes something that is not there
already. -/
def Sensible (m : Machine) (host : Host) (w : Failures) (r : Request) (x : Traced) : Prop :=
  let steps := steps w m host r x.disk
  steps = [] ∨ (∀ file, HeldEmpty x.disk steps file) ∧
    (x.before ≠ none → x.last ≠ some r ∧ ∃ file content, Step.write file content ∈ steps ∧
      Table.get file x.disk.sources ≠ some (.utf8 content))

def SensibleRun (m : Machine) (host : Host) : Traced → Traced → Prop :=
  Relation.ReflTransGen fun x y => ∃ w r, Switches m host w r x y ∧ Sensible m host w r x

structure Undone (b t : Disk) : Prop where
  ok : (restore allWell t).1 = .ok ()
  kept : ∀ w u, restore w t = (.ok (), u) → ∀ file content,
    Table.get file b.sources = some content → Table.get file u.sources = some content
  created : ∀ w u, restore w t = (.ok (), u) → ∀ file, Table.get file b.sources = none →
    Table.get file u.sources = none ∨ Table.get file u.sources = some (.utf8 [])

section Runs

variable {m : Machine} {host : Host} {w : Failures} {r : Request} {s t b : Disk} {x y : Traced}

theorem apply_ok {report : ApplyReport} (h : apply w m host r s = (.ok report, t)) :
    steps w m host r s = [] ∧ t = s ∨
      IsPlan s (steps w m host r s) ∧ t = (steps w m host r s).foldl Step.effect s := by
  have hplan := steps_isPlan w m host r s
  rcases follows w m host r s with hsame | ⟨hnil, hsame⟩
  · have hforget : Io.forget (apply w m host r) s = (.ok (), t) := Prog.bind_of_ok h
    rw [hforget] at hsame
    rcases hplan with hnil | hplan
    · rw [hnil] at hsame
      exact .inl ⟨hnil, (Prod.mk.inj hsame).2⟩
    · refine .inr ⟨hplan, ?_⟩
      have hready := hplan.ready
      by_cases hall : ∀ step ∈ steps w m host r s, step.fails w = false
      · rw [execute_of_ok hready hall] at hsame
        exact (Prod.mk.inj hsame).2
      · obtain ⟨done, step, rest, hsteps, hdone, hfails⟩ := exists_first hall
        rw [hsteps] at hready hsame
        obtain ⟨e, hrun⟩ := execute_of_fails hready hdone hfails
        rw [hrun] at hsame
        cases hsame
  · rw [h] at hsame
    exact .inl ⟨hnil, hsame⟩

def Covers (b t : Disk) : Prop := ∃ tree, t.backup = some tree ∧ ∀ file,
  let found := (Table.get file tree).or (Table.get file t.sources)
  (∀ content, Table.get file b.sources = some content → found = some content) ∧
    (Table.get file b.sources = none → found = none ∨ found = some (.utf8 []))

theorem Covers.undone (h : Covers b t) : Undone b t := by
  obtain ⟨tree, htree, hfound⟩ := h
  have hread : (Prog.read : Io Disk) t = (.ok t, t) := rfl
  have hsome : t.backup ≠ none := by
    rw [htree]
    exact Option.some_ne_none tree
  have hrestored {w : Failures} {u : Disk} (hrun : restore w t = (.ok (), u)) (file : Path) :
      Table.get file u.sources = (Table.get file tree).or (Table.get file t.sources) := by
    have hback := restoreFiles_run (w := w) htree
    rw [restore, Prog.bind_of_ok hread, if_neg hsome] at hrun
    cases hfails : backFails w tree with
    | true =>
      rw [hfails, if_pos rfl] at hback
      rw [Prog.bind_of_err hback] at hrun
      cases hrun
    | false =>
      rw [hfails, if_neg Bool.false_ne_true] at hback
      rw [Prog.bind_of_ok hback, removeDirAll] at hrun
      split at hrun
      · cases hrun
      · cases hrun
        exact get_restored hfails
  refine ⟨by rw [restore_some htree], ?_, ?_⟩
  · intro w u hrun file content hcontent
    rw [hrestored hrun]
    exact (hfound file).1 content hcontent
  · intro w u hrun file hnone
    rw [hrestored hrun]
    exact (hfound file).2 hnone

theorem covers_of_plan (hplan : IsPlan s (steps w m host r s))
    (hheld : ∀ file, HeldEmpty s (steps w m host r s) file) :
    Covers s ((steps w m host r s).foldl Step.effect s) := by
  obtain ⟨middle, rewrites, hsteps, hplan⟩ := hplan
  have hpossible : ∀ step ∈ middle, step.Possible s :=
    fun step hstep => (hplan.possible step hstep).2
  rw [hsteps] at hheld ⊢
  rw [effects_eq _ fun step hstep => (hplan.possible step hstep).1]
  refine ⟨copied s middle, rfl, fun file => ?_⟩
  have hget := get_copied file hplan.copies hpossible
  by_cases hplace : Step.writePlaceholder file ∈ middle
  · rw [if_pos hplace] at hget
    rw [hget]
    refine ⟨fun content hcontent => ?_, fun _ => .inr rfl⟩
    rw [hheld file (placeholder_mem_iff.mpr hplace) content hcontent]
    rfl
  · rw [if_neg hplace] at hget
    by_cases hcopy : Step.copyToBackup file ∈ middle
    · obtain ⟨c, hc⟩ := Option.ne_none_iff_exists'.mp (hpossible _ hcopy)
      rw [if_pos hcopy] at hget
      rw [hget, hc]
      exact ⟨fun content hcontent => hcontent, fun hnone => nomatch hnone⟩
    · rw [if_neg hcopy] at hget
      have hfile : file ∉ backedUp (copied s middle) := by
        rw [mem_backedUp, hget]
        exact fun h => h rfl
      have hwritten := get_written_of_not_backedUp hplan (fun e he => he) hfile
      rw [hget, Option.none_or, hwritten]
      exact ⟨fun content hcontent => hcontent, fun hnone => .inl hnone⟩

theorem get_written_of_mem (sources : Tree) {rewrites : List (Path × Text)} {file : Path}
    {content : Text} (hsame : ∀ e ∈ rewrites, ∀ e' ∈ rewrites, e.1 = e'.1 → e.2 = e'.2)
    (hmem : (file, content) ∈ rewrites) :
    Table.get file ((writeSteps rewrites).foldl Step.writes sources) = some (.utf8 content) := by
  induction rewrites generalizing sources with
  | nil => cases hmem
  | cons e rewrites ih =>
    rw [writeSteps, List.map_cons, List.foldl_cons]
    by_cases hlater : ∃ c, (file, c) ∈ rewrites
    · obtain ⟨c, hc⟩ := hlater
      have hcontent : c = content :=
        hsame (file, c) (List.mem_cons_of_mem _ hc) (file, content) hmem rfl
      rw [hcontent] at hc
      exact ih _ (fun e he e' he' =>
        hsame e (List.mem_cons_of_mem _ he) e' (List.mem_cons_of_mem _ he')) hc
    · have hthis : (file, content) = e :=
        (List.mem_cons.mp hmem).resolve_right fun h => hlater ⟨content, h⟩
      rw [get_written, ← hthis, Step.writes, Table.get_set, if_pos rfl]
      intro c hc
      obtain ⟨e', he', heq⟩ := List.mem_map.mp hc
      obtain ⟨hfile, -⟩ := Step.write.inj heq
      exact hlater ⟨e'.2, hfile ▸ he'⟩

theorem changed_of_plan (hplan : IsPlan s (steps w m host r s)) {file : Path} {content : Text}
    (hwrite : Step.write file content ∈ steps w m host r s)
    (hnew : Table.get file s.sources ≠ some (.utf8 content)) :
    Changed s ((steps w m host r s).foldl Step.effect s) := by
  obtain ⟨middle, rewrites, hsteps, hplan⟩ := hplan
  rw [hsteps] at hwrite ⊢
  rw [effects_eq _ fun step hstep => (hplan.possible step hstep).1]
  have hmem : (file, content) ∈ rewrites := by
    rcases List.mem_append.mp hwrite with hfresh | hlater
    · rw [freshBackup] at hfresh
      split at hfresh <;> simp at hfresh
    · rcases List.mem_append.mp hlater with hmiddle | hwrites
      · exact (Bool.false_ne_true (hplan.possible _ hmiddle).1).elim
      · obtain ⟨e, he, heq⟩ := List.mem_map.mp hwrites
        obtain ⟨hfile, hcontent⟩ := Step.write.inj heq
        rwa [← hfile, ← hcontent]
  refine ⟨file, ?_⟩
  have hget := get_written_of_mem s.sources hplan.same hmem
  rw [written, hget]
  exact hnew.symm

theorem covers_step (h : ∀ b, x.before = some b → Covers b x.disk)
    (hswitch : Switches m host w r x y) (hsensible : Sensible m host w r x) :
    ∀ b, y.before = some b → Covers b y.disk := by
  by_cases hnil : steps w m host r x.disk = []
  · have hstays {t : Disk} {report : ApplyReport}
        (hok : apply w m host r x.disk = (.ok report, t)) : t = x.disk := by
      rcases apply_ok hok with ⟨-, hsame⟩ | ⟨-, hsame⟩
      · exact hsame
      · rw [hsame, hnil]
        rfl
    cases hswitch with
    | change hok hchanged _ =>
      obtain ⟨file, hfile⟩ := hchanged
      rw [hstays hok] at hfile
      exact absurd rfl hfile
    | same hok _ =>
      rw [hstays hok]
      exact h
  · obtain ⟨hheld, hnew⟩ := hsensible.resolve_left hnil
    cases hswitch with
    | change hok _ _ =>
      obtain ⟨hplan, rfl⟩ := (apply_ok hok).resolve_left fun h => hnil h.1
      rintro b ⟨⟩
      exact covers_of_plan hplan hheld
    | same hok hsame =>
      obtain ⟨hplan, rfl⟩ := (apply_ok hok).resolve_left fun h => hnil h.1
      intro b hb
      -- something was changed before, so this switch would be a change as well
      have hsome : x.before ≠ none := by
        intro hnone
        rw [hnone] at hb
        cases hb
      obtain ⟨hlast, file, content, hwrite, hcontent⟩ := hnew hsome
      rcases hsame with hunchanged | hrepeated
      · exact absurd (changed_of_plan hplan hwrite hcontent) hunchanged
      · exact absurd hrepeated hlast

theorem covers_run (h : SensibleRun m host ⟨s, none, none⟩ y) :
    ∀ b, y.before = some b → Covers b y.disk := by
  induction h with
  | refl => nofun
  | tail _ hstep ih =>
    obtain ⟨w, r, hswitch, hsensible⟩ := hstep
    exact covers_step ih hswitch hsensible

/-- After any run of such switches, `restore` undoes the last change. -/
theorem restore_undoes (h : SensibleRun m host ⟨s, none, none⟩ y) (hbefore : y.before = some b) :
    Undone b y.disk := (covers_run h b hbefore).undone

end Runs

section Examples

def archHost : Host := ⟨.arch, none⟩

def toTuna : Request := ⟨.tuna, false, true⟩

def toUstc : Request := ⟨.ustc, false, true⟩

def archOn (mirror : MirrorName) (before : Text) : Disk :=
  ⟨[(Pacman.mirrorlist, .utf8 (Pacman.mirrorlistContent mirror))],
    some [(Pacman.mirrorlist, .utf8 before)]⟩

theorem archServer_toTuna : Switches plainMachine archHost allWell toTuna ⟨archServer, none, none⟩
    ⟨archOn .tuna "Server = https://a.org\n".toList, some archServer, some toTuna⟩ := by
  have hok : apply allWell plainMachine archHost toTuna archServer =
      (.ok { changedFiles := 1, backupPath := some (backupDir .arch) },
        archOn .tuna "Server = https://a.org\n".toList) := by
    decide +kernel
  apply Switches.change hok
  · exact ⟨Pacman.mirrorlist, by decide +kernel⟩
  · exact (Option.some_ne_none _).symm

theorem sensible_arch {mirror : MirrorName} {x : Traced}
    (hthere : Table.get Pacman.mirrorlist x.disk.sources ≠ none)
    (hother : Table.get Pacman.mirrorlist x.disk.sources ≠
      some (.utf8 (Pacman.mirrorlistContent mirror)))
    (hnew : x.last ≠ some ⟨mirror, false, true⟩) :
    Sensible plainMachine archHost allWell ⟨mirror, false, true⟩ x := by
  have hsteps : steps allWell plainMachine archHost ⟨mirror, false, true⟩ x.disk =
      freshBackup x.disk ++ ([.copyToBackup Pacman.mirrorlist] ++
        writeSteps [(Pacman.mirrorlist, Pacman.mirrorlistContent mirror)]) := by
    apply (if_neg hthere).trans
    rw [backupSteps, List.append_assoc]
    rfl
  refine .inr ⟨fun file hheld => ?_, fun _ => ⟨hnew, _, _, ?_, hother⟩⟩
  · rw [hsteps, placeholder_mem_iff] at hheld
    simp at hheld
  · rw [hsteps]
    simp [writeSteps]

/-- Tuna and then ustc: the list for tuna comes back. -/
theorem restore_undoes_ustc : Undone (archOn .tuna "Server = https://a.org\n".toList)
    (archOn .ustc (Pacman.mirrorlistContent .tuna)) := by
  have hok : apply allWell plainMachine archHost toUstc
      (archOn .tuna "Server = https://a.org\n".toList) =
      (.ok { changedFiles := 1, backupPath := some (backupDir .arch) },
        archOn .ustc (Pacman.mirrorlistContent .tuna)) := by
    decide +kernel
  have hswitch : Switches plainMachine archHost allWell toUstc
      ⟨archOn .tuna "Server = https://a.org\n".toList, some archServer, some toTuna⟩
      ⟨archOn .ustc (Pacman.mirrorlistContent .tuna),
        some (archOn .tuna "Server = https://a.org\n".toList), some toUstc⟩ := by
    apply Switches.change hok
    · exact ⟨Pacman.mirrorlist, by decide +kernel⟩
    · simp [toTuna, toUstc]
  have hfirst : Sensible plainMachine archHost allWell toTuna ⟨archServer, none, none⟩ :=
    sensible_arch (by decide +kernel) (by decide +kernel) (Option.some_ne_none _).symm
  have hsecond : Sensible plainMachine archHost allWell toUstc
      ⟨archOn .tuna "Server = https://a.org\n".toList, some archServer, some toTuna⟩ :=
    sensible_arch (by decide +kernel) (by decide +kernel) (by simp [toTuna])
  have hrun : SensibleRun plainMachine archHost ⟨archServer, none, none⟩
      ⟨archOn .ustc (Pacman.mirrorlistContent .tuna),
        some (archOn .tuna "Server = https://a.org\n".toList), some toUstc⟩ :=
    .tail (.single ⟨allWell, toTuna, archServer_toTuna, hfirst⟩)
      ⟨allWell, toUstc, hswitch, hsecond⟩
  exact restore_undoes hrun rfl

/-- Tuna twice: the list that was there at first does not come back. With the entries of an apt
system in `lkit-mirror.list`, they do not come back after one switch. -/
theorem not_restore_undoes :
    (∃ y z, Switches plainMachine archHost allWell toTuna ⟨archServer, none, none⟩ y ∧
      Switches plainMachine archHost allWell toTuna y z ∧ z.before = some archServer ∧
      ¬ Undone archServer z.disk) ∧
    ∃ y, Switches plainMachine ⟨.debian, some "trixie".toList⟩ allWell toTuna
        ⟨localDebian, none, none⟩ y ∧ y.before = some localDebian ∧
      ¬ Undone localDebian y.disk := by
  constructor
  · have hok : apply allWell plainMachine archHost toTuna
        (archOn .tuna "Server = https://a.org\n".toList) =
        (.ok { changedFiles := 1, backupPath := some (backupDir .arch) },
          archOn .tuna (Pacman.mirrorlistContent .tuna)) := by
      decide +kernel
    refine ⟨_, _, archServer_toTuna, .same hok (.inr rfl), rfl, fun hundone => ?_⟩
    have hrestore : restore allWell (archOn .tuna (Pacman.mirrorlistContent .tuna)) =
        (.ok (), ⟨[(Pacman.mirrorlist, .utf8 (Pacman.mirrorlistContent .tuna))], none⟩) := by
      decide +kernel
    have hkept := hundone.kept allWell _ hrestore Pacman.mirrorlist _ rfl
    exact absurd hkept (by decide +kernel)
  · have hok : apply allWell plainMachine ⟨.debian, some "trixie".toList⟩ toTuna localDebian =
        (.ok { changedFiles := 1, fallback := some .sourceAdded,
               backupPath := some (backupDir .debian) },
          (apply allWell plainMachine ⟨.debian, some "trixie".toList⟩ toTuna localDebian).2) :=
      Prod.ext (by decide +kernel) rfl
    refine ⟨_, .change hok ⟨Apt.mirrorList, by decide +kernel⟩ (Option.some_ne_none _).symm, rfl,
      fun hundone => ?_⟩
    have hrestore : restore allWell
        (apply allWell plainMachine ⟨.debian, some "trixie".toList⟩ toTuna localDebian).2 =
        (.ok (), ⟨[(Apt.mirrorList, .utf8 [])], none⟩) := by
      decide +kernel
    have hkept := hundone.kept allWell _ hrestore Apt.mirrorList _ rfl
    exact absurd hkept (by decide +kernel)

end Examples

end LandscapeKit.Mirror.Switch
