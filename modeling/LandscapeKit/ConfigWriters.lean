import LandscapeKit.ConfigEdits
import LandscapeKit.LibReplace
import Mathlib.Data.Fintype.Defs
import Mathlib.Data.UInt

/-!
Several processes that write `config.toml` at once: `write_language`, `save_flare` and
`save_frontend` read the whole file, edit their section of it, and replace the file through
`run/config.toml.tmp`, which they all share, without a lock.
-/

namespace LandscapeKit.Config

open Table Replace

inductive Part
  | ui
  | flare
  | frontend
deriving DecidableEq

instance : Fintype Part where
  elems := {.ui, .flare, .frontend}
  complete k := by cases k <;> decide

def Part.key : Part → String
  | .ui => "ui"
  | .flare => "flare"
  | .frontend => "frontend"

def Edit.part : Edit → Part
  | .language _ => .ui
  | .flare _ => .flare
  | .frontend _ => .frontend

theorem Edit.key_part (e : Edit) : e.part.key = e.key := by
  cases e <;> rfl

theorem Part.key_injective : Function.Injective Part.key := by
  intro a b h
  cases a <;> cases b <;> first | rfl | exact absurd h (by decide)

inductive PartValue
  | ui (value : Option (Option (Option String)))
  | flare (value : Option (Option FlareSection))
  | frontend (value : Option (Option FrontendSection))
deriving DecidableEq

section Value

variable (o : OddShapes)

def Part.value (t : Entries) : Part → PartValue
  | .ui => .ui (optionalField (decodeUi o) (get "ui" t))
  | .flare => .flare (optionalField (decodeFlareValue o) (get "flare" t))
  | .frontend => .frontend (optionalField (decodeFrontend o) (get "frontend" t))

def Edit.value : Edit → PartValue
  | .language l => .ui (some (some (some l.code)))
  | .flare s => .flare (some (some s))
  | .frontend s => .frontend (some (some s))

theorem Edit.value_apply (e : Edit) (t : Entries) : e.part.value o (e.apply t) = e.value := by
  cases e with
  | language l =>
    have hui : get "ui" (setLanguage l t) =
        some (.table false (set "language" (.string l.code) (uiTable t))) := by
      rw [setLanguage, get_set, if_pos rfl]
    have hcode : decodeUi o (.table false (set "language" (.string l.code) (uiTable t))) =
        some (some l.code) := by
      simp [decodeUi, optionalString, get_set]
    simp [Edit.part, Part.value, Edit.apply, Edit.value, hui, optionalField, hcode]
  | flare s =>
    simp [Edit.part, Part.value, Edit.apply, Edit.value, get_saveFlareDocument, optionalField,
      decodeFlareValue, decodeFlare_setFlare]
  | frontend s =>
    have hfrontend : get "frontend" (setFrontendSection s t) =
        some (.table false (frontendEntries s)) := by
      rw [setFrontendSection, get_set, if_pos rfl]
    simp [Edit.part, Part.value, Edit.apply, Edit.value, hfrontend, optionalField,
      decodeFrontend_entries]

theorem Part.value_apply {k : Part} {e : Edit} (h : k ≠ e.part) (t : Entries) :
    k.value o (e.apply t) = k.value o t := by
  have hkey : k.key ≠ e.key := by
    rw [← e.key_part]
    exact fun hk => h (Part.key_injective hk)
  have hget : get k.key (e.apply t) = get k.key t := get_apply t e hkey
  cases k <;> simp only [Part.key] at hget <;> simp only [Part.value, hget]

end Value

structure TomlEdit where
  parse : List UInt8 → Option Entries
  print : Entries → List UInt8

namespace TomlEdit

variable {ι : Type} (lib : TomlEdit) (o : OddShapes) (writers : ι → Edit)

def document : Option (List UInt8) → Option Entries
  | none => some minimalDocument
  | some text => lib.parse text

def edit (p : ι) (text : Option (List UInt8)) : Option (List UInt8) :=
  (lib.document text).map fun t => lib.print ((writers p).apply t)

def view (k : Part) (text : Option (List UInt8)) : Option PartValue :=
  (lib.document text).map fun t => k.value o t

def PrintsValues : Prop :=
  ∀ p text t, lib.document text = some t →
    ∃ t', lib.parse (lib.print ((writers p).apply t)) = some t' ∧
      ∀ k : Part, k.value o t' = k.value o ((writers p).apply t)

/-- The temporary file is opened while no other writer is between its open and its rename, and
renamed while the sections the writer does not write are those it has read. -/
def Careful (s : State ι UInt8) (e : Replace.Event ι) : Prop :=
  OpensAlone s e ∧ RenamesCurrent (fun p => (writers p).part) (lib.view o) s e

instance [Fintype ι] (s : State ι UInt8) : DecidablePred (lib.Careful o writers s) :=
  fun _ => inferInstanceAs (Decidable (_ ∧ _))

/-- The file is the complete output of the writer that has returned last, and each section is
that of the last writer of it that has returned; where there is none, it is as it was. -/
structure LosesNothing [DecidableEq ι] (s₀ s : State ι UInt8) : Prop where
  whole : (s.log = [] ∧ s.disk.read = s₀.disk.read) ∨
    ∃ log p base out, s.log = log ++ [p] ∧ s.stage p = .returned base out ∧
      lib.edit writers p base = some out ∧ s.disk.read = some out
  sections : ∀ k, LastWriter (fun p => (writers p).part) (lib.view o)
    (fun p value => value = some (writers p).value) s₀ s k

variable {o writers}

theorem sectioned (prints : lib.PrintsValues o writers) :
    Sectioned (lib.edit writers) (fun p => (writers p).part) (lib.view o)
      (fun p value => value = some (writers p).value) where
  written p base out h := by
    obtain ⟨t, ht, rfl⟩ := Option.map_eq_some_iff.mp h
    obtain ⟨t', ht', hvalue⟩ := prints p base t ht
    have hvalue := hvalue (writers p).part
    rw [(writers p).value_apply] at hvalue
    simp only [view, document, ht', Option.map_some, hvalue]
  kept p base out k h hk := by
    obtain ⟨t, ht, rfl⟩ := Option.map_eq_some_iff.mp h
    obtain ⟨t', ht', hvalue⟩ := prints p base t ht
    have hvalue := hvalue k
    rw [Part.value_apply o hk] at hvalue
    have hout : lib.document (some (lib.print ((writers p).apply t))) = some t' := ht'
    simp only [view, ht, hout, Option.map_some, hvalue]

/-- In every run whose steps are all careful, nothing is lost in any state that is reached. -/
theorem careful_losesNothing [DecidableEq ι] (prints : lib.PrintsValues o writers)
    {s₀ s : State ι UInt8} (fresh : Fresh s₀)
    (run : Reached (lib.edit writers) (lib.Careful o writers) s₀ s) :
    lib.LosesNothing o writers s₀ s := by
  have hwhole := run.whole (fun _ _ ok => ok.1) fresh
  constructor
  · rcases hwhole.whole with hstart | ⟨log, p, base, out, hlog, hp, hread⟩
    · exact .inl hstart
    · have hmade : lib.edit writers p base = some out := by
        apply hwhole.made
        rw [hp]
        rfl
      exact .inr ⟨log, p, base, out, hlog, hp, hmade, hread⟩
  · intro k
    exact run.lastWriter (lib.sectioned prints) (fun _ _ ok => ok.1) (fun _ _ ok => ok.2) fresh k

end TomlEdit

section Sample

def sampleWriters : Bool → Edit
  | false => .language .zh
  | true => .flare sampleFlare

def sampleLine : String × Toml → List Char
  | (k, .string s) => (k ++ " = \"" ++ s ++ "\"\n").toList
  | (k, .integer n) => (k ++ " = " ++ toString n ++ "\n").toList
  | _ => []

def sampleText (t : Entries) : List UInt8 :=
  (t.flatMap fun entry =>
    match entry with
    | (k, .table false e) => ("\n[" ++ k ++ "]\n").toList ++ e.flatMap sampleLine
    | entry => sampleLine entry).map Char.toUInt8

def sampleDocuments : List Entries :=
  [minimalDocument, (sampleWriters false).apply minimalDocument,
    (sampleWriters true).apply minimalDocument,
    (sampleWriters true).apply ((sampleWriters false).apply minimalDocument),
    (sampleWriters false).apply ((sampleWriters true).apply minimalDocument)]

def sampleLib : TomlEdit where
  parse text := sampleDocuments.find? fun t => sampleText t = text
  print := sampleText

theorem mem_sampleDocuments {text : Option (List UInt8)} {t : Entries}
    (ht : sampleLib.document text = some t) : t ∈ sampleDocuments := by
  cases text with
  | none =>
    cases ht
    exact List.mem_cons_self
  | some text =>
    have ht : sampleDocuments.find? (fun t => sampleText t = text) = some t := ht
    exact List.mem_of_find?_eq_some ht

theorem sampleLib_prints : sampleLib.PrintsValues sampleOdd sampleWriters := by
  have hall : ∀ t ∈ sampleDocuments, ∀ p : Bool,
      (sampleLib.parse (sampleLib.print ((sampleWriters p).apply t))).any (fun t' =>
        ∀ k : Part, k.value sampleOdd t' = k.value sampleOdd ((sampleWriters p).apply t)) = true := by
    decide +kernel
  intro p text t ht
  obtain ⟨t', ht', hvalue⟩ := (Option.any_eq_true _ _).mp (hall t (mem_sampleDocuments ht) p)
  exact ⟨t', ht', of_decide_eq_true hvalue⟩

def sampleStart : State Bool UInt8 where
  disk := ⟨fun _ => [], none, none, 0⟩
  stage _ := .idle
  log := []

theorem sampleStart_fresh : Fresh sampleStart where
  idle _ := rfl
  log := rfl
  file_old := nofun
  tmp_old := nofun
  apart := nofun

def wholeCall (p : Bool) : List (Replace.Event Bool) := [.read p, .openTmp p, .write p 4096, .rename p]

theorem wholeCalls_loseNothing :
    ∃ s, Reached (sampleLib.edit sampleWriters) (sampleLib.Careful sampleOdd sampleWriters)
      sampleStart s ∧ s.log = [false, true] ∧
      sampleLib.LosesNothing sampleOdd sampleWriters sampleStart s := by
  obtain ⟨s, hrun, hlog⟩ := exists_reached (sampleLib.edit sampleWriters)
    (sampleLib.Careful sampleOdd sampleWriters) sampleStart
    (wholeCall false ++ wholeCall true) (fun s => s.log = [false, true])
    (by decide +kernel)
  exact ⟨s, hrun, of_decide_eq_true hlog,
    sampleLib.careful_losesNothing sampleLib_prints sampleStart_fresh hrun⟩

/-- The second process opens the temporary file the first one has written and not yet renamed;
what the first one renames is empty. -/
def tornEvents : List (Replace.Event Bool) :=
  [.read false, .openTmp false, .write false 4096, .read true, .openTmp true, .rename false]

def lostEvents : List (Replace.Event Bool) :=
  [.read false] ++ wholeCall true ++ [.openTmp false, .write false 4096, .rename false]

/-- Two processes leave an empty file, or each returns and the secret of the recovery channel is
not in the file. -/
theorem writers_tear_and_lose :
    (∃ s, Reached (sampleLib.edit sampleWriters) (fun _ _ => True) sampleStart s ∧
        s.disk.read = some [] ∧ ¬ sampleLib.LosesNothing sampleOdd sampleWriters sampleStart s) ∧
      ∃ s, Reached (sampleLib.edit sampleWriters) (fun _ _ => True) sampleStart s ∧
        (∀ p, ∃ base out, s.stage p = .returned base out) ∧
        ¬ sampleLib.LosesNothing sampleOdd sampleWriters sampleStart s := by
  constructor
  · obtain ⟨s, hrun, hs⟩ := exists_reached (sampleLib.edit sampleWriters) (fun _ _ => True)
      sampleStart tornEvents (fun s => s.log = [false] ∧ s.disk.read = some []) (by decide +kernel)
    obtain ⟨hlog, hread⟩ := of_decide_eq_true hs
    refine ⟨s, hrun, hread, fun h => ?_⟩
    obtain ⟨p, -, hvalue⟩ := (h.sections .ui).exists_has (q := false) (by simp [hlog]) rfl
    rw [hread] at hvalue
    have hempty : sampleLib.view sampleOdd .ui (some []) = none := by decide +kernel
    rw [hempty] at hvalue
    cases hvalue
  · obtain ⟨s, hrun, hs⟩ := exists_reached (sampleLib.edit sampleWriters) (fun _ _ => True)
      sampleStart lostEvents
      (fun s => s.log = [true, false] ∧ (∀ p, (s.stage p).isReturned = true) ∧
        sampleLib.view sampleOdd .flare s.disk.read = some (.flare (some none)))
      (by decide +kernel)
    obtain ⟨hlog, hall, hview⟩ := of_decide_eq_true hs
    refine ⟨s, hrun, fun p => Stage.isReturned_iff.mp (hall p), fun h => ?_⟩
    obtain ⟨p, hp, hvalue⟩ := (h.sections .flare).exists_has (q := true) (by simp [hlog]) rfl
    rw [hview] at hvalue
    cases p
    · cases hp
    · cases hvalue

end Sample

end LandscapeKit.Config
