import LandscapeKit.ConfigFlare
import LandscapeKit.HostnetParse

/-!
The sections `[ui]`, `[flare]` and `[frontend]` of `config.toml`: the deserialisation of the
whole file, the loaders that read a section from it, and the three writers that edit one section
of the document and leave the rest (`save_flare`, `save_frontend`, `write_language`).
-/

namespace LandscapeKit.Config

open Table

inductive RepositorySourceKind
  | github
  | http
deriving DecidableEq

def RepositorySourceKind.key : RepositorySourceKind → String
  | .github => "github"
  | .http => "http"

structure FrontendSource where
  id : String
  name : Option String
  kind : RepositorySourceKind
  location : String
deriving DecidableEq

structure FrontendSection where
  active : Option String
  sources : List FrontendSource
deriving DecidableEq

inductive Language
  | en
  | zh
deriving DecidableEq

namespace Language

def code : Language → String
  | .en => "en"
  | .zh => "zh"

def trim (text : Text) : Text :=
  ((text.dropWhile Hostnet.isWhitespace).reverse.dropWhile Hostnet.isWhitespace).reverse

def toAsciiLowercase (text : Text) : Text := text.map Char.toLower

def fromCode (value : String) : Option Language :=
  let key := toAsciiLowercase (trim value.toList)
  if key = "en".toList then some .en
  else if key = "zh".toList then some .zh
  else none

theorem fromCode_code (l : Language) : fromCode l.code = some l := by
  cases l <;> decide

end Language

/-! The deserialisation of the file, `toml::from_str::<ConfigFile>`. -/

/-- What the deserialiser makes of values that do not have the shape the writers give them. -/
structure OddShapes where
  kind : Toml → Option RepositorySourceKind
  repository : Toml → Bool
  ui : Toml → Option (Option String)
  flare : Toml → Option FlareSection
  source : Toml → Option FrontendSource
  sources : Toml → Option (List FrontendSource)
  frontend : Toml → Option FrontendSection

section Decode

variable (o : OddShapes)

/-- A `u64`. -/
def decodeSchemaVersion : Toml → Option ℕ
  | .integer n => if 0 ≤ n then some n.toNat else none
  | _ => none

def requiredString (k : String) (t : Entries) : Option String :=
  match get k t with
  | some (.string s) => some s
  | _ => none

def decodeKind : Toml → Option RepositorySourceKind
  | .string s => if s = "github" then some .github else if s = "http" then some .http else none
  | v => o.kind v

/-- Whether the value is a `RepositorySource`. -/
def isRepository : Toml → Bool
  | .table _ t => ((get "kind" t).bind (decodeKind o)).isSome && (requiredString "location" t).isSome
  | v => o.repository v

/-- The derived deserialisation of `UiSection`. -/
def decodeUi : Toml → Option (Option String)
  | .table _ t => optionalString "language" t
  | v => o.ui v

def decodeFlareValue : Toml → Option FlareSection
  | .table _ t => decodeFlare t
  | v => o.flare v

def decodeSource : Toml → Option FrontendSource
  | .table _ t => do
    let id ← requiredString "id" t
    let name ← optionalString "name" t
    let kind ← (get "kind" t).bind (decodeKind o)
    let location ← requiredString "location" t
    return ⟨id, name, kind, location⟩
  | v => o.source v

def decodeSources : Toml → Option (List FrontendSource)
  | .array items => items.mapM (decodeSource o)
  | v => o.sources v

def decodeFrontend : Toml → Option FrontendSection
  | .table _ t => do
    let active ← optionalString "active" t
    let sources ← match get "sources" t with
      | none => some []
      | some v => decodeSources o v
    return ⟨active, sources⟩
  | v => o.frontend v

/-- A field with a default that is absent. -/
def optionalField {α : Type} (decode : Toml → Option α) : Option Toml → Option (Option α)
  | none => some none
  | some v => (decode v).map some

/-- The fields of a `ConfigFile` the three sections need. -/
structure Config where
  schemaVersion : ℕ
  ui : Option (Option String)
  flare : Option FlareSection
  frontend : Option FrontendSection

def fromStr (t : Entries) : Option Config := do
  let schemaVersion ← (get "schema_version" t).bind decodeSchemaVersion
  let repository ← get "repository" t
  if isRepository o repository then
    let ui ← optionalField (decodeUi o) (get "ui" t)
    let flare ← optionalField (decodeFlareValue o) (get "flare" t)
    let frontend ← optionalField (decodeFrontend o) (get "frontend" t)
    return ⟨schemaVersion, ui, flare, frontend⟩
  else none

/-- The deserialiser of the recovery channel, with the other sections spelled out. -/
def OddShapes.deserializer : Deserializer where
  rest t := ((get "schema_version" t).bind decodeSchemaVersion).isSome &&
    (get "repository" t).any (isRepository o) &&
    (optionalField (decodeUi o) (get "ui" t)).isSome &&
    (optionalField (decodeFrontend o) (get "frontend" t)).isSome
  flareValue := o.flare

end Decode

/-! The loaders. -/

section Load

variable (o : OddShapes)

def loadLanguage : ConfigFile → Option Language
  | .document t => do
    let config ← fromStr o t
    let language ← config.ui
    let value ← language
    Language.fromCode value
  | _ => none

inductive LoadError
  | read
  | corruptedState (reason : String)
deriving DecidableEq

def frontendOfficial : String := "official"

/-- The normalised location of a source, when a provider can be built for it. -/
abbrev ProviderFor := RepositorySourceKind → String → Option String

/-- The loop of `validate_frontend`; `seen` are the ids of the sources before. -/
def checkSources (provider : ProviderFor) (seen : List String) :
    List FrontendSource → Except LoadError (List FrontendSource)
  | [] => .ok []
  | s :: rest =>
    if s.id = "" ∨ s.id ∈ seen then
      .error (.corruptedState
        ("contains a frontend source with a missing or duplicate id " ++ s.id))
    else
      match provider s.kind s.location with
      | none => .error (.corruptedState ("contains an invalid frontend source " ++ s.id))
      | some location => do
        let sources ← checkSources provider (s.id :: seen) rest
        return { s with location := location } :: sources

def FrontendSection.ids (s : FrontendSection) : List String := s.sources.map fun source => source.id

/-- Whether the active id names no source. -/
def FrontendSection.selectsUnknown (s : FrontendSection) : Bool :=
  s.active.any fun active => active ≠ frontendOfficial ∧ active ∉ s.ids

def validateFrontend (provider : ProviderFor) (s : FrontendSection) :
    Except LoadError (Option FrontendSection) := do
  let sources ← checkSources provider [] s.sources
  if s.selectsUnknown then
    throw (.corruptedState ("selects an unknown frontend source " ++ s.active.getD ""))
  return if sources.isEmpty then none else some ⟨s.active, sources⟩

def configSchemaVersion : ℕ := 1

def loadFrontend (provider : ProviderFor) : ConfigFile → Except LoadError (Option FrontendSection)
  | .missing => .ok none
  | .unreadable => .error .read
  | .notToml _ => .error (.corruptedState "is not a valid config file")
  | .document t =>
    match fromStr o t with
    | none => .error (.corruptedState "is not a valid config file")
    | some config =>
      if config.schemaVersion ≠ configSchemaVersion then
        .error (.corruptedState "unsupported config schema version")
      else
        match config.frontend with
        | none => .ok none
        | some s => validateFrontend provider s

end Load

/-! The writers. -/

def sourceEntries (s : FrontendSource) : Entries :=
  [("id", .string s.id)] ++ (s.name.map fun name => ("name", Toml.string name)).toList ++
    [("kind", .string s.kind.key), ("location", .string s.location)]

/-- The table `set_frontend_section` builds. -/
def frontendEntries (s : FrontendSection) : Entries :=
  (s.active.map fun active => ("active", Toml.string active)).toList ++
    if s.sources.isEmpty then []
    else [("sources", .array (s.sources.map fun source => .table false (sourceEntries source)))]

def setFrontendSection (s : FrontendSection) (t : Entries) : Entries :=
  set "frontend" (.table false (frontendEntries s)) t

/-- The `[ui]` table that is edited; anything but a table with a header of its own gives way to
an empty one. -/
def uiTable (t : Entries) : Entries :=
  match get "ui" t with
  | some (.table false e) => e
  | _ => []

def setLanguage (l : Language) (t : Entries) : Entries :=
  set "ui" (.table false (set "language" (.string l.code) (uiTable t))) t

/-- A call of one of the three writers. -/
inductive Edit
  | language (l : Language)
  | flare (s : FlareSection)
  | frontend (s : FrontendSection)

namespace Edit

/-- The key of the section that is written. -/
def key : Edit → String
  | .language _ => "ui"
  | .flare _ => "flare"
  | .frontend _ => "frontend"

/-- What a writer makes of the document it has parsed. -/
def apply : Edit → Entries → Entries
  | .language l => setLanguage l
  | .flare s => saveFlareDocument s
  | .frontend s => setFrontendSection s

/-- `written` is the outcome of the temporary file and the rename. -/
def save (e : Edit) (written : Bool) (f : ConfigFile) : Except SaveError Unit × ConfigFile :=
  let save (t : Entries) : Except SaveError Unit × ConfigFile :=
    if written then (.ok (), .document (e.apply t)) else (.error .write, f)
  match f with
  | .document t => save t
  | .missing => save minimalDocument
  | .notToml _ => (.error .corruptedState, f)
  | .unreadable => (.error .read, f)

end Edit

end LandscapeKit.Config
