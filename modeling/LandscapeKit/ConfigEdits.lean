import LandscapeKit.ConfigSections

/-!
What an edit of one section does to `config.toml`: the value that is read back, the keys beside
the section, and the keys in it that its type does not know.
-/

namespace LandscapeKit.Config

open Table

structure FrontendSection.Valid (provider : ProviderFor) (s : FrontendSection) : Prop where
  named : ∀ source ∈ s.sources, source.id ≠ ""
  distinct : s.ids.Nodup
  normalised : ∀ source ∈ s.sources, provider source.kind source.location = some source.location
  known : ∀ active, s.active = some active → active = frontendOfficial ∨ active ∈ s.ids

namespace Edit

def Valid (provider : ProviderFor) : Edit → Prop
  | .frontend s => s.Valid provider
  | _ => True

/-- The loader of the section gives what was written; a section without sources is none. -/
def ReadBack (o : OddShapes) (provider : ProviderFor) (f : ConfigFile) : Edit → Prop
  | .language l => loadLanguage o f = some l
  | .flare s => loadFlare o.deserializer f = some s
  | .frontend s => loadFrontend o provider f = .ok (if s.sources.isEmpty then none else some s)

/-- The keys the type of the section knows. -/
def knows : Edit → List String
  | .language _ => ["language"]
  | .flare _ => ["psk", "device_name", "mac", "devices", "ethertype", "forward_ports", "token"]
  | .frontend _ => ["active", "sources"]

end Edit

def sectionEntries (k : String) (t : Entries) : Entries :=
  match get k t with
  | some (.table _ e) => e
  | _ => []

/-- The entries of the frontend sources in the file. -/
def sourceTables (t : Entries) : List Entries :=
  match get "sources" (sectionEntries "frontend" t) with
  | some (.array items) => items.filterMap fun item =>
    match item with
    | .table _ e => some e
    | _ => none
  | _ => []

def sourceKeys : List String := ["id", "name", "kind", "location"]

/-- A source that stays keeps the fields its type does not know. -/
def KeepsSources (s : FrontendSection) (t t' : Entries) : Prop :=
  ∀ e ∈ sourceTables t, ∀ id ∈ s.ids, requiredString "id" e = some id →
    ∃ e' ∈ sourceTables t', requiredString "id" e' = some id ∧
      ∀ k, k ∉ sourceKeys → get k e' = get k e

namespace Edit

/-- The rest of the document is as it was. -/
structure Keeps (e : Edit) (t t' : Entries) : Prop where
  outside : ∀ k, k ≠ e.key → get k t' = get k t
  unknown : ∀ k, k ∉ e.knows → get k (sectionEntries e.key t') = get k (sectionEntries e.key t)
  sources : ∀ s, e = .frontend s → KeepsSources s t t'

/-- A writer that returns `Ok` has written what the loader reads back and has kept the rest; one
that fails leaves the file as it was. -/
def Does (o : OddShapes) (provider : ProviderFor) (e : Edit) (written : Bool) (f : ConfigFile) :
    Prop :=
  match e.save written f with
  | (.error _, f') => f' = f
  | (.ok (), f') => e.ReadBack o provider f' ∧
    ∀ t t', f = .document t → f' = .document t' → e.Keeps t t'

/-- The loader of the section gets as far as the section. -/
def othersDecode (o : OddShapes) (e : Edit) (t : Entries) : Prop :=
  (∃ n, (get "schema_version" t).bind decodeSchemaVersion = some n ∧
      (e.key = "frontend" → n = configSchemaVersion)) ∧
    (∃ repository, get "repository" t = some repository ∧ isRepository o repository = true) ∧
    (e.key ≠ "ui" → (optionalField (decodeUi o) (get "ui" t)).isSome = true) ∧
    (e.key ≠ "flare" → (optionalField (decodeFlareValue o) (get "flare" t)).isSome = true) ∧
    (e.key ≠ "frontend" → (optionalField (decodeFrontend o) (get "frontend" t)).isSome = true)

/-- Nothing is lost with a table the writer replaces: `[ui]` and `[flare]` are replaced when they
are written inline, `[frontend]` always is, and with it the sources. -/
def nothingLost (t : Entries) : Edit → Prop
  | .frontend s => (∀ k, k ∉ (Edit.frontend s).knows → get k (sectionEntries "frontend" t) = none) ∧
    ∀ e ∈ sourceTables t, ∀ id ∈ s.ids, requiredString "id" e = some id →
      ∀ k, k ∉ sourceKeys → get k e = none
  | e => ∀ entries, get e.key t = some (.table true entries) →
    ∀ k, k ∉ e.knows → get k entries = none

/-- The documents an edit is right for. -/
def Fits (o : OddShapes) (e : Edit) : ConfigFile → Prop
  | .document t => e.othersDecode o t ∧ e.nothingLost t
  | _ => True

end Edit

section FromStr

variable (o : OddShapes) {t : Entries}

theorem fromStr_eq_some_iff {c : Config} :
    fromStr o t = some c ↔
      (get "schema_version" t).bind decodeSchemaVersion = some c.schemaVersion ∧
      (∃ repository, get "repository" t = some repository ∧ isRepository o repository = true) ∧
      optionalField (decodeUi o) (get "ui" t) = some c.ui ∧
      optionalField (decodeFlareValue o) (get "flare" t) = some c.flare ∧
      optionalField (decodeFrontend o) (get "frontend" t) = some c.frontend := by
  constructor
  · intro h
    simp only [fromStr, Option.bind_eq_bind, Option.bind_eq_some_iff] at h
    obtain ⟨n, ⟨v, hv, hn⟩, repository, hr, h⟩ := h
    split at h
    · rename_i hrepository
      simp only [Option.bind_eq_some_iff] at h
      obtain ⟨ui, hui, flare, hflare, frontend, hfrontend, h⟩ := h
      cases h
      exact ⟨Option.bind_eq_some_iff.mpr ⟨v, hv, hn⟩, ⟨repository, hr, hrepository⟩, hui, hflare,
        hfrontend⟩
    · cases h
  · rintro ⟨hn, ⟨repository, hr, hrepository⟩, hui, hflare, hfrontend⟩
    simp [fromStr, hn, hr, hrepository, hui, hflare, hfrontend]

end FromStr

section Language

variable (o : OddShapes) (l : Language) (t : Entries)

theorem loadLanguage_setLanguage :
    loadLanguage o (.document (setLanguage l t)) = some l ↔ (Edit.language l).othersDecode o t := by
  have hui : decodeUi o (.table false (set "language" (.string l.code) (uiTable t))) =
      some (some l.code) := by
    simp [decodeUi, optionalString, get_set]
  have hsections : ∀ c, fromStr o (setLanguage l t) = some c ↔
      (get "schema_version" t).bind decodeSchemaVersion = some c.schemaVersion ∧
      (∃ repository, get "repository" t = some repository ∧ isRepository o repository = true) ∧
      c.ui = some (some l.code) ∧
      optionalField (decodeFlareValue o) (get "flare" t) = some c.flare ∧
      optionalField (decodeFrontend o) (get "frontend" t) = some c.frontend := by
    intro c
    have hothers : ∀ k, "ui" ≠ k → get k (setLanguage l t) = get k t := by
      intro k hk
      rw [setLanguage, get_set, if_neg hk]
    have hwritten : get "ui" (setLanguage l t) =
        some (.table false (set "language" (.string l.code) (uiTable t))) := by
      rw [setLanguage, get_set, if_pos rfl]
    rw [fromStr_eq_some_iff, hothers "schema_version" (by decide), hothers "repository" (by decide),
      hothers "flare" (by decide), hothers "frontend" (by decide), hwritten]
    simp only [optionalField, hui, Option.map_some, Option.some.injEq]
    rw [@eq_comm _ (some (some l.code)) c.ui]
  constructor
  · intro h
    simp only [loadLanguage, Option.bind_eq_bind, Option.bind_eq_some_iff] at h
    obtain ⟨c, hc, -⟩ := h
    obtain ⟨hn, hrepository, -, hflare, hfrontend⟩ := (hsections c).mp hc
    refine ⟨⟨_, hn, ?_⟩, hrepository, ?_, ?_, ?_⟩ <;> simp [Edit.key, hflare, hfrontend]
  · rintro ⟨⟨n, hn, -⟩, hrepository, -, hflare, hfrontend⟩
    obtain ⟨flare, hflare⟩ := Option.isSome_iff_exists.mp (hflare (by simp [Edit.key]))
    obtain ⟨frontend, hfrontend⟩ := Option.isSome_iff_exists.mp (hfrontend (by simp [Edit.key]))
    have hc := (hsections ⟨n, some (some l.code), flare, frontend⟩).mpr
      ⟨hn, hrepository, rfl, hflare, hfrontend⟩
    simp [loadLanguage, hc, Language.fromCode_code]

end Language

section Flare

variable (o : OddShapes) (s : FlareSection) (t : Entries)

theorem loadFlare_deserializer :
    loadFlare o.deserializer (.document t) = (fromStr o t).bind fun c => c.flare := by
  have hvalue : flareField o.deserializer = decodeFlareValue o := by
    funext v
    cases v <;> rfl
  have hothers : ∀ k, "flare" ≠ k → get k (remove "flare" t) = get k t := by
    intro k hk
    rw [get_remove, if_neg hk]
  have hfield : ∀ s, optionalField (decodeFlareValue o) (get "flare" t) = some (some s) ↔
      (get "flare" t).bind (decodeFlareValue o) = some s := by
    intro s
    cases get "flare" t <;> simp [optionalField]
  ext s
  have hload : loadFlare o.deserializer (.document t) = some s ↔
      o.deserializer.rest (remove "flare" t) = true ∧
        (get "flare" t).bind (decodeFlareValue o) = some s := by
    simp [loadFlare, hvalue]
  have hfrom : (fromStr o t).bind (fun c => c.flare) = some s ↔
      ∃ c : Config, fromStr o t = some c ∧ c.flare = some s := Option.bind_eq_some_iff
  rw [hload, hfrom, ← hfield]
  simp only [fromStr_eq_some_iff, OddShapes.deserializer, hothers "schema_version" (by decide),
    hothers "repository" (by decide), hothers "ui" (by decide), hothers "frontend" (by decide),
    Bool.and_eq_true, Option.isSome_iff_exists, Option.any_eq_true]
  constructor
  · rintro ⟨⟨⟨⟨⟨n, hn⟩, hrepository⟩, ui, hui⟩, frontend, hfrontend⟩, hflare⟩
    exact ⟨⟨n, ui, some s, frontend⟩, ⟨hn, hrepository, hui, hflare, hfrontend⟩, rfl⟩
  · rintro ⟨c, ⟨hn, hrepository, hui, hflare, hfrontend⟩, hs⟩
    exact ⟨⟨⟨⟨⟨_, hn⟩, hrepository⟩, _, hui⟩, _, hfrontend⟩, hs ▸ hflare⟩

theorem loadFlare_saveFlare :
    loadFlare o.deserializer (.document (saveFlareDocument s t)) = some s ↔
      (Edit.flare s).othersDecode o t := by
  rw [loadFlare_saveFlareDocument]
  have hrest : o.deserializer.rest (remove "flare" t) = true ↔ (Edit.flare s).othersDecode o t := by
    simp only [OddShapes.deserializer, get_remove, Bool.and_eq_true, Option.isSome_iff_exists]
    simp [Edit.othersDecode, Edit.key, Option.any_eq_true, Option.isSome_iff_exists, and_assoc]
  by_cases h : o.deserializer.rest (remove "flare" t) = true
  · simp [h, hrest.mp h]
  · simp [h, mt hrest.mpr h]

end Flare

section Frontend

variable (o : OddShapes) {provider : ProviderFor} {s : FrontendSection} (t : Entries)

theorem decodeSource_entries (source : FrontendSource) :
    decodeSource o (.table false (sourceEntries source)) = some source := by
  obtain ⟨id, name, kind, location⟩ := source
  cases name <;> cases kind <;>
    simp [decodeSource, sourceEntries, requiredString, optionalString, Table.get, decodeKind,
      RepositorySourceKind.key]

theorem decodeFrontend_entries :
    decodeFrontend o (.table false (frontendEntries s)) = some s := by
  have hsources : ∀ sources : List FrontendSource,
      (sources.map fun source => Toml.table false (sourceEntries source)).mapM (decodeSource o) =
        some sources := by
    intro sources
    induction sources with
    | nil => rfl
    | cons source rest ih => simp [decodeSource_entries, ih]
  obtain ⟨active, sources⟩ := s
  cases active <;> cases sources <;>
    simp [decodeFrontend, frontendEntries, optionalString, Table.get, decodeSources, hsources,
      decodeSource_entries]

theorem checkSources_normalised {sources : List FrontendSource} {seen : List String}
    (hnamed : ∀ source ∈ sources, source.id ≠ "")
    (hdistinct : (seen ++ sources.map fun source => source.id).Nodup)
    (hnormal : ∀ source ∈ sources, provider source.kind source.location = some source.location) :
    checkSources provider seen sources = .ok sources := by
  induction sources generalizing seen with
  | nil => rfl
  | cons source rest ih =>
    have hnew : source.id ∉ seen := by
      intro hmem
      have hdisjoint := (List.nodup_append.mp hdistinct).2.2
      exact hdisjoint _ hmem _ (by simp) rfl
    have hrest : checkSources provider (source.id :: seen) rest = .ok rest := by
      apply ih
      · exact fun s hs => hnamed s (List.mem_cons_of_mem _ hs)
      · have hperm : (source.id :: seen ++ rest.map fun s => s.id).Perm
            (seen ++ (source :: rest).map fun s => s.id) := by
          simpa using List.perm_middle.symm
        exact hperm.nodup_iff.mpr hdistinct
      · exact fun s hs => hnormal s (List.mem_cons_of_mem _ hs)
    have hguard : ¬ (source.id = "" ∨ source.id ∈ seen) := by
      simp [hnamed source (by simp), hnew]
    simp only [checkSources, if_neg hguard, hnormal source (by simp), hrest]
    rfl

theorem validateFrontend_valid (hs : s.Valid provider) :
    validateFrontend provider s = .ok (if s.sources.isEmpty then none else some s) := by
  have hsources : checkSources provider [] s.sources = .ok s.sources :=
    checkSources_normalised hs.named hs.distinct hs.normalised
  have hknown : s.selectsUnknown = false := by
    unfold FrontendSection.selectsUnknown
    cases hactive : s.active with
    | none => rfl
    | some active =>
      rcases hs.known active hactive with rfl | hmem
      · simp
      · simp [hmem]
  simp only [validateFrontend, hsources, hknown]
  rfl

theorem loadFrontend_setFrontendSection (hs : s.Valid provider) :
    loadFrontend o provider (.document (setFrontendSection s t)) =
        .ok (if s.sources.isEmpty then none else some s) ↔
      (Edit.frontend s).othersDecode o t := by
  have hothers : ∀ k, "frontend" ≠ k → get k (setFrontendSection s t) = get k t := by
    intro k hk
    rw [setFrontendSection, get_set, if_neg hk]
  have hwritten : get "frontend" (setFrontendSection s t) =
      some (.table false (frontendEntries s)) := by
    rw [setFrontendSection, get_set, if_pos rfl]
  have hsections : ∀ c, fromStr o (setFrontendSection s t) = some c ↔
      (get "schema_version" t).bind decodeSchemaVersion = some c.schemaVersion ∧
      (∃ repository, get "repository" t = some repository ∧ isRepository o repository = true) ∧
      optionalField (decodeUi o) (get "ui" t) = some c.ui ∧
      optionalField (decodeFlareValue o) (get "flare" t) = some c.flare ∧
      c.frontend = some s := by
    intro c
    rw [fromStr_eq_some_iff, hothers "schema_version" (by decide), hothers "repository" (by decide),
      hothers "ui" (by decide), hothers "flare" (by decide), hwritten]
    simp only [optionalField, decodeFrontend_entries, Option.map_some, Option.some.injEq]
    rw [@eq_comm _ (some s) c.frontend]
  constructor
  · intro h
    unfold loadFrontend at h
    dsimp only at h
    split at h
    · cases h
    · rename_i c hc
      obtain ⟨hn, hrepository, hui, hflare, -⟩ := (hsections c).mp hc
      split at h
      · cases h
      · rename_i hversion
        refine ⟨⟨_, hn, fun _ => not_not.mp hversion⟩, hrepository, ?_, ?_, ?_⟩ <;>
          simp [Edit.key, hui, hflare]
  · rintro ⟨⟨n, hn, hversion⟩, hrepository, hui, hflare, -⟩
    obtain ⟨ui, hui⟩ := Option.isSome_iff_exists.mp (hui (by simp [Edit.key]))
    obtain ⟨flare, hflare⟩ := Option.isSome_iff_exists.mp (hflare (by simp [Edit.key]))
    have hc := (hsections ⟨n, ui, flare, some s⟩).mpr ⟨hn, hrepository, hui, hflare, rfl⟩
    have hone : n = configSchemaVersion := hversion rfl
    simp [loadFrontend, hc, hone, validateFrontend_valid hs]

end Frontend

section Kept

variable (t : Entries)

theorem get_setFlare {k : String} (s : FlareSection) (hk : k ∉ (Edit.flare s).knows) :
    get k (setFlare s t) = get k t := by
  simp only [Edit.knows, List.mem_cons, List.not_mem_nil, or_false, not_or] at hk
  obtain ⟨h1, h2, h3, h4, h5, h6, h7⟩ := hk
  simp [setFlare, get_setOrRemove, Ne.symm h1, Ne.symm h2, Ne.symm h3, Ne.symm h4, Ne.symm h5,
    Ne.symm h6, Ne.symm h7]

theorem get_apply (e : Edit) {k : String} (hk : k ≠ e.key) : get k (e.apply t) = get k t := by
  cases e with
  | language l => exact (get_set ..).trans (if_neg hk.symm)
  | flare s => exact (get_set ..).trans (if_neg hk.symm)
  | frontend s => exact (get_set ..).trans (if_neg hk.symm)

/-- The entries of a section that is edited in place. -/
def inPlace (key : String) (t : Entries) : Entries :=
  match get key t with
  | some (.table false e) => e
  | _ => []

theorem inPlace_eq_iff (key : String) (ks : List String) :
    (∀ k, k ∉ ks → get k (inPlace key t) = get k (sectionEntries key t)) ↔
      ∀ entries, get key t = some (.table true entries) → ∀ k, k ∉ ks → get k entries = none := by
  unfold inPlace sectionEntries
  rcases hv : get key t with _ | v
  · simp
  · cases v with
    | table inline e => cases inline <;> simp [eq_comm]
    | _ => simp

theorem sectionEntries_language (l : Language) {k : String} (hk : k ∉ (Edit.language l).knows) :
    get k (sectionEntries "ui" (setLanguage l t)) = get k (inPlace "ui" t) := by
  have hne : "language" ≠ k := fun h => hk (by simp [Edit.knows, h])
  have hentries : sectionEntries "ui" (setLanguage l t) =
      set "language" (.string l.code) (inPlace "ui" t) := by
    simp only [sectionEntries, setLanguage, get_set, if_true]
    rfl
  rw [hentries, get_set, if_neg hne]

theorem sectionEntries_flare (s : FlareSection) {k : String} (hk : k ∉ (Edit.flare s).knows) :
    get k (sectionEntries "flare" (saveFlareDocument s t)) = get k (inPlace "flare" t) := by
  have hentries : sectionEntries "flare" (saveFlareDocument s t) =
      setFlare s (inPlace "flare" t) := by
    simp only [sectionEntries, get_saveFlareDocument]
    rfl
  rw [hentries, get_setFlare _ s hk]

theorem sectionEntries_frontend (s : FrontendSection) :
    sectionEntries "frontend" (setFrontendSection s t) = frontendEntries s := by
  simp [sectionEntries, setFrontendSection, get_set]

theorem get_frontendEntries (s : FrontendSection) {k : String}
    (hk : k ∉ (Edit.frontend s).knows) : get k (frontendEntries s) = none := by
  simp only [Edit.knows, List.mem_cons, List.not_mem_nil, or_false, not_or] at hk
  obtain ⟨active, sources⟩ := s
  cases active <;> cases sources <;>
    simp [frontendEntries, Table.get, Ne.symm hk.1, Ne.symm hk.2]

theorem get_sourceEntries (source : FrontendSource) {k : String} (hk : k ∉ sourceKeys) :
    get k (sourceEntries source) = none := by
  simp only [sourceKeys, List.mem_cons, List.not_mem_nil, or_false, not_or] at hk
  obtain ⟨id, name, kind, location⟩ := source
  cases name <;>
    simp [sourceEntries, Table.get, Ne.symm hk.1, Ne.symm hk.2.1, Ne.symm hk.2.2.1,
      Ne.symm hk.2.2.2]

theorem sourceTables_setFrontendSection (s : FrontendSection) :
    sourceTables (setFrontendSection s t) = s.sources.map sourceEntries := by
  unfold sourceTables
  rw [sectionEntries_frontend]
  obtain ⟨active, sources⟩ := s
  have htables : ∀ sources : List FrontendSource,
      (sources.map fun source => Toml.table false (sourceEntries source)).filterMap
        (fun item => match item with
          | .table _ e => some e
          | _ => none) = sources.map sourceEntries := by
    intro sources
    induction sources with
    | nil => rfl
    | cons source rest ih => simp only [List.map_cons, List.filterMap_cons, ih]
  cases active <;> cases sources <;> simp [frontendEntries, Table.get, htables]

theorem keepsSources_iff (s : FrontendSection) :
    KeepsSources s t (setFrontendSection s t) ↔
      ∀ e ∈ sourceTables t, ∀ id ∈ s.ids, requiredString "id" e = some id →
        ∀ k, k ∉ sourceKeys → get k e = none := by
  unfold KeepsSources
  rw [sourceTables_setFrontendSection]
  constructor
  · intro h e he id hid hrequired k hk
    obtain ⟨e', he', -, hkept⟩ := h e he id hid hrequired
    obtain ⟨source, -, rfl⟩ := List.mem_map.mp he'
    rw [← hkept k hk, get_sourceEntries source hk]
  · intro h e he id hid hrequired
    obtain ⟨source, hsource, hsourceId⟩ := List.mem_map.mp hid
    refine ⟨sourceEntries source, List.mem_map_of_mem hsource, ?_, fun k hk => ?_⟩
    · rw [← hsourceId]
      simp [requiredString, sourceEntries, Table.get]
    · rw [h e he id hid hrequired k hk, get_sourceEntries source hk]

theorem keeps_iff (e : Edit) : e.Keeps t (e.apply t) ↔ e.nothingLost t := by
  have hin : ∀ e : Edit, (∀ s, e ≠ .frontend s) →
      (∀ k, k ∉ e.knows → get k (sectionEntries e.key (e.apply t)) = get k (inPlace e.key t)) →
      (e.Keeps t (e.apply t) ↔ ∀ entries, get e.key t = some (.table true entries) →
        ∀ k, k ∉ e.knows → get k entries = none) := by
    intro e hother hentries
    rw [← inPlace_eq_iff]
    constructor
    · exact fun h k hk => (hentries k hk).symm.trans (h.unknown k hk)
    · exact fun h => ⟨fun k hk => get_apply t e hk, fun k hk => (hentries k hk).trans (h k hk),
        fun s hs => absurd hs (hother s)⟩
  cases e with
  | language l => exact hin (.language l) (by simp) fun k hk => sectionEntries_language t l hk
  | flare s => exact hin (.flare s) (by simp) fun k hk => sectionEntries_flare t s hk
  | frontend s =>
    have hunknown : ∀ k, k ∉ (Edit.frontend s).knows →
        (get k (sectionEntries "frontend" (setFrontendSection s t)) =
            get k (sectionEntries "frontend" t) ↔
          get k (sectionEntries "frontend" t) = none) := by
      intro k hk
      rw [sectionEntries_frontend, get_frontendEntries s hk]
      exact eq_comm
    constructor
    · intro h
      refine ⟨fun k hk => (hunknown k hk).mp (h.unknown k hk), ?_⟩
      exact (keepsSources_iff t s).mp (h.sources s rfl)
    · rintro ⟨hnone, hsources⟩
      refine ⟨fun k hk => get_apply t _ hk, fun k hk => (hunknown k hk).mpr (hnone k hk), ?_⟩
      intro s' hs'
      cases hs'
      exact (keepsSources_iff t s).mpr hsources

end Kept

theorem readBack_iff (o : OddShapes) (provider : ProviderFor) {e : Edit} (he : e.Valid provider)
    (t : Entries) :
    e.ReadBack o provider (.document (e.apply t)) ↔ e.othersDecode o t := by
  cases e with
  | language l => exact loadLanguage_setLanguage o l t
  | flare s => exact loadFlare_saveFlare o s t
  | frontend s => exact loadFrontend_setFrontendSection o t he

theorem othersDecode_minimal (o : OddShapes) (e : Edit) : e.othersDecode o minimalDocument := by
  refine ⟨⟨1, by decide, fun _ => rfl⟩, ?_, fun _ => ?_, fun _ => ?_, fun _ => ?_⟩
  · exact ⟨_, rfl, by simp [isRepository, Table.get, requiredString, decodeKind]⟩
  · simp [minimalDocument, Table.get, optionalField]
  · simp [minimalDocument, Table.get, optionalField]
  · simp [minimalDocument, Table.get, optionalField]

/-- A writer does what it says exactly on the files whose other sections deserialise and whose
own section holds nothing that is lost with it. -/
theorem save_does_iff (o : OddShapes) (provider : ProviderFor) {e : Edit} (he : e.Valid provider)
    (written : Bool) (f : ConfigFile) :
    e.Does o provider written f ↔ (written = true → e.Fits o f) := by
  cases written with
  | false => cases f <;> simp [Edit.Does, Edit.save]
  | true =>
    cases f with
    | missing =>
      have hread := (readBack_iff o provider he minimalDocument).mpr (othersDecode_minimal o e)
      simp [Edit.Does, Edit.save, Edit.Fits, hread]
    | unreadable => simp [Edit.Does, Edit.save, Edit.Fits]
    | notToml text => simp [Edit.Does, Edit.save, Edit.Fits]
    | document t =>
      have hdoes : e.Does o provider true (.document t) ↔
          e.ReadBack o provider (.document (e.apply t)) ∧ e.Keeps t (e.apply t) := by
        simp [Edit.Does, Edit.save]
      rw [hdoes, readBack_iff o provider he t, keeps_iff t e]
      simp [Edit.Fits]

section Sample

/-- No location is refused or rewritten. -/
def sampleProvider : ProviderFor := fun _ location => some location

def sampleOdd : OddShapes where
  kind _ := none
  repository _ := false
  ui _ := none
  flare _ := none
  source _ := none
  sources _ := none
  frontend _ := none

/-- A file whose `[flare]` section is written as an inline table, with a note of the user. -/
def inlineFlare : Entries :=
  minimalDocument ++ [("flare", .table true [("psk", .string "a-long-recovery-secret"),
    ("note", .string "spare key in the safe")])]

def sampleFlare : FlareSection := { defaultFlareSection with psk := some "another-long-secret" }

/-- The note is lost with the table. -/
theorem saveFlare_loses_note :
    (Edit.flare sampleFlare).Valid sampleProvider ∧
      ¬ (Edit.flare sampleFlare).Does sampleOdd sampleProvider true (.document inlineFlare) := by
  refine ⟨trivial, fun h => ?_⟩
  have hkept := h.2 inlineFlare _ rfl rfl
  have hnote := hkept.unknown "note" (by decide)
  have hbefore : get "note" (sectionEntries (Edit.flare sampleFlare).key inlineFlare) =
      some (.string "spare key in the safe") := rfl
  have hafter : get "note" (sectionEntries (Edit.flare sampleFlare).key
      ((Edit.flare sampleFlare).apply inlineFlare)) = none := rfl
  rw [hbefore] at hnote
  exact absurd (hafter.symm.trans hnote) (by simp)

def sampleFrontend : FrontendSection where
  active := some "community"
  sources := [⟨"community", none, .http, "https://frontend.example.com/ui/"⟩]

/-- On a file with no frontend section the writer does what it says. -/
theorem saveFrontend_does :
    (Edit.frontend sampleFrontend).Does sampleOdd sampleProvider true
      (.document minimalDocument) := by
  have hvalid : (Edit.frontend sampleFrontend).Valid sampleProvider := by
    refine ⟨by decide, by decide, fun _ _ => rfl, fun active hactive => ?_⟩
    cases hactive
    exact .inr (by decide)
  apply (save_does_iff sampleOdd sampleProvider hvalid true (.document minimalDocument)).mpr
  intro _
  refine ⟨othersDecode_minimal sampleOdd _, fun k _ => ?_, fun e he => ?_⟩
  · simp [sectionEntries, minimalDocument, Table.get]
  · have hnone : sourceTables minimalDocument = [] := rfl
    rw [hnone] at he
    cases he

end Sample

end LandscapeKit.Config
