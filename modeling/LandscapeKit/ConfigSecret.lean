import LandscapeKit.ConfigFlare

/-!
The recovery secret over any number of starts of the daemon and runs of
`self install`: when the secret in the file is the one that is used, and when
a generated one is found again.
-/

namespace LandscapeKit.Config

open Table

inductive Event where
  | start (psk : String) (written : Bool)
  | selfInstall (prompt : Except SelfError String) (ready written : Bool)

def Event.apply (d : Deserializer) : Event → ConfigFile → ConfigFile
  | .start psk written, f => (initialFlare d psk written f).2
  | .selfInstall prompt ready written, f => (Config.selfInstall d none prompt ready written f).2

def runEvents (d : Deserializer) (events : List Event) (f : ConfigFile) : ConfigFile :=
  events.foldl (fun f e => e.apply d f) f

def Serves (d : Deserializer) (p : String) (f : ConfigFile) : Prop :=
  ∀ (events : List Event) (psk : String) (written : Bool),
    (initialFlare d psk written (runEvents d events f)).1.bind (·.psk) = some p

def KeepsConfigured (d : Deserializer) (f : ConfigFile) : Prop :=
  ∀ p, f.configuredPsk = some p →
    (∀ events, (runEvents d events f).flareEntries = f.flareEntries) ∧ Serves d p f

def FindsGenerated (d : Deserializer) (f : ConfigFile) : Prop :=
  ∀ psk written flare f', f.configuredPsk = none → (loadFlare d f).bind (·.psk) = none →
    effectiveFlareConfig d psk written f = (.ok flare, f') →
    flare.psk = some psk ∧ Serves d psk f'

def Readable (d : Deserializer) : ConfigFile → Prop
  | .document t => d.rest (remove "flare" t) = true ∧
      ∀ e p, (ConfigFile.document t).flareEntries = some e → get "psk" e = some (.string p) →
        (decodeFlare e).isSome
  | _ => True

section Loaded

variable {d : Deserializer} {f : ConfigFile} {flare : FlareSection} {p : String}
  (h : loadFlare d f = some flare) (hp : flare.psk = some p)

include h hp

theorem Event.apply_of_loaded (e : Event) : e.apply d f = f := by
  cases e with
  | start psk written =>
    simp [Event.apply, initialFlare, effectiveFlareConfig_of_loaded d psk p written f flare h hp]
  | selfInstall prompt ready written =>
    exact selfInstall_of_loaded d prompt ready written f flare p h hp

theorem runEvents_of_loaded (events : List Event) : runEvents d events f = f := by
  induction events with
  | nil => rfl
  | cons e events ih =>
    -- the file after the first event is the file before it
    have he : e.apply d f = f := Event.apply_of_loaded h hp e
    calc runEvents d (e :: events) f = runEvents d events (e.apply d f) := rfl
      _ = runEvents d events f := by rw [he]
      _ = f := ih

theorem serves_of_loaded : Serves d p f := by
  intro events psk written
  rw [runEvents_of_loaded h hp]
  simp [initialFlare, effectiveFlareConfig_of_loaded d psk p written f flare h hp, spawnFlareFrom,
    hp]

end Loaded

theorem effectiveFlareConfig_generates (d : Deserializer) (psk : String) (t : Entries)
    (h : (loadFlare d (.document t)).bind (·.psk) = none) :
    ∃ flare : FlareSection, flare.psk = some psk ∧
      effectiveFlareConfig d psk true (.document t) =
        (.ok flare, .document (saveFlareDocument flare t)) := by
  have hpsk : ((loadFlare d (.document t)).getD defaultFlareSection).psk = none := by
    cases hl : loadFlare d (.document t) with
    | none => rfl
    | some flare => simpa [hl] using h
  exact ⟨{ (loadFlare d (.document t)).getD defaultFlareSection with psk := some psk }, rfl,
    by simp [effectiveFlareConfig, hpsk, saveFlare]⟩

theorem psk_of_decodeFlare {e : Entries} {flare : FlareSection} {p : String}
    (h : decodeFlare e = some flare) (hp : get "psk" e = some (.string p)) :
    flare.psk = some p := by
  have hs : optionalString "psk" e = some (some p) := by simp [optionalString, hp]
  simp only [decodeFlare, hs, Option.bind_eq_bind, Option.bind_some, Option.bind_eq_some_iff] at h
  obtain ⟨_, _, _, _, _, _, _, _, _, _, _, _, h⟩ := h
  rw [← Option.some.inj h]

theorem configuredPsk_eq_some {f : ConfigFile} {p : String} :
    f.configuredPsk = some p ↔
      ∃ e, f.flareEntries = some e ∧ get "psk" e = some (.string p) := by
  unfold ConfigFile.configuredPsk
  cases he : f.flareEntries with
  | none => simp
  | some e =>
    simp only [Option.bind_some, Option.some.injEq, exists_eq_left']
    split <;> simp_all

theorem get_flare_of_flareEntries {t e : Entries}
    (h : (ConfigFile.document t).flareEntries = some e) :
    ∃ inline, get "flare" t = some (.table inline e) := by
  simp only [ConfigFile.flareEntries] at h
  split at h
  · next inline e' hg =>
    obtain rfl := Option.some.inj h
    exact ⟨inline, hg⟩
  · cases h

theorem exists_ne_string (p : String) : ∃ q : String, q ≠ p := by
  by_cases h : p = ""
  · exact ⟨"a", by rw [h]; decide⟩
  · exact ⟨"", fun hq => h hq.symm⟩

theorem loadFlare_of_readable {d : Deserializer} {f : ConfigFile} {p : String}
    (hr : Readable d f) (hp : f.configuredPsk = some p) :
    ∃ flare, loadFlare d f = some flare ∧ flare.psk = some p := by
  obtain ⟨e, he, hget⟩ := configuredPsk_eq_some.mp hp
  cases f with
  | document t =>
    obtain ⟨hrest, hdecode⟩ := hr
    obtain ⟨flare, hflare⟩ := Option.isSome_iff_exists.mp (hdecode e p he hget)
    obtain ⟨inline, hg⟩ := get_flare_of_flareEntries he
    exact ⟨flare, by simp [loadFlare, hrest, hg, flareField, hflare],
      psk_of_decodeFlare hflare hget⟩
  | missing | unreadable | notToml text => simp [ConfigFile.flareEntries] at he

theorem keepsConfigured_of_readable {d : Deserializer} {f : ConfigFile} (hr : Readable d f) :
    KeepsConfigured d f := by
  intro p hp
  obtain ⟨flare, hload, hpsk⟩ := loadFlare_of_readable hr hp
  constructor
  · intro events
    rw [runEvents_of_loaded hload hpsk]
  · exact serves_of_loaded hload hpsk

theorem findsGenerated_of_readable {d : Deserializer} (hd : d.rest minimalDocument = true)
    {f : ConfigFile} (hr : Readable d f) : FindsGenerated d f := by
  intro psk written flare f' _ hnone heff
  have hpsk : ((loadFlare d f).getD defaultFlareSection).psk = none := by
    cases hl : loadFlare d f with
    | none => rfl
    | some flare => simpa [hl] using hnone
  simp only [effectiveFlareConfig, hpsk] at heff
  -- the only successful writes are of the document that stands there or of the minimal one
  have hsave : ∃ t, d.rest (remove "flare" t) = true ∧ flare.psk = some psk ∧
      f' = .document (saveFlareDocument flare t) := by
    cases f with
    | document t =>
      cases written
      · simp [saveFlare] at heff
      · simp only [saveFlare, if_true, Prod.mk.injEq, Except.ok.injEq] at heff
        obtain ⟨hflare, hfile⟩ := heff
        exact ⟨t, hr.1, by rw [← hflare], by rw [← hfile, ← hflare]⟩
    | missing =>
      cases written
      · simp [saveFlare] at heff
      · simp only [saveFlare, if_true, Prod.mk.injEq, Except.ok.injEq] at heff
        obtain ⟨hflare, hfile⟩ := heff
        exact ⟨minimalDocument, hd, by rw [← hflare], by rw [← hfile, ← hflare]⟩
    | notToml text => simp [saveFlare] at heff
    | unreadable => simp [saveFlare] at heff
  obtain ⟨t, hrest, hflare, rfl⟩ := hsave
  constructor
  · exact hflare
  · apply serves_of_loaded _ hflare
    rw [loadFlare_saveFlareDocument, if_pos hrest]

theorem loadFlare_of_keepsConfigured {d : Deserializer} {t : Entries} {p : String}
    (h : KeepsConfigured d (.document t)) (hp : (ConfigFile.document t).configuredPsk = some p) :
    (loadFlare d (.document t)).isSome := by
  obtain ⟨hkept, -⟩ := h p hp
  by_contra hnone
  have hl : loadFlare d (.document t) = none := by simpa using hnone
  obtain ⟨q, hq⟩ := exists_ne_string p
  obtain ⟨flare, hflare, heff⟩ := effectiveFlareConfig_generates d q t (by simp [hl])
  have hrun : runEvents d [.start q true] (.document t) =
      .document (saveFlareDocument flare t) := by
    simp [runEvents, Event.apply, initialFlare, heff]
  have hpsk : (ConfigFile.document (saveFlareDocument flare t)).configuredPsk = some p := by
    have hentries := hkept [.start q true]
    rw [hrun] at hentries
    rw [← hp]
    simp [ConfigFile.configuredPsk, hentries]
  rw [configuredPsk_saveFlareDocument, hflare] at hpsk
  exact hq (Option.some.inj hpsk)

theorem rest_of_findsGenerated {d : Deserializer} {t : Entries}
    (h : FindsGenerated d (.document t)) (hp : (ConfigFile.document t).configuredPsk = none) :
    d.rest (remove "flare" t) = true := by
  by_contra hrest
  have hl : loadFlare d (.document t) = none := by simp [loadFlare, hrest]
  obtain ⟨flare, -, heff⟩ := effectiveFlareConfig_generates d "a" t (by simp [hl])
  obtain ⟨-, hserves⟩ := h "a" true flare _ hp (by simp [hl]) heff
  -- the second start does not see the section either and generates once more
  have hl' : loadFlare d (.document (saveFlareDocument flare t)) = none := by
    rw [loadFlare_saveFlareDocument, if_neg hrest]
  obtain ⟨flare', hflare', heff'⟩ :=
    effectiveFlareConfig_generates d "b" (saveFlareDocument flare t) (by simp [hl'])
  have hsecond := hserves [] "b" true
  simp [runEvents, initialFlare, heff', spawnFlareFrom, hflare'] at hsecond

/-- The daemon honours the recovery secret of exactly the readable files. -/
theorem secret_honoured_iff_readable (d : Deserializer) (hd : d.rest minimalDocument = true)
    (f : ConfigFile) : (KeepsConfigured d f ∧ FindsGenerated d f) ↔ Readable d f := by
  constructor
  · rintro ⟨hkeeps, hfinds⟩
    cases f with
    | document t =>
      cases hp : (ConfigFile.document t).configuredPsk with
      | none =>
        constructor
        · exact rest_of_findsGenerated hfinds hp
        · intro e p he hget
          have hsome := configuredPsk_eq_some.mpr ⟨e, he, hget⟩
          rw [hp] at hsome
          cases hsome
      | some p =>
        obtain ⟨flare, hload⟩ :=
          Option.isSome_iff_exists.mp (loadFlare_of_keepsConfigured hkeeps hp)
        have hrest : d.rest (remove "flare" t) = true := by
          by_contra hrest
          simp [loadFlare, hrest] at hload
        constructor
        · exact hrest
        · intro e q he _
          obtain ⟨inline, hg⟩ := get_flare_of_flareEntries he
          have hdecode : decodeFlare e = some flare := by
            simpa [loadFlare, hrest, hg, flareField] using hload
          simp [hdecode]
    | missing | unreadable | notToml text => trivial
  · intro hr
    exact ⟨keepsConfigured_of_readable hr, findsGenerated_of_readable hd hr⟩

/-! ### The sections as declared -/

def kindField (t : Entries) : Bool :=
  match get "kind" t with
  | some (.string s) => s = "github" ∨ s = "http"
  | _ => false

def stringField (k : String) (t : Entries) : Bool :=
  match get k t with
  | some (.string _) => true
  | _ => false

def repositoryOk : Toml → Bool
  | .table _ t => kindField t && stringField "location" t
  | _ => false

def uiOk : Toml → Bool
  | .table _ t => (optionalString "language" t).isSome
  | _ => false

def frontendSourceOk : Toml → Bool
  | .table _ t => stringField "id" t && (optionalString "name" t).isSome && kindField t &&
      stringField "location" t
  | _ => false

def frontendOk : Toml → Bool
  | .table _ t => (optionalString "active" t).isSome &&
      match get "sources" t with
      | none => true
      | some (.array items) => items.all frontendSourceOk
      | some _ => false
  | _ => false

def configOk (t : Entries) : Bool :=
  (match get "schema_version" t with
    | some (.integer n) => 0 ≤ n
    | _ => false) &&
  (get "repository" t).any repositoryOk && (get "ui" t).all uiOk && (get "frontend" t).all frontendOk

def declared : Deserializer := ⟨configOk, fun _ => none⟩

def secretOnly : ConfigFile :=
  .document [("schema_version", .integer 1),
    ("flare", .table false [("psk", .string "an-existing-recovery-secret")])]

/-- One start of the daemon replaces the secret, because `[repository]` is missing. -/
theorem secretOnly_replaced :
    secretOnly.configuredPsk = some "an-existing-recovery-secret" ∧
      (initialFlare declared "generated" true secretOnly).2.configuredPsk = some "generated" ∧
      (initialFlare declared "generated" true secretOnly).1.bind (·.psk) = some "generated" ∧
      ¬ KeepsConfigured declared secretOnly := by
  have hp : secretOnly.configuredPsk = some "an-existing-recovery-secret" := by decide +kernel
  refine ⟨hp, by decide +kernel, by decide +kernel, ?_⟩
  intro h
  have hload := loadFlare_of_keepsConfigured h hp
  revert hload
  decide +kernel

def secretWithRepository : ConfigFile :=
  .document (minimalDocument ++
    [("flare", .table false [("psk", .string "an-existing-recovery-secret")])])

theorem secretWithRepository_honoured :
    declared.rest minimalDocument = true ∧
      (KeepsConfigured declared secretWithRepository ∧
        FindsGenerated declared secretWithRepository) := by
  have hd : declared.rest minimalDocument = true := by decide +kernel
  refine ⟨hd, (secret_honoured_iff_readable declared hd secretWithRepository).mpr ?_⟩
  constructor
  · decide +kernel
  · intro e p he _
    obtain rfl : e = [("psk", .string "an-existing-recovery-secret")] := by
      simpa [ConfigFile.flareEntries, minimalDocument, Table.get] using he.symm
    decide +kernel

end LandscapeKit.Config
