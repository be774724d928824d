import Mathlib.Data.List.DropRight
import LandscapeKit.PublishOwned
import LandscapeKit.ReleaseHttp

/-!
A bucket behind a base url: where its objects are, and what `lkit` makes of the ones that a run of
`lkit-publish` puts.
-/

namespace LandscapeKit.Publish

open Text Lkb
open Mirror.Switch (Url)
open Semver (Version)

/-- A segment that a url takes into its path as it is. -/
def Plain (segment : Text) : Prop :=
  segment ≠ [] ∧ segment ≠ ['.'] ∧ segment ≠ ['.', '.'] ∧
    segment.all fun c => c.isAlphanum || c = '.' || c = '-' || c = '_'

def PlainPath (text : Text) : Prop := ∀ segment ∈ text.splitOn '/', Plain segment

instance (segment : Text) : Decidable (Plain segment) :=
  inferInstanceAs (Decidable (_ ∧ _ ∧ _ ∧ _))

instance (text : Text) : Decidable (PlainPath text) := List.decidableBAll _ _

/-- The first letters of where an object is. -/
def Key.lead {V : Type} : Key V → Text
  | .repository => ['r', 'e', 'p']
  | .stable => ['c', 'h', 'a']
  | .manifest _ | .asset _ _ => ['r', 'e', 'l']

/-- A path up to its last slash. -/
def dirOf (path : Text) : Text := path.rdropWhile (· ≠ '/')

def entry (a : RepositoryAsset Text) : Http.RepositoryAsset :=
  ⟨a.url.text.toList, a.sha256, a.size⟩

/-- A manifest as it is read, with its version spelled out. -/
def document {V : Type} (spell : V → Text) (m : ReleaseManifest V Text) :
    Http.ReleaseManifest where
  protocolVersion := m.protocolVersion
  version := spell m.version
  webserver :=
    { x86_64 := m.webserver.x86_64.map entry
      aarch64 := m.webserver.aarch64.map entry
      riscv64 := m.webserver.riscv64.map entry
      loongarch64 := m.webserver.loongarch64.map entry }
  staticArchive := entry m.staticArchive

def LocalAssets.Fits (assets : LocalAssets) : Prop :=
  ∀ a ∈ assets.iter, a.content.length < 2 ^ 64

/-- A bucket that is served at a base url, how versions are spelled and objects are written, and
what the crates promise about what is read back and about the urls that are built. -/
structure Site (V T : Type) [LinearOrder V] where
  service : Service V Text T
  crate : Http.UrlCrate
  serde : Http.Serde
  semver : Semver.Library
  version : V → Version
  render : Object V Text → Bytes
  location : Text
  base : Url
  digest : ∀ content, isSha256 (service.sha256 content) = true
  base_eq : Http.normalizeBaseUrl crate location = .ok base
  parse_relative : ∀ text, PlainPath text → crate.parse text = .error .relativeUrlWithoutBase
  join_relative : ∀ url text, Http.validateNetworkUrl url = .ok () → PlainPath text →
    crate.join url text =
      .ok { url with path := dirOf url.path ++ text, query := none, fragment := none }
  join_here : ∀ url, Http.validateNetworkUrl url = .ok () → crate.join url "./".toList =
    .ok { url with path := dirOf url.path, query := none, fragment := none }
  parse_display : ∀ v, semver.parse (semver.display (version v)) = some (version v)
  stable : ∀ v, (version v).pre = [] ∧ (version v).build = []
  plain : ∀ v, Plain (semver.display (version v))
  version_injective : Function.Injective version
  read_descriptor : serde.descriptor (render (.descriptor protocolVersion)) = some protocolVersion
  read_channel : ∀ v, serde.channel (render (.stable protocolVersion v)) =
    some ⟨protocolVersion, semver.display (version v)⟩
  read_manifest : ∀ v assets, assets.Fits →
    serde.manifest (render (.manifest (service.releaseManifest v assets))) =
      some (document (fun v => semver.display (version v)) (service.releaseManifest v assets))

namespace Site

variable {V T : Type} [LinearOrder V] (site : Site V T)

def spell (v : V) : Text := site.semver.display (site.version v)

def file (v : V) (name : Text) : Text := "releases/".toList ++ (site.spell v ++ '/' :: name)

def key : Key V → Text
  | .repository => "repository.json".toList
  | .stable => "channels/stable.json".toList
  | .manifest v => site.file v "manifest.json".toList
  | .asset v name => site.file v name.text.toList

def within (path : Text) : Url :=
  { site.base with path := site.base.path ++ path, query := none, fragment := none }

def url (k : Key V) : Url := site.within (site.key k)

/-- The files of a bucket that changes from request to request. -/
noncomputable def client (bucket : ℕ → Bucket V Text) : Http.Client :=
  fun n url allowMissing =>
    match Function.extend site.url (bucket n) (fun _ => none) url with
    | some o => .ok (some (site.render o))
    | none => if allowMissing then .ok none else .error (.unexpectedStatus Download.notFound)

def call {α : Type} (f : Http.HttpRepository → Except Http.RepositoryError α) :
    Except Http.RepositoryError α := Http.HttpRepository.new site.crate site.location >>= f

noncomputable def latest (bucket : ℕ → Bucket V Text) (architecture : Architecture) :
    Except Http.RepositoryError (Option Http.Release) :=
  site.call fun repo => Http.latest site.crate site.serde site.semver repo (site.client bucket)
    architecture

noncomputable def release (bucket : ℕ → Bucket V Text) (v : V) (architecture : Architecture) :
    Except Http.RepositoryError Http.Release :=
  site.call fun repo => Http.release site.crate site.serde site.semver repo (site.client bucket)
    (site.version v) architecture

noncomputable def latestStaticArchive (bucket : ℕ → Bucket V Text) :
    Except Http.RepositoryError Http.Asset :=
  site.call fun repo => Http.latestStaticArchive site.crate site.serde site.semver repo
    (site.client bucket)

def asset (v : V) (a : LocalAsset) (encoding : Http.AssetEncoding) : Http.Asset :=
  ⟨site.url (.asset v a.name), site.service.sha256 a.content, a.content.length, encoding⟩

end Site

def LocalAsset.of (name : AssetName) (content : { content : Bytes // content ≠ [] }) : LocalAsset :=
  ⟨name, content, content.2⟩

def LocalAssets.pages (assets : LocalAssets) : LocalAsset := .of .staticArchive assets.staticArchive

def LocalAssets.webserver (assets : LocalAssets) : Architecture → Option LocalAsset
  | .x86_64 => some (.of .webserverX86 assets.webserverX86)
  | .aarch64 => some (.of .webserverAarch64 assets.webserverAarch64)
  | .riscv64 | .loongarch64 => none

namespace Site

variable {V T : Type} [LinearOrder V] (site : Site V T)

def staticArchive (j : Job V) : Http.Asset := site.asset j.version j.assets.pages .identity

/-- What the run of a job has to offer for an architecture. -/
def offer (j : Job V) (architecture : Architecture) : Except Http.RepositoryError Http.Release :=
  match j.assets.webserver architecture with
  | none => .error (.missingArchitecture (site.version j.version) architecture)
  | some a => .ok ⟨site.version j.version, site.asset j.version a .zstd, site.staticArchive j⟩

theorem base_safe : Http.validateNetworkUrl site.base = .ok () ∧ ['/'] <:+ site.base.path :=
  Http.normalizeBaseUrl_ok site.base_eq

theorem noSlash_of_plain {segment : Text} (h : Plain segment) : '/' ∉ segment := by
  intro hmem
  exact absurd (List.all_eq_true.mp h.2.2.2 '/' hmem) (by decide)

theorem dirOf_append (dir : Text) {name : Text} (h : '/' ∉ name) :
    dirOf (dir ++ '/' :: name) = dir ++ ['/'] := by
  have hname : ∀ c ∈ name.reverse, decide (c ≠ '/') = true := by
    intro c hc
    exact decide_eq_true fun hslash => h (hslash ▸ List.mem_reverse.mp hc)
  rw [dirOf, List.rdropWhile, List.reverse_append, List.reverse_cons, List.append_assoc,
    List.dropWhile_append_of_pos hname]
  simp

theorem plainPath_append {segment rest : Text} (h : Plain segment) (hrest : PlainPath rest) :
    PlainPath (segment ++ '/' :: rest) := by
  intro t ht
  rw [List.splitOn_append_cons_self_of_not_mem (noSlash_of_plain h), List.mem_cons] at ht
  rcases ht with rfl | ht
  · exact h
  · exact hrest t ht

theorem plainPath_name (name : AssetName) : PlainPath name.text.toList := by
  cases name <;> decide +kernel

theorem plainPath_key (k : Key V) : PlainPath (site.key k) := by
  have hreleases : Plain "releases".toList := by decide +kernel
  have hfile (v : V) {name : Text} (hname : PlainPath name) : PlainPath (site.file v name) :=
    plainPath_append hreleases (plainPath_append (site.plain v) hname)
  cases k with
  | repository =>
    show PlainPath "repository.json".toList
    decide +kernel
  | stable =>
    show PlainPath "channels/stable.json".toList
    decide +kernel
  | manifest v => exact hfile v (by decide +kernel)
  | asset v name => exact hfile v (plainPath_name name)

theorem joined_key (k : Key V) :
    site.crate.joined site.base (site.key k) = .ok (site.url k) := by
  obtain ⟨hsafe, dir, hdir⟩ := site.base_safe
  have hpath : dirOf site.base.path = site.base.path := by
    rw [← hdir]
    exact dirOf_append dir List.not_mem_nil
  rw [Http.UrlCrate.joined, site.join_relative _ _ hsafe (site.plainPath_key k), hpath]
  rfl

def stem (v : V) : Text := site.base.path ++ ("releases/".toList ++ site.spell v)

def dir (v : V) : Url :=
  { site.base with path := site.stem v ++ ['/'], query := none, fragment := none }

theorem path_within_file (v : V) (name : Text) :
    (site.within (site.file v name)).path = site.stem v ++ '/' :: name := by
  show site.base.path ++ ("releases/".toList ++ (site.spell v ++ '/' :: name)) = _
  rw [stem, List.append_assoc, List.append_assoc]

theorem path_manifest (v : V) :
    (site.url (.manifest v)).path = site.stem v ++ '/' :: "manifest.json".toList :=
  site.path_within_file v _

theorem path_asset (v : V) (name : AssetName) :
    (site.url (.asset v name)).path = (site.stem v ++ ['/']) ++ name.text.toList := by
  rw [List.append_assoc, List.singleton_append]
  exact site.path_within_file v _

theorem joined_here (v : V) :
    site.crate.joined (site.url (.manifest v)) "./".toList = .ok (site.dir v) := by
  have hsafe : Http.validateNetworkUrl (site.url (.manifest v)) = .ok () := site.base_safe.1
  have hpath : dirOf (site.url (.manifest v)).path = site.stem v ++ ['/'] := by
    rw [path_manifest]
    exact dirOf_append _ (by decide +kernel)
  rw [Http.UrlCrate.joined, site.join_here _ hsafe, hpath]
  rfl

theorem joined_name (v : V) (name : AssetName) :
    site.crate.joined (site.dir v) name.text.toList = .ok (site.url (.asset v name)) := by
  have hsafe : Http.validateNetworkUrl (site.dir v) = .ok () := site.base_safe.1
  have hdir : dirOf (site.dir v).path = site.stem v ++ ['/'] :=
    dirOf_append _ List.not_mem_nil
  rw [Http.UrlCrate.joined, site.join_relative _ _ hsafe (plainPath_name name), hdir,
    ← path_asset]
  rfl

theorem resolveAsset_entry (v : V) (a : LocalAsset) (encoding : Http.AssetEncoding) :
    Http.resolveAsset site.crate (site.dir v) (entry (site.service.repositoryAsset a)) encoding =
      .ok (site.asset v a encoding) := by
  have hurl : Http.resolveUrl site.crate (site.dir v) a.name.text.toList =
      .ok (site.url (.asset v a.name)) := by
    have hinside : (site.dir v).path <+: (site.url (.asset v a.name)).path :=
      ⟨a.name.text.toList, (site.path_asset v a.name).symm⟩
    rw [Http.resolveUrl, site.parse_relative _ (plainPath_name a.name)]
    show site.crate.joined (site.dir v) a.name.text.toList >>= _ = _
    rw [joined_name]
    -- the joined url differs from the base in its path only, and goes on behind it
    exact if_neg fun h => h.elim (absurd rfl) fun h => h.elim (absurd rfl) fun h =>
      h.elim (absurd rfl) (absurd hinside)
  have hchecked : Http.Asset.checked (site.url (.asset v a.name))
      (site.service.sha256 a.content) a.content.length encoding = .ok (site.asset v a encoding) := by
    have hsize : a.content.length ≠ 0 := fun h => a.nonempty (List.length_eq_zero_iff.mp h)
    rw [Http.Asset.checked, if_neg hsize, if_neg (by simp [site.digest])]
    rfl
  show Http.resolveUrl site.crate (site.dir v) a.name.text.toList >>= _ = _
  rw [hurl]
  show Http.validateNetworkUrl site.base >>= _ = _
  rw [site.base_safe.1]
  exact hchecked

theorem take_key (k : Key V) : (site.key k).take 3 = k.lead := by
  cases k <;> rfl

theorem url_injective : Function.Injective site.url := by
  have hversion {v w : V} (h : site.spell v = site.spell w) : v = w := by
    have hv := site.parse_display v
    rw [show site.semver.display (site.version v) = _ from h] at hv
    exact site.version_injective (Option.some.inj (hv.symm.trans (site.parse_display w)))
  have hfile {v w : V} {name name' : Text} (h : site.file v name = site.file w name') :
      v = w ∧ name = name' := by
    have hrest : site.spell v ++ '/' :: name = site.spell w ++ '/' :: name' :=
      List.append_cancel_left h
    -- a version has no slash, so it ends at the first one
    have hcut := congrArg (fun t : Text => t.splitOn '/') hrest
    simp only [List.splitOn_append_cons_self_of_not_mem (noSlash_of_plain (site.plain _)), spell,
      List.cons.injEq] at hcut
    have hvw : v = w := hversion hcut.1
    subst hvw
    exact ⟨rfl, (List.cons.inj (List.append_cancel_left hrest)).2⟩
  intro k k' h
  have hkey : site.key k = site.key k' := List.append_cancel_left (congrArg Url.path h)
  -- the first letters tell the kinds of keys apart
  have hlead : k.lead = k'.lead := by rw [← site.take_key, ← site.take_key, hkey]
  cases k <;> cases k' <;> simp only [Key.lead, List.cons.injEq, Char.reduceEq, false_and,
    and_false] at hlead
  case repository.repository | stable.stable => rfl
  case manifest.manifest => rw [(hfile hkey).1]
  case manifest.asset v w name => cases name <;> exact absurd (hfile hkey).2 (by decide)
  case asset.manifest v name w => cases name <;> exact absurd (hfile hkey).2 (by decide)
  case asset.asset v name w name' =>
    obtain ⟨rfl, hname⟩ := hfile hkey
    cases name <;> cases name' <;> first | rfl | exact absurd hname (by decide)

def repository : Http.HttpRepository := ⟨site.base, site.url .repository, site.url .stable⟩

theorem new_eq : Http.HttpRepository.new site.crate site.location = .ok site.repository := by
  rw [Http.HttpRepository.new, site.base_eq]
  show site.crate.joined site.base (site.key .repository) >>= _ = _
  rw [joined_key]
  show site.crate.joined site.base (site.key .stable) >>= _ = _
  rw [joined_key]
  rfl

theorem client_url (bucket : ℕ → Bucket V Text) (n : ℕ) (k : Key V) (allowMissing : Bool) :
    site.client bucket n (site.url k) allowMissing =
      match bucket n k with
      | some o => .ok (some (site.render o))
      | none => if allowMissing then .ok none else .error (.unexpectedStatus Download.notFound) := by
  rw [client, site.url_injective.extend_apply]

theorem parsedVersion_spell (v : V) :
    Http.parsedVersion site.semver protocolVersion (site.spell v) = .ok (site.version v) := by
  have hstable : ¬((site.version v).pre ≠ [] ∨ (site.version v).build ≠ []) := by
    simp [site.stable v]
  show Http.parseStableVersion site.semver (site.spell v) = _
  rw [Http.parseStableVersion, spell, site.parse_display]
  show (if _ then _ else _) = _
  rw [if_neg hstable, if_neg (by simp)]

section Calls

variable (bucket : ℕ → Bucket V Text) {n : ℕ}

def missing : Http.RepositoryError := .transfer (.unexpectedStatus Download.notFound)

theorem validateRepository_none (h : bucket 0 .repository = none) :
    Http.validateRepository site.serde site.repository (site.client bucket) =
      .error missing := by
  rw [Http.validateRepository, Http.getJson, repository, client_url, h]
  rfl

theorem validateRepository_some (h : bucket 0 .repository ≠ none)
    (hdescriptor : HasDescriptor (bucket 0)) :
    Http.validateRepository site.serde site.repository (site.client bucket) = .ok () := by
  obtain ⟨o, ho⟩ := Option.ne_none_iff_exists'.mp h
  rw [Http.validateRepository, Http.getJson, repository, client_url, ho, hdescriptor o ho]
  simp only [site.read_descriptor]
  rfl

theorem stableVersion_none (h : bucket 1 .stable = none) :
    Http.stableVersion site.serde site.semver site.repository (site.client bucket) =
      .ok none := by
  rw [Http.stableVersion, Http.getJson, repository, client_url, h]
  rfl

theorem stableVersion_some {v : V} (h : bucket 1 .stable = some (.stable protocolVersion v)) :
    Http.stableVersion site.serde site.semver site.repository (site.client bucket) =
      .ok (some (site.version v)) := by
  rw [Http.stableVersion, Http.getJson, repository, client_url, h]
  simp only [site.read_channel]
  show Http.parsedVersion site.semver protocolVersion (site.spell v) >>= _ = _
  rw [parsedVersion_spell]
  rfl

theorem joined_manifest (v : V) : site.crate.joined site.repository.baseUrl
    ("releases/".toList ++ site.semver.display (site.version v) ++ "/manifest.json".toList) =
      .ok (site.url (.manifest v)) := by
  have hkey : "releases/".toList ++ site.spell v ++ "/manifest.json".toList =
      site.key (.manifest v) := List.append_assoc ..
  exact hkey ▸ site.joined_key (.manifest v)

theorem fetchManifest_some {j : Job V} (hfits : j.assets.Fits)
    (h : bucket n (.manifest j.version) = some (site.service.manifestOf j)) :
    Http.fetchManifest site.crate site.serde site.semver site.repository (site.client bucket) n
      (site.version j.version) = .ok (site.url (.manifest j.version),
        document site.spell (site.service.releaseManifest j.version j.assets)) := by
  rw [Http.fetchManifest, joined_manifest]
  show Http.getJson _ _ n (site.url (.manifest j.version)) true >>= _ = _
  rw [Http.getJson, client_url, h]
  simp only [Service.manifestOf, site.read_manifest j.version j.assets hfits]
  show Http.parsedVersion site.semver protocolVersion (site.spell j.version) >>= _ = _
  rw [parsedVersion_spell]
  exact if_neg (fun hne => hne rfl)

theorem releaseManifest_some {j : Job V} (hfits : j.assets.Fits)
    (h : bucket n (.manifest j.version) = some (site.service.manifestOf j))
    (architecture : Architecture) :
    Http.releaseManifest site.crate site.serde site.semver site.repository (site.client bucket) n
      (site.version j.version) architecture = site.offer j architecture := by
  have hoffer (a : LocalAsset) : (do
      let base ← site.crate.joined (site.url (.manifest j.version)) "./".toList
      let webserver ← Http.resolveAsset site.crate base
        (entry (site.service.repositoryAsset a)) .zstd
      let staticArchive ← Http.resolveAsset site.crate base
        (entry (site.service.repositoryAsset j.assets.pages)) .identity
      return (⟨site.version j.version, webserver, staticArchive⟩ : Http.Release)) =
        .ok ⟨site.version j.version, site.asset j.version a .zstd, site.staticArchive j⟩ := by
    rw [joined_here]
    show Http.resolveAsset site.crate (site.dir j.version) _ .zstd >>= _ = _
    rw [resolveAsset_entry]
    show Http.resolveAsset site.crate (site.dir j.version) _ .identity >>= _ = _
    rw [resolveAsset_entry]
    rfl
  rw [Http.releaseManifest, site.fetchManifest_some bucket hfits h]
  cases architecture with
  | x86_64 | aarch64 => exact hoffer _
  | riscv64 | loongarch64 => rfl

theorem staticArchive_some {j : Job V} (hfits : j.assets.Fits)
    (h : bucket n (.manifest j.version) = some (site.service.manifestOf j)) : (do
      let (url, manifest) ← Http.fetchManifest site.crate site.serde site.semver site.repository
        (site.client bucket) n (site.version j.version)
      let base ← site.crate.joined url "./".toList
      Http.resolveAsset site.crate base manifest.staticArchive .identity) =
        .ok (site.staticArchive j) := by
  rw [site.fetchManifest_some bucket hfits h]
  show site.crate.joined (site.url (.manifest j.version)) "./".toList >>= _ = _
  rw [joined_here]
  exact site.resolveAsset_entry j.version j.assets.pages .identity

end Calls

end Site

end LandscapeKit.Publish
