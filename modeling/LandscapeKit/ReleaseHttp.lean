import LandscapeKit.LibSemver
import LandscapeKit.LkbContainer
import LandscapeKit.MirrorBackends
import LandscapeKit.ReleaseDownload

/-!
A release repository at a base url: `release/repository/http`, with the documents of the protocol.
A call makes a few requests, one after the other, and the client answers the n-th of them.
-/

namespace LandscapeKit.Http

open Text Lkb Mirror.Switch
open Semver (Version Library)

inductive ParseError
  | relativeUrlWithoutBase
  | other

/-- What is used of the `url` crate. -/
structure UrlCrate where
  parse : Text → Except ParseError Url
  join : Url → Text → Except ParseError Url

inductive RepositoryError
  | invalidUrl
  | unsafeUrl
  | transfer (error : Download.RepositoryError)
  | invalidJson
  | unsupportedProtocol (version : ℕ)
  | invalidRelease
  | versionUnavailable (version : Version)
  | missingArchitecture (version : Version) (architecture : Architecture)
  /-- an `expect` that failed -/
  | panicked

section Urls

def isLoopbackHost (host : Option Text) : Bool :=
  host = some "localhost".toList || host = some "127.0.0.1".toList ||
    host = some "::1".toList || host = some "[::1]".toList

def validateNetworkUrl (url : Url) : Except RepositoryError Unit :=
  if url.username ≠ [] ∨ url.password.isSome then .error .unsafeUrl
  else if url.scheme = "https".toList then .ok ()
  else if url.scheme = "http".toList ∧ isLoopbackHost url.host then .ok ()
  else .error .unsafeUrl

def portOrKnownDefault (url : Url) : Option ℕ :=
  url.port <|>
    if url.scheme = "http".toList ∨ url.scheme = "ws".toList then some 80
    else if url.scheme = "https".toList ∨ url.scheme = "wss".toList then some 443
    else if url.scheme = "ftp".toList then some 21
    else none

def UrlCrate.joined (C : UrlCrate) (url : Url) (text : Text) : Except RepositoryError Url :=
  (C.join url text).mapError fun _ => .invalidUrl

def normalizeBaseUrl (C : UrlCrate) (value : Text) : Except RepositoryError Url := do
  let url ← (C.parse value).mapError fun _ => .invalidUrl
  validateNetworkUrl url
  if url.query.isSome ∨ url.fragment.isSome then .error .unsafeUrl
  else if ['/'] <:+ url.path then .ok url
  else .ok { url with path := url.path ++ ['/'] }

theorem bind_ok {α β : Type} {x : Except RepositoryError α} {f : α → Except RepositoryError β}
    {b : β} (h : x >>= f = .ok b) : ∃ a, x = .ok a ∧ f a = .ok b := by
  cases x with
  | error e => cases h
  | ok a => exact ⟨a, rfl, h⟩

theorem normalizeBaseUrl_ok {C : UrlCrate} {value : Text} {base : Url}
    (h : normalizeBaseUrl C value = .ok base) :
    validateNetworkUrl base = .ok () ∧ ['/'] <:+ base.path := by
  obtain ⟨url, -, h⟩ := bind_ok h
  obtain ⟨_, hsafe, h⟩ := bind_ok h
  split at h
  · cases h
  · split at h
    · next hslash =>
      cases h
      exact ⟨hsafe, hslash⟩
    · -- the slash is added behind the path, and nothing else changes
      cases h
      exact ⟨hsafe, url.path, rfl⟩

end Urls

section Assets

inductive AssetEncoding
  | identity
  | zstd

structure Asset where
  url : Url
  sha256 : Text
  size : ℕ
  encoding : AssetEncoding

def Asset.checked (url : Url) (sha256 : Text) (size : ℕ) (encoding : AssetEncoding) :
    Except RepositoryError Asset :=
  if size = 0 then .error .invalidRelease
  else if isSha256 sha256 = false then .error .invalidRelease
  else .ok ⟨url, sha256, size, encoding⟩

structure Release where
  version : Version
  webserver : Asset
  staticArchive : Asset

end Assets

section Documents

structure RepositoryAsset where
  url : Text
  sha256 : Text
  size : ℕ

structure WebserverAssets where
  x86_64 : Option RepositoryAsset
  aarch64 : Option RepositoryAsset
  riscv64 : Option RepositoryAsset
  loongarch64 : Option RepositoryAsset

def WebserverAssets.get (assets : WebserverAssets) : Architecture → Option RepositoryAsset
  | .x86_64 => assets.x86_64
  | .aarch64 => assets.aarch64
  | .riscv64 => assets.riscv64
  | .loongarch64 => assets.loongarch64

structure ReleaseManifest where
  protocolVersion : ℕ
  version : Text
  webserver : WebserverAssets
  staticArchive : RepositoryAsset

structure StableChannel where
  protocolVersion : ℕ
  version : Text

/-- What is used of `serde_json`: how it reads the documents. -/
structure Serde where
  descriptor : Bytes → Option ℕ
  channel : Bytes → Option StableChannel
  manifest : Bytes → Option ReleaseManifest

def validateProtocol (version : ℕ) : Except RepositoryError Unit :=
  if version = 1 then .ok () else .error (.unsupportedProtocol version)

def parseStableVersion (S : Library) (value : Text) : Except RepositoryError Version :=
  match S.parse value with
  | none => .error .invalidRelease
  | some version =>
    if version.pre ≠ [] ∨ version.build ≠ [] then .error .invalidRelease
    else if S.display version ≠ value then .error .invalidRelease
    else .ok version

/-- `parsed_version` of a channel and of a manifest. -/
def parsedVersion (S : Library) (protocol : ℕ) (version : Text) :
    Except RepositoryError Version := do
  validateProtocol protocol
  parseStableVersion S version

end Documents

/-- What `get_metadata` makes of the n-th request, which may find nothing or not. -/
abbrev Client := ℕ → Url → Bool → Except Download.RepositoryError (Option Bytes)

structure HttpRepository where
  baseUrl : Url
  repositoryUrl : Url
  stableUrl : Url

def HttpRepository.new (C : UrlCrate) (value : Text) : Except RepositoryError HttpRepository := do
  let baseUrl ← normalizeBaseUrl C value
  let repositoryUrl ← C.joined baseUrl "repository.json".toList
  let stableUrl ← C.joined baseUrl "channels/stable.json".toList
  return ⟨baseUrl, repositoryUrl, stableUrl⟩

section Calls

variable (C : UrlCrate) (J : Serde) (S : Library) (repo : HttpRepository) (get : Client)

def getJson {α : Type} (read : Bytes → Option α) (n : ℕ) (url : Url) (allowMissing : Bool) :
    Except RepositoryError (Option α) :=
  match get n url allowMissing with
  | .error e => .error (.transfer e)
  | .ok none => .ok none
  | .ok (some body) =>
    match read body with
    | none => .error .invalidJson
    | some document => .ok (some document)

def validateRepository : Except RepositoryError Unit := do
  match ← getJson get J.descriptor 0 repo.repositoryUrl false with
  | none => .error .panicked
  | some version => validateProtocol version

/-- The version of the stable channel, for the calls that look for the latest one. -/
def stableVersion : Except RepositoryError (Option Version) := do
  match ← getJson get J.channel 1 repo.stableUrl true with
  | none => return none
  | some channel => return some (← parsedVersion S channel.protocolVersion channel.version)

def fetchManifest (n : ℕ) (version : Version) :
    Except RepositoryError (Url × ReleaseManifest) := do
  let url ← C.joined repo.baseUrl
    ("releases/".toList ++ S.display version ++ "/manifest.json".toList)
  match ← getJson get J.manifest n url true with
  | none => .error (.versionUnavailable version)
  | some manifest => do
    let found ← parsedVersion S manifest.protocolVersion manifest.version
    if found ≠ version then .error .invalidRelease else return (url, manifest)

/-- A relative url stays in the directory of its release. -/
def resolveUrl (base : Url) (text : Text) : Except RepositoryError Url :=
  match C.parse text with
  | .ok url => .ok url
  | .error .other => .error .invalidUrl
  | .error .relativeUrlWithoutBase => do
    let url ← C.joined base text
    if url.scheme ≠ base.scheme ∨ url.host ≠ base.host ∨
        portOrKnownDefault url ≠ portOrKnownDefault base ∨ ¬base.path <+: url.path then
      .error .unsafeUrl
    else return url

def resolveAsset (base : Url) (asset : RepositoryAsset) (encoding : AssetEncoding) :
    Except RepositoryError Asset := do
  let url ← resolveUrl C base asset.url
  validateNetworkUrl url
  Asset.checked url asset.sha256 asset.size encoding

def releaseManifest (n : ℕ) (version : Version) (architecture : Architecture) :
    Except RepositoryError Release := do
  let (url, manifest) ← fetchManifest C J S repo get n version
  match manifest.webserver.get architecture with
  | none => .error (.missingArchitecture version architecture)
  | some webserver => do
    let base ← C.joined url "./".toList
    let webserver ← resolveAsset C base webserver .zstd
    let staticArchive ← resolveAsset C base manifest.staticArchive .identity
    return ⟨version, webserver, staticArchive⟩

def latest (architecture : Architecture) : Except RepositoryError (Option Release) := do
  validateRepository J repo get
  match ← stableVersion J S repo get with
  | none => return none
  | some version => return some (← releaseManifest C J S repo get 2 version architecture)

def release (version : Version) (architecture : Architecture) :
    Except RepositoryError Release := do
  validateRepository J repo get
  if version.pre ≠ [] then .error .invalidRelease
  else releaseManifest C J S repo get 1 version architecture

def latestStaticArchive : Except RepositoryError Asset := do
  validateRepository J repo get
  match ← stableVersion J S repo get with
  | none => .error .invalidRelease
  | some version => do
    let (url, manifest) ← fetchManifest C J S repo get 2 version
    let base ← C.joined url "./".toList
    resolveAsset C base manifest.staticArchive .identity

end Calls

/-! Whatever a server answers: what is offered for download has been checked. -/

section Checks

variable {C : UrlCrate} {J : Serde} {S : Library} {repo : HttpRepository} {get : Client}

/-- An asset that an entry of a manifest may lead to, and does not lead out of its release by a
relative url. -/
structure Resolved (C : UrlCrate) (base : Url) (entry : RepositoryAsset) (asset : Asset) :
    Prop where
  safe : validateNetworkUrl asset.url = .ok ()
  sha256 : asset.sha256 = entry.sha256 ∧ isSha256 asset.sha256 = true
  size : asset.size = entry.size ∧ asset.size ≠ 0
  inside : C.parse entry.url = .error .relativeUrlWithoutBase →
    asset.url.scheme = base.scheme ∧ asset.url.host = base.host ∧
      portOrKnownDefault asset.url = portOrKnownDefault base ∧ base.path <+: asset.url.path

theorem resolveAsset_ok {base : Url} {entry : RepositoryAsset} {encoding : AssetEncoding}
    {asset : Asset} (h : resolveAsset C base entry encoding = .ok asset) :
    Resolved C base entry asset := by
  obtain ⟨url, hurl, h⟩ := bind_ok h
  obtain ⟨_, hsafe, h⟩ := bind_ok h
  rw [Asset.checked] at h
  split at h
  · cases h
  next hsize =>
    split at h
    · cases h
    next hsha256 =>
      cases h
      refine ⟨hsafe, ⟨rfl, by simpa using hsha256⟩, ⟨rfl, hsize⟩, fun hrelative => ?_⟩
      rw [resolveUrl, hrelative] at hurl
      obtain ⟨joined, -, hurl⟩ := bind_ok hurl
      split at hurl
      · cases hurl
      next hinside =>
        cases hurl
        simpa [not_or] using hinside

theorem parsedVersion_ok {protocol : ℕ} {text : Text} {version : Version}
    (h : parsedVersion S protocol text = .ok version) :
    protocol = 1 ∧ S.display version = text ∧ version.pre = [] ∧ version.build = [] := by
  obtain ⟨_, hprotocol, h⟩ := bind_ok h
  have hone : protocol = 1 := by
    rw [validateProtocol] at hprotocol
    split at hprotocol
    · assumption
    · cases hprotocol
  rw [parseStableVersion] at h
  split at h
  · cases h
  next parsed _ =>
    split at h
    · cases h
    next hstable =>
      split at h
      · cases h
      next hdisplay =>
        cases h
        simp only [not_or, not_not] at hstable hdisplay
        exact ⟨hone, hdisplay, hstable⟩

/-- A release that the answer to the n-th request describes. -/
structure Described (C : UrlCrate) (J : Serde) (S : Library) (repo : HttpRepository) (get : Client)
    (n : ℕ) (architecture : Architecture) (r : Release) : Prop where
  stable : r.version.pre = [] ∧ r.version.build = []
  manifest : ∃ url body manifest webserver base,
    C.joined repo.baseUrl
      ("releases/".toList ++ S.display r.version ++ "/manifest.json".toList) = .ok url ∧
    get n url true = .ok (some body) ∧ J.manifest body = some manifest ∧
    manifest.protocolVersion = 1 ∧ manifest.version = S.display r.version ∧
    manifest.webserver.get architecture = some webserver ∧
    C.joined url "./".toList = .ok base ∧ Resolved C base webserver r.webserver ∧
    Resolved C base manifest.staticArchive r.staticArchive

theorem getJson_ok {α : Type} {read : Bytes → Option α} {n : ℕ} {url : Url} {allowMissing : Bool}
    {document : α} (h : getJson get read n url allowMissing = .ok (some document)) :
    ∃ body, get n url allowMissing = .ok (some body) ∧ read body = some document := by
  rw [getJson] at h
  split at h
  · cases h
  · cases h
  next body hbody =>
    split at h
    · cases h
    next found hread =>
      cases h
      exact ⟨body, hbody, hread⟩

theorem releaseManifest_ok {n : ℕ} {version : Version} {architecture : Architecture} {r : Release}
    (h : releaseManifest C J S repo get n version architecture = .ok r) :
    r.version = version ∧ Described C J S repo get n architecture r := by
  obtain ⟨⟨url, manifest⟩, hfetch, h⟩ := bind_ok h
  obtain ⟨url', hurl, hfetch⟩ := bind_ok hfetch
  obtain ⟨answer, hjson, hfetch⟩ := bind_ok hfetch
  cases answer with
  | none => cases hfetch
  | some found =>
    obtain ⟨parsed, hparsed, hfetch⟩ := bind_ok hfetch
    split at hfetch
    · cases hfetch
    next hversion =>
      cases hfetch
      obtain rfl := not_not.mp hversion
      obtain ⟨body, hbody, hread⟩ := getJson_ok hjson
      obtain ⟨hprotocol, hdisplay, hstable⟩ := parsedVersion_ok hparsed
      cases hget : manifest.webserver.get architecture with
      | none =>
        simp only [hget] at h
        cases h
      | some webserver =>
        simp only [hget] at h
        obtain ⟨base, hbase, h⟩ := bind_ok h
        obtain ⟨asset, hasset, h⟩ := bind_ok h
        obtain ⟨pages, hpages, h⟩ := bind_ok h
        cases h
        exact ⟨rfl, hstable, url, body, manifest, webserver, base, hurl, hbody, hread, hprotocol,
          hdisplay.symm, hget, hbase, resolveAsset_ok hasset, resolveAsset_ok hpages⟩

variable (C J S repo get)

/-- Whatever a server answers, and however the answers of one call differ: a release that is
returned is stable, is described by the manifest under its own version, and leads to checked
assets only; the one asked for by its version is that version. -/
theorem offered_described (architecture : Architecture) (r : Release) :
    (latest C J S repo get architecture = .ok (some r) →
      Described C J S repo get 2 architecture r) ∧
    ∀ version, release C J S repo get version architecture = .ok r →
      r.version = version ∧ Described C J S repo get 1 architecture r := by
  constructor
  · intro h
    obtain ⟨_, -, h⟩ := bind_ok h
    obtain ⟨channel, -, h⟩ := bind_ok h
    cases channel with
    | none => cases h
    | some version =>
      obtain ⟨found, hfound, h⟩ := bind_ok h
      cases h
      exact (releaseManifest_ok hfound).2
  · intro version h
    obtain ⟨_, -, h⟩ := bind_ok h
    split at h
    · cases h
    · exact releaseManifest_ok h

end Checks

end LandscapeKit.Http
