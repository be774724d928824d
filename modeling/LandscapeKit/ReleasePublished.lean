import Mathlib.Tactic.DeriveCountable
import LandscapeKit.DaemonOutput
import LandscapeKit.ReleaseSite

/-!
What `lkit` reads from a bucket that `lkit-publish` writes to at the same time. The requests of one
call see the bucket at later and later moments, and what they find still fits together: a release
that is offered is that of one run, and stays.
-/

namespace LandscapeKit.Publish

open Text Lkb
open Mirror.Switch (Url)
open Semver (Version)

section Readers

variable {V T ι : Type} [LinearOrder V] [DecidableEq T] [DecidableEq ι] (site : Site V T)
  (job : ι → Job V) (events : ℕ → List (Event ι)) (architecture : Architecture)

/-- The bucket when the n-th request is answered. -/
def served (n : ℕ) : Bucket V Text := (moment site.service job events n).bucket

/-- From the n-th request on the release is that of the run of a job, and so are its files. -/
structure OfferedFrom (n : ℕ) (j : Job V) : Prop where
  manifest : ∀ m ≥ n, served site job events m (.manifest j.version) =
    some (site.service.manifestOf j)
  files : ∀ m ≥ n, ∀ a ∈ j.assets.iter,
    Present site.service (served site job events m) j.version (site.service.repositoryAsset a)

variable {site job events}

theorem OfferedFrom.of_manifest {n : ℕ} {j : Job V}
    (h : served site job events n (.manifest j.version) = some (site.service.manifestOf j)) :
    OfferedFrom site job events n j := by
  have hthere (m : ℕ) (hm : m ≥ n) : served site job events m (.manifest j.version) =
      some (site.service.manifestOf j) :=
    (moment_grows site.service job events hm).manifest j.version _ h
  refine ⟨hthere, fun m hm a ha => ?_⟩
  obtain ⟨manifest, hsame, -, hlisted⟩ :=
    (moment_sound site.service job events m).1.consistent.manifests j.version _ (hthere m hm)
  apply hlisted
  rw [← Object.manifest.inj hsame, listed_releaseManifest]
  exact List.mem_map_of_mem ha

theorem offeredFrom {n : ℕ} {v : V} (h : served site job events n (.manifest v) ≠ none) :
    ∃ i, (job i).version = v ∧ OfferedFrom site job events n (job i) := by
  obtain ⟨o, ho⟩ := Option.ne_none_iff_exists'.mp h
  obtain ⟨i, rfl, rfl⟩ := (moment_sound site.service job events n).2.1.manifest v o ho
  exact ⟨i, rfl, .of_manifest ho⟩

theorem channel_eq {n : ℕ} {o : Object V Text} (h : served site job events n .stable = some o) :
    ∃ v, o = .stable protocolVersion v ∧ served site job events n (.manifest v) ≠ none :=
  (moment_sound site.service job events n).1.consistent.stable o h

theorem channel_of_version {n : ℕ} {v : V}
    (h : stableVersion (served site job events n) = some v) :
    served site job events n .stable = some (.stable protocolVersion v) ∧
      served site job events n (.manifest v) ≠ none := by
  cases hstable : served site job events n .stable with
  | none =>
    rw [stableVersion, hstable] at h
    cases h
  | some o =>
    obtain ⟨w, rfl, hmanifest⟩ := channel_eq hstable
    rw [stableVersion, hstable] at h
    cases h
    exact ⟨rfl, hmanifest⟩

omit [DecidableEq T] in
theorem call_eq {α : Type} (f : Http.HttpRepository → Except Http.RepositoryError α) :
    site.call f = f site.repository := by
  rw [Site.call, site.new_eq]
  rfl

theorem latest_of_channel (hready : served site job events 0 .repository ≠ none) {j : Job V}
    (hfits : j.assets.Fits)
    (hchannel : served site job events 1 .stable = some (.stable protocolVersion j.version))
    (hoffered : OfferedFrom site job events 1 j) :
    site.latest (served site job events) architecture =
      (site.offer j architecture).map some := by
  have hdescriptor := (moment_sound site.service job events 0).2.2
  rw [Site.latest, call_eq, Http.latest, site.validateRepository_some _ hready hdescriptor]
  show Http.stableVersion _ _ _ _ >>= _ = _
  rw [site.stableVersion_some _ hchannel]
  -- the manifest that was there at the second request is there at the third
  show Http.releaseManifest _ _ _ _ _ 2 _ _ >>= _ = _
  rw [site.releaseManifest_some _ hfits (hoffered.manifest 2 (by omega))]
  cases site.offer j architecture <;> rfl

theorem latestStaticArchive_of_channel (hready : served site job events 0 .repository ≠ none)
    {j : Job V} (hfits : j.assets.Fits)
    (hchannel : served site job events 1 .stable = some (.stable protocolVersion j.version))
    (hoffered : OfferedFrom site job events 1 j) :
    site.latestStaticArchive (served site job events) = .ok (site.staticArchive j) := by
  have hdescriptor := (moment_sound site.service job events 0).2.2
  rw [Site.latestStaticArchive, call_eq, Http.latestStaticArchive,
    site.validateRepository_some _ hready hdescriptor]
  show Http.stableVersion _ _ _ _ >>= _ = _
  rw [site.stableVersion_some _ hchannel]
  exact site.staticArchive_some _ hfits (hoffered.manifest 2 (by omega))

theorem release_of_manifest (hready : served site job events 0 .repository ≠ none) {j : Job V}
    (hfits : j.assets.Fits) (hoffered : OfferedFrom site job events 1 j) :
    site.release (served site job events) j.version architecture =
      site.offer j architecture := by
  have hdescriptor := (moment_sound site.service job events 0).2.2
  rw [Site.release, call_eq, Http.release, site.validateRepository_some _ hready hdescriptor]
  show (if _ then _ else _) = _
  rw [if_neg (fun h => h (site.stable j.version).1)]
  exact site.releaseManifest_some _ hfits (hoffered.manifest 1 le_rfl) architecture

/-- Before its run returned, the descriptor was there and the channel had come to its version. -/
theorem channel_of_done {i : ι}
    (hdone : (moment site.service job events 0).pc i = .done (.ok ())) :
    served site job events 0 .repository ≠ none ∧ ∃ v, (job i).version ≤ v ∧
      served site job events 1 .stable = some (.stable protocolVersion v) ∧
      served site job events 1 (.manifest v) ≠ none := by
  obtain ⟨hinv, howned, -⟩ := moment_sound site.service job events 0
  have hknows := hinv.knows i
  rw [hdone] at hknows
  obtain ⟨v, hv, hle⟩ := hknows
  have hgrows := moment_grows site.service job events (show 0 ≤ 1 by omega)
  obtain ⟨w, hw, hvw⟩ := hgrows.stable v hv
  refine ⟨howned.ready i ?_, w, hle.trans hvw, channel_of_version hw⟩
  rw [hdone]
  rfl

variable (site job events)

/-- Whatever runs do between the requests of a call: the latest release is missing when there is no
descriptor yet, there is none as long as there is no channel, and else it is what one run of the
version in the channel has to offer, the same for the pages alone, and its files stay. -/
theorem latest_published (hfits : ∀ i, (job i).assets.Fits) :
    let latest := site.latest (served site job events) architecture
    let pages := site.latestStaticArchive (served site job events)
    let ready := served site job events 0 .repository ≠ none
    (¬ready → latest = .error Site.missing ∧ pages = .error Site.missing) ∧
    (ready → served site job events 1 .stable = none →
      latest = .ok none ∧ pages = .error .invalidRelease) ∧
    (ready → served site job events 1 .stable ≠ none → ∃ i,
      stableVersion (served site job events 1) = some (job i).version ∧
      latest = (site.offer (job i) architecture).map some ∧
      pages = .ok (site.staticArchive (job i)) ∧ OfferedFrom site job events 1 (job i)) := by
  intro latest pages ready
  have hdescriptor := (moment_sound site.service job events 0).2.2
  refine ⟨fun hready => ?_, fun hready hnone => ?_, fun hready hsome => ?_⟩
  · have hmissing := site.validateRepository_none _ (not_not.mp hready)
    simp only [latest, pages, Site.latest, Site.latestStaticArchive, call_eq, Http.latest,
      Http.latestStaticArchive, hmissing]
    exact ⟨rfl, rfl⟩
  · have hvalid := site.validateRepository_some _ hready hdescriptor
    simp only [latest, pages, Site.latest, Site.latestStaticArchive, call_eq, Http.latest,
      Http.latestStaticArchive, hvalid, site.stableVersion_none _ hnone]
    exact ⟨rfl, rfl⟩
  · -- the channel names a version whose manifest is there, and a run put that manifest
    obtain ⟨o, ho⟩ := Option.ne_none_iff_exists'.mp hsome
    obtain ⟨v, rfl, hmanifest⟩ := channel_eq ho
    obtain ⟨i, rfl, hoffered⟩ := offeredFrom hmanifest
    refine ⟨i, ?_, latest_of_channel architecture hready (hfits i) ho hoffered,
      latestStaticArchive_of_channel hready (hfits i) ho hoffered, hoffered⟩
    rw [Publish.stableVersion, ho]

/-- What a run has returned for is read back: asking for its version gives what it has to offer,
the latest release is no older, and no other run of the version ever returns. -/
theorem published_read_back (hfits : ∀ i, (job i).assets.Fits) (i : ι)
    (hdone : (moment site.service job events 0).pc i = .done (.ok ())) :
    site.release (served site job events) (job i).version architecture =
      site.offer (job i) architecture ∧
    (∃ j, (job i).version ≤ (job j).version ∧ OfferedFrom site job events 1 (job j) ∧
      site.latest (served site job events) architecture =
        (site.offer (job j) architecture).map some) ∧
    ∀ n k, (moment site.service job events n).pc k = .done (.ok ()) →
      (job k).version = (job i).version → k = i := by
  obtain ⟨hready, v, hle, hchannel, hmanifest⟩ := channel_of_done hdone
  have hpast (n : ℕ) {k : ι} (hk : (moment site.service job events n).pc k = .done (.ok ())) :
      ((moment site.service job events n).pc k).isPast = true := by
    rw [hk]
    rfl
  refine ⟨?_, ?_, fun n k hk hversion => ?_⟩
  · -- its own manifest is there from the beginning
    have hown := (moment_sound site.service job events 0).2.1.own i (hpast 0 hdone)
    have hgrows := moment_grows site.service job events (show 0 ≤ 1 by omega)
    exact release_of_manifest architecture hready (hfits i)
      (.of_manifest (hgrows.manifest _ _ hown))
  · obtain ⟨j, rfl, hoffered⟩ := offeredFrom hmanifest
    exact ⟨j, hle, hoffered, latest_of_channel architecture hready (hfits j) hchannel hoffered⟩
  · have hkept (n : ℕ) : (moment site.service job events n).pc i = .done (.ok ()) := by
      induction n with
      | zero => exact hdone
      | succ n ih => exact done_run ih (events (n + 1))
    exact (moment_sound site.service job events n).2.1.one k i (hpast n hk) (hpast n (hkept n))
      hversion

end Readers

section Sample

deriving instance Countable for AssetName, RepositoryAsset, WebserverAssets, ReleaseManifest

instance countableByte : Countable UInt8 :=
  Function.Injective.countable fun _ _ h => UInt8.toNat_inj.mp h

deriving instance Countable for Object

/-- The last digits of 64 bytes. -/
def sampleDigest (content : Bytes) : Text :=
  (List.range 64).map fun i => hexDigit ((content.getD i 0).toNat % 16)

def sampleVersion (minor : Bool) : Version := if minor then ⟨1, 3, 0, [], []⟩ else ⟨1, 2, 3, [], []⟩

/-- Objects are told apart, as their documents are. -/
noncomputable def sampleRender (o : Object Bool Text) : Bytes :=
  List.replicate (Classical.choose (Countable.exists_injective_nat (Object Bool Text)) o) 0

theorem sampleRender_injective : Function.Injective sampleRender := by
  intro o o' h
  have hnumber := congrArg List.length h
  simp only [sampleRender, List.length_replicate] at hnumber
  exact Classical.choose_spec (Countable.exists_injective_nat (Object Bool Text)) hnumber

def sampleSpell (v : Bool) : Text := Semver.standard.display (sampleVersion v)

def sampleDescriptor : Object Bool Text → Option ℕ
  | .descriptor n => some n
  | _ => none

def sampleChannel : Object Bool Text → Option Http.StableChannel
  | .stable n v => some ⟨n, sampleSpell v⟩
  | _ => none

def sampleManifest : Object Bool Text → Option Http.ReleaseManifest
  | .manifest m => some (document sampleSpell m)
  | _ => none

noncomputable def sampleRead {α : Type} (f : Object Bool Text → Option α) (body : Bytes) :
    Option α :=
  Function.extend sampleRender f (fun _ => none) body

theorem sampleRead_render {α : Type} (f : Object Bool Text → Option α) (o : Object Bool Text) :
    sampleRead f (sampleRender o) = f o := sampleRender_injective.extend_apply f _ o

def sampleBase : Url :=
  ⟨"https".toList, some "example.com".toList, [], none, none, "/mirror/".toList, none, none⟩

/-- The `url` crate for the base and for what is joined to it. -/
def sampleCrate : Http.UrlCrate where
  parse text := if PlainPath text then .error .relativeUrlWithoutBase else .ok sampleBase
  join url text := .ok { url with
    path := dirOf url.path ++ (if text = "./".toList then [] else text)
    query := none
    fragment := none }

noncomputable def sampleSite : Site Bool (Object Bool Text) where
  service := ⟨sampleDigest, id, Function.injective_id⟩
  crate := sampleCrate
  serde := ⟨sampleRead sampleDescriptor, sampleRead sampleChannel, sampleRead sampleManifest⟩
  semver := Semver.standard
  version := sampleVersion
  render := sampleRender
  location := "https://example.com/mirror/".toList
  base := sampleBase
  digest content := by
    have hdigit : ∀ n < 16, isLowerHex (hexDigit n) = true := by decide +kernel
    simp only [isSha256, sampleDigest, List.length_map, List.length_range, List.all_map,
      beq_self_eq_true, Bool.true_and, List.all_eq_true]
    intro i _
    exact hdigit _ (Nat.mod_lt _ (by omega))
  base_eq := by
    have hplain : ¬PlainPath "https://example.com/mirror/".toList := by decide +kernel
    have hparse : sampleCrate.parse "https://example.com/mirror/".toList = .ok sampleBase := by
      simp only [sampleCrate, if_neg hplain]
    have hsafe : Http.validateNetworkUrl sampleBase = .ok () := by
      rw [Http.validateNetworkUrl, if_neg (by decide),
        if_pos (show sampleBase.scheme = "https".toList from rfl)]
    simp only [Http.normalizeBaseUrl, hparse, Except.mapError, bind, Except.bind, hsafe]
    rw [if_neg (by decide), if_pos (by decide +kernel)]
  parse_relative text h := if_pos h
  join_relative url text _ h := by
    have hhere : text ≠ "./".toList := by
      rintro rfl
      exact absurd h (by decide +kernel)
    simp only [sampleCrate, if_neg hhere]
  join_here url _ := by
    simp only [sampleCrate, if_true, List.append_nil]
  parse_display v := by cases v <;> decide +kernel
  stable v := by cases v <;> exact ⟨rfl, rfl⟩
  plain v := by cases v <;> decide +kernel
  version_injective v w h := by
    cases v <;> cases w <;> first | rfl | cases h
  read_descriptor := sampleRead_render sampleDescriptor _
  read_channel v := sampleRead_render sampleChannel _
  read_manifest v assets _ := sampleRead_render sampleManifest _

def sampleJob (v : Bool) : Job Bool := ⟨v, smallAssets⟩

/-- One run comes to its end before the first request. -/
def sampleEvents (n : ℕ) : ℕ → List (Event Bool)
  | 0 => List.replicate n (.advance true)
  | _ + 1 => []

theorem smallAssets_fits : smallAssets.Fits := by
  intro a ha
  simp only [smallAssets, LocalAssets.iter, List.mem_cons, List.not_mem_nil, or_false] at ha
  rcases ha with rfl | rfl | rfl <;> decide

open Classical in
theorem sample_done :
    ∃ n, (moment sampleSite.service sampleJob (sampleEvents n) 0).pc true = .done (.ok ()) := by
  have hinit := Invariant.init sampleSite.service sampleJob
  obtain ⟨b, ⟨n, hn⟩, -⟩ : ∃ b', Leads sampleSite.service true smallAssets
      (System.init.bucket, .getRepository) (b', .done (.ok ())) ∧ b' (.manifest true) =
        some (.manifest (sampleSite.service.releaseManifest true smallAssets)) :=
    leads_ok (fun o ho => by cases ho) hinit.consistent rfl (fun a _ o ho => by cases ho)
  have hrun := run_replicate sampleSite.service sampleJob System.init true n
  exact ⟨n, congrArg Prod.snd (hrun.trans hn)⟩

open Classical in
theorem latest_published_sample : ∃ n,
    sampleSite.latest (served sampleSite sampleJob (sampleEvents n)) .x86_64 =
      (sampleSite.offer (sampleJob true) .x86_64).map some := by
  obtain ⟨n, hn⟩ := sample_done
  obtain ⟨hready, v, hle, hchannel, -⟩ := channel_of_done hn
  have hlatest := latest_published sampleSite sampleJob (sampleEvents n) .x86_64
    (fun _ => smallAssets_fits)
  obtain ⟨i, hi, hoffer, -⟩ := hlatest.2.2 hready (by rw [hchannel]; exact Option.some_ne_none _)
  have hv : v = i := by
    rw [stableVersion, hchannel] at hi
    exact Option.some.inj hi
  have htrue : i = true := by
    rw [← hv]
    exact top_le_iff.mp hle
  exact ⟨n, htrue ▸ hoffer⟩

open Classical in
theorem published_read_back_sample : ∃ n,
    sampleSite.release (served sampleSite sampleJob (sampleEvents n)) true .aarch64 =
      sampleSite.offer (sampleJob true) .aarch64 := by
  obtain ⟨n, hn⟩ := sample_done
  have hread := published_read_back sampleSite sampleJob (sampleEvents n) .aarch64
    (fun _ => smallAssets_fits) true hn
  exact ⟨n, hread.1⟩

end Sample

end LandscapeKit.Publish
