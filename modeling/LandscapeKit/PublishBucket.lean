import Mathlib.Order.Lattice
import Mathlib.Order.Defs.LinearOrder
import LandscapeKit.LibBytes
import LandscapeKit.LibStore

/-!
`lkit-publish` against a shared bucket: every run is a process that reads and
writes one object at a time, and any number of runs interleave. Versions are
any linear order, and the hash is any function.
-/

namespace LandscapeKit.Publish

inductive AssetName where
  | webserverX86
  | webserverAarch64
  | staticArchive
deriving DecidableEq

def AssetName.text : AssetName → String
  | .webserverX86 => "landscape-webserver-x86_64.zst"
  | .webserverAarch64 => "landscape-webserver-aarch64.zst"
  | .staticArchive => "static.zip"

/-- The keys of the bucket: `repository.json`, `channels/stable.json`,
`releases/<version>/manifest.json` and `releases/<version>/<asset>`. -/
inductive Key (V : Type) where
  | repository
  | stable
  | manifest (version : V)
  | asset (version : V) (name : AssetName)
deriving DecidableEq

structure RepositoryAsset (D : Type) where
  url : AssetName
  sha256 : D
  size : ℕ

structure WebserverAssets (D : Type) where
  x86_64 : Option (RepositoryAsset D)
  aarch64 : Option (RepositoryAsset D)
  riscv64 : Option (RepositoryAsset D)
  loongarch64 : Option (RepositoryAsset D)

structure ReleaseManifest (V D : Type) where
  protocolVersion : ℕ
  version : V
  webserver : WebserverAssets D
  staticArchive : RepositoryAsset D

/-- Everything a manifest refers to. -/
def ReleaseManifest.listed {V D : Type} (m : ReleaseManifest V D) : List (RepositoryAsset D) :=
  m.webserver.x86_64.toList ++ m.webserver.aarch64.toList ++ m.webserver.riscv64.toList ++
    m.webserver.loongarch64.toList ++ [m.staticArchive]

/-- A stored object: one of the JSON documents, or an asset with the `sha256` of its metadata. -/
inductive Object (V D : Type) where
  | descriptor (protocolVersion : ℕ)
  | stable (protocolVersion : ℕ) (version : V)
  | manifest (m : ReleaseManifest V D)
  | asset (content : Bytes) (sha256 : D)

abbrev Bucket (V D : Type) := Key V → Option (Object V D)

/-- What the service and the hash do: objects with different content have different tags. -/
structure Service (V D T : Type) where
  sha256 : Bytes → D
  etag : Object V D → T
  etag_injective : Function.Injective etag

/-- A file of the release directory; an empty one is rejected when it is collected. -/
structure LocalAsset where
  name : AssetName
  content : Bytes
  nonempty : content ≠ []

structure LocalAssets where
  webserverX86 : { content : Bytes // content ≠ [] }
  webserverAarch64 : { content : Bytes // content ≠ [] }
  staticArchive : { content : Bytes // content ≠ [] }

def LocalAssets.iter (assets : LocalAssets) : List LocalAsset :=
  [⟨.webserverX86, assets.webserverX86, assets.webserverX86.2⟩,
   ⟨.webserverAarch64, assets.webserverAarch64, assets.webserverAarch64.2⟩,
   ⟨.staticArchive, assets.staticArchive, assets.staticArchive.2⟩]

def protocolVersion : ℕ := 1

inductive RunError (V : Type) where
  | protocol
  | json
  | verification
  | invalidAsset
  | releaseExists (version : V)
  | objectExists (key : Key V)
  | concurrentUpdate
  | s3

/-- What a run does next. -/
inductive Pc (V T : Type) where
  | getRepository
  | putRepository
  | getRepositoryAgain
  | headManifest
  | headAsset (rest : List LocalAsset)
  | putAsset (a : LocalAsset) (rest : List LocalAsset)
  | putManifest
  | getStable (tries : ℕ)
  | putStableIfAbsent (tries : ℕ)
  | putStableIfMatch (etag : T) (tries : ℕ)
  | done (outcome : Except (RunError V) Unit)

variable {V D T : Type} [LinearOrder V] [DecidableEq D] [DecidableEq T]

namespace Service

variable (S : Service V D T)

def repositoryAsset (a : LocalAsset) : RepositoryAsset D where
  url := a.name
  sha256 := S.sha256 a.content
  size := a.content.length

def releaseManifest (version : V) (assets : LocalAssets) : ReleaseManifest V D where
  protocolVersion := protocolVersion
  version := version
  webserver :=
    { x86_64 := some (S.repositoryAsset
        ⟨.webserverX86, assets.webserverX86, assets.webserverX86.2⟩)
      aarch64 := some (S.repositoryAsset
        ⟨.webserverAarch64, assets.webserverAarch64, assets.webserverAarch64.2⟩)
      riscv64 := none
      loongarch64 := none }
  staticArchive := S.repositoryAsset ⟨.staticArchive, assets.staticArchive, assets.staticArchive.2⟩

def validateDescriptor (o : Object V D) : Except (RunError V) Unit :=
  match o with
  | .descriptor n => if n = protocolVersion then .ok () else .error .protocol
  | _ => .error .json

/-- Where a run goes on when its conditional write is refused. -/
def refused (version : V) : Pc V T → Pc V T
  -- losing the race for the descriptor is not an error
  | .putRepository => .getRepositoryAgain
  | .putAsset a _ => .done (.error (.objectExists (.asset version a.name)))
  | .putManifest => .done (.error (.releaseExists version))
  | .putStableIfAbsent tries => .getStable tries
  | .putStableIfMatch _ tries => .getStable tries
  | pc => pc

/-- One request of a run for `version` and what the run makes of the answer. -/
def step (version : V) (assets : LocalAssets) (b : Bucket V D) : Pc V T → Bucket V D × Pc V T
  | .getRepository =>
    match b .repository with
    | none => (b, .putRepository)
    | some o =>
      match validateDescriptor o with
      | .ok () => (b, .headManifest)
      | .error e => (b, .done (.error e))
  | .putRepository =>
    match Store.putIfAbsent .repository (.descriptor protocolVersion) b with
    | some b' => (b', .getRepositoryAgain)
    | none => (b, refused version .putRepository)
  | .getRepositoryAgain =>
    match b .repository with
    | none => (b, .done (.error .verification))
    | some o =>
      match validateDescriptor o with
      | .ok () => (b, .headManifest)
      | .error e => (b, .done (.error e))
  | .headManifest =>
    if (b (.manifest version)).isSome then (b, .done (.error (.releaseExists version)))
    else (b, .headAsset assets.iter)
  | .headAsset [] => (b, .putManifest)
  | .headAsset (a :: rest) =>
    match b (.asset version a.name) with
    | none => (b, .putAsset a rest)
    | some (.asset content sha256) =>
      if 2 ^ 63 ≤ a.content.length then (b, .done (.error .invalidAsset))
      else if content.length = a.content.length ∧ sha256 = S.sha256 a.content then
        (b, .headAsset rest)
      else (b, .done (.error (.objectExists (.asset version a.name))))
    | some _ => (b, .done (.error (.objectExists (.asset version a.name))))
  | .putAsset a rest =>
    match Store.putIfAbsent (.asset version a.name) (.asset a.content (S.sha256 a.content)) b with
    | some b' => (b', .headAsset rest)
    | none => (b, refused version (.putAsset a rest))
  | .putManifest =>
    match Store.putIfAbsent (.manifest version) (.manifest (S.releaseManifest version assets)) b with
    | some b' => (b', .getStable 3)
    | none => (b, refused version .putManifest)
  | .getStable 0 => (b, .done (.error .concurrentUpdate))
  | .getStable (tries + 1) =>
    match b .stable with
    | none => (b, .putStableIfAbsent tries)
    | some (.stable protocol current) =>
      if protocol ≠ protocolVersion then (b, .done (.error .protocol))
      else if version ≤ current then (b, .done (.ok ()))
      else (b, .putStableIfMatch (S.etag (.stable protocol current)) tries)
    | some _ => (b, .done (.error .json))
  | .putStableIfAbsent tries =>
    match Store.putIfAbsent .stable (.stable protocolVersion version) b with
    | some b' => (b', .done (.ok ()))
    | none => (b, refused version (.putStableIfAbsent tries))
  | .putStableIfMatch etag tries =>
    match Store.putIfMatch S.etag .stable etag (.stable protocolVersion version) b with
    | some b' => (b', .done (.ok ()))
    | none => (b, refused version (.putStableIfMatch etag tries))
  | .done outcome => (b, .done outcome)

end Service

/-- The release a run was started for. -/
structure Job (V : Type) where
  version : V
  assets : LocalAssets

/-- The bucket and all runs. -/
structure System (ι V D T : Type) where
  bucket : Bucket V D
  pc : ι → Pc V T

inductive Event (ι : Type) where
  /-- the next request of a run -/
  | advance (i : ι)
  /-- a request is done, its answer is lost, and sending it again finds it refused -/
  | resent (i : ι)
  /-- the run stops: it is killed, or a request fails -/
  | stop (i : ι)

variable {ι : Type} [DecidableEq ι]

def System.init : System ι V D T := ⟨fun _ => none, fun _ => .getRepository⟩

def Pc.stopped : Pc V T → Pc V T
  | .done outcome => .done outcome
  | _ => .done (.error .s3)

def System.step (S : Service V D T) (job : ι → Job V) (s : System ι V D T) :
    Event ι → System ι V D T
  | .advance i =>
    let (b, pc) := S.step (job i).version (job i).assets s.bucket (s.pc i)
    ⟨b, Function.update s.pc i pc⟩
  | .resent i =>
    ⟨(S.step (job i).version (job i).assets s.bucket (s.pc i)).1,
      Function.update s.pc i (Service.refused (job i).version (s.pc i))⟩
  | .stop i => ⟨s.bucket, Function.update s.pc i (s.pc i).stopped⟩

def System.run (S : Service V D T) (job : ι → Job V) (s : System ι V D T)
    (events : List (Event ι)) : System ι V D T :=
  events.foldl (System.step S job) s

end LandscapeKit.Publish
