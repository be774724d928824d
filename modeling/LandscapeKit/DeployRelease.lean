import LandscapeKit.DeployTrees

/-!
The release directory of a target version (`release/artifacts.rs`, `apply_frontend` of
`frontend/mod.rs`): one that is there and can be trusted is used again, otherwise the release is
built in a directory of its own and moved into place. The workflows that ask for a release are
given with whatever builds it.
-/

namespace LandscapeKit.Deploy

open Faults

set_option synthInstance.maxSize 65536

/-- What the manifest of a release says of its assets; `identity` when the backend is delivered
as it is, and its digest is that of the binary. -/
structure Release where
  version : String
  webserver : Asset
  identity : Bool
  staticArchive : Asset

namespace Layout

def buildDir (version : String) : Path := releases ++ [".install-" ++ version ++ ".tmp"]

/-- Where the pages of a custom frontend are fetched to. -/
def frontendWork (version : String) : Path := releases ++ [".frontend-" ++ version ++ ".tmp"]

end Layout

namespace Host

variable {H : Type} (host : Host H)

/-- A release directory is complete: the backend, the pages with their index, and their
archive. -/
def isComplete (files : Files Document) (dir : Path) : Bool :=
  files.isFile (dir ++ [Layout.webserverBinary]) && files.isDir (dir ++ ["static"]) &&
    files.isFile (dir ++ ["static", "index.html"]) && files.isFile (dir ++ ["static.zip"])

/-- `reuse_existing_release`: nothing when there is no such directory, and an error when it
cannot be trusted. -/
def reuseExistingRelease (release : Release) : Flow H (Option Asset) := do
  let final := Layout.release release.version
  let m ← getMachine
  match m.files final with
  | none => pure none
  | some .dir =>
    if isComplete m.files final then do
      let archive ← host.perform (.hashFile (final ++ ["static.zip"]))
      if archive ≠ release.staticArchive then Prog.fail (.releaseExists release.version)
      else do
        let webserver ← host.perform (.hashFile (final ++ [Layout.webserverBinary]))
        if release.identity ∧ webserver ≠ release.webserver then
          Prog.fail (.releaseExists release.version)
        else pure (some webserver)
    else Prog.fail (.releaseExists release.version)
  | some _ => Prog.fail (.releaseExists release.version)

def replaceStaticDir (target newStatic : Path) : Flow H Unit := do
  let live := target ++ ["static"]
  let backup := target ++ [".frontend-old-static"]
  Prog.ignore (host.perform (.removeDirAll backup))
  let present ← pathExists live
  Prog.onlyIf present (host.perform (.rename live backup))
  withErrorPath (host.perform (.rename newStatic live))
    (Prog.ignore (host.perform (.rename backup live)))
  Prog.ignore (host.perform (.removeDirAll backup))

def fetchActiveFrontend (custom : Except InstallError Bool) (work : Path) : Flow H Bool :=
  match custom with
  | .error e => Prog.fail e
  | .ok false => pure false
  | .ok true => do
    host.perform (.fetchFromSource work)
    pure true

def applyFrontend (custom : Except InstallError Bool) (version : String) (target : Path) :
    Flow H Unit := do
  let work := Layout.frontendWork version
  Prog.ignore (host.perform (.removeDirAll work))
  host.perform (.createDirAll work)
  withErrorPath (do
    let fetched ← host.fetchActiveFrontend custom work
    Prog.onlyIf fetched (host.replaceStaticDir target (work ++ ["static"])))
    (Prog.ignore (host.perform (.removeDirAll work)))
  Prog.ignore (host.perform (.removeDirAll work))

/-- `build_release_inner`. -/
def fetchAssets (tmp : Path) : Flow H Asset := do
  host.perform (.createDirAll tmp)
  let webserver ← host.perform (.fetchWebserver tmp)
  let _ ← host.perform (.fetchStatic tmp)
  pure webserver

/-- What is left of a build that fails is removed. -/
def orDiscard {α : Type} (tmp : Path) (step : Flow H α) : Flow H α := do
  let result ← Prog.attempt step
  match result with
  | .ok a => pure a
  | .error e => do
    Prog.ignore (host.perform (.removeDirAll tmp))
    Prog.fail e

/-- The branch of `build_release` in which the release is built. -/
def buildAnew (release : Release) (custom : Except InstallError Bool) : Flow H Asset := do
  let tmp := Layout.buildDir release.version
  Prog.ignore (host.perform (.removeDirAll tmp))
  let webserver ← host.orDiscard tmp (host.fetchAssets tmp)
  host.orDiscard tmp (host.applyFrontend custom release.version tmp)
  host.orDiscard tmp (host.perform (.rename tmp (Layout.release release.version)))
  pure webserver

/-- `build_release`, with the identity of the pages that the manifest gives. -/
def buildRelease (release : Release) (custom : Except InstallError Bool) :
    Flow H (Asset × Asset) := do
  host.perform (.createDirAll Layout.releases)
  let reused ← host.reuseExistingRelease release
  match reused with
  | some webserver => do
    host.applyFrontend custom release.version (Layout.release release.version)
    pure (webserver, release.staticArchive)
  | none => do
    let webserver ← host.buildAnew release custom
    pure (webserver, release.staticArchive)

section Workflows

variable (build : Flow H (Asset × Asset))

/-- `prepareSwitch`, with what builds the release. -/
def prepareSwitchWith (state : InstallState) (id : String) (isSystemd serviceStopped : Bool) :
    Flow H (Asset × Asset) := do
  let built ← build
  Prog.onlyIf (!serviceStopped) (host.exportAndBackup state)
  Prog.onlyIf isSystemd do
    host.recordBefore id
    let _ ← host.perform .writeUnitOrigin
    pure ()
  Prog.onlyIf (!serviceStopped) (host.writeStateSnapshot id state)
  pure built

def switchBlockWith (state : InstallState) (id target : String)
    (isSystemd serviceStopped : Bool) : Flow H Unit := do
  let built ← host.prepareSwitchWith build state id isSystemd serviceStopped
  host.mark .prepared
  host.stopForSwitch isSystemd
  host.mark .activating
  setActivated
  host.activateCurrent target
  Prog.onlyIf isSystemd host.registerStartAndVerify
  host.commitSwitch state target id built

def switchVersionWith (state : InstallState) (id target : String) (allowNoBackup : Bool) :
    Flow H Unit := do
  let isSystemd : Bool := state.manager = .systemd
  host.requireUpgrade state.activeVersion target
  host.check .checkInitialization
  host.check .verifyCurrentBackend
  let stopped ← host.serviceStopped isSystemd
  if stopped && !allowNoBackup then
    Prog.fail (.serviceNotRunning
      "the managed service is stopped; start it with `systemctl start landscape-router.service` and retry, or re-run with --allow-no-backup to switch without a configuration snapshot")
  else do
    startWith { TransactionFile.newSwitch id state.activeVersion target with noBackup := stopped }
    host.beginOwn
    withErrorPath (host.switchBlockWith build state id target isSystemd stopped)
      (host.abandonSwitch state isSystemd)

end Workflows

end Host

section Paths

variable {name : String}

instance : Outside [Layout.release name] Layout.releases := by
  refine ⟨fun q hq => ?_⟩
  obtain rfl := List.mem_singleton.mp hq
  simp [Layout.release, Layout.releases, Layout.root]

theorem off_release {other : String} (h : name ≠ other) :
    Off [Layout.release name] (Layout.releases ++ [other]) := by
  refine ⟨fun q hq => ?_⟩
  obtain rfl := List.mem_singleton.mp hq
  simp [Apart, Layout.release, Layout.releases, Layout.root, h, h.symm]

end Paths

/-! A build keeps every tree that is neither the release nor one of its working directories. -/

section Frames

variable {H : Type} (host : Host H) {ps : List Path} {dir : Path}

instance {α : Type} (tmp : Path) (step : Flow H α) [Off ps tmp] [Within (TreesKept ps) step] :
    Within (TreesKept ps) (host.orDiscard tmp step) := by
  unfold Host.orDiscard
  refine Within.andThen inferInstance fun r => ?_
  split <;> infer_instance

instance (block onError : Flow H Unit) [Within (TreesKept ps) block]
    [Within (TreesKept ps) onError] : Within (TreesKept ps) (Host.withErrorPath block onError) := by
  unfold Host.withErrorPath
  refine Within.andThen inferInstance fun r => ?_
  split <;> infer_instance

instance (release : Release) : Within (TreesKept ps) (host.reuseExistingRelease release) := by
  apply TreesKept.of_machineKept
  apply MachineKept.of_idle
  unfold Host.reuseExistingRelease
  refine Within.andThen inferInstance fun m => ?_
  split <;> infer_instance

instance (newStatic : Path) [Off ps dir] [Off ps newStatic] :
    Within (TreesKept ps) (host.replaceStaticDir dir newStatic) := by
  unfold Host.replaceStaticDir
  dsimp only
  infer_instance

instance (custom : Except InstallError Bool) (version : String) [Off ps dir]
    [Off ps (Layout.frontendWork version)] :
    Within (TreesKept ps) (host.applyFrontend custom version dir) := by
  have hfetch : Within (TreesKept ps)
      (host.fetchActiveFrontend custom (Layout.frontendWork version)) := by
    unfold Host.fetchActiveFrontend
    split <;> infer_instance
  unfold Host.applyFrontend
  dsimp only
  infer_instance

instance [Off ps dir] : Within (TreesKept ps) (host.fetchAssets dir) := by
  have hweb : (Act.fetchWebserver dir).ClearOf ps := Act.ClearOf.of_path rfl rfl
  unfold Host.fetchAssets
  infer_instance

instance (release : Release) (custom : Except InstallError Bool)
    [Outside ps Layout.releases] [Off ps (Layout.release release.version)]
    [Off ps (Layout.buildDir release.version)] [Off ps (Layout.frontendWork release.version)] :
    Within (TreesKept ps) (host.buildRelease release custom) := by
  unfold Host.buildRelease
  refine Within.andThen inferInstance fun _ => Within.andThen inferInstance fun reused => ?_
  split
  · infer_instance
  · unfold Host.buildAnew
    dsimp only
    infer_instance

/-- A frame that every request has with which a release is built. -/
class BuildFrame (R : World H → World H → Prop) (host : Host H) : Prop where
  createDirAll : ∀ p, Within R (host.perform (.createDirAll p))
  removeDirAll : ∀ p, Within R (host.perform (.removeDirAll p))
  rename : ∀ p q, Within R (host.perform (.rename p q))
  hashFile : ∀ p, Within R (host.perform (.hashFile p))
  fetchWebserver : ∀ p, Within R (host.perform (.fetchWebserver p))
  fetchStatic : ∀ p, Within R (host.perform (.fetchStatic p))
  fetchFromSource : ∀ p, Within R (host.perform (.fetchFromSource p))

attribute [instance] BuildFrame.createDirAll BuildFrame.removeDirAll BuildFrame.rename
  BuildFrame.hashFile BuildFrame.fetchWebserver BuildFrame.fetchStatic BuildFrame.fetchFromSource

variable {R : World H → World H → Prop}

instance [HostFrame R host] : BuildFrame R host where
  createDirAll _ := inferInstance
  removeDirAll _ := inferInstance
  rename _ _ := inferInstance
  hashFile _ := inferInstance
  fetchWebserver _ := inferInstance
  fetchStatic _ := inferInstance
  fetchFromSource _ := inferInstance

variable [Std.Refl R] [IsTrans (World H) R] [BuildFrame R host]

omit [BuildFrame R host] in
theorem within_withErrorPath {block onError : Flow H Unit} (hb : Within R block)
    (he : Within R onError) : Within R (Host.withErrorPath block onError) := by
  unfold Host.withErrorPath
  refine Within.andThen inferInstance fun r => ?_
  split <;> infer_instance

theorem within_applyFrontend (custom : Except InstallError Bool) (version : String) :
    Within R (host.applyFrontend custom version dir) := by
  have hreplace : ∀ newStatic, Within R (host.replaceStaticDir dir newStatic) := by
    intro newStatic
    have hswap : ∀ p q r s : Path, Within R (Host.withErrorPath (host.perform (.rename p q))
        (Prog.ignore (host.perform (.rename r s)))) :=
      fun p q r s => within_withErrorPath inferInstance inferInstance
    unfold Host.replaceStaticDir
    dsimp only
    infer_instance
  have hfetch : ∀ work, Within R (host.fetchActiveFrontend custom work) := by
    intro work
    unfold Host.fetchActiveFrontend
    split <;> infer_instance
  unfold Host.applyFrontend
  refine Within.andThen inferInstance fun _ => Within.andThen inferInstance fun _ => ?_
  refine Within.andThen ?_ fun _ => inferInstance
  exact within_withErrorPath inferInstance inferInstance

theorem within_orDiscard {α : Type} (tmp : Path) {step : Flow H α} (h : Within R step) :
    Within R (host.orDiscard tmp step) := by
  unfold Host.orDiscard
  refine Within.andThen inferInstance fun r => ?_
  split <;> infer_instance

theorem within_buildRelease (release : Release) (custom : Except InstallError Bool) :
    Within R (host.buildRelease release custom) := by
  have hreuse : Within R (host.reuseExistingRelease release) := by
    unfold Host.reuseExistingRelease
    refine Within.andThen inferInstance fun m => ?_
    split <;> infer_instance
  have hfrontend : ∀ p, Within R (host.applyFrontend custom release.version p) :=
    fun p => within_applyFrontend host custom release.version
  have hfetch : ∀ tmp, Within R (host.fetchAssets tmp) := by
    intro tmp
    unfold Host.fetchAssets
    infer_instance
  have hnew : Within R (host.buildAnew release custom) := by
    unfold Host.buildAnew
    refine Within.andThen inferInstance fun _ => ?_
    refine Within.andThen (within_orDiscard host _ inferInstance) fun _ => ?_
    refine Within.andThen (within_orDiscard host _ inferInstance) fun _ => ?_
    exact Within.andThen (within_orDiscard host _ inferInstance) fun _ => inferInstance
  unfold Host.buildRelease
  refine Within.andThen inferInstance fun _ => Within.andThen inferInstance fun reused => ?_
  split <;> infer_instance

end Frames

end LandscapeKit.Deploy
