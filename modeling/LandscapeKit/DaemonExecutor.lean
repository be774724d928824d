import Mathlib.Data.List.Infix
import LandscapeKit.LibFiles

/-!
The daemon's side of a delegated command: one request file is read, claimed by
removing it, and run as a child process whose exit code becomes the result
file. Every step can fail, and a failure after the claim leaves through `?`.
-/

namespace LandscapeKit.Daemon

/-- `/run/lkit/operations`. -/
def operationsDir : Path := ["run", "lkit", "operations"]

structure WorkerRequest where
  schemaVersion : ℕ
  args : List String
  environment : List (String × String)
  workingDirectory : Path
  resultPath : Path
  stdoutPath : Path
  stderrPath : Path
  cancelPath : Path
  terminal : Option Path
  presentationPath : Path
  credentialPath : Option Path
  networkPlanPath : Option Path
deriving DecidableEq

structure WorkerResult where
  schemaVersion : ℕ
  exitCode : ℤ
deriving DecidableEq

/-- What a file holds, as far as the parsers of the two processes can tell. -/
inductive Content where
  | request (r : WorkerRequest)
  | result (r : WorkerResult)
  | other (text : String)
deriving DecidableEq

/-- A regular file; `rootOnly` is owner 0 and no permission for group and others. -/
structure OpsFile where
  content : Content
  rootOnly : Bool
deriving DecidableEq

/-- The files, and the results this daemon has renamed into place so far. -/
structure Disk where
  file : Path → Option OpsFile
  committed : List (Path × WorkerResult)

def Disk.put (disk : Disk) (p : Path) (f : Option OpsFile) : Disk :=
  { disk with file := Function.update disk.file p f }

/-- What `spawn` is given. -/
structure WorkerCommand where
  args : List String
  environment : List (String × String)
  workingDirectory : Path
  terminal : Option Path
  presentationEvents : Path
deriving DecidableEq

def daemonWorkerFlag : String := "--internal-daemon-worker"

def workerArgs (requestArgs : List String) : List String := daemonWorkerFlag :: requestArgs

def workerCommand (r : WorkerRequest) : WorkerCommand where
  args := workerArgs r.args
  environment := r.environment
  workingDirectory := r.workingDirectory
  terminal := r.terminal
  presentationEvents := r.presentationPath

/-- The operating system around one execution: which calls succeed, and what the child does
to the disk before it ends with its exit code. -/
structure Host where
  inspects : Path → Bool
  reads : Path → Bool
  removes : Path → Bool
  currentExe : Bool
  opens : Path → Bool
  spawns : WorkerCommand → Bool
  work : WorkerCommand → (Path → Option OpsFile) → (Path → Option OpsFile)
  exitCode : WorkerCommand → ℤ
  writes : Path → Bool

inductive WorkerError where
  | outsideOperations
  | inspectRequest
  | requestNotPrivate
  | readRequest
  | parseRequest
  | unsupportedSchema (version : ℕ)
  | claimRequest
  | credentialPath
  | networkPlanPath
  | executable
  | openLog (path : Path)
  | spawn
  | writeResult
deriving DecidableEq

def Host.removeFile (host : Host) (p : Path) (disk : Disk) : Disk :=
  if host.removes p then disk.put p none else disk

def endsWith (suffix : String) (name : String) : Bool :=
  suffix.toList.isSuffixOf name.toList

def validateRequestPath (host : Host) (disk : Disk) (p : Path) : Except WorkerError Unit :=
  if p.dropLast ≠ operationsDir then .error .outsideOperations
  else match disk.file p with
    | none => .error .inspectRequest
    | some file =>
      if host.inspects p = false then .error .inspectRequest
      else if file.rootOnly then .ok () else .error .requestNotPrivate

/-- A companion file of a request: in the operations directory, with its suffix, root-only. -/
def companionOk (host : Host) (disk : Disk) (suffix : String) (p : Path) : Bool :=
  (p.dropLast = operationsDir ∧ (p.getLast?.any (endsWith suffix))) &&
    (disk.file p).any (fun file => host.inspects p && file.rootOnly)

def validateCredentialPath (host : Host) (disk : Disk) (p : Path) : Except WorkerError Unit :=
  if companionOk host disk ".credential" p then .ok () else .error .credentialPath

def validateNetworkPlanPath (host : Host) (disk : Disk) (p : Path) : Except WorkerError Unit :=
  if companionOk host disk ".network.json" p then .ok () else .error .networkPlanPath

def openLog (host : Host) (p : Path) (disk : Disk) : Except WorkerError Disk :=
  if host.opens p then
    .ok (if (disk.file p).isSome then disk else disk.put p (some ⟨.other "", true⟩))
  else .error (.openLog p)

/-- `write_private_json`: a temporary file renamed over the path. -/
def writeResult (host : Host) (p : Path) (r : WorkerResult) (disk : Disk) :
    Except WorkerError Disk :=
  if host.writes p then
    .ok { disk.put p (some ⟨.result r, true⟩) with committed := disk.committed ++ [(p, r)] }
  else .error .writeResult

/-- From the executable to the result file, with the companions already checked. -/
def runWorker (host : Host) (r : WorkerRequest) (disk : Disk) : Except WorkerError ℤ × Disk :=
  if host.currentExe = false then (.error .executable, disk)
  else match openLog host r.stdoutPath disk with
    | .error e => (.error e, disk)
    | .ok disk =>
      match openLog host r.stderrPath disk with
      | .error e => (.error e, disk)
      | .ok disk =>
        if host.spawns (workerCommand r) = false then (.error .spawn, disk)
        else
          let disk := { disk with file := host.work (workerCommand r) disk.file }
          let exitCode := host.exitCode (workerCommand r)
          match writeResult host r.resultPath ⟨2, exitCode⟩ disk with
          | .error e => (.error e, disk)
          | .ok disk => (.ok exitCode, host.removeFile r.cancelPath disk)

/-- The guard of a companion file removes it at every way out. -/
def dropGuard (host : Host) (p : Option Path) (disk : Disk) : Disk :=
  match p with
  | none => disk
  | some p => host.removeFile p disk

def executeClaimed (host : Host) (r : WorkerRequest) (disk : Disk) :
    Except WorkerError ℤ × Disk :=
  match r.credentialPath.elim (.ok ()) (validateCredentialPath host disk) with
  | .error e => (.error e, disk)
  | .ok () =>
    match r.networkPlanPath.elim (.ok ()) (validateNetworkPlanPath host disk) with
    | .error e => (.error e, dropGuard host r.credentialPath disk)
    | .ok () =>
      let (outcome, disk) := runWorker host r disk
      -- guards are dropped in the reverse order of their creation
      (outcome, dropGuard host r.credentialPath (dropGuard host r.networkPlanPath disk))

def executeRequestInner (host : Host) (p : Path) (disk : Disk) : Except WorkerError ℤ × Disk :=
  match validateRequestPath host disk p with
  | .error e => (.error e, disk)
  | .ok () =>
    if host.reads p = false then (.error .readRequest, disk)
    else match disk.file p with
      | some ⟨.request r, _⟩ =>
        if r.schemaVersion ≠ 2 then (.error (.unsupportedSchema r.schemaVersion), disk)
        else if host.removes p = false then (.error .claimRequest, disk)
        else executeClaimed host r (disk.put p none)
      | _ => (.error .parseRequest, disk)

def executeRequest (host : Host) (p : Path) (disk : Disk) : ℤ × Disk :=
  match executeRequestInner host p disk with
  | (.ok exitCode, disk) => (exitCode, disk)
  | (.error _, disk) => (1, disk)

/-- `execute_pending_requests` looks at these again in every cycle. -/
def Pending (disk : Disk) (p : Path) : Prop :=
  p.dropLast = operationsDir ∧ p.getLast?.any (endsWith ".request.json") ∧ disk.file p ≠ none

/-- The paths are sorted, and run one after the other. -/
def executePendingRequests (host : Host) (requests : List Path) (disk : Disk) : Disk :=
  requests.foldl (fun disk p => (executeRequest host p disk).2) disk

/-- The request in a file that names where to answer. -/
def Disk.request (disk : Disk) (p : Path) : Option WorkerRequest :=
  match disk.file p with
  | some ⟨.request r, _⟩ => if r.schemaVersion = 2 then some r else none
  | _ => none

/-- The execution has renamed a result for the request into place, and it is there. -/
def ResultWritten (before after : Disk) (r : WorkerRequest) : Prop :=
  ∃ c, after.committed = before.committed ++ [(r.resultPath, ⟨2, c⟩)] ∧
    after.file r.resultPath = some ⟨.result ⟨2, c⟩, true⟩

/-- When the execution is over, there is a result for the request; or there was no request to
answer, and the file is not looked at again. -/
def Answered (host : Host) (p : Path) (disk : Disk) : Prop :=
  (∃ r, disk.request p = some r ∧ ResultWritten disk (executeRequest host p disk).2 r) ∨
    (disk.request p = none ∧ ¬ Pending (executeRequest host p disk).2 p)

/-- The child is started. -/
structure Launches (host : Host) (r : WorkerRequest) : Prop where
  currentExe : host.currentExe = true
  stdout : host.opens r.stdoutPath = true
  stderr : host.opens r.stderrPath = true
  spawns : host.spawns (workerCommand r) = true

/-- The companion files named by the request pass their checks. -/
structure CompanionsOk (host : Host) (disk : Disk) (r : WorkerRequest) : Prop where
  credential : ∀ q ∈ r.credentialPath, companionOk host disk ".credential" q = true
  networkPlan : ∀ q ∈ r.networkPlanPath, companionOk host disk ".network.json" q = true

structure Claimable (host : Host) (p : Path) (disk : Disk) : Prop where
  place : p.dropLast = operationsDir
  rootOnly : (disk.file p).any (·.rootOnly) = true
  inspects : host.inspects p = true
  reads : host.reads p = true
  removes : host.removes p = true

/-- The result stays unless one of the files that are removed afterwards has its path. -/
def ResultKept (host : Host) (r : WorkerRequest) : Prop :=
  ∀ q, q = r.cancelPath ∨ q ∈ r.credentialPath ∨ q ∈ r.networkPlanPath →
    host.removes q = true → q ≠ r.resultPath

/-- Every step from the claim to the result succeeds, and no file that is removed afterwards
lies in the place of the result. -/
structure Handled (host : Host) (p : Path) (disk : Disk) (r : WorkerRequest) : Prop where
  request : disk.request p = some r
  claim : Claimable host p disk
  companions : CompanionsOk host (disk.put p none) r
  launch : Launches host r
  kept : ResultKept host r

section Steps

variable {host : Host} {r : WorkerRequest} {disk : Disk}

@[simp]
theorem committed_put (disk : Disk) (p : Path) (f : Option OpsFile) :
    (disk.put p f).committed = disk.committed := rfl

@[simp]
theorem committed_removeFile (host : Host) (p : Path) (disk : Disk) :
    (host.removeFile p disk).committed = disk.committed := by
  unfold Host.removeFile
  split <;> rfl

@[simp]
theorem committed_dropGuard (host : Host) (p : Option Path) (disk : Disk) :
    (dropGuard host p disk).committed = disk.committed := by
  cases p with
  | none => rfl
  | some p => exact committed_removeFile host p disk

theorem file_removeFile (host : Host) (p q : Path) (disk : Disk) :
    (host.removeFile p disk).file q =
      if host.removes p = true ∧ p = q then none else disk.file q := by
  unfold Host.removeFile
  by_cases hr : host.removes p = true
  · by_cases hq : q = p
    · simp [hr, hq, Disk.put]
    · simp [hr, hq, Ne.symm hq, Disk.put]
  · simp [hr]

theorem file_dropGuard (host : Host) (p : Option Path) (q : Path) (disk : Disk) :
    (dropGuard host p disk).file q =
      if q ∈ p ∧ host.removes q = true then none else disk.file q := by
  cases p with
  | none => simp [dropGuard]
  | some p =>
    simp only [dropGuard, file_removeFile, Option.mem_some_iff]
    by_cases hq : p = q
    · subst hq
      simp
    · simp [hq]

theorem committed_openLog {p : Path} {disk' : Disk} (h : openLog host p disk = .ok disk') :
    disk'.committed = disk.committed := by
  unfold openLog at h
  split at h
  · rw [← Except.ok.inj h]
    split <;> rfl
  · cases h

theorem runWorker_of_launches (disk : Disk) (hw : host.writes r.resultPath = true)
    (h : Launches host r) :
    ∃ mid : Disk, mid.committed = disk.committed ++ [(r.resultPath, ⟨2, host.exitCode (workerCommand r)⟩)] ∧
      mid.file r.resultPath = some ⟨.result ⟨2, host.exitCode (workerCommand r)⟩, true⟩ ∧
      runWorker host r disk =
        (.ok (host.exitCode (workerCommand r)), host.removeFile r.cancelPath mid) := by
  obtain ⟨out, hout⟩ : ∃ out, openLog host r.stdoutPath disk = .ok out := by
    simp [openLog, h.stdout]
  obtain ⟨err, herr⟩ : ∃ err, openLog host r.stderrPath out = .ok err := by
    simp [openLog, h.stderr]
  have hc : err.committed = disk.committed :=
    (committed_openLog herr).trans (committed_openLog hout)
  simp only [runWorker, h.currentExe, hout, herr, h.spawns, writeResult, hw]
  exact ⟨_, by simp [hc], by simp [Disk.put], rfl⟩

theorem runWorker_of_not_launches (h : ¬ Launches host r) :
    (∃ e, (runWorker host r disk).1 = .error e) ∧
      (runWorker host r disk).2.committed = disk.committed := by
  unfold runWorker
  split
  · exact ⟨⟨_, rfl⟩, rfl⟩
  · next hexe =>
    split
    · exact ⟨⟨_, rfl⟩, rfl⟩
    · next out hout =>
      split
      · exact ⟨⟨_, rfl⟩, committed_openLog hout⟩
      · next err herr =>
        split
        · exact ⟨⟨_, rfl⟩, (committed_openLog herr).trans (committed_openLog hout)⟩
        · next hspawn =>
          -- every check has passed, so the child was started
          refine absurd ⟨by simpa using hexe, ?_, ?_, by simpa using hspawn⟩ h
          · unfold openLog at hout
            split at hout
            · assumption
            · cases hout
          · unfold openLog at herr
            split at herr
            · assumption
            · cases herr

theorem companions_iff :
    CompanionsOk host disk r ↔
      r.credentialPath.elim (.ok ()) (validateCredentialPath host disk) = .ok () ∧
        r.networkPlanPath.elim (.ok ()) (validateNetworkPlanPath host disk) = .ok () := by
  have hone (p : Option Path) (suffix : String) (e : WorkerError) :
      p.elim (.ok ()) (fun q => if companionOk host disk suffix q then .ok () else .error e) =
        (.ok () : Except WorkerError Unit) ↔ ∀ q ∈ p, companionOk host disk suffix q = true := by
    cases p with
    | none => simp
    | some p => by_cases h : companionOk host disk suffix p = true <;> simp [h]
  have hcredential := hone r.credentialPath ".credential" .credentialPath
  have hplan := hone r.networkPlanPath ".network.json" .networkPlanPath
  constructor
  · intro h
    exact ⟨hcredential.mpr h.credential, hplan.mpr h.networkPlan⟩
  · rintro ⟨h1, h2⟩
    exact ⟨hcredential.mp h1, hplan.mp h2⟩

theorem executeClaimed_of_companions (h : CompanionsOk host disk r) :
    executeClaimed host r disk =
      ((runWorker host r disk).1,
        dropGuard host r.credentialPath
          (dropGuard host r.networkPlanPath (runWorker host r disk).2)) := by
  obtain ⟨hcredential, hplan⟩ := companions_iff.mp h
  simp [executeClaimed, hcredential, hplan]

theorem committed_executeClaimed (h : ¬ (CompanionsOk host disk r ∧ Launches host r)) :
    (executeClaimed host r disk).2.committed = disk.committed := by
  by_cases hcomp : CompanionsOk host disk r
  · have hlaunch : ¬ Launches host r := fun hl => h ⟨hcomp, hl⟩
    rw [executeClaimed_of_companions hcomp]
    simp [(runWorker_of_not_launches hlaunch).2]
  · rw [companions_iff] at hcomp
    unfold executeClaimed
    split
    · rfl
    · next hcredential =>
      split
      · simp
      · next hplan => exact absurd ⟨hcredential, hplan⟩ hcomp

end Steps

section Request

variable {host : Host} {p : Path} {disk : Disk} {r : WorkerRequest}

theorem executeRequest_snd (host : Host) (p : Path) (disk : Disk) :
    (executeRequest host p disk).2 = (executeRequestInner host p disk).2 := by
  unfold executeRequest
  split <;> next heq => rw [heq]

theorem request_eq_some (h : disk.request p = some r) :
    ∃ rootOnly, disk.file p = some ⟨.request r, rootOnly⟩ ∧ r.schemaVersion = 2 := by
  unfold Disk.request at h
  split at h
  · next r' rootOnly hf =>
    split at h
    · next hs =>
      obtain rfl := Option.some.inj h
      exact ⟨rootOnly, hf, hs⟩
    · cases h
  · cases h

theorem executeRequestInner_of_no_request (h : disk.request p = none) :
    (executeRequestInner host p disk).2 = disk := by
  unfold executeRequestInner
  split
  · rfl
  · split
    · rfl
    · split
      · next r rootOnly hf =>
        have hs : r.schemaVersion ≠ 2 := by
          intro hs
          simp [Disk.request, hf, hs] at h
        simp [hs]
      · rfl

theorem executeRequestInner_of_claimable (h : disk.request p = some r)
    (hc : Claimable host p disk) :
    executeRequestInner host p disk = executeClaimed host r (disk.put p none) := by
  obtain ⟨rootOnly, hf, hs⟩ := request_eq_some h
  have hroot : rootOnly = true := by simpa [hf] using hc.rootOnly
  have hvalid : validateRequestPath host disk p = .ok () := by
    simp [validateRequestPath, hc.place, hf, hc.inspects, hroot]
  simp [executeRequestInner, hvalid, hc.reads, hf, hs, hc.removes]

theorem executeRequestInner_of_not_claimable (h : disk.request p = some r)
    (hc : ¬ Claimable host p disk) : (executeRequestInner host p disk).2 = disk := by
  obtain ⟨rootOnly, hf, hs⟩ := request_eq_some h
  unfold executeRequestInner
  split
  · rfl
  · next hvalid =>
    split
    · rfl
    · next hreads =>
      simp only [hf, hs, ne_eq, not_true_eq_false, if_false]
      split
      · rfl
      · next hremoves =>
        refine absurd ⟨?_, ?_, ?_, by simpa using hreads, by simpa using hremoves⟩ hc
        all_goals
          unfold validateRequestPath at hvalid
          simp only [hf] at hvalid
          split at hvalid
          · cases hvalid
          · split at hvalid
            · cases hvalid
            · split at hvalid
              · simp_all
              · cases hvalid

theorem file_result_iff (host : Host) {mid : Disk} {c : ℤ}
    (hm : mid.file r.resultPath = some ⟨.result ⟨2, c⟩, true⟩) :
    (dropGuard host r.credentialPath (dropGuard host r.networkPlanPath
        (host.removeFile r.cancelPath mid))).file r.resultPath = some ⟨.result ⟨2, c⟩, true⟩ ↔
      ResultKept host r := by
  rw [file_dropGuard, file_dropGuard, file_removeFile, hm]
  constructor
  · intro h q hq hremoves hsame
    subst hsame
    rcases hq with hq | hq | hq
    · simp [hremoves, ← hq] at h
    · simp [hremoves, hq] at h
    · simp [hremoves, hq] at h
  · intro h
    have hcredential : ¬ (r.resultPath ∈ r.credentialPath ∧ host.removes r.resultPath = true) :=
      fun hb => h _ (.inr (.inl hb.1)) hb.2 rfl
    have hplan : ¬ (r.resultPath ∈ r.networkPlanPath ∧ host.removes r.resultPath = true) :=
      fun hb => h _ (.inr (.inr hb.1)) hb.2 rfl
    have hcancel : ¬ (host.removes r.cancelPath = true ∧ r.cancelPath = r.resultPath) :=
      fun hb => h _ (.inl rfl) hb.1 hb.2
    rw [if_neg hcredential, if_neg hplan, if_neg hcancel]

theorem resultWritten_iff (hw : host.writes r.resultPath = true) (hr : disk.request p = some r) :
    ResultWritten disk (executeRequestInner host p disk).2 r ↔ Handled host p disk r := by
  -- a run that commits nothing has written no result
  have hsilent (hsame : (executeRequestInner host p disk).2.committed = disk.committed) :
      ¬ ResultWritten disk (executeRequestInner host p disk).2 r := by
    rintro ⟨c, hc, -⟩
    simp [hsame] at hc
  by_cases hclaim : Claimable host p disk
  · by_cases hrun : CompanionsOk host (disk.put p none) r ∧ Launches host r
    · obtain ⟨hcomp, hlaunch⟩ := hrun
      obtain ⟨mid, hcommitted, hfile, hworker⟩ := runWorker_of_launches (disk.put p none) hw hlaunch
      rw [executeRequestInner_of_claimable hr hclaim, executeClaimed_of_companions hcomp, hworker]
      have hkept := file_result_iff host hfile
      constructor
      · rintro ⟨c, hc, hf⟩
        have hcode : c = host.exitCode (workerCommand r) := by simpa [hcommitted] using hc.symm
        subst hcode
        exact ⟨hr, hclaim, hcomp, hlaunch, hkept.mp hf⟩
      · intro h
        exact ⟨_, by simp [hcommitted], hkept.mpr h.kept⟩
    · have hsame : (executeRequestInner host p disk).2.committed = disk.committed := by
        rw [executeRequestInner_of_claimable hr hclaim, committed_executeClaimed hrun]
        rfl
      exact ⟨fun h => absurd h (hsilent hsame),
        fun h => absurd ⟨h.companions, h.launch⟩ hrun⟩
  · have hsame : (executeRequestInner host p disk).2.committed = disk.committed := by
      rw [executeRequestInner_of_not_claimable hr hclaim]
    exact ⟨fun h => absurd h (hsilent hsame), fun h => absurd h.claim hclaim⟩

end Request

/-- A request is answered exactly when every step from the claim to the result succeeds; a file
without one, exactly when it is not there to be looked at again. -/
theorem executeRequest_answered_iff (host : Host) (p : Path) (disk : Disk)
    (hw : ∀ r, disk.request p = some r → host.writes r.resultPath = true) :
    Answered host p disk ↔
      (disk.request p = none ∧ ¬ Pending disk p) ∨ ∃ r, Handled host p disk r := by
  unfold Answered
  rw [executeRequest_snd]
  cases hr : disk.request p with
  | none =>
    rw [executeRequestInner_of_no_request hr]
    constructor
    · rintro (⟨r, h, -⟩ | h)
      · cases h
      · exact .inl h
    · rintro (h | ⟨r, h⟩)
      · exact .inr h
      · rw [h.request] at hr
        cases hr
  | some r =>
    have hiff := resultWritten_iff (hw r hr) hr
    constructor
    · rintro (⟨r', hsame, h⟩ | ⟨h, -⟩)
      · obtain rfl := Option.some.inj hsame
        exact .inr ⟨r, hiff.mp h⟩
      · cases h
    · rintro (⟨h, -⟩ | ⟨r', h⟩)
      · cases h
      · obtain rfl : r = r' := Option.some.inj (hr.symm.trans h.request)
        exact .inl ⟨r, rfl, hiff.mpr h⟩

/-- The request `lkit update` submits. -/
def sampleRequest : WorkerRequest where
  schemaVersion := 2
  args := ["update"]
  environment := [("PATH", "/usr/bin")]
  workingDirectory := ["root"]
  resultPath := operationsDir ++ ["1.result.json"]
  stdoutPath := operationsDir ++ ["1.stdout.log"]
  stderrPath := operationsDir ++ ["1.stderr.log"]
  cancelPath := operationsDir ++ ["1.cancel"]
  terminal := none
  presentationPath := operationsDir ++ ["1.presentation.jsonl"]
  credentialPath := none
  networkPlanPath := none

def requestPath : Path := operationsDir ++ ["1.request.json"]

/-- The operations directory with one file in the place of the request. -/
def submitted (content : Content) : Disk where
  file := fun p => if p = requestPath then some ⟨content, true⟩ else none
  committed := []

/-- A host on which everything works except, when `spawnable` is false, the start of a child
(its working directory is gone). -/
def sampleHost (spawnable : Bool) : Host where
  inspects _ := true
  reads _ := true
  removes _ := true
  currentExe := true
  opens _ := true
  spawns _ := spawnable
  work _ disk := disk
  exitCode _ := 0
  writes _ := true

/-- A claimed request whose child cannot be started stays without a result, and a request that
is not valid is looked at again in every cycle. -/
theorem failed_spawn_and_invalid_request_unanswered :
    ((submitted (.request sampleRequest)).request requestPath = some sampleRequest ∧
      (executeRequest (sampleHost false) requestPath (submitted (.request sampleRequest))).2.file
        sampleRequest.resultPath = none ∧
      (executeRequest (sampleHost false) requestPath (submitted (.request sampleRequest))).2.file
        requestPath = none ∧
      ¬ Answered (sampleHost false) requestPath (submitted (.request sampleRequest))) ∧
    ((submitted (.other "")).request requestPath = none ∧
      Pending (executeRequest (sampleHost true) requestPath (submitted (.other ""))).2 requestPath ∧
      ¬ Answered (sampleHost true) requestPath (submitted (.other ""))) := by
  have hreq : (submitted (.request sampleRequest)).request requestPath = some sampleRequest := by
    decide +kernel
  have hfile : (executeRequest (sampleHost false) requestPath
      (submitted (.request sampleRequest))).2.file sampleRequest.resultPath = none := by
    decide +kernel
  have hnone : (submitted (.other "")).request requestPath = none := by decide +kernel
  have hpending : Pending (executeRequest (sampleHost true) requestPath
      (submitted (.other ""))).2 requestPath := by
    refine ⟨by decide +kernel, by decide +kernel, by decide +kernel⟩
  refine ⟨⟨hreq, hfile, by decide +kernel, ?_⟩, hnone, hpending, ?_⟩
  · rintro (⟨r, hr, c, -, hc⟩ | ⟨h, -⟩)
    · obtain rfl := Option.some.inj (hreq.symm.trans hr)
      rw [hfile] at hc
      cases hc
    · rw [hreq] at h
      cases h
  · rintro (⟨r, hr, -⟩ | ⟨-, h⟩)
    · rw [hnone] at hr
      cases hr
    · exact h hpending

theorem sampleRequest_answered :
    (∀ r, (submitted (.request sampleRequest)).request requestPath = some r →
        (sampleHost true).writes r.resultPath = true) ∧
      Answered (sampleHost true) requestPath (submitted (.request sampleRequest)) := by
  have hw : ∀ r, (submitted (.request sampleRequest)).request requestPath = some r →
      (sampleHost true).writes r.resultPath = true := fun _ _ => rfl
  refine ⟨hw, (executeRequest_answered_iff (sampleHost true) requestPath _ hw).mpr (.inr ?_)⟩
  refine ⟨sampleRequest, by decide +kernel, ⟨?_, ?_, rfl, rfl, rfl⟩, ⟨?_, ?_⟩, ⟨rfl, rfl, rfl, rfl⟩, ?_⟩
  · decide
  · decide +kernel
  · rintro q ⟨⟩
  · rintro q ⟨⟩
  · rintro q (rfl | ⟨⟨⟩⟩ | ⟨⟨⟩⟩) -
    decide

end LandscapeKit.Daemon
