import LandscapeKit.LibBytes
import LandscapeKit.NetworkConfig

/-!
Downloads from a release repository: `release/repository/download`. Every attempt is one request
to a server that may do anything: refuse it, answer with any status and headers, send any pieces
and break off anywhere. The two loops are one, apart from what they do with a body and with the
temporary file.
-/

namespace LandscapeKit.Download

open Text

section Answers

/-- `std::io::ErrorKind`, as far as it is told apart. -/
inductive IoKind
  | connectionReset
  | connectionAborted
  | connectionRefused
  | brokenPipe
  | timedOut
  | unexpectedEof
  | addrNotAvailable
  | networkUnreachable
  | hostUnreachable
  | other
deriving DecidableEq

def retryableIoKind (kind : IoKind) : Bool := kind ≠ .other

/-- A `reqwest::Error`, with the IO errors among its sources. -/
structure RequestError where
  isTimeout : Bool
  isConnect : Bool
  causes : List IoKind
deriving DecidableEq

def isRetryableRequestError (error : RequestError) : Bool :=
  error.isTimeout || error.isConnect || error.causes.any retryableIoKind

/-- How a stream of pieces ends: complete, with an error of the request, or silent until the
reader gives up. -/
inductive Ending
  | complete
  | failed (error : RequestError)
  | idle
deriving DecidableEq

/-- An answer, at the time `now`. A body that is complete is as long as was announced. -/
structure Response where
  status : ℕ
  headers : List (String × Bytes)
  now : ℕ
  contentLength : Option ℕ
  chunks : List Bytes
  ending : Ending
  announced : ending = .complete → ∀ n, contentLength = some n → n = chunks.flatten.length

/-- What the server does to one request. -/
inductive Attempt
  | failed (error : RequestError)
  | answered (response : Response)

end Answers

section Statuses

def ok : ℕ := 200
def unauthorized : ℕ := 401
def forbidden : ℕ := 403
def notFound : ℕ := 404
def requestTimeout : ℕ := 408
def tooManyRequests : ℕ := 429

def retryAfterLimit : ℕ := 60
def maxAttempts : ℕ := 3
def metadataBodyLimit : ℕ := 10 * 1024 * 1024

def retryableStatus (status : ℕ) : Bool :=
  status = requestTimeout || status = tooManyRequests || (500 ≤ status && status < 600)

/-- `HeaderValue::to_str`: visible ASCII and tabs. -/
def toStr (value : Bytes) : Option Text :=
  if value.all fun b => b = 9 || (32 ≤ b && b < 127) then
    some (value.map fun b => Char.ofNat b.toNat)
  else none

/-- `str::parse::<u64>`. -/
def parseU64 (text : Text) : Option ℕ :=
  (Network.decimal ((stripLead ['+'] text).getD text)).filter (· < 2 ^ 64)

/-- The first value of a header, read as a number. -/
def headerNumber (name : String) (headers : List (String × Bytes)) : Option ℕ :=
  (headers.lookup name).bind fun value => (toStr value).bind fun text => parseU64 (Mirror.trim text)

/-- `Retry-After` is read first, and whatever the status is. -/
def rateLimitWait (status : ℕ) (headers : List (String × Bytes)) (now : ℕ) : Option ℕ :=
  match headerNumber "retry-after" headers with
  | some seconds => some seconds
  | none =>
    if status = tooManyRequests ∨ status = forbidden then
      (headerNumber "x-ratelimit-reset" headers).map (· - now)
    else none

end Statuses

inductive RepositoryError
  | request (error : RequestError)
  | timeout
  | rateLimited (seconds : ℕ)
  | unexpectedStatus (status : ℕ)
  | invalidToken
  | metadataTooLarge
  | assetSizeMismatch (expected actual : ℕ)
  | assetSha256Mismatch (expected actual : Text)
deriving DecidableEq

def RepositoryError.isRetryable : RepositoryError → Bool
  | .request error => isRetryableRequestError error
  | .timeout => true
  | _ => false

section Bodies

/-- `Asset`, as far as a download reads it. -/
structure Asset where
  size : ℕ
  sha256 : Text
deriving DecidableEq

/-- The pieces of an asset, written until one would make the file too long. -/
def writeChunks (size : ℕ) : List Bytes → Bytes → Except RepositoryError Unit × Bytes
  | [], file => (.ok (), file)
  | chunk :: chunks, file =>
    if size < file.length + chunk.length then
      (.error (.assetSizeMismatch size (file.length + chunk.length)), file)
    else writeChunks size chunks (file ++ chunk)

def Ending.error : Ending → Option RepositoryError
  | .complete => none
  | .failed error => some (.request error)
  | .idle => some .timeout

/-- What is checked of a file once its stream has ended. -/
def checkAsset (sha256 : Bytes → Text) (asset : Asset) (file : Bytes) :
    Except RepositoryError Unit :=
  if file.length ≠ asset.size then .error (.assetSizeMismatch asset.size file.length)
  else if sha256 file ≠ asset.sha256 then .error (.assetSha256Mismatch asset.sha256 (sha256 file))
  else .ok ()

/-- The result, and the temporary file, which is a new one. `sha256` is the digest in hexadecimal
digits. -/
def writeAssetResponse (sha256 : Bytes → Text) (asset : Asset) (response : Response) :
    Except RepositoryError Unit × Bytes :=
  match writeChunks asset.size response.chunks [] with
  | (.error e, file) => (.error e, file)
  | (.ok (), file) =>
    match response.ending.error with
    | some e => (.error e, file)
    | none => (checkAsset sha256 asset file, file)

def readChunks (limit : ℕ) : List Bytes → Bytes → Except RepositoryError Bytes
  | [], body => .ok body
  | chunk :: chunks, body =>
    if limit < body.length + chunk.length then .error .metadataTooLarge
    else readChunks limit chunks (body ++ chunk)

/-- Here only the timeout of the whole request ends a silent stream. -/
def readBodyLimited (response : Response) (limit : ℕ) : Except RepositoryError Bytes :=
  if response.contentLength.any fun length => limit < length then .error .metadataTooLarge
  else
    match readChunks limit response.chunks [] with
    | .error e => .error e
    | .ok body =>
      match response.ending with
      | .complete => .ok body
      | .failed error => .error (.request error)
      | .idle => .error (.request ⟨true, false, []⟩)

end Bodies

/-- What a loop ends with. `unreachable!` and an index that is out of range are a panic. -/
inductive Outcome (α : Type)
  | returned (result : Except RepositoryError α)
  | panicked

/-- What a loop ends with, the number of its requests and the temporary file it leaves. -/
structure Run (α : Type) where
  outcome : Outcome α
  requests : ℕ
  file : Option Bytes

def Run.counted {α : Type} (run : Run α) : Run α := { run with requests := run.requests + 1 }

/-- What the two loops do each in their own way: `before` and `dropped` are the temporary file at
the begin of an attempt and after a body that failed, `early` the results of some statuses. -/
structure Loop (α : Type) where
  before : Option Bytes → Option Bytes
  early : ℕ → Option (Except RepositoryError α)
  body : Response → Except RepositoryError α × Option Bytes
  dropped : Option Bytes → Option Bytes

/-- In milliseconds, without the jitter. -/
def retryDelays : List ℕ := [1000, 2000]

/-- `sleep_backoff`, and the attempts behind it. -/
def afterBackoff {α : Type} (attempt : ℕ) (next : Run α) : Run α :=
  match retryDelays[attempt]? with
  | some _ => next.counted
  | none => ⟨.panicked, 1, next.file⟩

/-- The attempts of a list, one after another. -/
def Loop.run {α : Type} (L : Loop α) (server : ℕ → Attempt) : List ℕ → Option Bytes → Run α
  | [], file => ⟨.panicked, 0, file⟩
  | attempt :: attempts, file =>
    let file := L.before file
    let more := attempt < maxAttempts - 1
    match server attempt with
    | .failed error =>
      if isRetryableRequestError error ∧ more then
        afterBackoff attempt (L.run server attempts file)
      else ⟨.returned (.error (.request error)), 1, file⟩
    | .answered response =>
      match rateLimitWait response.status response.headers response.now with
      | some seconds =>
        if retryAfterLimit < seconds then ⟨.returned (.error (.rateLimited seconds)), 1, file⟩
        else if more then (L.run server attempts file).counted
        else ⟨.returned (.error (.unexpectedStatus response.status)), 1, file⟩
      | none =>
        if retryableStatus response.status ∧ more then
          afterBackoff attempt (L.run server attempts file)
        else
          match L.early response.status with
          | some result => ⟨.returned result, 1, file⟩
          | none =>
            if response.status ≠ ok then
              ⟨.returned (.error (.unexpectedStatus response.status)), 1, file⟩
            else
              match L.body response with
              | (.ok a, file) => ⟨.returned (.ok a), 1, file⟩
              | (.error e, file) =>
                if e.isRetryable ∧ more then
                  afterBackoff attempt (L.run server attempts (L.dropped file))
                else ⟨.returned (.error e), 1, L.dropped file⟩

section Loops

/-- The loop of `download_asset`: the temporary file is removed before an attempt and after a body
that failed. -/
def assetLoop (sha256 : Bytes → Text) (asset : Asset) : Loop Unit where
  before := fun _ => none
  early := fun _ => none
  body := fun response =>
    let written := writeAssetResponse sha256 asset response
    (written.1, some written.2)
  dropped := fun _ => none

def downloadAsset (sha256 : Bytes → Text) (asset : Asset) (server : ℕ → Attempt)
    (file : Option Bytes) : Run Unit :=
  (assetLoop sha256 asset).run server (List.range maxAttempts) file

/-- The loop of `get_metadata`, which has no temporary file. -/
def metadataLoop (allowMissing : Bool) : Loop (Option (List (String × Bytes) × Bytes)) where
  before := id
  early := fun status =>
    if allowMissing ∧ status = notFound then some (.ok none)
    else if status = unauthorized then some (.error .invalidToken)
    else none
  body := fun response =>
    ((readBodyLimited response metadataBodyLimit).map fun body => some (response.headers, body),
      none)
  dropped := id

def getMetadata (allowMissing : Bool) (server : ℕ → Attempt) :
    Run (Option (List (String × Bytes) × Bytes)) :=
  (metadataLoop allowMissing).run server (List.range maxAttempts) none

end Loops

end LandscapeKit.Download
