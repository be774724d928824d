import Mathlib.Data.Countable.Basic
import Mathlib.Logic.Equiv.List
import Mathlib.Tactic.DeriveCountable
import LandscapeKit.HostnetParse
import LandscapeKit.LibLossy
import LandscapeKit.LibScan

/-!
What a worker writes on its way to the front end: `daemon_worker/wait.rs` and
`interaction/presentation/worker.rs`. The worker appends to three files in pieces of any length;
the front end polls them, each time from where the last poll ended, and decodes what a poll has
read by itself.
-/

namespace LandscapeKit.Daemon.Relay

open Text Utf8

section Events

abbrev U8 := Fin (2 ^ 8)
abbrev U64 := Fin (2 ^ 64)

instance countableChar : Countable Char :=
  Function.Injective.countable fun _ _ h => Char.toNat_inj.mp h

inductive DownloadStatus
  | downloading
  | complete
  | retrying
  | failed
deriving DecidableEq, Countable

structure DownloadState where
  id : U64
  label : Text
  total : U64
  position : U64
  elapsedMillis : U64
  status : DownloadStatus
deriving DecidableEq, Countable

inductive OperationPhase
  | preparing
  | downloading
  | applying
  | stopping
  | activating
  | verifying
deriving DecidableEq, Countable

inductive PresentationEvent
  | download (state : DownloadState)
  | phase (phase : OperationPhase) (step total : Option U8)
deriving DecidableEq, Countable

/-- What the code relies on of `serde_json` for events: one line of text, and back. -/
structure EventFormat where
  toJson : PresentationEvent → Text
  fromJson : Text → Option PresentationEvent
  read : ∀ event, fromJson (toJson event) = some event
  oneLine : ∀ event, '\n' ∉ toJson event
  notEmpty : ∀ event, toJson event ≠ []

def EventFormat.line (F : EventFormat) (event : PresentationEvent) : Text := F.toJson event ++ ['\n']

end Events

inductive Error
  | readLog
  | readEvents
  | parseEvent
deriving DecidableEq

section Presentation

/-- What the page shows of the operation. -/
structure Display where
  current : Option DownloadState
  phase : OperationPhase
  progress : Option (U8 × U8)
deriving DecidableEq

def idle : Display := ⟨none, .preparing, none⟩

/-- `apply`. A download that is over is not shown any more. -/
def Display.apply (d : Display) : PresentationEvent → Display
  | .download state =>
    { d with current := if state.status = .downloading then some state else none }
  | .phase phase step total =>
    { d with
      phase := phase
      progress :=
        match step, total with
        | some step, some total => if 0 < total then some (step, total) else none
        | _, _ => none }

/-- `WorkerPresentation`: `events` is where the open file stands, and `applied` keeps the events
in the order they were applied in. -/
structure WorkerPresentation where
  events : Option ℕ
  pending : Text
  display : Display
  applied : List PresentationEvent
  screen : Bool
  logs : List Text
deriving DecidableEq

namespace WorkerPresentation

def new (fullScreen : Bool) : WorkerPresentation where
  events := none
  pending := []
  display := idle
  applied := []
  screen := fullScreen
  logs := []

def apply (p : WorkerPresentation) (event : PresentationEvent) : WorkerPresentation :=
  { p with display := p.display.apply event, applied := p.applied ++ [event] }

/-- Where the file stands: a poll that finds it not open yet opens it at its begin. -/
def standing (offset : Option ℕ) : ℕ := offset.getD 0

/-- `read_to_string`: what lies behind the offset, where it is a text. The file is read to its end
in either case. -/
def readToString (content : Bytes) (offset : ℕ) : Option Text :=
  let read := content.drop offset
  if IsUtf8 read then some (lossy read) else none

/-- The loop of `drain`. A turn takes a line off `pending`, so that its length is fuel enough. -/
def applyLines (F : EventFormat) :
    ℕ → WorkerPresentation → Option Error × WorkerPresentation
  | 0, p => (none, p)
  | fuel + 1, p =>
    match splitOnce ['\n'] p.pending with
    | none => (none, p)
    | some (line, rest) =>
      let p := { p with pending := rest }
      if line = [] then applyLines F fuel p
      else
        match F.fromJson line with
        | none => (some .parseEvent, p)
        | some event => applyLines F fuel (p.apply event)

def drain (F : EventFormat) (file : Option Bytes) (p : WorkerPresentation) :
    Option Error × WorkerPresentation :=
  match file with
  | none => (none, p)
  | some content =>
    let read := readToString content (standing p.events)
    let p := { p with events := some content.length }
    match read with
    | none => (some .readEvents, p)
    | some text =>
      let p := { p with pending := p.pending ++ text }
      applyLines F p.pending.length p

/-- One piece of `lines`, without its end. -/
def lineText (piece : Text) : Text :=
  if piece.getLast? = some '\n' then
    if piece.dropLast.getLast? = some '\r' then piece.dropLast.dropLast else piece.dropLast
  else piece

/-- `capture_log`: the page keeps the last 200 lines that are not blank. Without a page nothing
is captured. -/
def captureLog (p : WorkerPresentation) (content : Text) : Option WorkerPresentation :=
  if p.screen then
    let logs := p.logs ++
      ((splitInclusive '\n' content).map lineText).filter fun line =>
        !line.all Hostnet.isWhitespace
    some { p with logs := logs.drop (logs.length - 200) }
  else none

end WorkerPresentation

end Presentation

inductive Log
  | stdout
  | stderr
deriving DecidableEq

/-- The state of `wait_for_result`: where the open logs stand, what of each was handed to the page
or printed, and the error that ended the wait. -/
structure Wait where
  offset : Log → Option ℕ
  forwarded : Log → Text
  presentation : WorkerPresentation
  failed : Option Error

open WorkerPresentation

def start (fullScreen : Bool) : Wait where
  offset := fun _ => none
  forwarded := fun _ => []
  presentation := new fullScreen
  failed := none

/-- A page captures the text; without one it is printed. -/
def forward (log : Log) (text : Text) (w : Wait) : Wait :=
  let w := { w with forwarded := Function.update w.forwarded log (w.forwarded log ++ text) }
  match w.presentation.captureLog text with
  | some presentation => { w with presentation := presentation }
  | none => w

def drainLog (log : Log) (file : Option Bytes) (w : Wait) : Wait :=
  match file with
  | none => w
  | some content =>
    let read := readToString content (standing (w.offset log))
    let w := { w with offset := Function.update w.offset log (some content.length) }
    match read with
    | none => { w with failed := some .readLog }
    | some text => if text = [] then w else forward log text w

def drainEvents (F : EventFormat) (file : Option Bytes) (w : Wait) : Wait :=
  let (failed, presentation) := w.presentation.drain F file
  { w with failed := failed, presentation := presentation }

/-- The files of an operation. -/
inductive Stream
  | log (log : Log)
  | events
deriving DecidableEq

/-- What a worker writes from its begin to its end. -/
structure Output where
  log : Log → Text
  events : List PresentationEvent

def Output.content (F : EventFormat) (o : Output) : Stream → Bytes
  | .log log => bytes (o.log log)
  | .events => bytes (o.events.flatMap F.line)

/-- The worker appends the next bytes of a stream, or the front end polls one. An append of no
byte still creates the file. -/
inductive Move
  | append (stream : Stream) (n : ℕ)
  | poll (stream : Stream)
deriving DecidableEq

structure World where
  file : Stream → Option Bytes
  wait : Wait

/-- How much the moves append to a stream. -/
def written (stream : Stream) : List Move → ℕ
  | [] => 0
  | .append s n :: moves => if s = stream then n + written stream moves else written stream moves
  | .poll _ :: moves => written stream moves

/-- The bytes of a stream that are in its file after the moves. -/
def appended (F : EventFormat) (o : Output) (s : Stream) (moves : List Move) : Bytes :=
  (o.content F s).take (written s moves)

/-- One move. An error of a poll ends the wait. -/
def step (F : EventFormat) (o : Output) (w : World) : Move → World
  | .append s n =>
    let there := (w.file s).getD []
    let piece := ((o.content F s).drop there.length).take n
    { w with file := Function.update w.file s (some (there ++ piece)) }
  | .poll s =>
    if w.wait.failed.isSome then w
    else
      match s with
      | .log log => { w with wait := drainLog log (w.file s) w.wait }
      | .events => { w with wait := drainEvents F (w.file s) w.wait }

def run (F : EventFormat) (o : Output) (fullScreen : Bool) (moves : List Move) : World :=
  moves.foldl (step F o) ⟨fun _ => none, start fullScreen⟩

/-- The events whose line ends within the first bytes. -/
def terminated (F : EventFormat) : List PresentationEvent → ℕ → List PresentationEvent
  | [], _ => []
  | event :: events, n =>
    if size (F.line event) ≤ n then event :: terminated F events (n - size (F.line event)) else []

/-- After a poll, what is in the file is forwarded, or applied: all of it, in order and once. -/
def Complete (F : EventFormat) (o : Output) (moves : List Move) (w : Wait) : Stream → Prop
  | .log log => bytes (w.forwarded log) = appended F o (.log log) moves
  | .events =>
    let events := terminated F o.events (appended F o .events moves).length
    w.presentation.applied = events ∧ w.presentation.display = events.foldl Display.apply idle

/-- Of every poll of a schedule, and of the moves before it. -/
def AtEachPoll (P : List Move → Stream → Prop) (moves : List Move) : Prop :=
  ∀ before s, before ++ [.poll s] <+: moves → P before s

/-- No poll fails, and each one loses nothing. -/
def Relayed (F : EventFormat) (o : Output) (fullScreen : Bool) : List Move → Prop :=
  AtEachPoll fun before s =>
    (run F o fullScreen (before ++ [.poll s])).wait.failed = none ∧
      Complete F o before (run F o fullScreen (before ++ [.poll s])).wait s

/-- No poll of a stream falls between two bytes of one of its characters. -/
def BetweenCharacters (F : EventFormat) (o : Output) : List Move → Prop :=
  AtEachPoll fun before s => IsUtf8 (appended F o s before)

end LandscapeKit.Daemon.Relay
