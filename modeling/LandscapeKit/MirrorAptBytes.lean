import LandscapeKit.LibUtf8
import LandscapeKit.MirrorAptRewrite

/-!
Reading and rewriting an apt file with positions counted in bytes, as the source counts them. The
scanners go through the bytes, every slice is taken at two positions, and nothing comes out (the
outer `none`) when one of them is no place between characters, when a counter would fall below
zero, or when a loop does not end within its fuel.
-/

namespace LandscapeKit.Mirror.Bytewise

open Text Utf8 Splice

section Scanners

def isAsciiWhitespaceByte (b : UInt8) : Bool :=
  b = 32 || b = 9 || b = 10 || b = 12 || b = 13

def isTokenByte (b : UInt8) : Bool := !(isAsciiWhitespaceByte b) && b ≠ 35

def bytesFrom (line : Text) (pos : ℕ) : Bytes := (bytes line).drop pos

def skipWs (line : Text) (pos : ℕ) : ℕ :=
  pos + ((bytesFrom line pos).takeWhile isAsciiWhitespaceByte).length

def takeToken (line : Text) (pos : ℕ) : Option (ℕ × ℕ) :=
  let token := (bytesFrom line pos).takeWhile isTokenByte
  if token = [] then none else some (pos, pos + token.length)

/-- The number of bytes up to the end of a `cdrom:` URI. -/
def cdromEnd : ℕ → Bytes → Option ℕ
  | _, [] => none
  | depth, b :: rest =>
    if b = 91 then (cdromEnd (depth + 1) rest).map (· + 1)
    else if b = 93 ∧ 0 < depth then
      if depth = 1 then some (if rest.head? = some 47 then 2 else 1)
      else (cdromEnd (depth - 1) rest).map (· + 1)
    else (cdromEnd depth rest).map (· + 1)

def takeUri (line : Text) (pos : ℕ) : Option (Option (ℕ × ℕ)) := do
  let rest ← sub line pos (size line)
  if isCdromUri rest then
    some ((cdromEnd 0 ((bytes rest).drop 6)).map fun n => (pos, pos + (6 + n)))
  else some (takeToken line pos)

/-- The tokens from a position on, with their places. -/
def tokensFrom : ℕ → Text → ℕ → Option (List Uri)
  | 0, _, _ => none
  | fuel + 1, line, pos =>
    match takeToken line (skipWs line pos) with
    | none => some []
    | some (start, stop) => do
      let value ← sub line start stop
      let more ← tokensFrom fuel line stop
      some (⟨value, start, stop⟩ :: more)

def tokens (line : Text) (pos : ℕ) : Option (List Uri) := tokensFrom (size line + 1) line pos

def collectTokens (line : Text) (pos : ℕ) : Option (List Text) :=
  (tokens line pos).map fun ts => ts.map Uri.value

end Scanners

section OneLine

/-- Blanks and `#` in front of a line: whether the entry is enabled, and their bytes. -/
def skipComment : Bool → Bytes → Bool × ℕ
  | enabled, [] => (enabled, 0)
  | enabled, b :: rest =>
    if isAsciiWhitespaceByte b then
      ((skipComment enabled rest).1, (skipComment enabled rest).2 + 1)
    else if b = 35 then ((skipComment false rest).1, (skipComment false rest).2 + 1)
    else (enabled, 0)

/-- The depth counts the open brackets; a closing bracket without one would take it below zero. -/
def skipBrackets : ℕ → Bytes → Option ℕ
  | _, [] => some 0
  | depth, b :: rest =>
    if b = 91 then (skipBrackets (depth + 1) rest).map (· + 1)
    else if b = 93 then
      if depth = 0 then none
      else if depth = 1 then some 1
      else (skipBrackets (depth - 1) rest).map (· + 1)
    else (skipBrackets depth rest).map (· + 1)

def skipOptions (line : Text) (pos : ℕ) : Option ℕ :=
  if (bytesFrom line pos).head? = some 91 then
    (skipBrackets 0 (bytesFrom line pos)).map fun n => skipWs line (pos + n)
  else some pos

def isUrl (token : Uri) : Bool := containsText "://".toList token.value

def parseOneLineEntry (line : Text) : Option (AptEntry × Option ParseIssueKind) := do
  let (enabled, typeStart) := skipComment true (bytes line)
  let typeStop := typeStart +
    ((bytesFrom line typeStart).takeWhile fun b => !(isAsciiWhitespaceByte b)).length
  let debType ← sub line typeStart typeStop
  let entry : AptEntry := ⟨line, 0, size line, enabled, [], [], [], []⟩
  if isDebType debType then
    let pos ← skipOptions line (skipWs line typeStop)
    match ← takeUri line pos with
    | none => some ({ entry with debTypes := [debType] }, some .missingUri)
    | some (start, stop) =>
      let value ← sub line start stop
      let more ← tokens line stop
      some ({ entry with
          debTypes := [debType]
          uris := ⟨value, start, stop⟩ :: more.filter isUrl
          suites := ((more.take 1).filter fun t => !isUrl t).map Uri.value
          components := ((more.drop 1).filter fun t => !isUrl t).map Uri.value }, none)
  else some (entry, if enabled && debType ≠ [] then some .notADebLine else none)

def oneLineFrom : ℕ → ℕ → List Text → Option (List (AptEntry × List ParseIssue))
  | _, _, [] => some []
  | start, number, line :: lines => do
    let (entry, issue) ← parseOneLineEntry line
    let more ← oneLineFrom (start + size line) (number + 1) lines
    some ((entry.shift start, issue.toList.map fun kind => ⟨number + 1, kind⟩) :: more)

end OneLine

section Deb822

/-- `line.find(':')`. -/
def colonAt (line : Text) : Option ℕ := (find ":".toList line).map fun n => size (line.take n)

def readField (entry : AptEntry) (hasUris : Bool) (offset : ℕ) (line name : Text) (colon : ℕ) :
    Option (AptEntry × Bool) :=
  if name = "Types".toList then do
    let found ← collectTokens line (colon + 1)
    some ({ entry with debTypes := found }, hasUris)
  else if name = "URIs".toList then do
    let found ← tokens line (colon + 1)
    some ({ entry with uris := entry.uris ++ found.map (Uri.shift offset) }, true)
  else if name = "Suites".toList then do
    let found ← collectTokens line (colon + 1)
    some ({ entry with suites := found }, hasUris)
  else if name = "Components".toList then do
    let found ← collectTokens line (colon + 1)
    some ({ entry with components := found }, hasUris)
  else some (entry, hasUris)

def readLine (s : Stanza) (line : Text) : Option Stanza :=
  let s' := { s with offset := s.offset + size line, number := s.number + 1 }
  let notAField := { s' with issues := s.issues ++ [(s.number, .notAField)] }
  if isIgnored line then some s'
  else
    match colonAt line with
    | none => some notAField
    | some colon => do
      let name ← sub line 0 colon
      if trim name = [] || (trim name).any Hostnet.isWhitespace then some notAField
      else
        let (entry, hasUris) ← readField s.entry s.hasUris s.offset line (trim name) colon
        some { s' with
          entry := entry
          hasUris := hasUris
          firstField := s.firstField.or (some s.number) }

def emptyStanza (stanza : Text) : Stanza :=
  ⟨⟨stanza, 0, size stanza, true, [], [], [], []⟩, [], none, false, 0, 0⟩

def readLines (s : Stanza) : List Text → Option Stanza
  | [] => some s
  | line :: lines => do
    let s' ← readLine s line
    readLines s' lines

def parseDeb822Stanza (stanza : Text) : Option (AptEntry × List (ℕ × ParseIssueKind)) := do
  let s ← readLines (emptyStanza stanza) (splitInclusive '\n' stanza)
  some (s.entry, s.issues ++
    match s.firstField with
    | some line => if s.hasUris then [] else [(line, .stanzaWithoutUris)]
    | none => [])

def closeStanza (text : Text) (start stop number : ℕ) :
    Option (List (AptEntry × List ParseIssue)) :=
  if start < stop then do
    let stanza ← sub text start stop
    let (entry, issues) ← parseDeb822Stanza stanza
    some [(entry.shift start, issues.map fun (line, kind) => ⟨number + line + 1, kind⟩)]
  else some []

/-- `number` lines stand in front of the stanza that begins at `start`, `lines` of it have been
read, and `cur` is the position behind them. -/
def deb822From (text : Text) : (start cur number lines : ℕ) → List Text →
    Option (List (AptEntry × List ParseIssue))
  | start, _, number, _, [] => closeStanza text start (size text) number
  | start, cur, number, lines, line :: rest =>
    if isBlankLine line then do
      let closed ← closeStanza text start cur number
      let more ← deb822From text (cur + size line) (cur + size line) (number + lines + 1) 0 rest
      some (closed ++ more)
    else deb822From text start (cur + size line) number (lines + 1) rest

end Deb822

def parseAs (format : Format) (text : Text) : Option (List (AptEntry × List ParseIssue)) :=
  match format with
  | .oneLine => oneLineFrom 0 0 (splitInclusive '\n' text)
  | .deb822 => deb822From text 0 0 0 0 (splitInclusive '\n' text)

def parseSources (text : Text) : Option (List AptEntry) :=
  (parseAs (formatOf text) text).map fun found => found.map Prod.fst

section Rewrite

/-- `find_map` over the pairs: the rest of the path is cut off by the difference of two lengths. -/
def moveHost (scheme prefixed host path : Text) :
    List (Text × Text) → Option (Option Text)
  | [] => some none
  | (source, target) :: pairs =>
    if size source ≤ size (host ++ path) ∧ source.isPrefixOf (host ++ path) then do
      let after ← sub (host ++ path) (size source) (size (host ++ path))
      if endsAtBoundary after then
        if size host ≤ size source then do
          let suffix ← sub path (size source - size host) (size path)
          some (some (scheme ++ "://".toList ++ prefixed ++ target ++ suffix))
        else none
      else moveHost scheme prefixed host path pairs
    else moveHost scheme prefixed host path pairs

def rewriteUri (pairs : List (Text × Text)) (uri : Text) : Option (Option Text) :=
  match splitOnce "://".toList uri with
  | none => some none
  | some (scheme, rest) =>
    let (authority, path) := splitPath rest
    let (userinfo, hostport) := splitUserinfo authority
    moveHost scheme ((userinfo.map (· ++ ['@'])).getD []) (hostOf hostport) path pairs

def entryHead (e : AptEntry) : Option Text :=
  sub e.raw 0 (min ((e.uris.map Uri.start).min?.getD e.stop - e.start) (size e.raw))

def normalized (pairs : List (Text × Text)) : List Uri → Option (List Text)
  | [] => some []
  | u :: us => do
    let new ← rewriteUri pairs u.value
    let more ← normalized pairs us
    some (normalizeTarget (new.getD u.value) :: more)

def keyed (pairs : List (Text × Text)) : List AptEntry → Option (List (DedupKey × AptEntry))
  | [] => some []
  | e :: es =>
    if isCompared e then do
      let head ← entryHead e
      let uris ← normalized pairs e.uris
      let more ← keyed pairs es
      some ((⟨e.debTypes, head, uris, e.suites⟩, e) :: more)
    else keyed pairs es

def isDuplicateIn (all : List (DedupKey × AptEntry)) (k : DedupKey × AptEntry) : Bool :=
  match (all.filter fun l => l.1 = k.1).map Prod.snd with
  | [] => false
  | first :: group =>
    let keeper := keeperFrom first group
    k.2 ≠ keeper && k.2.components.all fun c => keeper.components.contains c

def duplicateDeletions (pairs : List (Text × Text)) (entries : List AptEntry) :
    Option (List (ℕ × ℕ)) :=
  (keyed pairs entries).map fun all =>
    (all.filter (isDuplicateIn all)).map fun k => (k.2.start, k.2.stop)

def uriEdits (pairs : List (Text × Text)) : List Uri → Option (List (Edit Char))
  | [] => some []
  | u :: us => do
    let new ← rewriteUri pairs u.value
    let more ← uriEdits pairs us
    some ((new.map fun t => ⟨u.start, u.stop, t⟩).toList ++ more)

def spliceFrom (text : Text) : ℕ → List (Edit Char) → Option Text
  | pos, [] => sub text pos (size text)
  | pos, e :: es => do
    let kept ← sub text pos e.start
    let more ← spliceFrom text e.stop es
    some (kept ++ e.new ++ more)

def rewriteWith (pairs : List (Text × Text)) (content : Text) : Option (Option Text) := do
  let entries ← parseSources content
  let deletions ← duplicateDeletions pairs entries
  let edits ← uriEdits pairs (entries.flatMap AptEntry.uris)
  if edits = [] ∧ deletions = [] then some none
  else
    let kept := edits.filter (survives deletions)
    (spliceFrom content 0 (sortEdits (kept ++ deletions.map fun d => ⟨d.1, d.2, []⟩))).map some

def rewrite (family : Family) (mirror : MirrorName) (replaceSecurity : Bool) (content : Text) :
    Option (Option Text) :=
  rewriteWith (replacementPairs family mirror replaceSecurity) content

end Rewrite

end LandscapeKit.Mirror.Bytewise
