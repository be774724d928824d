import LandscapeKit.MirrorHosts

/-!
The reader of apt source files. A place in a line is given by the text from there on; the spans
of an entry count the characters in front of it. One-line files have an entry for every line,
whatever it holds; deb822 files one for every run of lines that are not blank.
-/

namespace LandscapeKit.Mirror

open Text

structure Uri where
  value : Text
  start : ℕ
  stop : ℕ
deriving DecidableEq

structure AptEntry where
  raw : Text
  start : ℕ
  stop : ℕ
  enabled : Bool
  debTypes : List Text
  uris : List Uri
  suites : List Text
  components : List Text
deriving DecidableEq

inductive ParseIssueKind where
  | notADebLine
  | missingUri
  | notAField
  | stanzaWithoutUris
deriving DecidableEq

/-- `line` counts from 1. -/
structure ParseIssue where
  line : ℕ
  kind : ParseIssueKind
deriving DecidableEq

def Uri.shift (n : ℕ) (u : Uri) : Uri := { u with start := u.start + n, stop := u.stop + n }

/-- An entry of a piece of text, seen from the text it is `n` characters into. -/
def AptEntry.shift (n : ℕ) (e : AptEntry) : AptEntry :=
  { e with start := e.start + n, stop := e.stop + n, uris := e.uris.map (Uri.shift n) }

def isCdromUri (value : Text) : Bool := "cdrom:".toList.isPrefixOf value

def AptEntry.isCdrom (e : AptEntry) : Bool := e.uris.any fun u => isCdromUri u.value

def skipWs (rest : Text) : Text := rest.dropWhile isAsciiWhitespace

/-- A `#` ends a token as a blank does: a comment begins there. -/
def isTokenChar (c : Char) : Bool := !(isAsciiWhitespace c) && c ≠ '#'

/-- A token and the text behind it; an empty one is none. -/
def takeToken (rest : Text) : Option (Text × Text) :=
  if rest.takeWhile isTokenChar = [] then none
  else some (rest.takeWhile isTokenChar, rest.dropWhile isTokenChar)

/-- The label of `cdrom:[label]/` may hold blanks and brackets: it ends where they balance. -/
def behindCdrom : ℕ → Text → Option Text
  | _, [] => none
  | depth, c :: rest =>
    if c = '[' then behindCdrom (depth + 1) rest
    else if c = ']' ∧ 0 < depth then
      if depth = 1 then some (if rest.head? = some '/' then rest.tail else rest)
      else behindCdrom (depth - 1) rest
    else behindCdrom depth rest

def takeUri (rest : Text) : Option (Text × Text) :=
  if isCdromUri rest then
    (behindCdrom 0 (rest.drop 6)).map fun behind =>
      (rest.take (rest.length - behind.length), behind)
  else takeToken rest

/-- The tokens of a text, each with the text from it on. The fuel bounds their number. -/
def tokensFrom : ℕ → Text → List (Text × Text)
  | 0, _ => []
  | fuel + 1, rest =>
    match takeToken (skipWs rest) with
    | none => []
    | some (token, behind) => (token, skipWs rest) :: tokensFrom fuel behind

/-- Every token takes a character, so the length is fuel enough. -/
def tokens (rest : Text) : List (Text × Text) := tokensFrom rest.length rest

def collectTokens (rest : Text) : List Text := (tokens rest).map Prod.fst

/-- A token as a URI of the line that ends with it and the text behind. -/
def uriAt (line : Text) (token : Text × Text) : Uri :=
  let start := line.length - token.2.length
  { value := token.1, start := start, stop := start + token.1.length }

def isUrl (token : Text × Text) : Bool := containsText "://".toList token.1

section OneLine

/-- Blanks and `#` in front of a line; a `#` among them disables the entry. -/
def skipComment : Bool → Text → Bool × Text
  | enabled, [] => (enabled, [])
  | enabled, c :: rest =>
    if isAsciiWhitespace c then skipComment enabled rest
    else if c = '#' then skipComment false rest
    else (enabled, c :: rest)

def skipBrackets : ℕ → Text → Text
  | _, [] => []
  | depth, c :: rest =>
    if c = '[' then skipBrackets (depth + 1) rest
    else if c = ']' then if depth = 1 then rest else skipBrackets (depth - 1) rest
    else skipBrackets depth rest

/-- `[options]` in front of the URI. -/
def skipOptions (rest : Text) : Text :=
  if rest.head? = some '[' then skipBrackets 0 rest else rest

def isNotBlank (c : Char) : Bool := !(isAsciiWhitespace c)

/-- The text from the first URI on, given the text from the type on. -/
def behindHead (rest : Text) : Text :=
  skipWs (skipOptions (skipWs (rest.dropWhile isNotBlank)))

def isDebType (token : Text) : Bool := token = "deb".toList || token = "deb-src".toList

def parseOneLineEntry (line : Text) : AptEntry × Option ParseIssueKind :=
  let (enabled, rest) := skipComment true line
  let debType := rest.takeWhile isNotBlank
  let entry : AptEntry := ⟨line, 0, line.length, enabled, [], [], [], []⟩
  if isDebType debType then
    match takeUri (behindHead rest) with
    | none => ({ entry with debTypes := [debType] }, some .missingUri)
    | some (uri, behind) =>
      -- a second URL on the line is a URI too, so that both are rewritten
      let more := tokens behind
      ({ entry with
          debTypes := [debType]
          uris := ((uri, behindHead rest) :: more.filter isUrl).map (uriAt line)
          suites := ((more.take 1).filter fun t => !isUrl t).map Prod.fst
          components := ((more.drop 1).filter fun t => !isUrl t).map Prod.fst }, none)
  else (entry, if enabled && debType ≠ [] then some .notADebLine else none)

/-- `start` counts the characters and `number` the lines in front. -/
def oneLineFrom : ℕ → ℕ → List Text → List (AptEntry × List ParseIssue)
  | _, _, [] => []
  | start, number, line :: lines =>
    let (entry, issue) := parseOneLineEntry line
    (entry.shift start, issue.toList.map fun kind => ⟨number + 1, kind⟩) ::
      oneLineFrom (start + line.length) (number + 1) lines

end OneLine

section Deb822

/-- The field of a line and what stands behind its colon. The name of a field is one word, so
a line with a URL is none. -/
def fieldOf (line : Text) : Option (Text × Text) :=
  match splitOnce ":".toList line with
  | none => none
  | some (name, value) =>
    if trim name = [] || (trim name).any Hostnet.isWhitespace then none else some (trim name, value)

def isIgnored (line : Text) : Bool := trim line = [] || (trim line).head? = some '#'

/-- What has been read of a stanza: `offset` characters on `number` lines. -/
structure Stanza where
  entry : AptEntry
  issues : List (ℕ × ParseIssueKind)
  firstField : Option ℕ
  hasUris : Bool
  offset : ℕ
  number : ℕ

/-- Types, suites and components are replaced when a field comes again, URIs are added. -/
def readField (entry : AptEntry) (hasUris : Bool) (offset : ℕ) (line name value : Text) :
    AptEntry × Bool :=
  if name = "Types".toList then ({ entry with debTypes := collectTokens value }, hasUris)
  else if name = "URIs".toList then
    let found := (tokens value).map fun t => (uriAt line t).shift offset
    ({ entry with uris := entry.uris ++ found }, true)
  else if name = "Suites".toList then ({ entry with suites := collectTokens value }, hasUris)
  else if name = "Components".toList then
    ({ entry with components := collectTokens value }, hasUris)
  else (entry, hasUris)

def readLine (s : Stanza) (line : Text) : Stanza :=
  let s' := { s with offset := s.offset + line.length, number := s.number + 1 }
  if isIgnored line then s'
  else
    match fieldOf line with
    | none => { s' with issues := s.issues ++ [(s.number, .notAField)] }
    | some (name, value) =>
      let (entry, hasUris) := readField s.entry s.hasUris s.offset line name value
      { s' with
        entry := entry
        hasUris := hasUris
        firstField := s.firstField.or (some s.number) }

def emptyStanza (stanza : Text) : Stanza :=
  ⟨⟨stanza, 0, stanza.length, true, [], [], [], []⟩, [], none, false, 0, 0⟩

/-- The issues come with the number of their line inside the stanza. -/
def parseDeb822Stanza (stanza : Text) : AptEntry × List (ℕ × ParseIssueKind) :=
  let s := (splitInclusive '\n' stanza).foldl readLine (emptyStanza stanza)
  (s.entry, s.issues ++
    match s.firstField with
    | some line => if s.hasUris then [] else [(line, .stanzaWithoutUris)]
    | none => [])

/-- A stanza that begins `start` characters and `number` lines into the file. -/
def closeStanza (start number : ℕ) (stanza : Text) : List (AptEntry × List ParseIssue) :=
  if stanza = [] then []
  else
    let (entry, issues) := parseDeb822Stanza stanza
    [(entry.shift start, issues.map fun (line, kind) => ⟨number + line + 1, kind⟩)]

def isBlankLine (line : Text) : Bool := trim line = []

/-- `stanza` is what has been read of the open stanza, `lines` the number of its lines. -/
def deb822From : (start number : ℕ) → (stanza : Text) → (lines : ℕ) → List Text →
    List (AptEntry × List ParseIssue)
  | start, number, stanza, _, [] => closeStanza start number stanza
  | start, number, stanza, lines, line :: rest =>
    if isBlankLine line then
      closeStanza start number stanza ++
        deb822From (start + stanza.length + line.length) (number + lines + 1) [] 0 rest
    else deb822From start number (stanza ++ line) (lines + 1) rest

end Deb822

inductive Format where
  | oneLine
  | deb822
deriving DecidableEq

/-- The first line that is neither empty nor a comment tells the format. -/
def formatOf (text : Text) : Format :=
  let body := ((splitInclusive '\n' text).map trimStart).find? fun line =>
    !(line = [] || line.head? = some '#')
  if body.any fun line =>
      "Types:".toList.isPrefixOf line || "URIs:".toList.isPrefixOf line then .deb822
  else .oneLine

def parseAs (format : Format) (text : Text) : List (AptEntry × List ParseIssue) :=
  match format with
  | .oneLine => oneLineFrom 0 0 (splitInclusive '\n' text)
  | .deb822 => deb822From 0 0 [] 0 (splitInclusive '\n' text)

def parseSourcesWithDiagnostics (text : Text) : List AptEntry × List ParseIssue :=
  let found := parseAs (formatOf text) text
  (found.map Prod.fst, (found.map Prod.snd).flatten)

def parseSources (text : Text) : List AptEntry := (parseSourcesWithDiagnostics text).1

end LandscapeKit.Mirror
