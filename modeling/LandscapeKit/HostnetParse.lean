import Mathlib.Data.Int.Notation
import LandscapeKit.LibText
import LandscapeKit.LibLines

/-!
The reader of ifupdown files: physical lines are joined into logical ones at a trailing
backslash, and every logical line is a comment, a top-level statement or an option of the
stanza that is open. A parsed file keeps the numbers of the physical lines each statement
covers.
-/

namespace LandscapeKit.Hostnet

open Lines

/-- `char::is_whitespace`: Unicode's White_Space. -/
def isWhitespace (c : Char) : Bool :=
  let n := c.toNat
  (9 ≤ n && n ≤ 13) || n = 32 || n = 0x85 || n = 0xA0 || n = 0x1680 ||
    (0x2000 ≤ n && n ≤ 0x200A) || n = 0x2028 || n = 0x2029 || n = 0x202F || n = 0x205F ||
    n = 0x3000

def splitWhitespace (text : Text) : List Text := words isWhitespace text

/-- `path` names the file an error is about. -/
inductive HostNetError where
  | unreadableFile (path : Text)
  | unsupportedSyntax (path : Text) (line : ℕ) (reason : Text)
  | unsupportedMethod (path iface method : Text)
  | atomicWriteFailed (path : Text)
  | validationFailed (exit : Option ℤ) (stderr : Text)
  | invalidManifest (path reason : Text)
  | pathSafety (path reason : Text)
  | concurrentModification (path : Text)
  | recoveryFailed (operation recovery : HostNetError)
deriving DecidableEq

/-- The physical lines of a statement (0-based, ascending): there is always a first. -/
structure Span where
  first : ℕ
  more : List ℕ
deriving DecidableEq

def Span.lines (s : Span) : List ℕ := s.first :: s.more

structure InterfaceOption where
  key : Text
  values : List Text
  lines : Span
deriving DecidableEq

structure InterfaceBlock where
  iface : Text
  family : Text
  method : Text
  declarationLines : Span
  inherits : Option Text
  optionLines : List ℕ
  options : List InterfaceOption
deriving DecidableEq

inductive SourceKind where
  | file
  | directory
deriving DecidableEq

structure SourceDirective where
  line : ℕ
  pattern : Text
  kind : SourceKind
deriving DecidableEq

structure SelectionLine where
  keyword : Text
  interfaces : List Text
  lines : Span
deriving DecidableEq

structure MappingLine where
  patterns : List Text
  line : ℕ
deriving DecidableEq

structure RenameLine where
  mappings : List Text
  line : ℕ
deriving DecidableEq

structure ParsedFile where
  lines : List Text
  endsWithNewline : Bool
  blocks : List InterfaceBlock
  sources : List SourceDirective
  selections : List SelectionLine
  mappings : List MappingLine
  renames : List RenameLine
deriving DecidableEq

structure LogicalLine where
  text : Text
  lines : Span
  indented : Bool
deriving DecidableEq

def stripCarriageReturn (line : Text) : Text :=
  if line.getLast? = some '\r' then line.dropLast else line

def startsIndented (text : Text) : Bool :=
  text.head? = some ' ' || text.head? = some '\t'

/-- The line that the loop of `logical_lines` looks at: `cur` is the one left open so far, from
whose end the backslash has been taken. -/
def nextLine (cur : Option LogicalLine) (index : ℕ) (line : Text) : LogicalLine :=
  match cur with
  | none =>
    { text := stripCarriageReturn line
      lines := ⟨index, []⟩
      indented := startsIndented (stripCarriageReturn line) }
  | some l =>
    { l with
      text := l.text ++ stripCarriageReturn line
      lines := { l.lines with more := l.lines.more ++ [index] } }

/-- Both loops of `logical_lines`, from the physical line `index` on. -/
def logicalFrom (path : Text) :
    Option LogicalLine → ℕ → List Text → Except HostNetError (List LogicalLine)
  | none, _, [] => .ok []
  | some l, _, [] =>
    .error (.unsupportedSyntax path (l.lines.first + 1) "unterminated line continuation".toList)
  | cur, index, line :: rest =>
    let l := nextLine cur index line
    if l.text.getLast? = some '\\' then
      logicalFrom path (some { l with text := l.text.dropLast }) (index + 1) rest
    else do
      let logical ← logicalFrom path none (index + 1) rest
      .ok (l :: logical)

def logicalLines (path : Text) (lines : List Text) : Except HostNetError (List LogicalLine) :=
  logicalFrom path none 0 lines

def isTopLevel (keyword : Text) : Bool :=
  keyword = "iface".toList || keyword = "auto".toList || keyword = "mapping".toList ||
    keyword = "rename".toList || keyword = "source".toList ||
    keyword = "source-directory".toList || keyword = "no-auto-down".toList ||
    keyword = "no-scripts".toList || "allow-".toList.isPrefixOf keyword

inductive Stanza where
  | none
  | mapping
  | iface (block : InterfaceBlock)
deriving DecidableEq

/-- What `parse` has collected so far. -/
structure Collected where
  blocks : List InterfaceBlock := []
  sources : List SourceDirective := []
  selections : List SelectionLine := []
  mappings : List MappingLine := []
  renames : List RenameLine := []
  current : Stanza := .none
deriving DecidableEq

def closeIface (c : Collected) : Collected :=
  match c.current with
  | .iface block => { c with blocks := c.blocks ++ [block], current := .none }
  | _ => { c with current := .none }

/-- `tokens` are the keyword and `args`. -/
def requireArguments (path : Text) (line : ℕ) (keyword : Text) (args : List Text) :
    Except HostNetError Unit :=
  if args = [] then
    .error (.unsupportedSyntax path line (keyword ++ " requires at least one argument".toList))
  else .ok ()

def addOption (path : Text) (lineNumber : ℕ) (c : Collected) (logical : LogicalLine)
    (key : Text) (values : List Text) : Except HostNetError Collected :=
  match c.current with
  | .mapping => .ok c
  | .iface block =>
    .ok { c with current := .iface { block with
      optionLines := block.optionLines ++ logical.lines.lines
      options := block.options ++ [⟨key, values, logical.lines⟩] } }
  | .none =>
    .error (.unsupportedSyntax path lineNumber
      (if logical.indented then "indented option outside of any stanza".toList
        else "unknown statement '".toList ++ key ++ "'".toList))

def parseIface (path : Text) (c : Collected) (logical : LogicalLine) (body : Text)
    (args : List Text) : Except HostNetError Collected :=
  let lineNumber := logical.lines.first + 1
  match args with
  | [iface, family, method] =>
    .ok { c with current := .iface ⟨iface, family, method, logical.lines, none, [], []⟩ }
  | [iface, family, method, suffix, template] =>
    if suffix ≠ "inherits".toList then
      .error (.unsupportedSyntax path lineNumber
        ("unsupported iface suffix in: ".toList ++ body))
    else
      .ok { c with current := .iface ⟨iface, family, method, logical.lines, some template, [], []⟩ }
  | _ =>
    .error (.unsupportedSyntax path lineNumber
      ("expected 'iface <iface> <family> <method>', got: ".toList ++ body))

/-- The arms for `auto`, `no-auto-down`, `no-scripts` and `allow-*`. -/
def parseSelection (path : Text) (c : Collected) (logical : LogicalLine) (keyword : Text)
    (args : List Text) : Except HostNetError Collected := do
  requireArguments path (logical.lines.first + 1) keyword args
  .ok { c with
    selections := c.selections ++ [⟨keyword, args, logical.lines⟩]
    current := .none }

/-- The match on a top-level keyword. The last arm is the one for `allow-*`: no other keyword
is left. -/
def parseTopLevel (path : Text) (c : Collected) (logical : LogicalLine) (body keyword : Text)
    (args : List Text) : Except HostNetError Collected :=
  let lineNumber := logical.lines.first + 1
  if keyword = "iface".toList then parseIface path c logical body args
  else if keyword = "auto".toList ∨ keyword = "no-auto-down".toList ∨
      keyword = "no-scripts".toList then
    parseSelection path c logical keyword args
  else if keyword = "mapping".toList then do
    requireArguments path lineNumber keyword args
    .ok { c with mappings := c.mappings ++ [⟨args, lineNumber⟩], current := .mapping }
  else if keyword = "rename".toList then do
    requireArguments path lineNumber keyword args
    .ok { c with renames := c.renames ++ [⟨args, lineNumber⟩], current := .none }
  else if keyword = "source".toList ∨ keyword = "source-directory".toList then
    match args with
    | [pattern] =>
      .ok { c with
        sources := c.sources ++
          [⟨lineNumber, pattern, if keyword = "source".toList then .file else .directory⟩]
        current := .none }
    | _ =>
      .error (.unsupportedSyntax path lineNumber
        ("expected '".toList ++ keyword ++ " <pattern>', got: ".toList ++ body))
  else parseSelection path c logical keyword args

def trimIndent (text : Text) : Text := text.dropWhile fun c => c = ' ' || c = '\t'

/-- `body.trim().is_empty() || body.starts_with('#')`. -/
def isComment (body : Text) : Bool := body.all isWhitespace || body.head? = some '#'

/-- One turn of the loop of `parse`. -/
def parseLine (path : Text) (c : Collected) (logical : LogicalLine) :
    Except HostNetError Collected :=
  let body := trimIndent logical.text
  if isComment body then .ok c
  else
    match splitWhitespace body with
    | [] => .ok c
    | keyword :: args =>
      if !isTopLevel keyword then
        addOption path (logical.lines.first + 1) c logical keyword args
      else parseTopLevel path (closeIface c) logical body keyword args

def endsWithNewline (content : Text) : Bool := content.getLast? = some '\n'

/-- `content.strip_suffix('\n').unwrap_or(content).split('\n')`. -/
def physicalLines (content : Text) : List Text :=
  (if endsWithNewline content then content.dropLast else content).splitOn '\n'

def parse (path content : Text) : Except HostNetError ParsedFile := do
  let lines := physicalLines content
  let logical ← logicalLines path lines
  let c ← logical.foldlM (parseLine path) {}
  let c := closeIface c
  .ok {
    lines
    endsWithNewline := endsWithNewline content
    blocks := c.blocks
    sources := c.sources
    selections := c.selections
    mappings := c.mappings
    renames := c.renames }

end LandscapeKit.Hostnet
