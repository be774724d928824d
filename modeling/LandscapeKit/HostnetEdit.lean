import LandscapeKit.HostnetParse

/-!
The edit that takes interfaces out of ifupdown's hands: their `iface` stanzas become `manual`
without options, and their names leave the `auto` and `allow-*` statements. Every other line is
to stay as it is. The edit is planned on the numbers of the physical lines.
-/

namespace LandscapeKit.Hostnet

/-- What planning uses from outside: the files, their metadata, and the patterns of the glob
library, compiled or refused with a message. -/
structure Env (M : Type) where
  readToString : Text → Option Text
  captureMetadata : Text → Except HostNetError M
  glob : Text → Except Text (Text → Bool)

structure FileEdit (M : Type) where
  path : Text
  originalContent : Text
  content : Text
  metadata : M
deriving DecidableEq

structure EditPlan (M : Type) where
  edits : List (FileEdit M)
deriving DecidableEq

def splitOnce (sep : Char) (text : Text) : Option (Text × Text) :=
  match text.dropWhile (· ≠ sep) with
  | [] => none
  | _ :: rest => some (text.takeWhile (· ≠ sep), rest)

section Checks

variable {M : Type} (env : Env M) (path : Text) (parsed : ParsedFile) (selected : List Text)

/-- Up to the first `=`, without slashes in front. -/
def selectionPatternMatches (pattern interface : Text) : Except Text Bool :=
  let body := (pattern.dropWhile (· = '/')).takeWhile (· ≠ '=')
  if '/' ∈ body then
    .error ("complex interface selection pattern ".toList ++ pattern ++
      " cannot be safely evaluated".toList)
  else
    match env.glob body with
    | .ok isMatch => .ok (isMatch interface)
    | .error error =>
      .error ("invalid interface selection pattern ".toList ++ pattern ++ ": ".toList ++ error)

def rejectMapping (mapping : MappingLine) : Except HostNetError Unit :=
  mapping.patterns.forM fun pattern =>
    match env.glob pattern with
    | .error error =>
      .error (.unsupportedSyntax path mapping.line
        ("invalid mapping pattern ".toList ++ pattern ++ ": ".toList ++ error))
    | .ok isMatch =>
      selected.forM fun interface =>
        if isMatch interface then
          .error (.unsupportedSyntax path mapping.line
            ("mapping pattern ".toList ++ pattern ++ " selects ".toList ++ interface ++
              "; mapped interfaces cannot be safely unmanaged".toList))
        else .ok ()

/-- The `CUR=NEW` arguments of one `rename`. -/
def rejectRename (rename : RenameLine) : Except HostNetError Unit :=
  rename.mappings.forM fun value =>
    match splitOnce '=' value with
    | none =>
      .error (.unsupportedSyntax path rename.line
        ("rename argument ".toList ++ value ++ " must be CUR=NEW".toList))
    | some (old, new) =>
      selected.forM fun interface =>
        match selectionPatternMatches env old interface with
        | .error reason => .error (.unsupportedSyntax path rename.line reason)
        | .ok oldMatches =>
          if oldMatches || new = interface then
            .error (.unsupportedSyntax path rename.line
              ("rename ".toList ++ value ++ " affects a selected interface".toList))
          else .ok ()

def rejectAmbiguousMappings : Except HostNetError Unit := do
  parsed.mappings.forM (rejectMapping env path selected)
  parsed.renames.forM (rejectRename env path selected)

/-- Options whose values name other interfaces. -/
def namesInterfaces (key : Text) : Bool :=
  key = "bridge_ports".toList || key = "bridge-ports".toList || key = "bond-slaves".toList ||
    key = "bond_slaves".toList

/-- One option of a block that is not selected. -/
def rejectOption (iface : Text) (option : InterfaceOption) : Except HostNetError Unit :=
  if !namesInterfaces option.key then .ok ()
  else
    option.values.forM fun value =>
      match env.glob value with
      | .error error =>
        .error (.unsupportedSyntax path (option.lines.first + 1)
          ("invalid ".toList ++ option.key ++ " pattern ".toList ++ value ++ ": ".toList ++ error))
      | .ok isMatch =>
        if value = "all".toList || selected.any isMatch then
          .error (.unsupportedSyntax path (option.lines.first + 1)
            ("interface ".toList ++ iface ++
              " depends on a selected interface through ".toList ++ option.key))
        else .ok ()

def rejectBlock (block : InterfaceBlock) : Except HostNetError Unit :=
  if block.iface ∈ selected then .ok ()
  else
    match block.inherits.filter (· ∈ selected) with
    | some template =>
      .error (.unsupportedSyntax path (block.declarationLines.first + 1)
        ("interface ".toList ++ block.iface ++ " inherits selected interface ".toList ++ template ++
          " and cannot be safely unmanaged".toList))
    | none => block.options.forM (rejectOption env path selected block.iface)

def rejectSelectedDependencies : Except HostNetError Unit :=
  parsed.blocks.forM (rejectBlock env path selected)

end Checks

/-- New texts by line number, the latest first, and the numbers of the lines to drop. -/
structure Changes where
  replacements : List (ℕ × Text) := []
  removals : List ℕ := []

def planBlock (path : Text) (fileManaged : List Text) (ch : Changes) (block : InterfaceBlock) :
    Except HostNetError Changes :=
  if block.iface ∉ fileManaged then .ok ch
  else if block.method = "ppp".toList then
    .error (.unsupportedMethod path block.iface block.method)
  else if block.method = "manual".toList ∧ block.inherits = none ∧ block.optionLines = [] then
    .ok ch
  else
    .ok {
      replacements := (block.declarationLines.first, "iface ".toList ++ block.iface ++
        " ".toList ++ block.family ++ " manual".toList) :: ch.replacements
      removals := ch.removals ++ block.declarationLines.more ++ block.optionLines }

section Plan

variable {M : Type} (env : Env M) (path : Text) (managed : List Text)

/-- A name that begins with a slash is a pattern: it may not match a managed interface. -/
def checkPattern (selection : SelectionLine) (interface : Text) : Except HostNetError Unit :=
  managed.forM fun name =>
    match selectionPatternMatches env interface name with
    | .error reason => .error (.unsupportedSyntax path (selection.lines.first + 1) reason)
    | .ok isMatch =>
      if isMatch then
        .error (.unsupportedSyntax path (selection.lines.first + 1)
          (selection.keyword ++ " pattern ".toList ++ interface ++
            " selects a managed interface and cannot be safely narrowed".toList))
      else .ok ()

/-- One turn of the loop over the names of a statement: those kept so far, and whether one has
been left out. -/
def keepInterface (selection : SelectionLine) (acc : List Text × Bool) (interface : Text) :
    Except HostNetError (List Text × Bool) :=
  if interface ∈ managed then .ok (acc.1, true)
  else if interface.head? = some '/' then do
    checkPattern env path managed selection interface
    .ok (acc.1 ++ [interface], acc.2)
  else .ok (acc.1 ++ [interface], acc.2)

def planSelection (ch : Changes) (selection : SelectionLine) : Except HostNetError Changes := do
  let (kept, changed) ← selection.interfaces.foldlM (keepInterface env path managed selection) ([], false)
  if !changed then .ok ch
  else
    let removals := ch.removals ++ selection.lines.more
    if kept = [] then .ok { ch with removals := removals ++ [selection.lines.first] }
    else
      .ok {
        replacements := (selection.lines.first, selection.keyword ++ " ".toList ++
          " ".toList.intercalate kept) :: ch.replacements
        removals }

def planChanges (parsed : ParsedFile) : Except HostNetError Changes := do
  let fileManaged := (parsed.blocks.map (·.iface)).filter (· ∈ managed)
  let ch ← parsed.blocks.foldlM (planBlock path fileManaged) {}
  parsed.selections.foldlM (planSelection env path managed) ch

def newLine (ch : Changes) (line : Text) (index : ℕ) : Option Text :=
  if index ∈ ch.removals then none else some ((ch.replacements.lookup index).getD line)

def newLines (ch : Changes) (lines : List Text) : List Text :=
  lines.zipIdx.filterMap fun (line, index) => newLine ch line index

def render (lines : List Text) (endsWithNewline : Bool) : Text :=
  "\n".toList.intercalate lines ++ if endsWithNewline then "\n".toList else []

def planFile (content : Text) (parsed : ParsedFile) : Except HostNetError (Option (FileEdit M)) := do
  let ch ← planChanges env path managed parsed
  if ch.replacements = [] ∧ ch.removals = [] then .ok none
  else do
    let metadata ← env.captureMetadata path
    .ok (some {
      path
      originalContent := content
      content := render (newLines ch parsed.lines) parsed.endsWithNewline
      metadata })

end Plan

section Unmanage

variable {M : Type} (env : Env M) (selected : List Text)

/-- A file of the set as it is read: its path, its content, and what `parse` makes of it. -/
structure ReadFile where
  path : Text
  content : Text
  parsed : ParsedFile

def readFile (path : Text) : Except HostNetError ReadFile :=
  match env.readToString path with
  | none => .error (.unreadableFile path)
  | some content => do
    let parsed ← parse path content
    rejectAmbiguousMappings env path parsed selected
    rejectSelectedDependencies env path parsed selected
    .ok ⟨path, content, parsed⟩

/-- The selected interfaces that have a stanza in some file. -/
def managedOf (parsedFiles : List ReadFile) : List Text :=
  ((parsedFiles.flatMap (·.parsed.blocks)).map (·.iface)).filter (· ∈ selected)

def planUnmanage (files : List Text) : Except HostNetError (EditPlan M) := do
  let parsedFiles ← files.mapM (readFile env selected)
  let managed := managedOf selected parsedFiles
  let edits ← parsedFiles.mapM fun f => planFile env f.path managed f.content f.parsed
  .ok ⟨edits.reduceOption⟩

end Unmanage

def EditPlan.applied {M : Type} (plan : EditPlan M) (env : Env M) : Env M :=
  { env with readToString := fun path =>
      match plan.edits.find? (·.path = path) with
      | some edit => some edit.content
      | none => env.readToString path }

end LandscapeKit.Hostnet
