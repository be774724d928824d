import LandscapeKit.HostnetParse

/-!
What `parse` reads, without line numbers: the role of every logical line, given which stanza is
open, and the meaning of a file as a function of the roles of its lines.
-/

namespace LandscapeKit.Hostnet

open Lines

inductive Open where
  | none
  | mapping
  | iface (name : Text)
deriving DecidableEq

def Stanza.open : Stanza → Open
  | .none => .none
  | .mapping => .mapping
  | .iface block => .iface block.iface

inductive Role where
  | comment
  | header (iface family method : Text) (inherits : Option Text)
  | option (iface key : Text) (values : List Text)
  | mappingOption
  | selection (keyword : Text) (interfaces : List Text)
  | mapping (patterns : List Text)
  | rename (mappings : List Text)
  | source (pattern : Text) (kind : SourceKind)
deriving DecidableEq

def Role.next (o : Open) : Role → Open
  | .comment | .option .. | .mappingOption => o
  | .header iface .. => .iface iface
  | .mapping _ => .mapping
  | .selection .. | .rename _ | .source .. => .none

def Open.after (o : Open) (rs : List Role) : Open := rs.foldl (fun o r => r.next o) o

def optionRole (o : Open) (key : Text) (values : List Text) : Option Role :=
  match o with
  | .mapping => some .mappingOption
  | .iface name => some (.option name key values)
  | .none => none

def headerRole : List Text → Option Role
  | [iface, family, method] => some (.header iface family method none)
  | [iface, family, method, suffix, template] =>
    if suffix ≠ "inherits".toList then none else some (.header iface family method (some template))
  | _ => none

def topRole (keyword : Text) (args : List Text) : Option Role :=
  if keyword = "iface".toList then headerRole args
  else if keyword = "auto".toList ∨ keyword = "no-auto-down".toList ∨
      keyword = "no-scripts".toList then
    if args = [] then none else some (.selection keyword args)
  else if keyword = "mapping".toList then if args = [] then none else some (.mapping args)
  else if keyword = "rename".toList then if args = [] then none else some (.rename args)
  else if keyword = "source".toList ∨ keyword = "source-directory".toList then
    match args with
    | [pattern] => some (.source pattern (if keyword = "source".toList then .file else .directory))
    | _ => none
  else if args = [] then none else some (.selection keyword args)

def roleOf (o : Open) (text : Text) : Option Role :=
  if isComment (trimIndent text) then some .comment
  else
    match splitWhitespace (trimIndent text) with
    | [] => some .comment
    | keyword :: args => if !isTopLevel keyword then optionRole o keyword args else topRole keyword args

def roles {β : Type} (o : Open) : List (Text × β) → Option (List (Role × β))
  | [] => some []
  | (text, b) :: rest =>
    match roleOf o text with
    | none => none
    | some r => (roles (r.next o) rest).map ((r, b) :: ·)

def Collected.add (c : Collected) (r : Role) (lines : Span) : Collected :=
  match r with
  | .comment | .mappingOption => c
  | .option _ key values =>
    match c.current with
    | .iface block => { c with current := .iface { block with
        optionLines := block.optionLines ++ lines.lines
        options := block.options ++ [⟨key, values, lines⟩] } }
    | _ => c
  | .header iface family method inherits =>
    { closeIface c with current := .iface ⟨iface, family, method, lines, inherits, [], []⟩ }
  | .selection keyword interfaces =>
    { closeIface c with
      selections := c.selections ++ [⟨keyword, interfaces, lines⟩]
      current := .none }
  | .mapping patterns =>
    { closeIface c with
      mappings := c.mappings ++ [⟨patterns, lines.first + 1⟩]
      current := .mapping }
  | .rename mappings =>
    { closeIface c with
      renames := c.renames ++ [⟨mappings, lines.first + 1⟩]
      current := .none }
  | .source pattern kind =>
    { closeIface c with
      sources := c.sources ++ [⟨lines.first + 1, pattern, kind⟩]
      current := .none }

theorem closeIface_sources (c : Collected) : (closeIface c).sources = c.sources := by
  unfold closeIface
  split <;> rfl

theorem closeIface_selections (c : Collected) : (closeIface c).selections = c.selections := by
  unfold closeIface
  split <;> rfl

theorem closeIface_mappings (c : Collected) : (closeIface c).mappings = c.mappings := by
  unfold closeIface
  split <;> rfl

theorem closeIface_renames (c : Collected) : (closeIface c).renames = c.renames := by
  unfold closeIface
  split <;> rfl

section ParseLine

variable (path : Text) (c : Collected) (logical : LogicalLine)

theorem addOption_toOption (line : ℕ) (key : Text) (values : List Text) :
    (addOption path line c logical key values).toOption =
      (optionRole c.current.open key values).map (c.add · logical.lines) := by
  unfold addOption
  cases hc : c.current <;> simp [Stanza.open, optionRole, Collected.add, hc, Except.toOption]

theorem parseIface_toOption (body : Text) (args : List Text) :
    (parseIface path (closeIface c) logical body args).toOption =
      (headerRole args).map (c.add · logical.lines) := by
  -- three or five arguments; every other number is refused
  match args with
  | [_, _, _] => rfl
  | [_, _, _, suffix, _] =>
    by_cases hs : suffix = "inherits".toList
    · simp only [parseIface, headerRole, if_neg (not_not.mpr hs)]
      rfl
    · simp only [parseIface, headerRole, if_pos hs]
      rfl
  | [] | [_] | [_, _] | [_, _, _, _] | _ :: _ :: _ :: _ :: _ :: _ :: _ => rfl

theorem parseSelection_toOption (keyword : Text) (args : List Text) :
    (parseSelection path (closeIface c) logical keyword args).toOption =
      (if args = [] then none else some (.selection keyword args)).map (c.add · logical.lines) := by
  unfold parseSelection requireArguments
  split
  · rfl
  · simp only [Option.map_some, Collected.add, closeIface_selections]
    rfl

theorem parseTopLevel_toOption (body keyword : Text) (args : List Text) :
    (parseTopLevel path (closeIface c) logical body keyword args).toOption =
      (topRole keyword args).map (c.add · logical.lines) := by
  unfold parseTopLevel topRole
  split
  · exact parseIface_toOption ..
  split
  · exact parseSelection_toOption ..
  split
  · unfold requireArguments
    split
    · rfl
    · simp only [Option.map_some, Collected.add, closeIface_mappings]
      rfl
  split
  · unfold requireArguments
    split
    · rfl
    · simp only [Option.map_some, Collected.add, closeIface_renames]
      rfl
  split
  · match args with
    | [_] =>
      simp only [Option.map_some, Collected.add, closeIface_sources]
      rfl
    | [] | _ :: _ :: _ => rfl
  · exact parseSelection_toOption ..

theorem parseLine_toOption :
    (parseLine path c logical).toOption =
      (roleOf c.current.open logical.text).map (c.add · logical.lines) := by
  unfold parseLine roleOf
  dsimp only
  split
  · rfl
  cases splitWhitespace (trimIndent logical.text) with
  | nil => rfl
  | cons keyword args =>
    dsimp only
    split
    · exact addOption_toOption ..
    · exact parseTopLevel_toOption ..

end ParseLine

theorem open_add (c : Collected) (r : Role) (lines : Span) :
    (c.add r lines).current.open = r.next c.current.open := by
  cases r with
  | option =>
    unfold Collected.add Role.next
    dsimp only
    split
    · rename_i hc
      rw [hc]
      rfl
    · rfl
  | _ => rfl

def Collected.addAll (c : Collected) (items : List (Role × Span)) : Collected :=
  items.foldl (fun c item => c.add item.1 item.2) c

theorem parseLines_toOption (path : Text) (c : Collected) (logical : List LogicalLine) :
    (logical.foldlM (parseLine path) c).toOption =
      (roles c.current.open (logical.map fun l => (l.text, l.lines))).map c.addAll := by
  induction logical generalizing c with
  | nil => rfl
  | cons l logical ih =>
    have hstep := parseLine_toOption path c l
    rw [List.foldlM_cons, List.map_cons, roles]
    cases hrole : roleOf c.current.open l.text with
    | none =>
      rw [hrole] at hstep
      cases hl : parseLine path c l with
      | error e => rfl
      | ok c' =>
        rw [hl] at hstep
        cases hstep
    | some r =>
      rw [hrole] at hstep
      cases hl : parseLine path c l with
      | error e =>
        rw [hl] at hstep
        cases hstep
      | ok c' =>
        rw [hl] at hstep
        obtain rfl : c' = c.add r l.lines := Option.some.inj hstep
        have hrest := ih (c.add r l.lines)
        rw [open_add] at hrest
        dsimp only
        rw [Option.map_map]
        exact hrest

def collect : List (Role × Span) → List InterfaceOption × List InterfaceBlock
  | [] => ([], [])
  | (.option _ key values, lines) :: rest =>
    (⟨key, values, lines⟩ :: (collect rest).1, (collect rest).2)
  | (.header iface family method inherits, lines) :: rest =>
    ([], ⟨iface, family, method, lines, inherits,
      (collect rest).1.flatMap (·.lines.lines), (collect rest).1⟩ :: (collect rest).2)
  | (.comment, _) :: rest | (.mappingOption, _) :: rest => collect rest
  | (.selection .., _) :: rest | (.mapping _, _) :: rest | (.rename _, _) :: rest
  | (.source .., _) :: rest => ([], (collect rest).2)

def Role.asSelection : Role × Span → Option SelectionLine
  | (.selection keyword interfaces, lines) => some ⟨keyword, interfaces, lines⟩
  | _ => none

def Role.asMapping : Role × Span → Option MappingLine
  | (.mapping patterns, lines) => some ⟨patterns, lines.first + 1⟩
  | _ => none

def Role.asRename : Role × Span → Option RenameLine
  | (.rename mappings, lines) => some ⟨mappings, lines.first + 1⟩
  | _ => none

def Role.asSource : Role × Span → Option SourceDirective
  | (.source pattern kind, lines) => some ⟨lines.first + 1, pattern, kind⟩
  | _ => none

def Stanza.closedWith (options : List InterfaceOption) : Stanza → List InterfaceBlock
  | .iface block => [{ block with
      optionLines := block.optionLines ++ options.flatMap (·.lines.lines)
      options := block.options ++ options }]
  | _ => []

theorem closeIface_blocks (c : Collected) :
    (closeIface c).blocks = c.blocks ++ c.current.closedWith [] := by
  unfold closeIface
  cases hc : c.current <;> simp [Stanza.closedWith]

theorem blocks_addAll (c : Collected) (items : List (Role × Span)) :
    (closeIface (c.addAll items)).blocks =
      c.blocks ++ c.current.closedWith (collect items).1 ++ (collect items).2 := by
  induction items generalizing c with
  | nil => simp [Collected.addAll, collect, closeIface_blocks]
  | cons item items ih =>
    have hfold : c.addAll (item :: items) = (c.add item.1 item.2).addAll items := rfl
    rw [hfold, ih]
    obtain ⟨r, lines⟩ := item
    cases r with
    | comment | mappingOption => rfl
    | option name key values =>
      unfold Collected.add
      cases hc : c.current with
      | iface block => simp [collect, Stanza.closedWith, List.append_assoc]
      | none | mapping => simp [hc, collect, Stanza.closedWith]
    | header | selection | mapping | rename | source =>
      simp [Collected.add, collect, Stanza.closedWith, closeIface_blocks]

theorem field_addAll {α : Type} {field : Collected → List α} {get : Role × Span → Option α}
    (hclose : ∀ c, field (closeIface c) = field c)
    (hadd : ∀ (c : Collected) r lines, field (c.add r lines) = field c ++ (get (r, lines)).toList)
    (c : Collected) (items : List (Role × Span)) :
    field (closeIface (c.addAll items)) = field c ++ items.filterMap get := by
  induction items generalizing c with
  | nil => simp [Collected.addAll, hclose]
  | cons item items ih =>
    have hfold : c.addAll (item :: items) = (c.add item.1 item.2).addAll items := rfl
    rw [hfold, ih, hadd, List.append_assoc, List.filterMap_cons]
    cases get (item.1, item.2) <;> rfl

theorem selections_addAll (c : Collected) (items : List (Role × Span)) :
    (closeIface (c.addAll items)).selections = c.selections ++ items.filterMap Role.asSelection := by
  refine field_addAll closeIface_selections (fun c r lines => ?_) c items
  cases r with
  | option => cases hc : c.current <;> simp [Collected.add, Role.asSelection, hc]
  | _ => simp [Collected.add, Role.asSelection, closeIface_selections]

theorem mappings_addAll (c : Collected) (items : List (Role × Span)) :
    (closeIface (c.addAll items)).mappings = c.mappings ++ items.filterMap Role.asMapping := by
  refine field_addAll closeIface_mappings (fun c r lines => ?_) c items
  cases r with
  | option => cases hc : c.current <;> simp [Collected.add, Role.asMapping, hc]
  | _ => simp [Collected.add, Role.asMapping, closeIface_mappings]

theorem renames_addAll (c : Collected) (items : List (Role × Span)) :
    (closeIface (c.addAll items)).renames = c.renames ++ items.filterMap Role.asRename := by
  refine field_addAll closeIface_renames (fun c r lines => ?_) c items
  cases r with
  | option => cases hc : c.current <;> simp [Collected.add, Role.asRename, hc]
  | _ => simp [Collected.add, Role.asRename, closeIface_renames]

theorem sources_addAll (c : Collected) (items : List (Role × Span)) :
    (closeIface (c.addAll items)).sources = c.sources ++ items.filterMap Role.asSource := by
  refine field_addAll closeIface_sources (fun c r lines => ?_) c items
  cases r with
  | option => cases hc : c.current <;> simp [Collected.add, Role.asSource, hc]
  | _ => simp [Collected.add, Role.asSource, closeIface_sources]

def assembled (lines : List Text) (endsWithNewline : Bool) (items : List (Role × Span)) :
    ParsedFile where
  lines
  endsWithNewline
  blocks := (collect items).2
  sources := items.filterMap Role.asSource
  selections := items.filterMap Role.asSelection
  mappings := items.filterMap Role.asMapping
  renames := items.filterMap Role.asRename

theorem parseLines_eq_ok_iff {path : Text} {logical : List LogicalLine} {c : Collected} :
    logical.foldlM (parseLine path) {} = .ok c ↔
      ∃ items, roles .none (logical.map fun l => (l.text, l.lines)) = some items ∧
        Collected.addAll {} items = c := by
  have hfold := parseLines_toOption path {} logical
  have hopen : ({} : Collected).current.open = .none := rfl
  rw [hopen] at hfold
  constructor
  · intro hc
    rw [hc] at hfold
    exact Option.map_eq_some_iff.mp hfold.symm
  · rintro ⟨items, hitems, rfl⟩
    rw [hitems] at hfold
    cases hc : logical.foldlM (parseLine path) {} with
    | error e =>
      rw [hc] at hfold
      cases hfold
    | ok c' =>
      rw [hc] at hfold
      exact congrArg Except.ok (Option.some.inj hfold)

theorem parse_eq_ok_iff {path content : Text} {parsed : ParsedFile} :
    parse path content = .ok parsed ↔
      ∃ logical items, logicalLines path (physicalLines content) = .ok logical ∧
        roles .none (logical.map fun l => (l.text, l.lines)) = some items ∧
        parsed = assembled (physicalLines content) (endsWithNewline content) items := by
  have hclosed (items : List (Role × Span)) :
      (⟨physicalLines content, endsWithNewline content,
        (closeIface (Collected.addAll {} items)).blocks,
        (closeIface (Collected.addAll {} items)).sources,
        (closeIface (Collected.addAll {} items)).selections,
        (closeIface (Collected.addAll {} items)).mappings,
        (closeIface (Collected.addAll {} items)).renames⟩ : ParsedFile) =
      assembled (physicalLines content) (endsWithNewline content) items := by
    rw [blocks_addAll, sources_addAll, selections_addAll, mappings_addAll, renames_addAll]
    rfl
  constructor
  · intro h
    simp only [parse, bind, Except.bind] at h
    split at h
    · cases h
    rename_i logical hl
    split at h
    · cases h
    rename_i c hc
    obtain ⟨items, hitems, rfl⟩ := parseLines_eq_ok_iff.mp hc
    refine ⟨logical, items, hl, hitems, ?_⟩
    rw [← hclosed]
    exact (Except.ok.inj h).symm
  · rintro ⟨logical, items, hl, hitems, rfl⟩
    have hc : logical.foldlM (parseLine path) {} = .ok (Collected.addAll {} items) :=
      parseLines_eq_ok_iff.mpr ⟨items, hitems, rfl⟩
    simp only [parse, bind, Except.bind, hl, hc, hclosed]

structure BlockMeaning where
  iface : Text
  family : Text
  method : Text
  inherits : Option Text
  options : List (Text × List Text)
deriving DecidableEq

structure Meaning where
  blocks : List BlockMeaning
  sources : List (Text × SourceKind)
  selections : List (Text × List Text)
  mappings : List (List Text)
  renames : List (List Text)
deriving DecidableEq

def InterfaceBlock.meaning (b : InterfaceBlock) : BlockMeaning :=
  ⟨b.iface, b.family, b.method, b.inherits, b.options.map fun o => (o.key, o.values)⟩

def ParsedFile.meaning (f : ParsedFile) : Meaning where
  blocks := f.blocks.map (·.meaning)
  sources := f.sources.map fun s => (s.pattern, s.kind)
  selections := f.selections.map fun s => (s.keyword, s.interfaces)
  mappings := f.mappings.map (·.patterns)
  renames := f.renames.map (·.mappings)

def blocksOf : List Role → List (Text × List Text) × List BlockMeaning
  | [] => ([], [])
  | .option _ key values :: rest => ((key, values) :: (blocksOf rest).1, (blocksOf rest).2)
  | .header iface family method inherits :: rest =>
    ([], ⟨iface, family, method, inherits, (blocksOf rest).1⟩ :: (blocksOf rest).2)
  | .comment :: rest | .mappingOption :: rest => blocksOf rest
  | .selection .. :: rest | .mapping _ :: rest | .rename _ :: rest | .source .. :: rest =>
    ([], (blocksOf rest).2)

def Role.selection? : Role → Option (Text × List Text)
  | .selection keyword interfaces => some (keyword, interfaces)
  | _ => none

def Role.mapping? : Role → Option (List Text)
  | .mapping patterns => some patterns
  | _ => none

def Role.rename? : Role → Option (List Text)
  | .rename mappings => some mappings
  | _ => none

def Role.source? : Role → Option (Text × SourceKind)
  | .source pattern kind => some (pattern, kind)
  | _ => none

def meaningOf (rs : List Role) : Meaning where
  blocks := (blocksOf rs).2
  sources := rs.filterMap Role.source?
  selections := rs.filterMap Role.selection?
  mappings := rs.filterMap Role.mapping?
  renames := rs.filterMap Role.rename?

theorem collect_meaning (items : List (Role × Span)) :
    (collect items).1.map (fun o => (o.key, o.values)) = (blocksOf (items.map Prod.fst)).1 ∧
      (collect items).2.map InterfaceBlock.meaning = (blocksOf (items.map Prod.fst)).2 := by
  induction items with
  | nil => exact ⟨rfl, rfl⟩
  | cons item items ih =>
    obtain ⟨h1, h2⟩ := ih
    obtain ⟨r, lines⟩ := item
    cases r <;> simp [collect, blocksOf, InterfaceBlock.meaning, h1, h2]

theorem meaning_assembled (lines : List Text) (nl : Bool) (items : List (Role × Span)) :
    (assembled lines nl items).meaning = meaningOf (items.map Prod.fst) := by
  simp only [ParsedFile.meaning, assembled, meaningOf, (collect_meaning items).2,
    List.map_filterMap, List.filterMap_map, Meaning.mk.injEq, true_and]
  refine ⟨?_, ?_, ?_, ?_⟩ <;> apply List.filterMap_congr <;> rintro ⟨r, lines⟩ _ <;> cases r <;> rfl

section Unmanage

variable (managed : List Text)

def BlockMeaning.unmanage (b : BlockMeaning) : BlockMeaning :=
  if b.iface ∈ managed then { b with method := "manual".toList, inherits := none, options := [] }
  else b

def keptSelection (s : Text × List Text) : Option (Text × List Text) :=
  if s.2.filter (· ∉ managed) = [] then none else some (s.1, s.2.filter (· ∉ managed))

/-- What the edit is for: managed blocks are manual and empty, managed names are selected no
more, and everything else is as it was. -/
def Meaning.unmanage (m : Meaning) : Meaning :=
  { m with
    blocks := m.blocks.map (·.unmanage managed)
    selections := m.selections.filterMap (keptSelection managed) }

def Role.unmanage : Role → Option Role
  | .header iface family method inherits =>
    if iface ∈ managed then some (.header iface family "manual".toList none)
    else some (.header iface family method inherits)
  | .option iface key values => if iface ∈ managed then none else some (.option iface key values)
  | .selection keyword interfaces =>
    (keptSelection managed (keyword, interfaces)).map fun s => .selection s.1 s.2
  | r => some r

def Role.Stands (o : Open) : Role → Prop
  | .option iface .. => o = .iface iface
  | .mappingOption => o = .mapping
  | _ => True

def Follows : Open → List Role → Prop
  | _, [] => True
  | o, r :: rest => r.Stands o ∧ Follows (r.next o) rest

def Open.keeps (options : List (Text × List Text)) : Open → List (Text × List Text)
  | .iface name => if name ∈ managed then [] else options
  | _ => []

theorem keeps_nil (o : Open) : o.keeps managed [] = [] := by
  cases o with
  | iface name => exact ite_self _
  | _ => rfl

theorem blocksOf_unmanage {o : Open} {rs : List Role} (h : Follows o rs) :
    (blocksOf (rs.filterMap (Role.unmanage managed))).1 = o.keeps managed (blocksOf rs).1 ∧
      (blocksOf (rs.filterMap (Role.unmanage managed))).2 =
        (blocksOf rs).2.map (·.unmanage managed) := by
  induction rs generalizing o with
  | nil => cases o <;> simp [blocksOf, Open.keeps]
  | cons r rs ih =>
    obtain ⟨hr, hrest⟩ := h
    obtain ⟨h1, h2⟩ := ih hrest
    cases r with
    | comment | mappingOption => exact ⟨h1, h2⟩
    | option iface key values =>
      cases hr
      rw [Role.next, Open.keeps] at h1
      by_cases hm : iface ∈ managed
      · have hu : Role.unmanage managed (.option iface key values) = none := if_pos hm
        rw [List.filterMap_cons_none hu, h1, h2, Open.keeps, if_pos hm, if_pos hm]
        exact ⟨rfl, rfl⟩
      · have hu : Role.unmanage managed (.option iface key values) =
            some (.option iface key values) := if_neg hm
        rw [List.filterMap_cons_some hu, blocksOf, h1, h2, Open.keeps, if_neg hm, if_neg hm]
        exact ⟨rfl, rfl⟩
    | header iface family method inherits =>
      rw [Role.next, Open.keeps] at h1
      by_cases hm : iface ∈ managed
      · have hu : Role.unmanage managed (.header iface family method inherits) =
            some (.header iface family "manual".toList none) := if_pos hm
        rw [List.filterMap_cons_some hu, blocksOf, h1, h2, if_pos hm, blocksOf, List.map_cons,
          BlockMeaning.unmanage, if_pos hm, keeps_nil]
        exact ⟨rfl, rfl⟩
      · have hu : Role.unmanage managed (.header iface family method inherits) =
            some (.header iface family method inherits) := if_neg hm
        rw [List.filterMap_cons_some hu, blocksOf, h1, h2, if_neg hm, blocksOf, List.map_cons,
          BlockMeaning.unmanage, if_neg hm, keeps_nil]
        exact ⟨rfl, rfl⟩
    | selection keyword interfaces =>
      have hnil : o.keeps managed (blocksOf (.selection keyword interfaces :: rs)).1 = [] :=
        keeps_nil managed o
      cases hk : keptSelection managed (keyword, interfaces) with
      | none =>
        have hu : Role.unmanage managed (.selection keyword interfaces) = none := by
          rw [Role.unmanage, hk, Option.map_none]
        rw [List.filterMap_cons_none hu, hnil]
        exact ⟨h1, h2⟩
      | some s =>
        have hu : Role.unmanage managed (.selection keyword interfaces) =
            some (.selection s.1 s.2) := by
          rw [Role.unmanage, hk, Option.map_some]
        rw [List.filterMap_cons_some hu, hnil]
        exact ⟨rfl, h2⟩
    | mapping | rename | source => exact ⟨(keeps_nil managed o).symm, h2⟩

theorem meaningOf_unmanage {rs : List Role} (h : Follows .none rs) :
    meaningOf (rs.filterMap (Role.unmanage managed)) = (meaningOf rs).unmanage managed := by
  simp only [meaningOf, Meaning.unmanage, (blocksOf_unmanage managed h).2, List.filterMap_filterMap,
    Meaning.mk.injEq, true_and]
  refine ⟨?_, ?_, ?_, ?_⟩ <;> apply List.filterMap_congr <;> intro r _ <;> cases r with
  | header iface =>
    simp only [Role.unmanage]
    split <;> rfl
  | option iface =>
    simp only [Role.unmanage]
    split <;> rfl
  | selection keyword interfaces =>
    simp only [Role.unmanage]
    cases hk : keptSelection managed (keyword, interfaces) <;>
      simp [Role.source?, Role.selection?, Role.mapping?, Role.rename?, hk]
  | _ => rfl

end Unmanage

end LandscapeKit.Hostnet
