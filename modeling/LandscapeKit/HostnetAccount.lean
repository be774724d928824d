import Mathlib.Data.List.Pairwise
import LandscapeKit.HostnetPlan

/-!
Which physical line belongs to which statement of a parsed file. The line lists of a file are
runs of its lines, apart from each other and in the file's order, and a line in none of them is
blank, a comment, a directive or part of a mapping stanza.
-/

namespace LandscapeKit.Hostnet

open Lines

def statementsOf (path content : Text) : Option (List (Role × LogicalLine)) := do
  let logical ← (logicalLines path (physicalLines content)).toOption
  roles .none (logical.map fun l => (l.text, l))

def Role.inBlock : Role → Bool
  | .header .. | .option .. => true
  | _ => false

def Role.isSelection : Role → Bool
  | .selection .. => true
  | _ => false

def InterfaceBlock.spans (b : InterfaceBlock) : List Span :=
  b.declarationLines :: b.options.map (·.lines)

namespace ParsedFile

def blockSpans (parsed : ParsedFile) : List Span := parsed.blocks.flatMap (·.spans)

def selectionSpans (parsed : ParsedFile) : List Span := parsed.selections.map (·.lines)

def spans (parsed : ParsedFile) : List Span := parsed.blockSpans ++ parsed.selectionSpans

end ParsedFile

/-- A line without a line list of its own, behind the lines `before`: it is blank or a comment, a
directive, or part of a mapping stanza. -/
inductive Unlisted (parsed : ParsedFile) (before : List (Role × LogicalLine)) :
    Role × LogicalLine → Prop
  | comment {l : LogicalLine} (h : isComment (trimIndent l.text)) : Unlisted parsed before (.comment, l)
  | mapping {l : LogicalLine} {patterns : List Text}
      (h : ⟨patterns, l.lines.first + 1⟩ ∈ parsed.mappings) :
      Unlisted parsed before (.mapping patterns, l)
  | mappingOption {l header : LogicalLine} {patterns : List Text}
      {front between : List (Role × LogicalLine)}
      (hbefore : before = front ++ (.mapping patterns, header) :: between)
      (hbetween : ∀ x ∈ between, x.1 = .comment ∨ x.1 = .mappingOption)
      (h : ⟨patterns, header.lines.first + 1⟩ ∈ parsed.mappings) :
      Unlisted parsed before (.mappingOption, l)
  | rename {l : LogicalLine} {mappings : List Text}
      (h : ⟨mappings, l.lines.first + 1⟩ ∈ parsed.renames) :
      Unlisted parsed before (.rename mappings, l)
  | source {l : LogicalLine} {pattern : Text} {kind : SourceKind}
      (h : ⟨l.lines.first + 1, pattern, kind⟩ ∈ parsed.sources) :
      Unlisted parsed before (.source pattern kind, l)

structure LinesAccounted (content : Text) (parsed : ParsedFile)
    (statements : List (Role × LogicalLine)) : Prop where
  rendered : render parsed.lines parsed.endsWithNewline = content
  runs : ∀ s ∈ parsed.spans, ∃ n, 0 < n ∧ s.lines = List.range' s.first n ∧
    s.first + n ≤ parsed.lines.length
  apart : parsed.spans.Pairwise fun s t => s.lines.Disjoint t.lines
  blocks : parsed.blockSpans = (statements.filter (·.1.inBlock)).map (·.2.lines)
  selections : parsed.selectionSpans = (statements.filter (·.1.isSelection)).map (·.2.lines)
  inOrder : statements.Pairwise fun x y => ∀ i ∈ x.2.lines.lines, ∀ j ∈ y.2.lines.lines, i < j
  optionLines : ∀ b ∈ parsed.blocks, b.optionLines = b.options.flatMap (·.lines.lines)
  unlisted : ∀ i < parsed.lines.length, (∀ s ∈ parsed.spans, i ∉ s.lines) →
    ∃ before x after, statements = before ++ x :: after ∧ i ∈ x.2.lines.lines ∧
      Unlisted parsed before x

section Spans

variable {path : Text} {lines : List Text} {logical : List LogicalLine}

theorem logicalLines_groups (h : logicalLines path lines = .ok logical) :
    ∃ groups, logical.map (·.lines) = groups.map Group.span ∧ lines = groups.flatMap Group.raw ∧
      Laid 0 groups := by
  obtain ⟨groups, hgroups, hlines, hlaid⟩ := (logicalFrom_groups path lines 0).1 logical h
  have hspans := congrArg (List.map Prod.snd) hgroups
  rw [List.map_map, List.map_map] at hspans
  exact ⟨groups, hspans, hlines, hlaid⟩

theorem logicalLines_lines (h : logicalLines path lines = .ok logical) :
    (logical.flatMap fun l => l.lines.lines) = List.range lines.length := by
  obtain ⟨groups, hspans, hlines, hlaid⟩ := logicalLines_groups h
  calc (logical.flatMap fun l => l.lines.lines)
      = (logical.map (·.lines)).flatMap Span.lines := by rw [List.flatMap_map]
    _ = groups.flatMap (fun g => g.span.lines) := by rw [hspans, List.flatMap_map]
    _ = List.range lines.length := by rw [laid_lines hlaid, ← hlines, List.range_eq_range']

theorem laid_run {i : ℕ} {groups : List Group} {g : Group} (h : Laid i groups) (hg : g ∈ groups) :
    g.span.lines = List.range' g.span.first g.raw.length := by
  induction groups generalizing i with
  | nil => exact absurd hg List.not_mem_nil
  | cons g' groups ih =>
    obtain ⟨hspan, -, hrest⟩ := h
    rcases List.mem_cons.mp hg with rfl | hg
    · -- the run is not empty: its first line is the one it starts at
      cases hraw : g.raw with
      | nil =>
        rw [hraw] at hspan
        cases hspan
      | cons line raw =>
        rw [hraw, List.length_cons, List.range'_succ] at hspan
        have hfirst : g.span.first = i := (List.cons.inj hspan).1
        rw [hspan, hfirst, List.length_cons, List.range'_succ]
    · exact ih hrest hg

theorem logicalLines_run (h : logicalLines path lines = .ok logical) {l : LogicalLine}
    (hl : l ∈ logical) :
    ∃ n, 0 < n ∧ l.lines.lines = List.range' l.lines.first n ∧
      l.lines.first + n ≤ lines.length := by
  obtain ⟨groups, hspans, -, hlaid⟩ := logicalLines_groups h
  have hmem : l.lines ∈ groups.map Group.span := by
    rw [← hspans]
    exact List.mem_map_of_mem hl
  obtain ⟨g, hg, hspan⟩ := List.mem_map.mp hmem
  have hrun := laid_run hlaid hg
  rw [hspan] at hrun
  have hpos : 0 < g.raw.length := by
    have hlen := congrArg List.length hrun
    rw [List.length_range'] at hlen
    rw [← hlen]
    exact Nat.succ_pos _
  refine ⟨g.raw.length, hpos, hrun, ?_⟩
  -- the last line of the run is a line of the file
  have hlast : l.lines.first + (g.raw.length - 1) ∈ l.lines.lines := by
    rw [hrun, List.mem_range'_1]
    omega
  have hin : l.lines.first + (g.raw.length - 1) ∈ List.range lines.length := by
    rw [← logicalLines_lines h]
    exact List.mem_flatMap.mpr ⟨l, hl, hlast⟩
  have hlt := List.mem_range.mp hin
  omega

theorem logicalLines_inOrder (h : logicalLines path lines = .ok logical) :
    logical.Pairwise fun l l' => ∀ i ∈ l.lines.lines, ∀ j ∈ l'.lines.lines, i < j := by
  have hrange : (logical.flatMap fun l => l.lines.lines).Pairwise (· < ·) := by
    rw [logicalLines_lines h]
    exact List.pairwise_lt_range
  exact (List.pairwise_flatMap.mp hrange).2

end Spans

section Collect

variable {o : Open}

theorem collect_closed {items : List (Role × Span)} (hf : Follows o (items.map Prod.fst))
    (ho : ∀ name, o ≠ .iface name) : (collect items).1 = [] := by
  induction items generalizing o with
  | nil => rfl
  | cons item items ih =>
    obtain ⟨r, span⟩ := item
    obtain ⟨hstands, hrest⟩ := hf
    cases r with
    | option name => exact absurd hstands (ho name)
    | comment | mappingOption => exact ih hrest ho
    | _ => rfl

theorem collect_spans {items : List (Role × Span)} (hf : Follows o (items.map Prod.fst)) :
    (collect items).1.map (·.lines) ++ (collect items).2.flatMap (·.spans) =
      (items.filter (·.1.inBlock)).map Prod.snd := by
  induction items generalizing o with
  | nil => rfl
  | cons item items ih =>
    obtain ⟨r, span⟩ := item
    obtain ⟨-, hrest⟩ := hf
    have hspans := ih hrest
    cases r with
    | option | header => exact congrArg (span :: ·) hspans
    | comment | mappingOption => exact hspans
    | selection | mapping | rename | source =>
      -- the statement closes the stanza: what follows is no option
      rw [collect_closed hrest fun _ => Open.noConfusion] at hspans
      exact hspans

theorem optionLines_collect {items : List (Role × Span)} {b : InterfaceBlock}
    (hb : b ∈ (collect items).2) : b.optionLines = b.options.flatMap (·.lines.lines) := by
  induction items with
  | nil => exact absurd hb List.not_mem_nil
  | cons item items ih =>
    obtain ⟨r, span⟩ := item
    cases r with
    | header =>
      rcases List.mem_cons.mp hb with rfl | hb
      · rfl
      · exact ih hb
    | _ => exact ih hb

theorem asSelection_spans (items : List (Role × Span)) :
    (items.filterMap Role.asSelection).map (·.lines) =
      (items.filter (·.1.isSelection)).map Prod.snd := by
  induction items with
  | nil => rfl
  | cons item items ih =>
    obtain ⟨r, span⟩ := item
    cases r with
    | selection => exact congrArg (span :: ·) ih
    | _ => exact ih

end Collect

section Roles

theorem isComment_of_role {o : Open} {text : Text} (h : roleOf o text = some .comment) :
    isComment (trimIndent text) := by
  unfold roleOf at h
  split at h
  · assumption
  cases hwords : splitWhitespace (trimIndent text) with
  | nil =>
    -- no words: all of the line is blank
    rcases exists_word isWhitespace (trimIndent text) with hblank | ⟨_, w, _, -, -, -, -, hword, -⟩
    · have hall : (trimIndent text).all isWhitespace = true := List.all_eq_true.mpr hblank
      rw [isComment, hall, Bool.true_or]
    · rw [splitWhitespace, hword] at hwords
      cases hwords
  | cons keyword args =>
    rw [hwords] at h
    dsimp only at h
    split at h
    · cases o <;> cases h
    · exact (topRole_topLevel h).elim

theorem roles_split {β : Type} {o : Open} {l : List (Text × β)} {before after : List (Role × β)}
    {x : Role × β} (h : roles o l = some (before ++ x :: after)) :
    ∃ text, (text, x.2) ∈ l ∧ roleOf (o.after (before.map Prod.fst)) text = some x.1 := by
  induction before generalizing o l with
  | nil =>
    cases l with
    | nil => cases h
    | cons line l =>
      obtain ⟨r, R, hr, -, he⟩ := roles_cons_some h
      obtain ⟨rfl, -⟩ := List.cons.inj he
      exact ⟨line.1, List.mem_cons_self .., hr⟩
  | cons y before ih =>
    cases l with
    | nil => cases h
    | cons line l =>
      obtain ⟨r, R, hr, hR, he⟩ := roles_cons_some h
      obtain ⟨rfl, rfl⟩ := List.cons.inj he
      obtain ⟨text, hmem, hrole⟩ := ih hR
      exact ⟨text, List.mem_cons_of_mem _ hmem, hrole⟩

theorem exists_mapping {before : List (Role × LogicalLine)}
    (hf : Follows .none (before.map Prod.fst))
    (ho : Open.none.after (before.map Prod.fst) = .mapping) :
    ∃ front patterns header between, before = front ++ (.mapping patterns, header) :: between ∧
      ∀ x ∈ between, x.1 = .comment ∨ x.1 = .mappingOption := by
  induction before using List.reverseRecOn with
  | nil => cases ho
  | append_singleton before x ih =>
    obtain ⟨r, l⟩ := x
    rw [List.map_append, Statements.follows_append] at hf
    rw [List.map_append, Open.after, List.foldl_append] at ho
    obtain ⟨hfront, hstands, -⟩ := hf
    have hlonger (hr : r = .comment ∨ r = .mappingOption)
        (hopen : Open.none.after (before.map Prod.fst) = .mapping) :
        ∃ front patterns header between,
          before ++ [(r, l)] = front ++ (.mapping patterns, header) :: between ∧
            ∀ x ∈ between, x.1 = .comment ∨ x.1 = .mappingOption := by
      obtain ⟨front, patterns, header, between, rfl, hbetween⟩ := ih hfront hopen
      refine ⟨front, patterns, header, between ++ [(r, l)], List.append_assoc .., fun x hx => ?_⟩
      rcases List.mem_append.mp hx with hx | hx
      · exact hbetween x hx
      · obtain rfl := List.mem_singleton.mp hx
        exact hr
    cases r with
    | mapping patterns =>
      exact ⟨before, patterns, l, [], rfl, fun x hx => absurd hx List.not_mem_nil⟩
    | comment => exact hlonger (.inl rfl) ho
    | mappingOption => exact hlonger (.inr rfl) ho
    | option name => cases hstands.symm.trans ho
    | header | selection | rename | source => cases ho

end Roles

section Accounted

variable {path content : Text} {parsed : ParsedFile} {logical : List LogicalLine}
  {R : List (Role × LogicalLine)}

def spanned (R : List (Role × LogicalLine)) : List (Role × Span) := R.map fun x => (x.1, x.2.lines)

theorem parse_statements (h : parse path content = .ok parsed) :
    ∃ logical R, logicalLines path (physicalLines content) = .ok logical ∧
      roles .none (logical.map fun l => (l.text, l)) = some R ∧
      parsed = assembled (physicalLines content) (endsWithNewline content) (spanned R) := by
  obtain ⟨logical, items, hlogical, hitems, hparsed⟩ := parse_eq_ok_iff.mp h
  have hmap : logical.map (fun l => (l.text, l.lines)) =
      (logical.map fun l => (l.text, l)).map fun x => (x.1, x.2.lines) := by
    rw [List.map_map]
    rfl
  rw [hmap, roles_map] at hitems
  obtain ⟨R, hR, rfl⟩ := Option.map_eq_some_iff.mp hitems
  exact ⟨logical, R, hlogical, hR, hparsed⟩

theorem filter_spanned (p : Role → Bool) :
    ((spanned R).filter (p ·.1)).map Prod.snd = (R.filter (p ·.1)).map (·.2.lines) := by
  rw [spanned, List.filter_map, List.map_map]
  rfl

variable (hlogical : logicalLines path (physicalLines content) = .ok logical)
  (hR : roles .none (logical.map fun l => (l.text, l)) = some R)

include hR

theorem statements_snd : R.map Prod.snd = logical := by
  rw [roles_snd hR, List.map_map]
  exact List.map_id _

theorem mem_logical {x : Role × LogicalLine} (hx : x ∈ R) : x.2 ∈ logical := by
  rw [← statements_snd hR]
  exact List.mem_map_of_mem hx

theorem spanned_follows : Follows .none ((spanned R).map Prod.fst) := by
  have hfst : (spanned R).map Prod.fst = R.map Prod.fst := by
    rw [spanned, List.map_map]
    rfl
  rw [hfst]
  exact roles_follows hR

theorem blockSpans_eq (hparsed : parsed = assembled (physicalLines content)
    (endsWithNewline content) (spanned R)) :
    parsed.blockSpans = (R.filter (·.1.inBlock)).map (·.2.lines) := by
  have hfollows := spanned_follows hR
  have hspans := collect_spans hfollows
  rw [collect_closed hfollows fun _ => Open.noConfusion, filter_spanned] at hspans
  rw [hparsed]
  exact hspans

omit hR in
theorem selectionSpans_eq (hparsed : parsed = assembled (physicalLines content)
    (endsWithNewline content) (spanned R)) :
    parsed.selectionSpans = (R.filter (·.1.isSelection)).map (·.2.lines) := by
  rw [hparsed, ← filter_spanned]
  exact asSelection_spans _

theorem unlisted_of_role {before after : List (Role × LogicalLine)} {x : Role × LogicalLine}
    (hsplit : R = before ++ x :: after)
    (hparsed : parsed = assembled (physicalLines content) (endsWithNewline content) (spanned R))
    (hblock : x.1.inBlock = false) (hselection : x.1.isSelection = false) :
    Unlisted parsed before x := by
  have hrecorded {β : Type} {get : Role × Span → Option β} {y : Role × LogicalLine} {b : β}
      (hy : y ∈ R) (hget : get (y.1, y.2.lines) = some b) : b ∈ (spanned R).filterMap get :=
    List.mem_filterMap.mpr ⟨_, List.mem_map_of_mem hy, hget⟩
  have hx : x ∈ R := by
    rw [hsplit]
    exact List.mem_append_right _ (List.mem_cons_self ..)
  have hfollows := roles_follows hR
  rw [hsplit] at hR
  obtain ⟨text, hmem, hrole⟩ := roles_split hR
  obtain ⟨l, -, hl⟩ := List.mem_map.mp hmem
  obtain ⟨rfl, rfl⟩ : l.text = text ∧ l = x.2 := ⟨congrArg Prod.fst hl, congrArg Prod.snd hl⟩
  obtain ⟨r, l⟩ := x
  cases r with
  | header | option => cases hblock
  | selection => cases hselection
  | comment => exact .comment (isComment_of_role hrole)
  | mapping patterns =>
    rw [hparsed]
    exact .mapping (hrecorded hx rfl)
  | rename mappings =>
    rw [hparsed]
    exact .rename (hrecorded hx rfl)
  | source pattern kind =>
    rw [hparsed]
    exact .source (hrecorded hx rfl)
  | mappingOption =>
    rw [hsplit, List.map_append, Statements.follows_append] at hfollows
    have hopen : Open.none.after (before.map Prod.fst) = .mapping := roleOf_stands hrole
    obtain ⟨front, patterns, header, between, hbefore, hbetween⟩ :=
      exists_mapping hfollows.1 hopen
    have hheader : (.mapping patterns, header) ∈ R := by
      rw [hsplit, hbefore]
      simp
    rw [hparsed]
    exact .mappingOption hbefore hbetween (hrecorded hheader rfl)

include hlogical

theorem statements_inOrder :
    R.Pairwise fun x y => ∀ i ∈ x.2.lines.lines, ∀ j ∈ y.2.lines.lines, i < j := by
  have horder := logicalLines_inOrder hlogical
  rw [← statements_snd hR] at horder
  exact List.pairwise_map.mp horder

theorem exists_statement {i : ℕ} (hi : i < (physicalLines content).length) :
    ∃ x ∈ R, i ∈ x.2.lines.lines := by
  have hmem : i ∈ logical.flatMap fun l => l.lines.lines := by
    rw [logicalLines_lines hlogical]
    exact List.mem_range.mpr hi
  obtain ⟨l, hl, hil⟩ := List.mem_flatMap.mp hmem
  rw [← statements_snd hR] at hl
  obtain ⟨x, hx, rfl⟩ := List.mem_map.mp hl
  exact ⟨x, hx, hil⟩

variable (hparsed : parsed = assembled (physicalLines content) (endsWithNewline content) (spanned R))

include hparsed

theorem spans_run {s : Span} (hs : s ∈ parsed.spans) :
    ∃ n, 0 < n ∧ s.lines = List.range' s.first n ∧
      s.first + n ≤ (physicalLines content).length := by
  -- the span of a statement in a block, or of a selection
  have hlisted : ∃ x ∈ R, x.2.lines = s := by
    rw [ParsedFile.spans, blockSpans_eq hR hparsed, selectionSpans_eq hparsed] at hs
    rcases List.mem_append.mp hs with hs | hs
    · obtain ⟨x, hx, rfl⟩ := List.mem_map.mp hs
      exact ⟨x, List.mem_of_mem_filter hx, rfl⟩
    · obtain ⟨x, hx, rfl⟩ := List.mem_map.mp hs
      exact ⟨x, List.mem_of_mem_filter hx, rfl⟩
  obtain ⟨x, hx, rfl⟩ := hlisted
  exact logicalLines_run hlogical (mem_logical hR hx)

theorem spans_apart : parsed.spans.Pairwise fun s t => s.lines.Disjoint t.lines := by
  have hapart : R.Pairwise fun x y => x.2.lines.lines.Disjoint y.2.lines.lines := by
    apply (statements_inOrder hlogical hR).imp
    intro x y hlt i hi hj
    exact Nat.lt_irrefl i (hlt i hi i hj)
  have hsymm : Std.Symm fun x y : Role × LogicalLine =>
      x.2.lines.lines.Disjoint y.2.lines.lines :=
    ⟨fun _ _ hxy => List.disjoint_symm hxy⟩
  rw [ParsedFile.spans, blockSpans_eq hR hparsed, selectionSpans_eq hparsed]
  apply List.pairwise_append.mpr
  refine ⟨List.pairwise_map.mpr (hapart.filter _), List.pairwise_map.mpr (hapart.filter _), ?_⟩
  intro s hs t ht
  obtain ⟨x, hx, rfl⟩ := List.mem_map.mp hs
  obtain ⟨y, hy, rfl⟩ := List.mem_map.mp ht
  obtain ⟨hx, hblock⟩ := List.mem_filter.mp hx
  obtain ⟨hy, hselection⟩ := List.mem_filter.mp hy
  -- no selection stands in a block
  have hne : x ≠ y := by
    rintro rfl
    cases hr : x.1 <;> simp [hr, Role.inBlock, Role.isSelection] at hblock hselection
  exact hapart.forall hx hy hne

theorem exists_unlisted {i : ℕ} (hi : i < (physicalLines content).length)
    (hnone : ∀ s ∈ parsed.spans, i ∉ s.lines) :
    ∃ before x after, R = before ++ x :: after ∧ i ∈ x.2.lines.lines ∧
      Unlisted parsed before x := by
  obtain ⟨x, hx, hix⟩ := exists_statement hlogical hR hi
  have hfalse {p : Role → Bool}
      (hspans : ∀ s ∈ (R.filter (p ·.1)).map (·.2.lines), i ∉ s.lines) : p x.1 = false := by
    by_contra hp
    have hfilter : x ∈ R.filter (p ·.1) := List.mem_filter.mpr ⟨hx, eq_true_of_ne_false hp⟩
    exact hspans _ (List.mem_map_of_mem hfilter) hix
  have hblock : x.1.inBlock = false := by
    apply hfalse
    intro s hs
    rw [← blockSpans_eq hR hparsed] at hs
    exact hnone s (List.mem_append_left _ hs)
  have hselection : x.1.isSelection = false := by
    apply hfalse
    intro s hs
    rw [← selectionSpans_eq hparsed] at hs
    exact hnone s (List.mem_append_right _ hs)
  obtain ⟨before, after, hsplit⟩ := List.append_of_mem hx
  exact ⟨before, x, after, hsplit, hix, unlisted_of_role hR hsplit hparsed hblock hselection⟩

end Accounted

/-- The lines of an accepted file are those of its statements. -/
theorem parse_accounts {path content : Text} {parsed : ParsedFile}
    (h : parse path content = .ok parsed) :
    ∃ statements, statementsOf path content = some statements ∧
      LinesAccounted content parsed statements := by
  obtain ⟨logical, R, hlogical, hR, hparsed⟩ := parse_statements h
  obtain ⟨hlines, hnewline⟩ := parse_lines h
  have hstatements : statementsOf path content = some R := by
    rw [statementsOf, hlogical]
    exact hR
  refine ⟨R, hstatements, ?_, ?_, spans_apart hlogical hR hparsed, blockSpans_eq hR hparsed,
    selectionSpans_eq hparsed, statements_inOrder hlogical hR, ?_, ?_⟩
  · rw [hlines, hnewline]
    exact render_physicalLines content
  · intro s hs
    rw [hlines]
    exact spans_run hlogical hR hparsed hs
  · intro b hb
    rw [hparsed] at hb
    exact optionLines_collect hb
  · intro i hi hnone
    rw [hlines] at hi
    exact exists_unlisted hlogical hR hparsed hi hnone

section Continued

def continuedLines : Text :=
  "auto eth0 \\\n eth1\niface eth0 inet static\n    address 192.168.1.10/\\\n24\n".toList

def continuedFile : ParsedFile where
  lines := ["auto eth0 \\".toList, " eth1".toList, "iface eth0 inet static".toList,
    "    address 192.168.1.10/\\".toList, "24".toList]
  endsWithNewline := true
  blocks := [⟨"eth0".toList, "inet".toList, "static".toList, ⟨2, []⟩, none, [3, 4],
    [⟨"address".toList, ["192.168.1.10/24".toList], ⟨3, [4]⟩⟩]⟩]
  sources := []
  selections := [⟨"auto".toList, ["eth0".toList, "eth1".toList], ⟨0, [1]⟩⟩]
  mappings := []
  renames := []

theorem continued_accounted :
    parse samplePath continuedLines = .ok continuedFile ∧
      ∃ statements, statementsOf samplePath continuedLines = some statements ∧
        LinesAccounted continuedLines continuedFile statements := by
  have hparse : parse samplePath continuedLines = .ok continuedFile := by decide +kernel
  exact ⟨hparse, parse_accounts hparse⟩

end Continued

end LandscapeKit.Hostnet
