import Mathlib.Data.List.Forall2
import Mathlib.Data.List.ReduceOption
import LandscapeKit.HostnetUnmanage

/-!
`plan_unmanage` over a set of files: when the edited files mean what they should, and that
planning on them again has nothing left to do.
-/

namespace LandscapeKit.Hostnet

open Lines

section File

variable {M : Type} {env : Env M} {path content : Text} {managed : List Text} {ch : Changes}
  {parsed : ParsedFile} {R : Statements}

theorem mem_intercalate {sep c : Char} {ws : List Text} (h : c ∈ [sep].intercalate ws) :
    c = sep ∨ ∃ w ∈ ws, c ∈ w := by
  induction ws with
  | nil => exact absurd h List.not_mem_nil
  | cons w ws ih =>
    cases ws with
    | nil =>
      rw [List.intercalate_singleton] at h
      exact .inr ⟨w, List.mem_cons_self .., h⟩
    | cons w' ws =>
      rw [List.intercalate_cons_cons] at h
      rcases List.mem_append.mp h with h | h
      · rcases List.mem_append.mp h with h | h
        · exact .inr ⟨w, List.mem_cons_self .., h⟩
        · exact .inl (List.mem_singleton.mp h)
      · rcases ih h with h | ⟨v, hv, hc⟩
        · exact .inl h
        · exact .inr ⟨v, List.mem_cons_of_mem _ hv, hc⟩

theorem IsWord.newline_not_mem {w : Text} (h : IsWord w) : '\n' ∉ w := by
  intro hmem
  exact absurd (h.2 '\n' hmem) (by decide)

theorem manualHeader_newline {iface family : Text} (hi : IsWord iface) (hf : IsWord family) :
    '\n' ∉ manualHeader iface family := by
  rw [manualHeader_eq]
  intro h
  rcases List.mem_append.mp h with h | h
  · exact isWord_iface.newline_not_mem h
  rcases List.mem_cons.mp h with h | h
  · cases h
  rcases List.mem_append.mp h with h | h
  · exact hi.newline_not_mem h
  rcases List.mem_cons.mp h with h | h
  · cases h
  rcases List.mem_append.mp h with h | h
  · exact hf.newline_not_mem h
  rcases List.mem_cons.mp h with h | h
  · cases h
  · exact isWord_manual.newline_not_mem h

theorem selectionText_newline {keyword : Text} {names : List Text} (hk : IsWord keyword)
    (hn : ∀ n ∈ names, IsWord n) : '\n' ∉ selectionText keyword names := by
  intro h
  rcases List.mem_append.mp h with h | h
  · rcases List.mem_append.mp h with h | h
    · exact hk.newline_not_mem h
    · exact absurd h (by decide)
  · rcases mem_intercalate h with h | ⟨n, hmem, h⟩
    · cases h
    · exact (hn n hmem).newline_not_mem h

theorem editedLines_newline {o : Open} (hR : ReadFrom o R)
    (hlines : ∀ x ∈ R, ∀ l ∈ x.2.raw, '\n' ∉ l) : ∀ l ∈ editedLines managed R, '\n' ∉ l := by
  induction R generalizing o with
  | nil => exact fun l hl => absurd hl List.not_mem_nil
  | cons x R ih =>
    obtain ⟨r, g⟩ := x
    obtain ⟨hrole, -, hrest⟩ := hR.cons
    intro l hl
    rcases List.mem_append.mp hl with hl | hl
    · have hraw (h : l ∈ g.raw) : '\n' ∉ l := hlines (r, g) (List.mem_cons_self ..) l h
      cases r with
      | header =>
        rw [pieceFor] at hl
        split at hl
        · exact hraw hl
        · obtain rfl := List.mem_singleton.mp hl
          exact manualHeader_newline (roleOf_header hrole).1 (roleOf_header hrole).2
      | option =>
        rw [pieceFor] at hl
        split at hl
        · exact absurd hl List.not_mem_nil
        · exact hraw hl
      | selection keyword names =>
        have hfacts := roleOf_selection hrole
        rw [pieceFor] at hl
        split at hl
        · split at hl
          · exact absurd hl List.not_mem_nil
          · obtain rfl := List.mem_singleton.mp hl
            exact selectionText_newline hfacts.word
              fun n hn => hfacts.names_word n (List.mem_filter.mp hn).1
        · exact hraw hl
      | _ => exact hraw hl
    · exact ih hrest (fun x hx => hlines x (List.mem_cons_of_mem _ hx)) l hl

/-- What an edit of a file needs to keep its meaning: no narrowed statement ends in a name with
a backslash at its end, and no continuation loses the empty line that ends it. -/
structure Safe (managed : List Text) (parsed : ParsedFile) : Prop where
  names : ∀ s ∈ parsed.selections, (∃ n ∈ s.interfaces, n ∈ managed) →
    ∀ last, (s.interfaces.filter (· ∉ managed)).getLast? = some last → last.getLast? ≠ some '\\'
  tail : ∀ R, Reads parsed R → ¬ CutTail managed parsed.endsWithNewline R

theorem parse_lines (h : parse path content = .ok parsed) :
    parsed.lines = physicalLines content ∧ parsed.endsWithNewline = endsWithNewline content := by
  obtain ⟨logical, items, -, -, rfl⟩ := parse_eq_ok_iff.mp h
  exact ⟨rfl, rfl⟩

theorem newline_notMem_editedLines (hparse : parse path content = .ok parsed)
    (hR : Reads parsed R) : ∀ l ∈ editedLines managed R, '\n' ∉ l := by
  apply editedLines_newline hR.readFrom
  intro x hx l hl
  have hmem : l ∈ physicalLines content := by
    rw [← (parse_lines hparse).1, hR.lines_eq]
    exact List.mem_flatMap.mpr ⟨x.2, List.mem_map_of_mem hx, hl⟩
  exact Text.not_mem_of_mem_splitOn hmem

theorem names_safe_iff (hR : Reads parsed R) :
    (∀ s ∈ parsed.selections, (∃ n ∈ s.interfaces, n ∈ managed) → ∀ last,
      (s.interfaces.filter (· ∉ managed)).getLast? = some last → last.getLast? ≠ some '\\') ↔
      ∀ x ∈ R, ¬ x.1.Continues managed := by
  rw [hR.selections_eq]
  constructor
  · rintro h ⟨r, g⟩ hx hcont
    cases r with
    | selection keyword names =>
      obtain ⟨hn, last, hlast, hback⟩ := hcont
      exact h ⟨keyword, names, g.span⟩ (Statements.mem_selections.mpr ⟨g, hx, rfl⟩) hn last hlast hback
    | _ => exact hcont
  · intro h s hs hn last hlast hback
    obtain ⟨g, hg, -⟩ := Statements.mem_selections.mp hs
    exact h _ hg ⟨hn, last, hlast, hback⟩

theorem linesMeaning_edited_iff (hR : Reads parsed R) :
    linesMeaning (editedLines managed R) = some (parsed.meaning.unmanage managed) ↔
      ∀ x ∈ R, ¬ x.1.Continues managed := by
  have hmeaning : parsed.meaning.unmanage managed =
      meaningOf (R.roles.filterMap (Role.unmanage managed)) := by
    rw [hR.meaning, meaningOf_unmanage managed hR.follows]
  rw [hmeaning]
  constructor
  · intro h x hx hcont
    obtain ⟨ts, hts, h⟩ := Option.bind_eq_some_iff.mp h
    obtain ⟨R', hR', h⟩ := Option.map_eq_some_iff.mp h
    have hdiff := edited_differs hR.readFrom ⟨x, hx, hcont⟩ (.inl rfl) hts hR'
    exact hdiff (congrArg Meaning.selections h)
  · intro h
    have hcovers : Open.none.Covers .none := .inl rfl
    obtain ⟨ts, R', hts, hR', hfst⟩ := edited_roles hR.readFrom h hcovers
    rw [linesMeaning, hts, Option.bind_some, hR', Option.map_some, hfst]

theorem parse_edited_iff (hparse : parse path content = .ok parsed)
    (hch : planChanges env path managed parsed = .ok ch) :
    (∃ parsed', parse path (render (newLines ch parsed.lines) parsed.endsWithNewline) = .ok parsed' ∧
      parsed'.meaning = parsed.meaning.unmanage managed) ↔ Safe managed parsed := by
  have hiff (R : Statements) (hR : Reads parsed R) :
      (∃ parsed', parse path (render (newLines ch parsed.lines) parsed.endsWithNewline) = .ok parsed' ∧
        parsed'.meaning = parsed.meaning.unmanage managed) ↔
      (∀ x ∈ R, ¬ x.1.Continues managed) ∧ ¬ CutTail managed parsed.endsWithNewline R := by
    rw [newLines_eq hR hch, parse_render_iff (newline_notMem_editedLines hparse hR),
      linesMeaning_edited_iff hR]
    exact and_congr_right fun hclean => not_congr (cut_iff hR.readFrom hclean)
  constructor
  · intro h
    obtain ⟨R, hR⟩ := exists_reads hparse
    refine ⟨(names_safe_iff hR).mpr ((hiff R hR).mp h).1, fun R' hR' => ((hiff R' hR').mp h).2⟩
  · intro h
    obtain ⟨R, hR⟩ := exists_reads hparse
    exact (hiff R hR).mpr ⟨(names_safe_iff hR).mp h.names, h.tail R hR⟩

end File

section Render

variable {lines : List Text}

theorem newLines_nil (lines : List Text) : newLines ⟨[], []⟩ lines = lines := by
  have hsome : lines.zipIdx.filterMap (fun x => newLine ⟨[], []⟩ x.1 x.2) =
      lines.zipIdx.filterMap (fun x => some x.1) := by
    apply List.filterMap_congr
    intro x _
    simp [newLine]
  rw [newLines]
  rw [hsome, List.filterMap_eq_map', List.zipIdx_map_fst]

theorem render_physicalLines (content : Text) :
    render (physicalLines content) (endsWithNewline content) = content := by
  unfold render physicalLines
  cases hnl : endsWithNewline content with
  | true =>
    have hlast : content.getLast? = some '\n' := of_decide_eq_true hnl
    obtain ⟨front, rfl⟩ := List.getLast?_eq_some_iff.mp hlast
    have hinter : ['\n'].intercalate (front.splitOn '\n') = front := List.intercalate_splitOn '\n'
    rw [if_pos rfl, if_pos rfl, List.dropLast_concat]
    exact congrArg (· ++ ['\n']) hinter
  | false =>
    have hinter : ['\n'].intercalate (content.splitOn '\n') = content := List.intercalate_splitOn '\n'
    rw [if_neg (by decide), if_neg (by decide), List.append_nil]
    exact hinter

end Render

section Loops

variable {α β ε : Type}

theorem mapM_ok_iff {f : α → Except ε β} {l : List α} {l' : List β} :
    l.mapM f = .ok l' ↔ List.Forall₂ (fun a b => f a = .ok b) l l' := by
  induction l generalizing l' with
  | nil =>
    rw [List.mapM_nil]
    constructor
    · intro h
      cases h
      exact .nil
    · intro h
      cases h
      rfl
  | cons a l ih =>
    rw [List.mapM_cons]
    constructor
    · intro h
      cases hf : f a with
      | error e =>
        rw [hf] at h
        cases h
      | ok b =>
        rw [hf] at h
        cases hl : l.mapM f with
        | error e =>
          simp only [bind, Except.bind, hl] at h
          cases h
        | ok bs =>
          simp only [bind, Except.bind, hl] at h
          cases h
          exact .cons hf (ih.mp hl)
    · intro h
      cases h with
      | cons hf hrest => simp only [bind, Except.bind, hf, ih.mpr hrest, pure, Except.pure]

theorem forM_ok_iff {f : α → Except ε Unit} {l : List α} :
    l.forM f = .ok () ↔ ∀ a ∈ l, f a = .ok () := by
  induction l with
  | nil => simp [pure, Except.pure]
  | cons a l ih =>
    have hcons : (a :: l).forM f = f a >>= fun _ => l.forM f := rfl
    rw [hcons]
    cases hf : f a with
    | error e => simp [bind, Except.bind, hf]
    | ok u =>
      rw [List.forall_mem_cons]
      exact ⟨fun h => ⟨hf, ih.mp h⟩, fun h => ih.mpr h.2⟩

theorem foldlM_ok_of_forall {f : β → α → Except ε β} {l : List α} {b : β}
    (h : ∀ a ∈ l, f b a = .ok b) : l.foldlM f b = .ok b := by
  induction l with
  | nil => rfl
  | cons a l ih =>
    rw [List.foldlM_cons, h a (List.mem_cons_self ..)]
    exact ih fun x hx => h x (List.mem_cons_of_mem _ hx)

theorem foldlM_mem_ok {f : β → α → Except ε β} {l : List α} {b c : β} {a : α}
    (h : l.foldlM f b = .ok c) (ha : a ∈ l) : ∃ b' c', f b' a = .ok c' := by
  induction l generalizing b with
  | nil => exact absurd ha List.not_mem_nil
  | cons x l ih =>
    obtain ⟨b', hstep, hrest⟩ := foldlM_cons_ok h
    rcases List.mem_cons.mp ha with rfl | ha
    · exact ⟨b, b', hstep⟩
    · exact ih hrest ha

variable {γ : Type} {P : α → β → Prop} {Q : β → γ → Prop} {l : List α} {l' : List β}

theorem exists_of_mem_left {a : α} (h : List.Forall₂ P l l') (ha : a ∈ l) : ∃ b ∈ l', P a b := by
  induction h with
  | nil => exact absurd ha List.not_mem_nil
  | cons hp _ ih =>
    rcases List.mem_cons.mp ha with rfl | ha
    · exact ⟨_, List.mem_cons_self .., hp⟩
    · obtain ⟨b, hb, hab⟩ := ih ha
      exact ⟨b, List.mem_cons_of_mem _ hb, hab⟩

theorem exists_of_mem_right {b : β} (h : List.Forall₂ P l l') (hb : b ∈ l') :
    ∃ a ∈ l, P a b :=
  exists_of_mem_left h.flip hb

theorem exists_partners (h : List.Forall₂ P l l') (hq : ∀ a ∈ l, ∀ b, P a b → ∃ c, Q b c) :
    ∃ l'' : List γ, List.Forall₂ Q l' l'' ∧
      List.Forall₂ (fun a c => ∃ b, P a b ∧ Q b c) l l'' := by
  induction h with
  | nil => exact ⟨[], .nil, .nil⟩
  | cons hp _ ih =>
    obtain ⟨c, hc⟩ := hq _ (List.mem_cons_self ..) _ hp
    obtain ⟨l'', h1, h2⟩ := ih fun a ha => hq a (List.mem_cons_of_mem _ ha)
    exact ⟨c :: l'', .cons hc h1, .cons ⟨_, hp, hc⟩ h2⟩

end Loops

section Checks

variable {M : Type} {env : Env M} {path : Text} {selected managed : List Text}

theorem rejectMapping_ok_iff {m : MappingLine} :
    rejectMapping env path selected m = .ok () ↔ ∀ p ∈ m.patterns, ∃ isMatch,
      env.glob p = .ok isMatch ∧ ∀ i ∈ selected, isMatch i = false := by
  rw [rejectMapping, forM_ok_iff]
  refine forall₂_congr fun p _ => ?_
  cases hg : env.glob p with
  | error e => simp
  | ok isMatch =>
    simp only [forM_ok_iff, Except.ok.injEq, exists_eq_left']
    refine forall₂_congr fun i _ => ?_
    cases isMatch i <;> simp

theorem rejectRename_ok_iff {r : RenameLine} :
    rejectRename env path selected r = .ok () ↔ ∀ value ∈ r.mappings, ∃ old new,
      splitOnce '=' value = some (old, new) ∧ ∀ i ∈ selected,
        selectionPatternMatches env old i = .ok false ∧ new ≠ i := by
  rw [rejectRename, forM_ok_iff]
  refine forall₂_congr fun value _ => ?_
  cases hs : splitOnce '=' value with
  | none => simp
  | some x =>
    obtain ⟨old, new⟩ := x
    simp only [forM_ok_iff, Option.some.injEq, Prod.mk.injEq]
    constructor
    · intro h
      refine ⟨old, new, ⟨rfl, rfl⟩, fun i hi => ?_⟩
      have hcheck := h i hi
      cases hm : selectionPatternMatches env old i with
      | error e =>
        rw [hm] at hcheck
        cases hcheck
      | ok b =>
        rw [hm] at hcheck
        dsimp only at hcheck
        split at hcheck
        · cases hcheck
        · rename_i hnot
          rw [Bool.or_eq_true, not_or, decide_eq_true_eq, Bool.not_eq_true] at hnot
          exact ⟨congrArg _ hnot.1, hnot.2⟩
    · rintro ⟨old', new', ⟨rfl, rfl⟩, h⟩ i hi
      obtain ⟨hm, hne⟩ := h i hi
      rw [hm]
      simp [hne]

theorem rejectOption_ok_iff {iface : Text} {option : InterfaceOption} :
    rejectOption env path selected iface option = .ok () ↔
      (namesInterfaces option.key = true → ∀ value ∈ option.values, ∃ isMatch,
        env.glob value = .ok isMatch ∧ value ≠ "all".toList ∧ selected.any isMatch = false) := by
  unfold rejectOption
  cases hkey : namesInterfaces option.key with
  | false => simp
  | true =>
    simp only [Bool.not_true, Bool.false_eq_true, if_false, forall_true_left]
    rw [forM_ok_iff]
    refine forall₂_congr fun value _ => ?_
    cases hg : env.glob value with
    | error e => simp
    | ok isMatch =>
      simp only [Except.ok.injEq, exists_eq_left']
      by_cases hall : value = "all".toList
      · simp [hall]
      · cases hany : selected.any isMatch with
        | true => simp
        | false => simp

theorem rejectBlock_ok_iff {b : InterfaceBlock} :
    rejectBlock env path selected b = .ok () ↔ b.iface ∈ selected ∨
      (b.inherits.filter (· ∈ selected) = none ∧
        ∀ o ∈ b.options, namesInterfaces o.key = true → ∀ value ∈ o.values, ∃ isMatch,
          env.glob value = .ok isMatch ∧ value ≠ "all".toList ∧ selected.any isMatch = false) := by
  unfold rejectBlock
  by_cases hs : b.iface ∈ selected
  · simp [hs]
  · rw [if_neg hs]
    cases hinh : b.inherits.filter (· ∈ selected) with
    | some t => simp [hs]
    | none => simp only [hs, false_or, true_and, forM_ok_iff, rejectOption_ok_iff]

theorem checkPattern_ok_iff {s : SelectionLine} {interface : Text} :
    checkPattern env path managed s interface = .ok () ↔
      ∀ name ∈ managed, selectionPatternMatches env interface name = .ok false := by
  rw [checkPattern, forM_ok_iff]
  refine forall₂_congr fun name _ => ?_
  cases hm : selectionPatternMatches env interface name with
  | error e => simp
  | ok b => cases b <;> simp

end Checks

section Plans

variable {M : Type} {env : Env M} {selected : List Text} {files : List Text} {plan : EditPlan M}

theorem planUnmanage_ok_iff :
    planUnmanage env selected files = .ok plan ↔ ∃ parsedFiles edits,
      List.Forall₂ (fun path f => readFile env selected path = .ok f) files parsedFiles ∧
      List.Forall₂ (fun f e => planFile env f.path (managedOf selected parsedFiles) f.content
        f.parsed = .ok e) parsedFiles edits ∧ plan = ⟨edits.reduceOption⟩ := by
  simp only [planUnmanage, bind, Except.bind]
  constructor
  · intro h
    split at h
    · cases h
    rename_i parsedFiles hfiles
    split at h
    · cases h
    rename_i edits hedits
    exact ⟨parsedFiles, edits, mapM_ok_iff.mp hfiles, mapM_ok_iff.mp hedits, (Except.ok.inj h).symm⟩
  · rintro ⟨parsedFiles, edits, hfiles, hedits, rfl⟩
    rw [mapM_ok_iff.mpr hfiles]
    dsimp only
    rw [mapM_ok_iff.mpr hedits]

theorem readFile_ok_iff {path : Text} {f : ReadFile} :
    readFile env selected path = .ok f ↔ f.path = path ∧ env.readToString path = some f.content ∧
      parse path f.content = .ok f.parsed ∧
      rejectAmbiguousMappings env path f.parsed selected = .ok () ∧
      rejectSelectedDependencies env path f.parsed selected = .ok () := by
  unfold readFile
  cases hr : env.readToString path with
  | none => simp
  | some content =>
    simp only [bind, Except.bind, Option.some.injEq]
    constructor
    · intro h
      split at h
      · cases h
      rename_i parsed hparse
      split at h
      · cases h
      rename_i hmap
      split at h
      · cases h
      rename_i hdep
      obtain rfl := Except.ok.inj h
      exact ⟨rfl, rfl, hparse, hmap, hdep⟩
    · obtain ⟨path', content', parsed⟩ := f
      rintro ⟨rfl, rfl, hparse, hmap, hdep⟩
      dsimp only at hparse hmap hdep ⊢
      rw [hparse]
      dsimp only
      rw [hmap]
      dsimp only
      rw [hdep]

theorem planFile_ok {path content : Text} {managed : List Text} {parsed : ParsedFile}
    {e : Option (FileEdit M)} (h : planFile env path managed content parsed = .ok e) :
    ∃ ch, planChanges env path managed parsed = .ok ch ∧
      ((e = none ∧ ch = ⟨[], []⟩) ∨ ∃ edit, e = some edit ∧ edit.path = path ∧
        edit.content = render (newLines ch parsed.lines) parsed.endsWithNewline) := by
  simp only [planFile, bind, Except.bind] at h
  split at h
  · cases h
  rename_i ch hch
  refine ⟨ch, hch, ?_⟩
  split at h
  · rename_i hempty
    left
    obtain ⟨replacements, removals⟩ := ch
    obtain ⟨rfl, rfl⟩ := hempty
    exact ⟨(Except.ok.inj h).symm, rfl⟩
  · split at h
    · cases h
    · right
      exact ⟨_, (Except.ok.inj h).symm, rfl, rfl⟩

theorem applied_read {parsedFiles : List ReadFile} {edits : List (Option (FileEdit M))}
    (hfiles : List.Forall₂ (fun path f => readFile env selected path = .ok f) files parsedFiles)
    (hedits : List.Forall₂ (fun f e => planFile env f.path (managedOf selected parsedFiles) f.content
      f.parsed = .ok e) parsedFiles edits) {path : Text} {f : ReadFile} (hpath : path ∈ files)
    (hf : readFile env selected path = .ok f) :
    ∃ ch, planChanges env path (managedOf selected parsedFiles) f.parsed = .ok ch ∧
      ((⟨edits.reduceOption⟩ : EditPlan M).applied env).readToString path =
        some (render (newLines ch f.parsed.lines) f.parsed.endsWithNewline) := by
  obtain ⟨hfpath, hread, hparse, -, -⟩ := readFile_ok_iff.mp hf
  -- every file that an edit names is this one
  have hedit (edit : FileEdit M) (hmem : edit ∈ edits.reduceOption) (hp : edit.path = path) :
      planFile env f.path (managedOf selected parsedFiles) f.content f.parsed = .ok (some edit) := by
    rw [List.reduceOption_mem_iff] at hmem
    obtain ⟨f', hf', hplan⟩ := exists_of_mem_right hedits hmem
    obtain ⟨path', -, hread'⟩ := exists_of_mem_right hfiles hf'
    obtain ⟨ch, -, ⟨hnone, -⟩ | ⟨edit', he, hepath, -⟩⟩ := planFile_ok hplan
    · cases hnone
    · obtain rfl := Option.some.inj he
      have hsame : path' = path := by
        rw [← (readFile_ok_iff.mp hread').1, ← hepath, hp]
      rw [hsame, hf] at hread'
      obtain rfl := Except.ok.inj hread'
      exact hplan
  obtain ⟨f', hf', hread'⟩ := exists_of_mem_left hfiles hpath
  rw [hf] at hread'
  obtain rfl := Except.ok.inj hread'
  obtain ⟨e, he, hplan⟩ := exists_of_mem_left hedits hf'
  obtain ⟨ch, hch, hcases⟩ := planFile_ok hplan
  rw [hfpath] at hch
  refine ⟨ch, hch, ?_⟩
  simp only [EditPlan.applied]
  cases hfind : edits.reduceOption.find? (·.path = path) with
  | some edit =>
    have hpathEq : edit.path = path := by simpa using List.find?_some hfind
    have hedit' := hedit edit (List.mem_of_find?_eq_some hfind) hpathEq
    rw [hplan] at hedit'
    obtain rfl := Except.ok.inj hedit'
    rcases hcases with ⟨hnone, -⟩ | ⟨edit', he', -, hcontent⟩
    · cases hnone
    · obtain rfl := Option.some.inj he'
      exact congrArg some hcontent
  | none =>
    rcases hcases with ⟨rfl, rfl⟩ | ⟨edit, rfl, hepath, -⟩
    · dsimp only
      rw [newLines_nil, (parse_lines hparse).1, (parse_lines hparse).2, render_physicalLines, hread]
    · have hnot := List.find?_eq_none.mp hfind edit (List.reduceOption_mem_iff.mpr he)
      rw [hepath, hfpath] at hnot
      simp at hnot

theorem optionLines_nil {path content : Text} {parsed : ParsedFile} {b : InterfaceBlock}
    (hparse : parse path content = .ok parsed) (hb : b ∈ parsed.blocks) (h : b.options = []) :
    b.optionLines = [] := by
  obtain ⟨R, hR⟩ := exists_reads hparse
  rw [hR.blocks_eq] at hb
  obtain ⟨pre, iface, family, method, inherits, g, post, -, rfl⟩ := Statements.mem_blocks.mp hb
  simp only [Statements.blockAt] at h ⊢
  rw [h]
  rfl

theorem patterns_unmatched {path : Text} {managed : List Text} {parsed : ParsedFile} {ch : Changes}
    (h : planChanges env path managed parsed = .ok ch) {s : SelectionLine}
    (hs : s ∈ parsed.selections) {n : Text} (hn : n ∈ s.interfaces) (hm : n ∉ managed)
    (hslash : n.head? = some '/') :
    ∀ name ∈ managed, selectionPatternMatches env n name = .ok false := by
  simp only [planChanges, bind, Except.bind] at h
  split at h
  · cases h
  obtain ⟨ch₁, ch₂, hsel⟩ := foldlM_mem_ok h hs
  simp only [planSelection, bind, Except.bind] at hsel
  split at hsel
  · cases hsel
  rename_i acc hacc
  obtain ⟨acc₁, acc₂, hkeep⟩ := foldlM_mem_ok hacc hn
  rw [keepInterface, if_neg hm, if_pos hslash] at hkeep
  cases hcheck : checkPattern env path managed s n with
  | error e =>
    rw [hcheck] at hkeep
    cases hkeep
  | ok u => exact checkPattern_ok_iff.mp hcheck

theorem planChanges_settled {path content : Text} {managed : List Text}
    {parsed : ParsedFile} (hparse : parse path content = .ok parsed)
    (hblocks : ∀ b ∈ parsed.blocks, b.iface ∈ managed →
      b.method = "manual".toList ∧ b.inherits = none ∧ b.options = [])
    (hselections : ∀ s ∈ parsed.selections, ∀ n ∈ s.interfaces, n ∉ managed ∧
      (n.head? = some '/' → ∀ name ∈ managed, selectionPatternMatches env n name = .ok false)) :
    planChanges env path managed parsed = .ok ⟨[], []⟩ := by
  have hplan : parsed.blocks.foldlM
      (planBlock path ((parsed.blocks.map (·.iface)).filter (· ∈ managed))) ⟨[], []⟩ =
      .ok ⟨[], []⟩ := by
    apply foldlM_ok_of_forall
    intro b hb
    unfold planBlock
    split
    · rfl
    rename_i hmem
    have hm : b.iface ∈ managed := by simpa using (List.mem_filter.mp (not_not.mp hmem)).2
    obtain ⟨hmethod, hinherits, hoptions⟩ := hblocks b hb hm
    have hppp : b.method ≠ "ppp".toList := by
      rw [hmethod]
      decide
    rw [if_neg hppp, if_pos ⟨hmethod, hinherits, optionLines_nil hparse hb hoptions⟩]
  have hkeep (s : SelectionLine) (hs : s ∈ parsed.selections) :
      ∃ kept, s.interfaces.foldlM (keepInterface env path managed s) ([], false) = .ok (kept, false) := by
    have hfold (names kept : List Text) (hnames : ∀ n ∈ names, n ∈ s.interfaces) :
        ∃ kept', names.foldlM (keepInterface env path managed s) (kept, false) = .ok (kept', false) := by
      induction names generalizing kept with
      | nil => exact ⟨kept, rfl⟩
      | cons n names ih =>
        obtain ⟨hm, hslash⟩ := hselections s hs n (hnames n (List.mem_cons_self ..))
        have hstep : keepInterface env path managed s (kept, false) n = .ok (kept ++ [n], false) := by
          rw [keepInterface, if_neg hm]
          split
          · rename_i hhead
            rw [checkPattern_ok_iff.mpr (hslash hhead)]
            rfl
          · rfl
        rw [List.foldlM_cons, hstep]
        exact ih _ fun n hn => hnames n (List.mem_cons_of_mem _ hn)
    exact hfold s.interfaces [] fun n hn => hn
  simp only [planChanges, bind, Except.bind, hplan]
  apply foldlM_ok_of_forall
  intro s hs
  obtain ⟨kept, hkept⟩ := hkeep s hs
  simp only [planSelection, bind, Except.bind, hkept]
  rfl

theorem checks_unmanage {path : Text} {managed : List Text} {parsed parsed' : ParsedFile}
    (hsub : ∀ n ∈ managed, n ∈ selected)
    (hmeaning : parsed'.meaning = parsed.meaning.unmanage managed)
    (hmap : rejectAmbiguousMappings env path parsed selected = .ok ())
    (hdep : rejectSelectedDependencies env path parsed selected = .ok ()) :
    rejectAmbiguousMappings env path parsed' selected = .ok () ∧
      rejectSelectedDependencies env path parsed' selected = .ok () := by
  have hmaps : parsed'.mappings.map (·.patterns) = parsed.mappings.map (·.patterns) :=
    congrArg Meaning.mappings hmeaning
  have hrenames : parsed'.renames.map (·.mappings) = parsed.renames.map (·.mappings) :=
    congrArg Meaning.renames hmeaning
  have hblocks : parsed'.blocks.map (·.meaning) =
      (parsed.blocks.map (·.meaning)).map (·.unmanage managed) :=
    congrArg Meaning.blocks hmeaning
  constructor
  · unfold rejectAmbiguousMappings at hmap ⊢
    cases hfirst : parsed.mappings.forM (rejectMapping env path selected) with
    | error e =>
      rw [hfirst] at hmap
      cases hmap
    | ok u =>
      rw [hfirst] at hmap
      have hfirst' : parsed'.mappings.forM (rejectMapping env path selected) = .ok () := by
        rw [forM_ok_iff]
        intro m hm
        have hmem : m.patterns ∈ parsed.mappings.map (·.patterns) := by
          rw [← hmaps]
          exact List.mem_map_of_mem hm
        obtain ⟨m₀, hm₀, he⟩ := List.mem_map.mp hmem
        rw [rejectMapping_ok_iff, ← he]
        exact rejectMapping_ok_iff.mp (forM_ok_iff.mp hfirst m₀ hm₀)
      rw [hfirst']
      have hsecond : parsed.renames.forM (rejectRename env path selected) = .ok () := hmap
      have hgoal : parsed'.renames.forM (rejectRename env path selected) = .ok () := by
        rw [forM_ok_iff]
        intro r hr
        have hmem : r.mappings ∈ parsed.renames.map (·.mappings) := by
          rw [← hrenames]
          exact List.mem_map_of_mem hr
        obtain ⟨r₀, hr₀, he⟩ := List.mem_map.mp hmem
        rw [rejectRename_ok_iff, ← he]
        exact rejectRename_ok_iff.mp (forM_ok_iff.mp hsecond r₀ hr₀)
      exact hgoal
  · unfold rejectSelectedDependencies at hdep ⊢
    rw [forM_ok_iff] at hdep ⊢
    intro b hb
    rw [rejectBlock_ok_iff]
    by_cases hs : b.iface ∈ selected
    · exact .inl hs
    -- a block that is not selected is as it was
    have hmem : b.meaning ∈ (parsed.blocks.map (·.meaning)).map (·.unmanage managed) := by
      rw [← hblocks]
      exact List.mem_map_of_mem hb
    obtain ⟨m, hm, he⟩ := List.mem_map.mp hmem
    obtain ⟨b₀, hb₀, rfl⟩ := List.mem_map.mp hm
    have hiface : b₀.iface = b.iface := by
      have hcongr := congrArg BlockMeaning.iface he
      rw [BlockMeaning.unmanage] at hcongr
      split at hcongr <;> exact hcongr
    have hsame : b₀.meaning = b.meaning := by
      rw [← he, BlockMeaning.unmanage, if_neg]
      intro hmanaged
      exact hs (hiface ▸ hsub _ hmanaged)
    rcases rejectBlock_ok_iff.mp (hdep b₀ hb₀) with hs₀ | ⟨hinherits, hoptions⟩
    · exact (hs (hiface ▸ hs₀)).elim
    · right
      have hinh : b₀.inherits = b.inherits := congrArg BlockMeaning.inherits hsame
      have hopts : b₀.options.map (fun o => (o.key, o.values)) =
          b.options.map fun o => (o.key, o.values) := congrArg BlockMeaning.options hsame
      refine ⟨by rw [← hinh]; exact hinherits, fun o ho => ?_⟩
      have hmem' : (o.key, o.values) ∈ b₀.options.map fun o => (o.key, o.values) := by
        rw [hopts]
        exact List.mem_map_of_mem ho
      obtain ⟨o₀, ho₀, he₀⟩ := List.mem_map.mp hmem'
      obtain ⟨hkey, hvalues⟩ := Prod.mk.inj he₀
      rw [← hkey, ← hvalues]
      exact hoptions o₀ ho₀

/-- The selected interfaces that have a stanza in one of the files. -/
def managedNames (env : Env M) (selected files : List Text) : List Text :=
  managedOf selected (files.filterMap fun path => (readFile env selected path).toOption)

theorem managedNames_eq {parsedFiles : List ReadFile}
    (hfiles : List.Forall₂ (fun path f => readFile env selected path = .ok f) files parsedFiles) :
    managedNames env selected files = managedOf selected parsedFiles := by
  have hmap : files.filterMap (fun path => (readFile env selected path).toOption) = parsedFiles := by
    induction hfiles with
    | nil => rfl
    | cons hf _ ih => rw [List.filterMap_cons, hf, Except.toOption, ih]
  rw [managedNames, hmap]

/-- A file and what it is read as behind the edits. -/
def Unmanaged (managed : List Text) (f f' : ReadFile) : Prop :=
  f'.path = f.path ∧ f'.parsed.meaning = f.parsed.meaning.unmanage managed

theorem managedOf_unmanaged {managed : List Text} {parsedFiles parsedFiles' : List ReadFile}
    (h : List.Forall₂ (Unmanaged managed) parsedFiles parsedFiles') :
    managedOf selected parsedFiles' = managedOf selected parsedFiles := by
  have hnames : (parsedFiles'.flatMap (·.parsed.blocks)).map (·.iface) =
      (parsedFiles.flatMap (·.parsed.blocks)).map (·.iface) := by
    induction h with
    | nil => rfl
    | @cons f f' _ _ hf _ ih =>
      have hblocks : f'.parsed.blocks.map (·.meaning) =
          (f.parsed.blocks.map (·.meaning)).map (·.unmanage managed) :=
        congrArg Meaning.blocks hf.2
      have hifaces := congrArg (List.map BlockMeaning.iface) hblocks
      rw [List.map_map, List.map_map, List.map_map] at hifaces
      have hkeeps : ∀ b : InterfaceBlock, (b.meaning.unmanage managed).iface = b.iface := by
        intro b
        unfold BlockMeaning.unmanage
        split <;> rfl
      have hf' : f'.parsed.blocks.map (·.iface) = f.parsed.blocks.map (·.iface) := by
        refine Eq.trans hifaces (List.map_congr_left fun b _ => ?_)
        exact hkeeps b
      rw [List.flatMap_cons, List.flatMap_cons, List.map_append, List.map_append, ih, hf']
  rw [managedOf, managedOf, hnames]

section Globs

variable {env' : Env M} {path : Text} {parsed : ParsedFile}

/-! The checks and the changes of one file depend on the glob library only. -/

theorem selectionPatternMatches_glob (h : env'.glob = env.glob) (pattern interface : Text) :
    selectionPatternMatches env' pattern interface = selectionPatternMatches env pattern interface := by
  rw [selectionPatternMatches, selectionPatternMatches, h]

theorem rejectAmbiguousMappings_glob (h : env'.glob = env.glob) :
    rejectAmbiguousMappings env' path parsed selected =
      rejectAmbiguousMappings env path parsed selected := by
  have hmapping : rejectMapping env' path selected = rejectMapping env path selected := by
    funext m
    rw [rejectMapping, rejectMapping, h]
  have hrename : rejectRename env' path selected = rejectRename env path selected := by
    funext r
    simp only [rejectRename, selectionPatternMatches_glob h]
  rw [rejectAmbiguousMappings, rejectAmbiguousMappings, hmapping, hrename]

theorem rejectSelectedDependencies_glob (h : env'.glob = env.glob) :
    rejectSelectedDependencies env' path parsed selected =
      rejectSelectedDependencies env path parsed selected := by
  have hoption : rejectOption env' path selected = rejectOption env path selected := by
    funext iface option
    rw [rejectOption, rejectOption, h]
  have hblock : rejectBlock env' path selected = rejectBlock env path selected := by
    funext b
    rw [rejectBlock, rejectBlock, hoption]
  rw [rejectSelectedDependencies, rejectSelectedDependencies, hblock]

theorem planChanges_unmanaged {managed : List Text} {content' : Text} {parsed' : ParsedFile}
    (h : env'.glob = env.glob) (hch : ∃ ch, planChanges env path managed parsed = .ok ch)
    (hparse : parse path content' = .ok parsed')
    (hmeaning : parsed'.meaning = parsed.meaning.unmanage managed) :
    planChanges env' path managed parsed' = .ok ⟨[], []⟩ := by
  obtain ⟨ch, hch⟩ := hch
  apply planChanges_settled hparse
  · intro b hb hm
    have hmem : b.meaning ∈ (parsed.blocks.map (·.meaning)).map (·.unmanage managed) := by
      have hblocks : parsed'.blocks.map (·.meaning) =
          (parsed.blocks.map (·.meaning)).map (·.unmanage managed) :=
        congrArg Meaning.blocks hmeaning
      rw [← hblocks]
      exact List.mem_map_of_mem hb
    obtain ⟨m, -, he⟩ := List.mem_map.mp hmem
    have hiface : m.iface = b.iface := by
      have hcongr := congrArg BlockMeaning.iface he
      rw [BlockMeaning.unmanage] at hcongr
      split at hcongr <;> exact hcongr
    rw [BlockMeaning.unmanage, if_pos (hiface ▸ hm)] at he
    have hoptions : b.options.map (fun o => (o.key, o.values)) = [] :=
      (congrArg BlockMeaning.options he).symm
    exact ⟨(congrArg BlockMeaning.method he).symm, (congrArg BlockMeaning.inherits he).symm,
      List.map_eq_nil_iff.mp hoptions⟩
  · intro s hs n hn
    have hmem : (s.keyword, s.interfaces) ∈
        (parsed.selections.map fun s => (s.keyword, s.interfaces)).filterMap (keptSelection managed) := by
      have hselections : parsed'.selections.map (fun s => (s.keyword, s.interfaces)) =
          (parsed.selections.map fun s => (s.keyword, s.interfaces)).filterMap
            (keptSelection managed) := congrArg Meaning.selections hmeaning
      rw [← hselections]
      exact List.mem_map_of_mem hs
    obtain ⟨old, hold, hkept⟩ := List.mem_filterMap.mp hmem
    obtain ⟨s₀, hs₀, rfl⟩ := List.mem_map.mp hold
    unfold keptSelection at hkept
    split at hkept
    · cases hkept
    obtain ⟨-, hnames⟩ := Prod.mk.inj (Option.some.inj hkept)
    rw [← hnames] at hn
    obtain ⟨hn₀, hnm⟩ := List.mem_filter.mp hn
    have hnm' : n ∉ managed := of_decide_eq_true hnm
    refine ⟨hnm', fun hslash name hname => ?_⟩
    rw [selectionPatternMatches_glob h]
    exact patterns_unmatched hch hs₀ hn₀ hnm' hslash name hname

end Globs

theorem replan_empty {parsedFiles : List ReadFile} {edits : List (Option (FileEdit M))} {env' : Env M}
    (hglob : env'.glob = env.glob)
    (hfiles : List.Forall₂ (fun path f => readFile env selected path = .ok f) files parsedFiles)
    (hedits : List.Forall₂ (fun f e => planFile env f.path (managedOf selected parsedFiles) f.content
      f.parsed = .ok e) parsedFiles edits)
    (hmeaning : ∀ path ∈ files, ∀ f, readFile env selected path = .ok f →
      ∃ content' parsed', env'.readToString path = some content' ∧
        parse path content' = .ok parsed' ∧
        parsed'.meaning = f.parsed.meaning.unmanage (managedOf selected parsedFiles)) :
    planUnmanage env' selected files = .ok ⟨[]⟩ := by
  obtain ⟨parsedFiles', hpartners, hread⟩ := exists_partners hfiles
    (Q := fun f f' => Unmanaged (managedOf selected parsedFiles) f f' ∧
      readFile env' selected f.path = .ok f' ∧
      planFile env' f'.path (managedOf selected parsedFiles) f'.content f'.parsed = .ok none) (by
    intro path hpath f hf
    obtain ⟨rfl, -, -, hmap, hdep⟩ := readFile_ok_iff.mp hf
    obtain ⟨content', parsed', hread, hparse, hm⟩ := hmeaning _ hpath f hf
    have hchanges : ∃ ch, planChanges env f.path (managedOf selected parsedFiles) f.parsed = .ok ch := by
      obtain ⟨f₁, hf₁, hread₁⟩ := exists_of_mem_left hfiles hpath
      obtain rfl := Except.ok.inj (hf.symm.trans hread₁)
      obtain ⟨e, -, hplan⟩ := exists_of_mem_left hedits hf₁
      obtain ⟨ch, hch, -⟩ := planFile_ok hplan
      exact ⟨ch, hch⟩
    have hsub : ∀ n ∈ managedOf selected parsedFiles, n ∈ selected := by
      intro n hn
      simpa using (List.mem_filter.mp hn).2
    obtain ⟨hmap', hdep'⟩ := checks_unmanage hsub hm hmap hdep
    refine ⟨⟨f.path, content', parsed'⟩, ⟨rfl, hm⟩, ?_, ?_⟩
    · refine readFile_ok_iff.mpr ⟨rfl, hread, hparse, ?_, ?_⟩
      · rw [rejectAmbiguousMappings_glob hglob]
        exact hmap'
      · rw [rejectSelectedDependencies_glob hglob]
        exact hdep'
    · have hsettled := planChanges_unmanaged hglob hchanges hparse hm
      simp only [planFile, bind, Except.bind, hsettled, and_self, if_true])
  have hmanaged : managedOf selected parsedFiles' = managedOf selected parsedFiles :=
    managedOf_unmanaged (hpartners.imp fun _ _ h => h.1)
  refine planUnmanage_ok_iff.mpr ⟨parsedFiles', parsedFiles'.map fun _ => none, ?_, ?_, ?_⟩
  · refine hread.imp ?_
    rintro path f' ⟨f, hf, -, hread', -⟩
    rw [← (readFile_ok_iff.mp hf).1]
    exact hread'
  · rw [hmanaged, List.forall₂_map_right_iff, List.forall₂_same]
    intro f' hf'
    obtain ⟨f, -, -, -, hplan⟩ := exists_of_mem_right hpartners hf'
    exact hplan
  · have hnone : (parsedFiles'.map fun _ => (none : Option (FileEdit M))).reduceOption = [] := by
      rw [List.reduceOption, List.filterMap_map, List.filterMap_eq_nil_iff]
      intro f' _
      rfl
    rw [hnone]

/-- The edited files mean what they should, and planning on them again gives nothing to do,
exactly when every file of the set is safe to edit. -/
theorem unmanage_keeps_meaning_iff (h : planUnmanage env selected files = .ok plan) :
    ((∀ path ∈ files, ∀ content parsed, env.readToString path = some content →
      parse path content = .ok parsed →
        ∃ content' parsed', (plan.applied env).readToString path = some content' ∧
          parse path content' = .ok parsed' ∧
          parsed'.meaning = parsed.meaning.unmanage (managedNames env selected files)) ∧
      planUnmanage (plan.applied env) selected files = .ok ⟨[]⟩) ↔
    ∀ path ∈ files, ∀ content parsed, env.readToString path = some content →
      parse path content = .ok parsed → Safe (managedNames env selected files) parsed := by
  obtain ⟨parsedFiles, edits, hfiles, hedits, rfl⟩ := planUnmanage_ok_iff.mp h
  rw [managedNames_eq hfiles]
  -- the file that is read at a path of the set
  have hfile (path : Text) (hpath : path ∈ files) (content : Text) (parsed : ParsedFile)
      (hread : env.readToString path = some content) (hparse : parse path content = .ok parsed) :
      ∃ f, readFile env selected path = .ok f ∧ f.parsed = parsed := by
    obtain ⟨f, -, hf⟩ := exists_of_mem_left hfiles hpath
    obtain ⟨-, hread', hparse', -, -⟩ := readFile_ok_iff.mp hf
    obtain rfl := Option.some.inj (hread.symm.trans hread')
    exact ⟨f, hf, Except.ok.inj (hparse'.symm.trans hparse)⟩
  have hiff (path : Text) (hpath : path ∈ files) (f : ReadFile)
      (hf : readFile env selected path = .ok f) :
      (∃ content' parsed', ((⟨edits.reduceOption⟩ : EditPlan M).applied env).readToString path =
          some content' ∧ parse path content' = .ok parsed' ∧
          parsed'.meaning = f.parsed.meaning.unmanage (managedOf selected parsedFiles)) ↔
        Safe (managedOf selected parsedFiles) f.parsed := by
    obtain ⟨ch, hch, hread⟩ := applied_read hfiles hedits hpath hf
    rw [← parse_edited_iff (readFile_ok_iff.mp hf).2.2.1 hch]
    constructor
    · rintro ⟨content', parsed', hread', hparse, hmeaning⟩
      obtain rfl := Option.some.inj (hread.symm.trans hread')
      exact ⟨parsed', hparse, hmeaning⟩
    · rintro ⟨parsed', hparse, hmeaning⟩
      exact ⟨_, parsed', hread, hparse, hmeaning⟩
  constructor
  · rintro ⟨hmeaning, -⟩ path hpath content parsed hread hparse
    obtain ⟨f, hf, rfl⟩ := hfile path hpath content parsed hread hparse
    exact (hiff path hpath f hf).mp (hmeaning path hpath content f.parsed hread hparse)
  · intro hsafe
    have hall (path : Text) (hpath : path ∈ files) (f : ReadFile)
        (hf : readFile env selected path = .ok f) :=
      (hiff path hpath f hf).mpr (hsafe path hpath f.content f.parsed
        (readFile_ok_iff.mp hf).2.1 (readFile_ok_iff.mp hf).2.2.1)
    have hglob : ((⟨edits.reduceOption⟩ : EditPlan M).applied env).glob = env.glob := rfl
    refine ⟨fun path hpath content parsed hread hparse => ?_, replan_empty hglob hfiles hedits hall⟩
    obtain ⟨f, hf, rfl⟩ := hfile path hpath content parsed hread hparse
    exact hall path hpath f hf

end Plans

section Samples

/-- One file, and patterns without special characters. -/
def sampleEnv (content : Text) : Env Unit where
  readToString _ := some content
  captureMetadata _ := .ok ()
  glob pattern := .ok fun name => name = pattern

def samplePath : Text := "/etc/network/interfaces".toList

def sampleContent : Text :=
  "auto lo eth0\niface eth0 inet static\n  address 192.0.2.1\n".toList

def samplePlan : EditPlan Unit :=
  ⟨[⟨samplePath, sampleContent, "auto lo\niface eth0 inet manual\n".toList, ()⟩]⟩

theorem sample_planned :
    planUnmanage (sampleEnv sampleContent) ["eth0".toList] [samplePath] = .ok samplePlan := by
  delta samplePlan sampleContent
  repeat rewrite [String.toList_ofList]
  decide +kernel

theorem sample_managed :
    managedNames (sampleEnv sampleContent) ["eth0".toList] [samplePath] = ["eth0".toList] := by
  delta sampleContent
  repeat rewrite [String.toList_ofList]
  decide +kernel

theorem sample_parsed : ∃ parsed, parse samplePath sampleContent = .ok parsed ∧
    parsed.selections = [⟨"auto".toList, ["lo".toList, "eth0".toList], ⟨0, []⟩⟩] ∧
    parsed.endsWithNewline = true := by
  have hparse : (parse samplePath sampleContent).toOption.map
      (fun parsed => (parsed.selections, parsed.endsWithNewline)) =
      some ([⟨"auto".toList, ["lo".toList, "eth0".toList], ⟨0, []⟩⟩], true) := by
    delta sampleContent
    repeat rewrite [String.toList_ofList]
    decide +kernel
  cases hp : parse samplePath sampleContent with
  | error e =>
    rw [hp] at hparse
    cases hparse
  | ok parsed =>
    rw [hp] at hparse
    have hboth := Prod.mk.inj (Option.some.inj hparse)
    exact ⟨parsed, rfl, hboth.1, hboth.2⟩

/-- A safe file: its edit leaves nothing to do. -/
theorem sample_replanned :
    planUnmanage (sampleEnv sampleContent) ["eth0".toList] [samplePath] = .ok samplePlan ∧
      planUnmanage (samplePlan.applied (sampleEnv sampleContent)) ["eth0".toList] [samplePath] =
        .ok ⟨[]⟩ := by
  refine ⟨sample_planned, ((unmanage_keeps_meaning_iff sample_planned).mpr ?_).2⟩
  intro path hpath content parsed hread hparse
  obtain rfl := List.mem_singleton.mp hpath
  obtain rfl := Option.some.inj hread
  obtain ⟨parsed₀, hparse₀, hnames, hnl⟩ := sample_parsed
  obtain rfl := Except.ok.inj (hparse₀.symm.trans hparse)
  rw [sample_managed]
  refine ⟨fun s hs _ last hlast => ?_, fun R _ hcut => ?_⟩
  · rw [hnames] at hs
    obtain rfl := List.mem_singleton.mp hs
    have hlo : (["lo".toList, "eth0".toList].filter (· ∉ ["eth0".toList])).getLast? =
        some "lo".toList := by decide
    obtain rfl := Option.some.inj (hlo.symm.trans hlast)
    decide
  · rw [hnl] at hcut
    cases hcut.1

def continuedContent : Text := "auto foo\\ eth0\niface eth0 inet manual\n".toList

def continuedPlan : EditPlan Unit :=
  ⟨[⟨samplePath, continuedContent, "auto foo\\\niface eth0 inet manual\n".toList, ()⟩]⟩

/-- The name in front of the managed one ends in a backslash: behind the edit the statement goes
on with the next line, and the stanza is no more. -/
theorem continued_loses_stanza :
    planUnmanage (sampleEnv continuedContent) ["eth0".toList] [samplePath] = .ok continuedPlan ∧
      ¬ ∃ parsed content' parsed', parse samplePath continuedContent = .ok parsed ∧
        (continuedPlan.applied (sampleEnv continuedContent)).readToString samplePath = some content' ∧
        parse samplePath content' = .ok parsed' ∧
        parsed'.meaning = parsed.meaning.unmanage
          (managedNames (sampleEnv continuedContent) ["eth0".toList] [samplePath]) := by
  have hplan : planUnmanage (sampleEnv continuedContent) ["eth0".toList] [samplePath] =
      .ok continuedPlan := by
    delta continuedPlan continuedContent
    repeat rewrite [String.toList_ofList]
    decide +kernel
  refine ⟨hplan, ?_⟩
  rintro ⟨parsed, content', parsed', hparse, hread, hparse', hmeaning⟩
  have hcontent : (continuedPlan.applied (sampleEnv continuedContent)).readToString samplePath =
      some "auto foo\\\niface eth0 inet manual\n".toList := by decide +kernel
  obtain rfl := Option.some.inj (hcontent.symm.trans hread)
  have hbefore : (parse samplePath continuedContent).toOption.map (·.blocks.length) = some 1 := by
    decide +kernel
  have hafter : (parse samplePath "auto foo\\\niface eth0 inet manual\n".toList).toOption.map
      (·.blocks.length) = some 0 := by decide +kernel
  rw [hparse] at hbefore
  rw [hparse'] at hafter
  have hblocks := congrArg (fun m => m.blocks.length) hmeaning
  simp only [ParsedFile.meaning, Meaning.unmanage, List.length_map] at hblocks
  have hone : parsed.blocks.length = 1 := Option.some.inj hbefore
  have hzero : parsed'.blocks.length = 0 := Option.some.inj hafter
  omega

/-- Without a final newline: the empty line that ends the comment is taken for it. -/
example :
    (parse samplePath "iface eth0 inet manual\n# c \\\n\nauto eth0".toList).toOption.isSome = true ∧
      parse samplePath (render (["iface eth0 inet manual".toList, "# c \\".toList, []]) false) =
        .error (.unsupportedSyntax samplePath 2 "unterminated line continuation".toList) := by
  decide +kernel

end Samples

end LandscapeKit.Hostnet
