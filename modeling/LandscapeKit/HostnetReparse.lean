import LandscapeKit.HostnetStatements

/-!
Reading an edited file again: the rendered lines are found again but for an empty one at the
end, and the statements that the edit writes anew have the roles they are written for.
-/

namespace LandscapeKit.Hostnet

open Lines

def linesMeaning (lines : List Text) : Option Meaning :=
  (logicalTexts lines).bind fun ts =>
    (roles .none (ts.map fun t => (t, ()))).map fun R => meaningOf (R.map Prod.fst)

theorem parse_meaning_iff {path content : Text} {m : Meaning} :
    (∃ parsed, parse path content = .ok parsed ∧ parsed.meaning = m) ↔
      linesMeaning (physicalLines content) = some m := by
  have htexts := logicalLines_texts path (physicalLines content)
  have hroles (logical : List LogicalLine) :
      (roles .none ((logical.map LogicalLine.text).map fun t => (t, ()))) =
        (roles .none (logical.map fun l => (l.text, l.lines))).map
          (List.map fun x => (x.1, ())) := by
    have hmap := roles_map (o := .none) (fun _ : Span => ()) (logical.map fun l => (l.text, l.lines))
    rw [← hmap, List.map_map, List.map_map]
    rfl
  have hfst (items : List (Role × Span)) :
      (items.map fun x => (x.1, ())).map Prod.fst = items.map Prod.fst := by
    rw [List.map_map]
    rfl
  constructor
  · rintro ⟨parsed, hparse, rfl⟩
    obtain ⟨logical, items, hlogical, hitems, rfl⟩ := parse_eq_ok_iff.mp hparse
    rw [hlogical] at htexts
    rw [linesMeaning, ← htexts, meaning_assembled, Except.toOption, Option.map_some,
      Option.bind_some, hroles, hitems, Option.map_some, Option.map_some, hfst]
  · intro h
    obtain ⟨ts, hts, h⟩ := Option.bind_eq_some_iff.mp h
    obtain ⟨R, hR, rfl⟩ := Option.map_eq_some_iff.mp h
    rw [hts] at htexts
    obtain ⟨logical, hlogical, rfl⟩ := Option.map_eq_some_iff.mp htexts
    rw [hroles] at hR
    obtain ⟨items, hitems, rfl⟩ := Option.map_eq_some_iff.mp hR
    have hok : logicalLines path (physicalLines content) = .ok logical := by
      cases hl : logicalLines path (physicalLines content) with
      | error e =>
        rw [hl] at hlogical
        cases hlogical
      | ok l =>
        rw [hl] at hlogical
        exact congrArg Except.ok (Option.some.inj hlogical)
    refine ⟨_, parse_eq_ok_iff.mpr ⟨logical, items, hok, hitems, rfl⟩, ?_⟩
    rw [meaning_assembled, hfst]

section Render

variable {L : List Text}

theorem intercalate_concat_nil {sep : Char} (h : L ≠ []) :
    [sep].intercalate (L ++ [[]]) = [sep].intercalate L ++ [sep] := by
  induction L with
  | nil => exact absurd rfl h
  | cons l L ih =>
    cases L with
    | nil => simp [List.intercalate_cons_cons]
    | cons l' L =>
      have htail := ih (List.cons_ne_nil _ _)
      rw [List.cons_append, List.cons_append, List.intercalate_cons_cons, List.intercalate_cons_cons,
        ← List.cons_append, htail, List.append_assoc, List.append_assoc, List.append_assoc]

theorem getLast?_intercalate {sep : Char} {l : Text} (hl : l ≠ []) :
    ([sep].intercalate (L ++ [l])).getLast? = l.getLast? := by
  induction L with
  | nil => simp
  | cons x L ih =>
    obtain ⟨y, L', hL⟩ : ∃ y L', L ++ [l] = y :: L' := by
      cases L with
      | nil => exact ⟨l, [], rfl⟩
      | cons y L => exact ⟨y, L ++ [l], rfl⟩
    have hne : [sep].intercalate (L ++ [l]) ≠ [] := by
      intro hnil
      rw [hnil] at ih
      exact hl (List.getLast?_eq_none_iff.mp ih.symm)
    rw [List.cons_append, hL, List.intercalate_cons_cons, ← hL, List.getLast?_append_of_ne_nil _ hne, ih]

theorem physicalLines_render (hL : ∀ l ∈ L, '\n' ∉ l) (nl : Bool) :
    (L = [] ∧ physicalLines (render L nl) = [[]]) ∨
      (L ≠ [] ∧ physicalLines (render L nl) = L ∧ (nl = true ∨ ∀ L', L = L' ++ [[]] → L' = [])) ∨
      ∃ L', L = L' ++ [[]] ∧ L' ≠ [] ∧ nl = false ∧ physicalLines (render L nl) = L' := by
  have hsplit (L : List Text) (hL : ∀ l ∈ L, '\n' ∉ l) (hne : L ≠ []) :
      (['\n'].intercalate L).splitOn '\n' = L := List.splitOn_intercalate '\n' hL hne
  by_cases hnil : L = []
  · left
    subst hnil
    cases nl <;> exact ⟨rfl, by decide⟩
  right
  cases nl with
  | true =>
    left
    refine ⟨hnil, ?_, .inl rfl⟩
    have hlast : endsWithNewline (['\n'].intercalate L ++ ['\n']) = true := by
      simp [endsWithNewline]
    have hrender : render L true = ['\n'].intercalate L ++ ['\n'] := rfl
    rw [hrender, physicalLines, if_pos hlast, List.dropLast_concat, hsplit L hL hnil]
  | false =>
    have hrender (L : List Text) : render L false = ['\n'].intercalate L := List.append_nil _
    obtain ⟨L', l, rfl⟩ := List.eq_nil_or_concat L |>.resolve_left hnil
    rw [List.concat_eq_append] at *
    by_cases hl : l = []
    · subst hl
      by_cases hL' : L' = []
      · left
        subst hL'
        refine ⟨hnil, by decide, .inr fun L'' he => ?_⟩
        exact (List.append_inj_left' he rfl).symm
      · right
        refine ⟨L', rfl, hL', rfl, ?_⟩
        have hlast : endsWithNewline (['\n'].intercalate L' ++ ['\n']) = true := by
          simp [endsWithNewline]
        rw [hrender, intercalate_concat_nil hL', physicalLines, if_pos hlast, List.dropLast_concat]
        exact hsplit L' (fun x hx => hL x (List.mem_append_left _ hx)) hL'
    · left
      refine ⟨hnil, ?_, .inr fun L'' he => ?_⟩
      · have hlast : ¬ endsWithNewline (['\n'].intercalate (L' ++ [l])) = true := by
          rw [endsWithNewline, getLast?_intercalate hl]
          intro h
          exact hL l (by simp) (List.mem_of_getLast? (of_decide_eq_true h))
        rw [hrender, physicalLines, if_neg hlast, hsplit _ hL hnil]
      · have heq := List.append_inj_right' he rfl
        exact absurd (List.singleton_inj.mp heq) hl

theorem roleOf_nil (o : Open) : roleOf o [] = some .comment := rfl

theorem logicalTexts_nil_line : logicalTexts [[]] = some [[]] := by decide

theorem roles_concat_nil {o : Open} {ts : List Text} :
    roles o ((ts ++ [[]]).map fun t => (t, ())) =
      (roles o (ts.map fun t => (t, ()))).map (· ++ [(.comment, ())]) := by
  induction ts generalizing o with
  | nil => rfl
  | cons t ts ih =>
    rw [List.cons_append, List.map_cons, List.map_cons, roles, roles]
    cases roleOf o t with
    | none => rfl
    | some r =>
      dsimp only
      rw [ih, Option.map_map, Option.map_map]
      rfl

theorem meaningOf_concat_comment (rs : List Role) :
    meaningOf (rs ++ [.comment]) = meaningOf rs := by
  have hblocks : blocksOf (rs ++ [.comment]) = blocksOf rs := by
    induction rs with
    | nil => rfl
    | cons r rs ih =>
      rw [List.cons_append]
      cases r <;> simp only [blocksOf, ih]
  simp only [meaningOf, hblocks, List.filterMap_append]
  simp [Role.source?, Role.selection?, Role.mapping?, Role.rename?]

theorem linesMeaning_concat_nil {ts : List Text} (h : logicalTexts L = some ts) :
    linesMeaning (L ++ [[]]) = linesMeaning L := by
  have htexts : logicalTexts (L ++ [[]]) = some (ts ++ [[]]) := by
    rw [logicalTexts_append h, logicalTexts_nil_line, Option.map_some]
  rw [linesMeaning, linesMeaning, htexts, h, Option.bind_some, Option.bind_some, roles_concat_nil,
    Option.map_map]
  apply congrArg₂ _ _ rfl
  funext R
  have hmap : (R ++ [(Role.comment, ())]).map Prod.fst = R.map Prod.fst ++ [.comment] := by simp
  rw [Function.comp_apply, hmap, meaningOf_concat_comment]

/-- The last line is empty and only there to end a continuation, and it is taken for the final
newline when the file is read again. -/
def Cut (L : List Text) (nl : Bool) : Prop :=
  nl = false ∧ ∃ L', L = L' ++ [[]] ∧ L' ≠ [] ∧ logicalTexts L' = none

theorem parse_render_iff {path : Text} {nl : Bool} {m : Meaning} (hL : ∀ l ∈ L, '\n' ∉ l) :
    (∃ parsed, parse path (render L nl) = .ok parsed ∧ parsed.meaning = m) ↔
      linesMeaning L = some m ∧ ¬ Cut L nl := by
  rw [parse_meaning_iff]
  rcases physicalLines_render hL nl with ⟨rfl, hlines⟩ | ⟨hne, hlines, hlast⟩ | ⟨L', rfl, hL', rfl, hlines⟩
  · have hcut : ¬ Cut [] nl := by
      rintro ⟨-, L', he, -⟩
      simp at he
    have hempty : linesMeaning [[]] = linesMeaning [] := linesMeaning_concat_nil (L := []) rfl
    rw [hlines, hempty]
    exact ⟨fun h => ⟨h, hcut⟩, fun h => h.1⟩
  · have hcut : ¬ Cut L nl := by
      rintro ⟨rfl, L', he, hL', -⟩
      rcases hlast with hlast | hlast
      · cases hlast
      · exact hL' (hlast L' he)
    rw [hlines]
    exact ⟨fun h => ⟨h, hcut⟩, fun h => h.1⟩
  · rw [hlines]
    cases htexts : logicalTexts L' with
    | none =>
      have hnone : linesMeaning L' = none := by rw [linesMeaning, htexts, Option.bind_none]
      rw [hnone]
      constructor
      · intro h
        cases h
      · rintro ⟨-, hcut⟩
        exact (hcut ⟨rfl, L', rfl, hL', htexts⟩).elim
    | some ts =>
      rw [linesMeaning_concat_nil htexts]
      refine ⟨fun h => ⟨h, ?_⟩, fun h => h.1⟩
      rintro ⟨-, L'', he, -, hnone⟩
      obtain rfl := List.append_cancel_right he
      rw [htexts] at hnone
      cases hnone

end Render

section Written

variable {o : Open} {text keyword : Text}

def IsWord (w : Text) : Prop := w ≠ [] ∧ ∀ c ∈ w, isWhitespace c = false

theorem topLevel_head (h : isTopLevel keyword = true) :
    ∃ c rest, keyword = c :: rest ∧ isWhitespace c = false ∧ c ≠ '#' ∧ c ≠ '\\' := by
  simp only [isTopLevel, Bool.or_eq_true, decide_eq_true_eq] at h
  rcases h with (((((((rfl | rfl) | rfl) | rfl) | rfl) | rfl) | rfl) | rfl) | hallow
  · exact ⟨'i', "face".toList, by decide, by decide, by decide, by decide⟩
  · exact ⟨'a', "uto".toList, by decide, by decide, by decide, by decide⟩
  · exact ⟨'m', "apping".toList, by decide, by decide, by decide, by decide⟩
  · exact ⟨'r', "ename".toList, by decide, by decide, by decide, by decide⟩
  · exact ⟨'s', "ource".toList, by decide, by decide, by decide, by decide⟩
  · exact ⟨'s', "ource-directory".toList, by decide, by decide, by decide, by decide⟩
  · exact ⟨'n', "o-auto-down".toList, by decide, by decide, by decide, by decide⟩
  · exact ⟨'n', "o-scripts".toList, by decide, by decide, by decide, by decide⟩
  · obtain ⟨rest, rfl⟩ := List.isPrefixOf_iff_prefix.mp hallow
    exact ⟨'a', "llow-".toList ++ rest, rfl, by decide, by decide, by decide⟩

theorem roleOf_keyword (htop : isTopLevel keyword = true) (hword : IsWord keyword) (rest : Text) :
    roleOf o (keyword ++ ' ' :: rest) = topRole keyword (splitWhitespace rest) := by
  obtain ⟨c, tail, rfl, hc, hhash, -⟩ := topLevel_head htop
  have hspace : (c = ' ' || c = '\t') = false := by
    by_contra hne
    have hcases : c = ' ' ∨ c = '\t' := by
      rw [Bool.not_eq_false, Bool.or_eq_true, decide_eq_true_eq, decide_eq_true_eq] at hne
      exact hne
    rcases hcases with rfl | rfl <;> exact absurd hc (by decide)
  have htrim : trimIndent (c :: tail ++ ' ' :: rest) = c :: tail ++ ' ' :: rest := by
    rw [trimIndent, List.cons_append, List.dropWhile_cons_of_neg]
    simpa using hspace
  have hcomment : isComment (c :: tail ++ ' ' :: rest) = false := by
    simp [isComment, hc, hhash]
  have hwords : splitWhitespace (c :: tail ++ ' ' :: rest) = (c :: tail) :: splitWhitespace rest := by
    rw [splitWhitespace, words_append_sep (by decide), words_of_clean hword.1 hword.2]
    rfl
  rw [roleOf, htrim, hcomment, hwords]
  simp [htop]

theorem isWord_iface : IsWord "iface".toList :=
  ⟨by decide, List.forall_iff_forall_mem.mp (by decide)⟩
theorem isWord_manual : IsWord "manual".toList :=
  ⟨by decide, List.forall_iff_forall_mem.mp (by decide)⟩

theorem splitWhitespace_cons {w : Text} (h : IsWord w) (rest : Text) :
    splitWhitespace (w ++ ' ' :: rest) = w :: splitWhitespace rest := by
  rw [splitWhitespace, words_append_sep (by decide), words_of_clean h.1 h.2]
  rfl

theorem manualHeader_eq (iface family : Text) : manualHeader iface family =
    "iface".toList ++ ' ' :: (iface ++ ' ' :: (family ++ ' ' :: "manual".toList)) := by
  have happend {a b c d e : Text} (ha : a = d ++ [' ']) (hb : b = [' ']) (hc : c = ' ' :: e) :
      a ++ iface ++ b ++ family ++ c = d ++ ' ' :: (iface ++ ' ' :: (family ++ ' ' :: e)) := by
    subst ha hb hc
    simp only [List.append_assoc, List.cons_append, List.nil_append]
  exact happend (by decide) (by decide) (by decide)

theorem topRole_iface (args : List Text) : topRole "iface".toList args = headerRole args := by
  unfold topRole
  rw [if_pos rfl]

theorem roleOf_manualHeader {iface family : Text} (hi : IsWord iface) (hf : IsWord family) :
    roleOf o (manualHeader iface family) =
      some (.header iface family "manual".toList none) := by
  have hmanual : splitWhitespace "manual".toList = ["manual".toList] :=
    words_of_clean isWord_manual.1 isWord_manual.2
  have htop : isTopLevel "iface".toList = true := by decide
  rw [manualHeader_eq, roleOf_keyword htop isWord_iface, splitWhitespace_cons hi,
    splitWhitespace_cons hf, hmanual, topRole_iface, headerRole]

structure SelectionFacts (keyword : Text) (names : List Text) : Prop where
  topLevel : isTopLevel keyword = true
  word : IsWord keyword
  names_ne : names ≠ []
  names_word : ∀ n ∈ names, IsWord n
  topRole_eq : ∀ args, topRole keyword args =
    if args = [] then none else some (.selection keyword args)

theorem topRole_selection {args : List Text} {kw : Text} {names : List Text}
    (h : topRole keyword args = some (.selection kw names)) :
    kw = keyword ∧ names = args ∧ args ≠ [] ∧
      ∀ args, topRole keyword args = if args = [] then none else some (.selection keyword args) := by
  have hargs (h : (if args = [] then none else some (.selection keyword args)) =
      some (Role.selection kw names)) : kw = keyword ∧ names = args ∧ args ≠ [] := by
    split at h
    · cases h
    · rename_i hne
      cases h
      exact ⟨rfl, rfl, hne⟩
  by_cases h1 : keyword = "iface".toList
  · unfold topRole headerRole at h
    rw [if_pos h1] at h
    split at h
    · cases h
    · split at h <;> cases h
    · cases h
  by_cases h2 : keyword = "auto".toList ∨ keyword = "no-auto-down".toList ∨
      keyword = "no-scripts".toList
  · have heq (args : List Text) : topRole keyword args =
        if args = [] then none else some (.selection keyword args) := by
      unfold topRole
      rw [if_neg h1, if_pos h2]
    rw [heq] at h
    exact ⟨(hargs h).1, (hargs h).2.1, (hargs h).2.2, heq⟩
  by_cases h3 : keyword = "mapping".toList
  · unfold topRole at h
    rw [if_neg h1, if_neg h2, if_pos h3] at h
    split at h <;> cases h
  by_cases h4 : keyword = "rename".toList
  · unfold topRole at h
    rw [if_neg h1, if_neg h2, if_neg h3, if_pos h4] at h
    split at h <;> cases h
  by_cases h5 : keyword = "source".toList ∨ keyword = "source-directory".toList
  · unfold topRole at h
    rw [if_neg h1, if_neg h2, if_neg h3, if_neg h4, if_pos h5] at h
    split at h <;> cases h
  have heq (args : List Text) : topRole keyword args =
      if args = [] then none else some (.selection keyword args) := by
    unfold topRole
    rw [if_neg h1, if_neg h2, if_neg h3, if_neg h4, if_neg h5]
  rw [heq] at h
  exact ⟨(hargs h).1, (hargs h).2.1, (hargs h).2.2, heq⟩

theorem roleOf_topLevel {r : Role} (h : roleOf o text = some r) (hr : r.TopLevel) :
    ∃ keyword args, splitWhitespace (trimIndent text) = keyword :: args ∧
      isTopLevel keyword = true ∧ topRole keyword args = some r := by
  unfold roleOf at h
  split at h
  · cases h
    exact hr.elim
  split at h
  · cases h
    exact hr.elim
  rename_i keyword args hwords
  split at h
  · unfold optionRole at h
    split at h
    · cases h
      exact hr.elim
    · cases h
      exact hr.elim
    · cases h
  · rename_i htop
    exact ⟨keyword, args, hwords, by simpa using htop, h⟩

theorem isWord_of_mem {body w : Text} (h : w ∈ splitWhitespace body) : IsWord w := mem_words h

theorem roleOf_selection {names : List Text} (h : roleOf o text = some (.selection keyword names)) :
    SelectionFacts keyword names := by
  obtain ⟨kw, args, hwords, htop, hrole⟩ := roleOf_topLevel h trivial
  obtain ⟨rfl, rfl, hne, heq⟩ := topRole_selection hrole
  refine ⟨htop, isWord_of_mem (by rw [hwords]; exact List.mem_cons_self ..), hne, fun n hn => ?_, heq⟩
  apply isWord_of_mem
  rw [hwords]
  exact List.mem_cons_of_mem _ hn

theorem roleOf_header {iface family method : Text} {inherits : Option Text}
    (h : roleOf o text = some (.header iface family method inherits)) :
    IsWord iface ∧ IsWord family := by
  obtain ⟨kw, args, hwords, -, hrole⟩ := roleOf_topLevel h trivial
  have hargs (w : Text) (hw : w ∈ args) : IsWord w := by
    apply isWord_of_mem
    rw [hwords]
    exact List.mem_cons_of_mem _ hw
  have hheader : headerRole args = some (.header iface family method inherits) := by
    unfold topRole at hrole
    split at hrole
    · exact hrole
    split at hrole
    · split at hrole <;> cases hrole
    split at hrole
    · split at hrole <;> cases hrole
    split at hrole
    · split at hrole <;> cases hrole
    split at hrole
    · split at hrole <;> cases hrole
    · split at hrole <;> cases hrole
  unfold headerRole at hheader
  split at hheader
  · cases hheader
    exact ⟨hargs _ (by simp), hargs _ (by simp)⟩
  · split at hheader
    · cases hheader
    · cases hheader
      exact ⟨hargs _ (by simp), hargs _ (by simp)⟩
  · cases hheader

theorem SelectionFacts.roleOf_text {names kept : List Text} (h : SelectionFacts keyword names)
    (hne : kept ≠ []) (hsub : ∀ n ∈ kept, n ∈ names) (o : Open) :
    roleOf o (selectionText keyword kept) = some (.selection keyword kept) := by
  have htext : selectionText keyword kept = keyword ++ ' ' :: [' '].intercalate kept := by
    rw [selectionText, List.append_assoc]
    rfl
  have hwords : splitWhitespace ([' '].intercalate kept) = kept :=
    words_intercalate (by decide) fun n hn => h.names_word n (hsub n hn)
  rw [htext, roleOf_keyword h.topLevel h.word, hwords, h.topRole_eq, if_neg hne]

def Lead (v : Text) : Prop :=
  ∀ pre c rest, v = pre ++ c :: rest → (∀ x ∈ pre, isWhitespace x = true) →
    isWhitespace c = false → c ≠ '\\'

theorem lead_of_seps {v : Text} (h : ∀ x ∈ v, isWhitespace x = true) : Lead v := by
  rintro pre c rest rfl - hc
  have hcontra := h c (by simp)
  rw [hc] at hcontra
  cases hcontra

theorem lead_of_first {pre rest : Text} {c : Char} (hpre : ∀ x ∈ pre, isWhitespace x = true)
    (hc : isWhitespace c = false) (hne : c ≠ '\\') : Lead (pre ++ c :: rest) := by
  intro pre' c' rest' he hpre' hc'
  induction pre generalizing pre' with
  | nil =>
    cases pre' with
    | nil =>
      obtain ⟨rfl, -⟩ := List.cons.inj he
      exact hne
    | cons x pre' =>
      obtain ⟨rfl, -⟩ := List.cons.inj he
      rw [hpre' c (List.mem_cons_self ..)] at hc
      cases hc
  | cons x pre ih =>
    cases pre' with
    | nil =>
      obtain ⟨rfl, -⟩ := List.cons.inj he
      rw [hpre x (List.mem_cons_self ..)] at hc'
      cases hc'
    | cons x' pre' =>
      obtain ⟨rfl, htail⟩ := List.cons.inj he
      exact ih (fun y hy => hpre y (List.mem_cons_of_mem _ hy)) pre' htail
        fun y hy => hpre' y (List.mem_cons_of_mem _ hy)

theorem roleOf_lead {r : Role} (h : roleOf .none text = some r) : Lead text := by
  have hindent : ∀ x ∈ text.takeWhile (fun c => c = ' ' || c = '\t'), isWhitespace x = true := by
    intro x hx
    have hx' := List.mem_takeWhile_imp hx
    rw [Bool.or_eq_true, decide_eq_true_eq, decide_eq_true_eq] at hx'
    rcases hx' with rfl | rfl <;> decide
  have hsplit : text = text.takeWhile (fun c => c = ' ' || c = '\t') ++ trimIndent text :=
    List.takeWhile_append_dropWhile.symm
  generalize text.takeWhile (fun c => c = ' ' || c = '\t') = indent at hindent hsplit
  have hall (hws : ∀ x ∈ trimIndent text, isWhitespace x = true) : Lead text := by
    apply lead_of_seps
    rw [hsplit]
    intro x hx
    rcases List.mem_append.mp hx with hx | hx
    · exact hindent x hx
    · exact hws x hx
  unfold roleOf at h
  split at h
  · rename_i hcomment
    rw [isComment, Bool.or_eq_true, decide_eq_true_eq] at hcomment
    rcases hcomment with hws | hhash
    · exact hall (List.all_eq_true.mp hws)
    · obtain ⟨rest, hrest⟩ := List.head?_eq_some_iff.mp hhash
      rw [hsplit, hrest]
      exact lead_of_first hindent (by decide) (by decide)
  rename_i hcomment
  rcases exists_word isWhitespace (trimIndent text) with hws | ⟨seps, w, rest, hbody, hseps, -, -, hwords, -⟩
  · exact hall hws
  · have hw : splitWhitespace (trimIndent text) = w :: words isWhitespace rest := hwords
    rw [hw] at h
    dsimp only at h
    split at h
    · cases h
    · rename_i htop
      have htop' : isTopLevel w = true := by simpa using htop
      obtain ⟨c, tail, rfl, hc, -, hne⟩ := topLevel_head htop'
      rw [hsplit, hbody, List.append_assoc, ← List.append_assoc, List.cons_append]
      apply lead_of_first _ hc hne
      intro x hx
      rcases List.mem_append.mp hx with hx | hx
      · exact hindent x hx
      · exact hseps x hx

theorem selectionText_concat {names : List Text} (name : Text) (hk : IsWord keyword)
    (hn : ∀ n ∈ names, IsWord n) :
    ∃ front, selectionText keyword (names ++ [name]) = keyword ++ front ++ ' ' :: name ∧
      splitWhitespace (keyword ++ front) = keyword :: names ∧
      (front = [] ∨ ∃ rest, front = ' ' :: rest) := by
  have hspace : selectionText keyword (names ++ [name]) =
      keyword ++ ' ' :: [' '].intercalate (names ++ [name]) := by
    rw [selectionText, List.append_assoc]
    rfl
  rw [hspace]
  by_cases hnames : names = []
  · subst hnames
    refine ⟨[], by simp, ?_, .inl rfl⟩
    rw [List.append_nil]
    exact words_of_clean hk.1 hk.2
  · refine ⟨' ' :: [' '].intercalate names, ?_, ?_, .inr ⟨_, rfl⟩⟩
    · have hinter : [' '].intercalate (names ++ [name]) = [' '].intercalate names ++ ' ' :: name := by
        clear hn hspace
        induction names with
        | nil => exact absurd rfl hnames
        | cons n names ih =>
          cases names with
          | nil => simp [List.intercalate_cons_cons]
          | cons n' names =>
            have htail := ih (List.cons_ne_nil _ _)
            rw [List.cons_append, List.cons_append, List.intercalate_cons_cons,
              List.intercalate_cons_cons, ← List.cons_append, htail]
            simp only [List.append_assoc]
      rw [hinter]
      simp
    · rw [splitWhitespace_cons hk]
      exact congrArg _ (words_intercalate (by decide) hn)

theorem SelectionFacts.absorbed {names kept : List Text} (h : SelectionFacts keyword names)
    (hne : kept ≠ []) (hsub : ∀ n ∈ kept, n ∈ names) {w s v : Text}
    (htext : selectionText keyword kept = w ++ s) (hs : s ≠ []) (hmarks : ∀ c ∈ s, c = '\\')
    (hlead : Lead v) :
    ∃ tail, w = keyword ++ ' ' :: tail ∧ splitWhitespace (tail ++ v) ≠ kept := by
  obtain ⟨ks, name, rfl⟩ := (List.eq_nil_or_concat kept).resolve_left hne
  rw [List.concat_eq_append] at *
  have hname := h.names_word name (hsub name (by simp))
  obtain ⟨front, hfront, hwords, hspace⟩ := selectionText_concat name h.word
    fun n hn => h.names_word n (hsub n (List.mem_append_left _ hn))
  -- the backslashes are the end of the last name
  obtain ⟨m, rfl, rfl⟩ : ∃ m, w = keyword ++ front ++ ' ' :: m ∧ name = m ++ s := by
    have he : (keyword ++ front ++ [' ']) ++ name = w ++ s := by
      rw [← htext, hfront, List.append_assoc _ [' '], List.singleton_append]
    rcases List.append_eq_append_iff.mp he with ⟨m, rfl, hm⟩ | ⟨m, hm, rfl⟩
    · exact ⟨m, by simp, hm⟩
    · rcases List.eq_nil_or_concat m with rfl | ⟨m', c, rfl⟩
      · exact ⟨[], by rw [List.append_nil] at hm; rw [← hm], rfl⟩
      · rw [List.concat_eq_append, ← List.append_assoc] at hm
        have hc := List.singleton_inj.mp (List.append_inj_right' hm rfl)
        have hmark := hmarks c (by simp)
        rw [← hc] at hmark
        exact absurd hmark (by decide)
  obtain ⟨tail, htail⟩ : ∃ tail, front ++ ' ' :: m = ' ' :: tail := by
    rcases hspace with rfl | ⟨rest, rfl⟩
    · exact ⟨m, rfl⟩
    · exact ⟨rest ++ ' ' :: m, rfl⟩
  refine ⟨tail, by rw [List.append_assoc, htail], fun hkept => ?_⟩
  have hleft : splitWhitespace (keyword ++ ' ' :: (tail ++ v)) =
      keyword :: splitWhitespace (tail ++ v) := splitWhitespace_cons h.word _
  have hright : splitWhitespace (keyword ++ ' ' :: (tail ++ v)) =
      keyword :: (ks ++ splitWhitespace (m ++ v)) := by
    have hre : keyword ++ ' ' :: (tail ++ v) = (keyword ++ front) ++ ' ' :: (m ++ v) := by
      rw [← List.cons_append, ← htail]
      simp only [List.append_assoc, List.cons_append]
    rw [hre, splitWhitespace, words_append_sep (by decide), ← splitWhitespace, hwords]
    rfl
  rw [hleft, hkept] at hright
  have hlast : splitWhitespace (m ++ v) = [m ++ s] :=
    (List.append_cancel_left (List.cons.inj hright).2).symm
  obtain ⟨seps, rest, hmv, hseps⟩ := words_eq_cons hlast
  obtain ⟨c, s', rfl⟩ := List.exists_cons_of_ne_nil hs
  have hcmark := hmarks c (List.mem_cons_self ..)
  have hcword : isWhitespace c = false := hname.2 c (by simp)
  -- so `v` itself leads with the backslashes
  obtain ⟨pre, hv, hpre⟩ : ∃ pre, v = pre ++ c :: (s' ++ rest) ∧ ∀ x ∈ pre, isWhitespace x = true := by
    cases m with
    | nil => exact ⟨seps, by simpa using hmv, hseps⟩
    | cons x m =>
      cases seps with
      | nil =>
        refine ⟨[], ?_, by simp⟩
        have hcancel : (x :: m) ++ v = (x :: m) ++ (c :: (s' ++ rest)) := by
          rw [hmv]
          simp
        simpa using List.append_cancel_left hcancel
      | cons y seps =>
        obtain ⟨rfl, -⟩ := List.cons.inj hmv
        have hx := hname.2 x (by simp)
        rw [hseps x (List.mem_cons_self ..)] at hx
        cases hx
  exact hlead pre c _ hv hpre hcword hcmark

end Written

end LandscapeKit.Hostnet
