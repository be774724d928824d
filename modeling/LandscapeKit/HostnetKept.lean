import LandscapeKit.HostnetPlan

/-!
What an edit leaves of a file, line by line. The lines that the edit may touch are those of
managed stanzas and of the statements that name a managed interface; the others have to come
through, and so does the end of the file (`ifupdown/edit.rs`).
-/

namespace LandscapeKit.Hostnet

variable {M : Type} {env : Env M} {path content : Text} {managed : List Text}
  {parsed : ParsedFile} {ch : Changes}

def textLines (text : Text) : List Text := if text = [] then [] else physicalLines text

/-- A line of the declaration or the options of a managed stanza, or of a statement that names
a managed interface. -/
def Touched (managed : List Text) (parsed : ParsedFile) (i : ℕ) : Prop :=
  (∃ b ∈ parsed.blocks, b.iface ∈ managed ∧ (i ∈ b.declarationLines.lines ∨ i ∈ b.optionLines)) ∨
    ∃ s ∈ parsed.selections, Narrowed managed s ∧ i ∈ s.lines.lines

/-- A touched line that goes: the options and all but the first line of the declaration, and a
statement that is left without names. -/
def Dropped (managed : List Text) (parsed : ParsedFile) (i : ℕ) : Prop :=
  (∃ b ∈ parsed.blocks, Rewritten managed b ∧
    (i ∈ b.declarationLines.more ∨ i ∈ b.optionLines)) ∨
  ∃ s ∈ parsed.selections, Narrowed managed s ∧
    (i ∈ s.lines.more ∨ keptNames managed s = [] ∧ i = s.lines.first)

def Written (managed : List Text) (parsed : ParsedFile) (i : ℕ) : Prop :=
  (∃ b ∈ parsed.blocks, Rewritten managed b ∧ i = b.declarationLines.first) ∨
  ∃ s ∈ parsed.selections, Narrowed managed s ∧ keptNames managed s ≠ [] ∧ i = s.lines.first

/-- The text was changed only in lines that may be touched, which were replaced or left out,
and it still ends, or does not end, with a newline. -/
structure KeepsRest (touched : ℕ → Prop) (content content' : Text) : Prop where
  lines : ∃ new : ℕ → Text → Option Text, (∀ i line, ¬ touched i → new i line = some line) ∧
    textLines content' = (textLines content).zipIdx.filterMap fun x => new x.2 x.1
  newline : endsWithNewline content' = endsWithNewline content

def EndsBlank (managed : List Text) (parsed : ParsedFile) : Prop :=
  parsed.endsWithNewline = false ∧ ∃ before after, parsed.lines = before ++ [] :: after ∧
    ¬ Dropped managed parsed before.length ∧ ¬ Written managed parsed before.length ∧
    ∀ i, before.length < i → i < parsed.lines.length → Dropped managed parsed i

theorem getLast?_filterMap_zipIdx_iff {α β : Type} {f : α × ℕ → Option β} {l : List α} {b : β} :
    (l.zipIdx.filterMap f).getLast? = some b ↔ ∃ before x after, l = before ++ x :: after ∧
      f (x, before.length) = some b ∧
      ∀ i y, after[i]? = some y → f (y, before.length + 1 + i) = none := by
  rw [List.getLast?_filterMap, List.findSome?_eq_some_iff]
  constructor
  · rintro ⟨front, x, rest, hsplit, hx, hfront⟩
    have hzip : l.zipIdx = rest.reverse ++ x :: front.reverse := by
      simpa using congrArg List.reverse hsplit
    obtain ⟨before, tail, rfl, -, htail⟩ := List.zipIdx_eq_append_iff.mp hzip
    obtain ⟨y, after, rfl, rfl, hafter⟩ := List.zipIdx_eq_cons_iff.mp htail.symm
    rw [Nat.zero_add] at hx hafter
    refine ⟨before, y, after, rfl, hx, fun i z hz => hfront _ ?_⟩
    rw [← List.mem_reverse, hafter, List.mem_zipIdx_iff_le_and_getElem?_sub]
    refine ⟨Nat.le_add_right _ _, ?_⟩
    rw [Nat.add_sub_cancel_left]
    exact hz
  · rintro ⟨before, x, after, rfl, hx, hafter⟩
    refine ⟨(after.zipIdx (before.length + 1)).reverse, (x, before.length),
      before.zipIdx.reverse, ?_, hx, fun y hy => ?_⟩
    · simp [List.zipIdx_append]
    · rw [List.mem_reverse, List.mem_zipIdx_iff_le_and_getElem?_sub] at hy
      have hnone := hafter _ _ hy.2
      rwa [Nat.add_sub_cancel' hy.1] at hnone

/-! ## Which lines change -/

section Changes

variable (hch : planChanges env path managed parsed = .ok ch)

include hch

theorem mem_removals {i : ℕ} : i ∈ ch.removals ↔ Dropped managed parsed i := (planChanges_spec hch).2 i

theorem lookup_eq_none {i : ℕ} : ch.replacements.lookup i = none ↔ ¬ Written managed parsed i := by
  have hspec := (planChanges_spec hch).1
  constructor
  · intro hnone hw
    have hmem : ∃ text, (i, text) ∈ ch.replacements := by
      rcases hw with ⟨b, hb, hr, rfl⟩ | ⟨s, hs, hn, hk, rfl⟩
      · exact ⟨_, (hspec _).mpr (.inl ⟨b, hb, hr, rfl⟩)⟩
      · exact ⟨_, (hspec _).mpr (.inr ⟨s, hs, hn, hk, rfl⟩)⟩
    obtain ⟨text, hmem⟩ := hmem
    have hne := List.lookup_eq_none_iff.mp hnone _ hmem
    simp at hne
  · intro hw
    apply lookup_of_absent
    intro text hmem
    rcases (hspec _).mp hmem with ⟨b, hb, hr, he⟩ | ⟨s, hs, hn, hk, he⟩
    · exact hw (.inl ⟨b, hb, hr, (Prod.mk.inj he).1⟩)
    · exact hw (.inr ⟨s, hs, hn, hk, (Prod.mk.inj he).1⟩)

theorem written_ne_nil {i : ℕ} {text : Text} (h : ch.replacements.lookup i = some text) :
    text ≠ [] := by
  obtain ⟨front, rest, hsplit, -⟩ := List.lookup_eq_some_iff.mp h
  have hmem : (i, text) ∈ ch.replacements := by simp [hsplit]
  rcases ((planChanges_spec hch).1 _).mp hmem with ⟨b, -, -, he⟩ | ⟨s, -, -, -, he⟩
  · have htext : text = manualHeader b.iface b.family := (Prod.mk.inj he).2
    rw [htext]
    exact List.append_ne_nil_of_right_ne_nil _ (by decide)
  · have htext : text = selectionText s.keyword (keptNames managed s) := (Prod.mk.inj he).2
    rw [htext]
    exact List.append_ne_nil_of_left_ne_nil (List.append_ne_nil_of_right_ne_nil _ (by decide)) _

theorem newLine_cases (line : Text) (i : ℕ) :
    (Dropped managed parsed i ∧ newLine ch line i = none) ∨
    (¬ Dropped managed parsed i ∧ Written managed parsed i ∧
      ∃ text, text ≠ [] ∧ newLine ch line i = some text) ∨
    (¬ Dropped managed parsed i ∧ ¬ Written managed parsed i ∧ newLine ch line i = some line) := by
  unfold newLine
  by_cases hd : Dropped managed parsed i
  · exact .inl ⟨hd, if_pos ((mem_removals hch).mpr hd)⟩
  · right
    rw [if_neg (mt (mem_removals hch).mp hd)]
    cases hl : ch.replacements.lookup i with
    | none => exact .inr ⟨hd, (lookup_eq_none hch).mp hl, rfl⟩
    | some text =>
      have hw : Written managed parsed i := by
        by_contra hw
        rw [(lookup_eq_none hch).mpr hw] at hl
        cases hl
      exact .inl ⟨hd, hw, text, written_ne_nil hch hl, rfl⟩

theorem newLine_eq_nil_iff {line : Text} {i : ℕ} : newLine ch line i = some [] ↔
    ¬ Dropped managed parsed i ∧ ¬ Written managed parsed i ∧ line = [] := by
  rcases newLine_cases hch line i with ⟨hd, h⟩ | ⟨hd, hw, text, hne, h⟩ | ⟨hd, hw, h⟩
  · simp [h, hd]
  · simp [h, hw, hne]
  · simp [h, hd, hw]

theorem newLine_eq_none_iff {line : Text} {i : ℕ} :
    newLine ch line i = none ↔ Dropped managed parsed i := by
  rcases newLine_cases hch line i with ⟨hd, h⟩ | ⟨hd, hw, text, hne, h⟩ | ⟨hd, hw, h⟩
  · simp [h, hd]
  · simp [h, hd]
  · simp [h, hd]

omit hch in
theorem touched_of_changed {i : ℕ} (h : Dropped managed parsed i ∨ Written managed parsed i) :
    Touched managed parsed i := by
  rcases h with (⟨b, hb, hr, hi⟩ | ⟨s, hs, hn, hi⟩) | (⟨b, hb, hr, rfl⟩ | ⟨s, hs, hn, -, rfl⟩)
  · exact .inl ⟨b, hb, hr.1, hi.imp_left (List.mem_cons_of_mem _)⟩
  · refine .inr ⟨s, hs, hn, ?_⟩
    rcases hi with hi | ⟨-, rfl⟩
    · exact List.mem_cons_of_mem _ hi
    · exact List.mem_cons_self ..
  · exact .inl ⟨b, hb, hr.1, .inl (List.mem_cons_self ..)⟩
  · exact .inr ⟨s, hs, hn, List.mem_cons_self ..⟩

theorem newLine_untouched {i : ℕ} (h : ¬ Touched managed parsed i) (line : Text) :
    newLine ch line i = some line := by
  rcases newLine_cases hch line i with ⟨hd, -⟩ | ⟨-, hw, -⟩ | ⟨-, -, hsame⟩
  · exact absurd (touched_of_changed (.inl hd)) h
  · exact absurd (touched_of_changed (.inr hw)) h
  · exact hsame

theorem getLast?_newLines_iff (lines : List Text) :
    (newLines ch lines).getLast? = some [] ↔
      ∃ before after, lines = before ++ [] :: after ∧
        ¬ Dropped managed parsed before.length ∧ ¬ Written managed parsed before.length ∧
        ∀ i, before.length < i → i < lines.length → Dropped managed parsed i := by
  rw [newLines, getLast?_filterMap_zipIdx_iff]
  constructor
  · rintro ⟨before, line, after, rfl, hnil, hafter⟩
    obtain ⟨hd, hw, rfl⟩ := (newLine_eq_nil_iff hch).mp hnil
    refine ⟨before, after, rfl, hd, hw, fun i hlt hi => ?_⟩
    have hlen : i - (before.length + 1) < after.length := by
      simp only [List.length_append, List.length_cons] at hi
      omega
    have hnone := hafter _ _ (List.getElem?_eq_getElem hlen)
    have hindex : before.length + 1 + (i - (before.length + 1)) = i := by omega
    rw [hindex] at hnone
    exact (newLine_eq_none_iff hch).mp hnone
  · rintro ⟨before, after, rfl, hd, hw, hafter⟩
    refine ⟨before, [], after, rfl, (newLine_eq_nil_iff hch).mpr ⟨hd, hw, rfl⟩, ?_⟩
    intro i line hline
    have hlt : i < after.length := (List.getElem?_eq_some_iff.mp hline).1
    apply (newLine_eq_none_iff hch).mpr
    apply hafter
    · omega
    · simp only [List.length_append, List.length_cons]
      omega

end Changes

/-! ## The text that is written -/

section Text

variable {L : List Text}

theorem endsWithNewline_true : endsWithNewline (render L true) = true := by
  simp [endsWithNewline, render]

theorem endsWithNewline_false (hL : ∀ l ∈ L, '\n' ∉ l) :
    endsWithNewline (render L false) = true ↔ ∃ L', L = L' ++ [[]] ∧ L' ≠ [] := by
  have hrender : render L false = ['\n'].intercalate L := List.append_nil _
  rw [hrender]
  rcases List.eq_nil_or_concat L with rfl | ⟨L', l, rfl⟩
  · simp [endsWithNewline]
  · rw [List.concat_eq_append] at *
    by_cases hl : l = []
    · subst hl
      by_cases hL' : L' = []
      · subst hL'
        simp [endsWithNewline]
      · rw [intercalate_concat_nil hL']
        simp [endsWithNewline, hL']
    · rw [endsWithNewline, getLast?_intercalate hl, decide_eq_true_eq]
      constructor
      · intro hlast
        exact absurd (List.mem_of_getLast? hlast) (hL l (by simp))
      · rintro ⟨L'', he, -⟩
        exact absurd (List.singleton_inj.mp (List.append_inj_right' he rfl)) hl

theorem textLines_render (hL : ∀ l ∈ L, '\n' ∉ l) (hne : L ≠ []) {nl : Bool}
    (hlast : nl = true ∨ L.getLast? ≠ some []) : textLines (render L nl) = L := by
  have hnonempty : render L nl ≠ [] := by
    cases nl with
    | true => simp [render]
    | false =>
      have hlast' := hlast.resolve_left (by decide)
      obtain ⟨L', l, rfl⟩ := List.eq_nil_or_concat L |>.resolve_left hne
      rw [List.concat_eq_append] at *
      have hl : l ≠ [] := fun he => hlast' (by simp [he])
      have hrender : render (L' ++ [l]) false = ['\n'].intercalate (L' ++ [l]) := List.append_nil _
      rw [hrender]
      intro hnil
      have hget : (['\n'].intercalate (L' ++ [l])).getLast? = l.getLast? :=
        getLast?_intercalate hl
      rw [hnil] at hget
      exact hl (List.getLast?_eq_none_iff.mp hget.symm)
  rw [textLines, if_neg hnonempty]
  rcases physicalLines_render hL nl with ⟨rfl, -⟩ | ⟨-, hlines, -⟩ | ⟨L', rfl, -, rfl, -⟩
  · exact absurd rfl hne
  · exact hlines
  · simp at hlast

end Text

theorem textLines_content (h : content ≠ []) : textLines content = physicalLines content := if_neg h

theorem parse_nil (path : Text) : parse path [] = .ok ⟨[[]], false, [], [], [], [], []⟩ := rfl

def onlyBlank (n i : ℕ) (line : Text) : Option Text :=
  if i < n then if i = 0 then some [] else none else some line

theorem filterMap_onlyBlank (first : Text) (rest : List Text) :
    (first :: rest).zipIdx.filterMap (fun x => onlyBlank (first :: rest).length x.2 x.1) = [[]] := by
  have hfirst : onlyBlank (first :: rest).length 0 first = some [] := by simp [onlyBlank]
  rw [List.zipIdx_cons, List.filterMap_cons]
  simp only [hfirst]
  apply congrArg (List.cons [])
  apply List.filterMap_eq_nil_iff.mpr
  rintro ⟨line, i⟩ hmem
  obtain ⟨hle, hget⟩ := List.mem_zipIdx_iff_le_and_getElem?_sub.mp hmem
  have hlt := (List.getElem?_eq_some_iff.mp hget).1
  simp only [List.length_cons] at hle hlt ⊢
  rw [onlyBlank, if_pos (by omega), if_neg (by omega)]

section Edit

variable (hparse : parse path content = .ok parsed)
  (hch : planChanges env path managed parsed = .ok ch)

include hparse hch

theorem newLines_newline : ∀ l ∈ newLines ch parsed.lines, '\n' ∉ l := by
  obtain ⟨R, hR⟩ := exists_reads hparse
  rw [newLines_eq hR hch]
  exact newline_notMem_editedLines hparse hR

omit hparse in
theorem endsBlank_iff : EndsBlank managed parsed ↔
    parsed.endsWithNewline = false ∧ (newLines ch parsed.lines).getLast? = some [] := by
  rw [EndsBlank, getLast?_newLines_iff hch]

omit hparse hch in
theorem ReadFrom.role_of_mem {o : Open} {R : Statements} (h : ReadFrom o R) {x : Role × Group}
    (hx : x ∈ R) : ∃ o', roleOf o' x.2.text = some x.1 := by
  induction R generalizing o with
  | nil => exact absurd hx List.not_mem_nil
  | cons y R ih =>
    obtain ⟨hrole, -, hrest⟩ := ReadFrom.cons (r := y.1) (g := y.2) h
    rcases List.mem_cons.mp hx with rfl | hx
    · exact ⟨o, hrole⟩
    · exact ih hrest hx

theorem untouched_of_alone (h : newLines ch parsed.lines = [[]]) :
    ∃ i, i < parsed.lines.length ∧ ¬ Touched managed parsed i := by
  obtain ⟨R, hR⟩ := exists_reads hparse
  obtain ⟨before, after, hlines, hd, hw, -⟩ :=
    (getLast?_newLines_iff hch parsed.lines).mp (by rw [h]; rfl)
  refine ⟨before.length, by simp [hlines], ?_⟩
  rintro (⟨b, hb, hm, hi⟩ | ⟨s, hs, hn, hi⟩)
  · by_cases hr : Rewritten managed b
    · rcases hi with hi | hi
      · rcases List.mem_cons.mp hi with hfirst | hmore
        · exact hw (.inl ⟨b, hb, hr, hfirst⟩)
        · exact hd (.inl ⟨b, hb, hr, .inl hmore⟩)
      · exact hd (.inl ⟨b, hb, hr, .inr hi⟩)
    · -- the header of a settled stanza stays, and it is no empty line
      have hsettled : b.Settled := by
        by_contra hns
        exact hr ⟨hm, hns⟩
      rw [hR.blocks_eq] at hb
      obtain ⟨pre, iface, family, method, inherits, g, post, hRe, rfl⟩ :=
        Statements.mem_blocks.mp hb
      have hstays : HeaderStays managed iface method inherits (Statements.roles post) := by
        by_contra hns
        exact hr (rewritten_blockAt_iff.mpr hns)
      subst hRe
      have hpiece := piece_eq hR hch
      rw [pieceFor, if_pos hstays] at hpiece
      have hgroups : newLines ch parsed.lines =
          ((pre ++ (Role.header iface family method inherits, g) :: post).map Prod.snd).flatMap
            (Group.piece ch) := by
        rw [newLines, hR.lines_eq]
        exact newLines_groups hR.laid
      have hsub : g.raw.Sublist (newLines ch parsed.lines) := by
        rw [hgroups, List.map_append, List.map_cons, List.flatMap_append, List.flatMap_cons, hpiece]
        exact (List.sublist_append_left _ _).trans (List.sublist_append_right _ _)
      rw [h] at hsub
      have hclosed := hR.readFrom.closed (.header iface family method inherits, g) (by simp)
      obtain ⟨o, hrole⟩ := hR.readFrom.role_of_mem (x := (.header iface family method inherits, g))
        (by simp)
      rcases List.sublist_singleton.mp hsub with hraw | hraw
      · rw [hraw] at hclosed
        cases hclosed
      · rw [hraw, logicalTexts_nil_line] at hclosed
        have htext : g.text = [] := (List.singleton_inj.mp (Option.some.inj hclosed)).symm
        rw [htext, roleOf_nil] at hrole
        cases hrole
  · rcases List.mem_cons.mp hi with hfirst | hmore
    · by_cases hk : keptNames managed s = []
      · exact hd (.inr ⟨s, hs, hn, .inr ⟨hk, hfirst⟩⟩)
      · exact hw (.inr ⟨s, hs, hn, hk, hfirst⟩)
    · exact hd (.inr ⟨s, hs, hn, .inl hmore⟩)

theorem keepsRest_iff (hne : content ≠ []) :
    KeepsRest (Touched managed parsed) content
      (render (newLines ch parsed.lines) parsed.endsWithNewline) ↔ ¬ EndsBlank managed parsed := by
  obtain ⟨hlines, hnl⟩ := parse_lines hparse
  have hnewline := newLines_newline hparse hch
  have htext : textLines content = parsed.lines := (textLines_content hne).trans hlines.symm
  have hkeeps (i : ℕ) (line : Text) (hi : ¬ Touched managed parsed i) :
      newLine ch line i = some line := newLine_untouched hch hi line
  rw [endsBlank_iff hch]
  constructor
  · rintro ⟨⟨new, hnew, hto⟩, hend⟩ ⟨hfalse, hlast⟩
    rw [hfalse] at hto hend
    obtain ⟨L', l, hL⟩ := List.eq_nil_or_concat (newLines ch parsed.lines) |>.resolve_left (by
      intro hnil
      rw [hnil] at hlast
      cases hlast)
    rw [List.concat_eq_append] at hL
    obtain rfl : l = [] := by simpa [hL] using hlast
    by_cases hL' : L' = []
    · -- the empty line is the only one, and the empty text has no line
      subst hL'
      obtain ⟨i, hi, htouched⟩ := untouched_of_alone hparse hch hL
      have hempty : textLines (render (newLines ch parsed.lines) false) = [] := by
        rw [hL]
        decide
      rw [hempty, htext] at hto
      have hnone := List.filterMap_eq_nil_iff.mp hto.symm (parsed.lines[i], i) (by
        rw [List.mem_zipIdx_iff_getElem?]
        exact List.getElem?_eq_getElem hi)
      rw [hnew i _ htouched] at hnone
      cases hnone
    · have htrue := (endsWithNewline_false hnewline).mpr ⟨L', hL, hL'⟩
      rw [hend, ← hnl, hfalse] at htrue
      cases htrue
  · intro hnot
    have hend : endsWithNewline (render (newLines ch parsed.lines) parsed.endsWithNewline) =
        endsWithNewline content := by
      rw [← hnl]
      cases hb : parsed.endsWithNewline with
      | true => exact endsWithNewline_true
      | false =>
        rw [Bool.eq_false_iff, ne_eq, endsWithNewline_false hnewline]
        rintro ⟨L', hL, -⟩
        exact hnot ⟨hb, by simp [hL]⟩
    refine ⟨?_, hend⟩
    by_cases hnil : newLines ch parsed.lines = []
    · cases hb : parsed.endsWithNewline with
      | false =>
        refine ⟨fun i line => newLine ch line i, fun i line hi => hkeeps i line hi, ?_⟩
        rw [htext, hnil]
        exact hnil.symm
      | true =>
        -- all lines are touched, and an empty one stands for the first of them
        obtain ⟨first, rest, hcons⟩ := List.exists_cons_of_ne_nil
          (show parsed.lines ≠ [] from hlines ▸ List.splitOn_ne_nil _ _)
        have htouched (line : Text) (i : ℕ) (hmem : (line, i) ∈ parsed.lines.zipIdx) :
            Touched managed parsed i := by
          have hnone := List.filterMap_eq_nil_iff.mp hnil (line, i) hmem
          exact touched_of_changed (.inl ((newLine_eq_none_iff hch).mp hnone))
        have hblank : textLines (render (newLines ch parsed.lines) true) = [[]] := by
          rw [hnil]
          decide
        refine ⟨onlyBlank parsed.lines.length, fun i line hi => ?_, ?_⟩
        · have hout : ¬ i < parsed.lines.length := by
            intro hlt
            refine hi (htouched parsed.lines[i] i ?_)
            rw [List.mem_zipIdx_iff_getElem?]
            exact List.getElem?_eq_getElem hlt
          rw [onlyBlank, if_neg hout]
        · rw [hblank, htext, hcons, filterMap_onlyBlank]
    · refine ⟨fun i line => newLine ch line i, fun i line hi => hkeeps i line hi, ?_⟩
      rw [htext, textLines_render hnewline hnil]
      · rfl
      · cases hb : parsed.endsWithNewline with
        | true => exact .inl rfl
        | false => exact .inr fun hlast => hnot ⟨hb, hlast⟩

end Edit

/-! ## The edits of a plan -/

section Plan

variable {selected files : List Text} {plan : EditPlan M}

theorem edit_of_path (h : planUnmanage env selected files = .ok plan) {edit : FileEdit M}
    (hedit : edit ∈ plan.edits) (hread : env.readToString edit.path = some content)
    (hparse : parse edit.path content = .ok parsed) :
    ∃ ch, planChanges env edit.path (managedNames env selected files) parsed = .ok ch ∧
      ch ≠ ⟨[], []⟩ ∧ edit.originalContent = content ∧
      edit.content = render (newLines ch parsed.lines) parsed.endsWithNewline := by
  obtain ⟨parsedFiles, edits, hfiles, hedits, rfl⟩ := planUnmanage_ok_iff.mp h
  rw [managedNames_eq hfiles]
  have hmem : some edit ∈ edits := List.reduceOption_mem_iff.mp hedit
  obtain ⟨f, hf, hplan⟩ := exists_of_mem_right hedits hmem
  obtain ⟨path, -, hfile⟩ := exists_of_mem_right hfiles hf
  obtain ⟨hfpath, hfread, hfparse, -, -⟩ := readFile_ok_iff.mp hfile
  simp only [planFile, bind, Except.bind] at hplan
  split at hplan
  · cases hplan
  rename_i ch hch
  split at hplan
  · cases hplan
  rename_i hchanged
  split at hplan
  · cases hplan
  -- the file that was planned on is the one that is read now
  obtain rfl := Option.some.inj (Except.ok.inj hplan)
  dsimp only at hread hparse hch ⊢
  rw [hfpath, hfread] at hread
  obtain rfl := Option.some.inj hread
  rw [hfpath, hfparse] at hparse
  obtain rfl := Except.ok.inj hparse
  refine ⟨ch, hch, fun hempty => hchanged ?_, rfl, rfl⟩
  rw [hempty]
  exact ⟨rfl, rfl⟩

theorem touched_of_ne (hch : planChanges env path managed parsed = .ok ch) (hne : ch ≠ ⟨[], []⟩) :
    ∃ i, Touched managed parsed i := by
  obtain ⟨replacements, removals⟩ := ch
  cases replacements with
  | cons x rest =>
    have hw : Written managed parsed x.1 := by
      rcases ((planChanges_spec hch).1 x).mp (List.mem_cons_self ..) with
        ⟨b, hb, hr, he⟩ | ⟨s, hs, hn, hk, he⟩
      · exact .inl ⟨b, hb, hr, congrArg Prod.fst he⟩
      · exact .inr ⟨s, hs, hn, hk, congrArg Prod.fst he⟩
    exact ⟨x.1, touched_of_changed (.inr hw)⟩
  | nil =>
    cases removals with
    | cons i rest =>
      exact ⟨i, touched_of_changed (.inl ((mem_removals hch).mp (List.mem_cons_self ..)))⟩
    | nil => exact absurd rfl hne

/-- A file without lines that may be touched gets no edit, and an edit keeps the rest of its
file unless it leaves an empty line at the end of a file without a final newline. -/
theorem unmanage_keeps_rest_iff (h : planUnmanage env selected files = .ok plan) :
    ∀ edit ∈ plan.edits, ∀ content parsed, env.readToString edit.path = some content →
      parse edit.path content = .ok parsed →
        (∃ i, Touched (managedNames env selected files) parsed i) ∧
        edit.originalContent = content ∧
        (KeepsRest (Touched (managedNames env selected files) parsed) content edit.content ↔
          ¬ EndsBlank (managedNames env selected files) parsed) := by
  intro edit hedit content parsed hread hparse
  obtain ⟨ch, hch, hne, hcontent, htext⟩ := edit_of_path h hedit hread hparse
  obtain ⟨i, hi⟩ := touched_of_ne hch hne
  refine ⟨⟨i, hi⟩, hcontent, ?_⟩
  have hnonempty : content ≠ [] := by
    rintro rfl
    obtain rfl := Except.ok.inj ((parse_nil edit.path).symm.trans hparse)
    rcases hi with ⟨b, hb, -⟩ | ⟨s, hs, -⟩
    · exact absurd hb List.not_mem_nil
    · exact absurd hs List.not_mem_nil
  rw [htext]
  exact keepsRest_iff hparse hch hnonempty

end Plan

/-! A comment, an empty line, and a statement without a final newline. -/

section Samples

def blankContent : Text := "iface eth0 inet manual\n# uplink\n\nauto eth0".toList

def blankPlan : EditPlan Unit :=
  ⟨[⟨samplePath, blankContent, "iface eth0 inet manual\n# uplink\n".toList, ()⟩]⟩

/-- A file with a final newline keeps its rest. -/
theorem sample_keeps_rest :
    ∃ parsed, parse samplePath sampleContent = .ok parsed ∧
      KeepsRest (Touched (managedNames (sampleEnv sampleContent) ["eth0".toList] [samplePath])
        parsed) sampleContent "auto lo\niface eth0 inet manual\n".toList := by
  obtain ⟨parsed, hparse, -, hnewline⟩ := sample_parsed
  refine ⟨parsed, hparse, ?_⟩
  obtain ⟨-, -, hiff⟩ := unmanage_keeps_rest_iff sample_planned _ (List.mem_cons_self ..)
    sampleContent parsed rfl hparse
  apply hiff.mpr
  rintro ⟨hfalse, -⟩
  rw [hnewline] at hfalse
  cases hfalse

/-- The statement goes, and the empty line in front of it becomes the final newline. -/
theorem blank_not_kept :
    planUnmanage (sampleEnv blankContent) ["eth0".toList] [samplePath] = .ok blankPlan ∧
      endsWithNewline blankContent = false ∧
      ¬ ∃ touched, KeepsRest touched blankContent
        "iface eth0 inet manual\n# uplink\n".toList := by
  have hplan : planUnmanage (sampleEnv blankContent) ["eth0".toList] [samplePath] =
      .ok blankPlan := by
    delta blankPlan blankContent
    repeat rewrite [String.toList_ofList]
    decide +kernel
  have hold : endsWithNewline blankContent = false := by decide +kernel
  refine ⟨hplan, hold, ?_⟩
  rintro ⟨touched, hkeeps⟩
  have hend : endsWithNewline "iface eth0 inet manual\n# uplink\n".toList = true := by
    decide +kernel
  rw [hkeeps.newline, hold] at hend
  cases hend

end Samples

end LandscapeKit.Hostnet
