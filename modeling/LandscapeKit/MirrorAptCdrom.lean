import LandscapeKit.MirrorAptFile

/-!
Commenting `cdrom:` entries out. The mark goes in front of the entry's text, which comments out one
line: where an entry is one line, nothing else is read differently, as long as the first line left
does not make a deb822 file of it.
-/

namespace LandscapeKit.Mirror

open Text Splice

section CommentLine

variable {line : Text}

def commentLine (line : Text) : Text :=
  if isCommentedOut (parseOneLineEntry line).1 then
    line.take (line.length - (trimStart line).length) ++ ("# ".toList ++ trimStart line)
  else line

structure SameData (e e' : AptEntry) : Prop where
  debTypes : e'.debTypes = e.debTypes
  uris : e'.uris.map Uri.value = e.uris.map Uri.value
  suites : e'.suites = e.suites
  components : e'.components = e.components

theorem SameData.refl (e : AptEntry) : SameData e e := ⟨rfl, rfl, rfl, rfl⟩

theorem head?_of_isDebType {rest : Text} (h : isDebType (rest.takeWhile isNotBlank) = true) :
    ∃ w, rest = 'd' :: w := by
  have hcut : rest = rest.takeWhile isNotBlank ++ rest.dropWhile isNotBlank :=
    List.takeWhile_append_dropWhile.symm
  rw [isDebType, Bool.or_eq_true, decide_eq_true_eq, decide_eq_true_eq] at h
  rcases h with h | h
  · rw [h] at hcut
    exact ⟨_, hcut⟩
  · rw [h] at hcut
    exact ⟨_, hcut⟩

theorem exists_indent (h : isCommentedOut (parseOneLineEntry line).1 = true) :
    ∃ indent w, line = indent ++ 'd' :: w ∧ (∀ c ∈ indent, isAsciiWhitespace c = true) ∧
      isDebType (('d' :: w).takeWhile isNotBlank) = true := by
  rw [isCommentedOut, Bool.and_eq_true, Bool.and_eq_true, decide_eq_true_eq,
    parseOneLineEntry_eq] at h
  obtain ⟨⟨henabled, -⟩, htypes⟩ := h
  split at htypes
  · rename_i htype
    have henabled' : (skipComment true line).1 = true := by
      rw [if_pos htype] at henabled
      cases huri : takeUri (behindHead (skipComment true line).2) with
      | none => rwa [huri] at henabled
      | some found => rwa [huri] at henabled
    obtain ⟨w, hw⟩ := head?_of_isDebType htype
    rw [skipComment_eq] at hw henabled' htype
    dsimp only at hw henabled' htype
    refine ⟨line.takeWhile isLead, w, ?_, ?_, hw ▸ htype⟩
    · rw [← hw, List.takeWhile_append_dropWhile]
    · intro c hc
      have hlead : isLead c = true := List.mem_takeWhile_imp hc
      have hmark : c ≠ '#' := by
        rintro rfl
        rw [Bool.true_and, Bool.not_eq_true', List.contains_eq_mem, decide_eq_false_iff_not]
          at henabled'
        exact henabled' hc
      simpa [isLead, hmark] using hlead
  · exact absurd rfl htypes

theorem commentLine_eq {indent w : Text} (hline : line = indent ++ 'd' :: w)
    (hindent : ∀ c ∈ indent, isAsciiWhitespace c = true)
    (h : isCommentedOut (parseOneLineEntry line).1 = true) :
    commentLine line = indent ++ ("# ".toList ++ 'd' :: w) := by
  have hstart : trimStart line = 'd' :: w := by
    rw [hline, trimStart, List.dropWhile_append_of_pos fun c hc =>
      isWhitespace_of_ascii (hindent c hc)]
    exact List.dropWhile_cons_of_neg (by decide)
  rw [commentLine, if_pos h, hstart, hline, List.length_append, Nat.add_sub_cancel, List.take_left]

theorem parse_commentLine (line : Text) :
    SameData (parseOneLineEntry line).1 (parseOneLineEntry (commentLine line)).1 ∧
      (parseOneLineEntry (commentLine line)).1.enabled =
        ((parseOneLineEntry line).1.enabled && !isCommentedOut (parseOneLineEntry line).1) := by
  cases h : isCommentedOut (parseOneLineEntry line).1 with
  | false =>
    rw [commentLine, h]
    exact ⟨SameData.refl _, (Bool.and_true _).symm⟩
  | true =>
    obtain ⟨indent, w, hline, hindent, htype⟩ := exists_indent h
    have hlead : ∀ c ∈ indent, isLead c = true := by
      intro c hc
      rw [isLead, hindent c hc, Bool.true_or]
    have hold : (skipComment true line).2 = 'd' :: w := by
      rw [skipComment_eq, hline, List.dropWhile_append_of_pos hlead]
      rfl
    have hnew : skipComment true (indent ++ ("# ".toList ++ 'd' :: w)) = (false, 'd' :: w) := by
      rw [skipComment_eq, List.dropWhile_append_of_pos hlead, List.takeWhile_append_of_pos hlead]
      have hmark : '#' ∈ indent ++ List.takeWhile isLead ("# ".toList ++ 'd' :: w) :=
        List.mem_append_right _ (List.mem_cons_self ..)
      simp only [List.contains_eq_mem, hmark, decide_true, Bool.not_true, Bool.and_false]
      rfl
    rw [commentLine_eq hline hindent h, Bool.not_true, Bool.and_false, parseOneLineEntry_eq,
      parseOneLineEntry_eq, hold, hnew]
    dsimp only
    rw [if_pos htype, if_pos htype]
    cases takeUri (behindHead ('d' :: w)) with
    | none => exact ⟨⟨rfl, rfl, rfl, rfl⟩, rfl⟩
    | some found =>
      refine ⟨⟨rfl, ?_, rfl, rfl⟩, rfl⟩
      dsimp only
      rw [List.map_map, List.map_map]
      rfl

theorem trimStart_commentLine (h : isCommentedOut (parseOneLineEntry line).1 = true) :
    (trimStart (commentLine line)).head? = some '#' := by
  obtain ⟨indent, w, hline, hindent, -⟩ := exists_indent h
  rw [commentLine_eq hline hindent h, trimStart, List.dropWhile_append_of_pos fun c hc =>
    isWhitespace_of_ascii (hindent c hc)]
  rfl

theorem replaces_commentLine (line : Text) : Replaces '\n' line (some (commentLine line)) := by
  cases h : isCommentedOut (parseOneLineEntry line).1 with
  | false =>
    rw [commentLine, h]
    exact ⟨id, id⟩
  | true =>
    obtain ⟨indent, w, hline, hindent, -⟩ := exists_indent h
    rw [commentLine_eq hline hindent h]
    have hcount : (indent ++ ("# ".toList ++ 'd' :: w)).count '\n' = line.count '\n' := by
      rw [hline]
      simp
    have hlast : (indent ++ ("# ".toList ++ 'd' :: w)).getLast? = line.getLast? := by
      rw [hline, List.getLast?_append_of_ne_nil _ (by simp),
        List.getLast?_append_of_ne_nil _ (by simp), List.getLast?_append_of_ne_nil _ (by simp)]
    constructor
    · intro hterminated
      rw [isLine_iff] at hterminated ⊢
      rwa [hcount, hlast]
    · rintro ⟨-, hnone⟩
      refine ⟨by simp, ?_⟩
      rw [← List.count_eq_zero] at hnone ⊢
      rwa [hcount]

end CommentLine

section CommentFile

def lineEdits (line : Text) : List (Edit Char) :=
  if isCommentedOut (parseOneLineEntry line).1 then [commentEdit (parseOneLineEntry line).1] else []

theorem parseOneLineEntry_frame (line : Text) : (parseOneLineEntry line).1.raw = line ∧
    (parseOneLineEntry line).1.start = 0 ∧ (parseOneLineEntry line).1.stop = line.length := by
  rw [parseOneLineEntry_eq]
  split
  · cases takeUri (behindHead (skipComment true line).2) <;> exact ⟨rfl, rfl, rfl⟩
  · exact ⟨rfl, rfl, rfl⟩

theorem lineEdits_eq (line : Text) : lineEdits line =
    if isCommentedOut (parseOneLineEntry line).1 then
      [⟨line.length - (trimStart line).length, line.length - (trimStart line).length,
        "# ".toList⟩]
    else [] := by
  obtain ⟨hraw, hstart, -⟩ := parseOneLineEntry_frame line
  rw [lineEdits, commentEdit, hraw, hstart, Nat.zero_add]

theorem lineEdits_fits (line : Text) : Fits 0 line.length (lineEdits line) := by
  rw [lineEdits_eq]
  split
  · exact ⟨Nat.zero_le _, le_refl _, Nat.sub_le _ _⟩
  · exact Nat.zero_le _

theorem splice_lineEdits (line : Text) : splice line (lineEdits line) = commentLine line := by
  rw [lineEdits_eq, commentLine]
  split
  · have hdrop : line.drop (line.length - (trimStart line).length) = trimStart line := by
      obtain ⟨front, hfront⟩ := List.dropWhile_suffix (l := line) Hostnet.isWhitespace
      have hcut : front ++ trimStart line = line := hfront
      have hlen : line.length - (trimStart line).length = front.length := by
        rw [← congrArg List.length hcut, List.length_append, Nat.add_sub_cancel]
      rw [hlen]
      nth_rewrite 1 [← hcut]
      exact List.drop_left
    rw [splice, spliceFrom, spliceFrom, Nat.sub_zero, hdrop, List.append_assoc]
  · exact splice_nil _

theorem isCommentedOut_shift (n : ℕ) (e : AptEntry) :
    isCommentedOut (e.shift n) = isCommentedOut e := by
  rw [isCommentedOut, isCommentedOut, AptEntry.isCdrom, AptEntry.isCdrom, AptEntry.shift,
    List.any_map]
  rfl

theorem commentEdits_eq (n : ℕ) (lines : List Text) :
    ((entriesFrom .oneLine n (lines.map fun line => ⟨line, true⟩)).filter isCommentedOut).map
        commentEdit =
      laid n (lines.map fun line => (line, lineEdits line)) := by
  induction lines generalizing n with
  | nil => rfl
  | cons line lines ih =>
    have hedit : commentEdit ((parseOneLineEntry line).1.shift n) =
        (commentEdit (parseOneLineEntry line).1).shift n := by
      rw [commentEdit, commentEdit, Edit.shift, AptEntry.shift]
      simp only [Nat.add_right_comm]
    rw [List.map_cons, List.map_cons, entriesFrom, if_pos rfl, readPiece, List.filter_cons,
      isCommentedOut_shift, laid, ← ih, lineEdits]
    split
    · rw [List.map_cons, hedit]
      rfl
    · rfl

def formatOfLines (lines : List Text) : Format :=
  let body := (lines.map trimStart).find? fun line => !(line = [] || line.head? = some '#')
  if body.any fun line =>
      "Types:".toList.isPrefixOf line || "URIs:".toList.isPrefixOf line then .deb822
  else .oneLine

theorem formatOf_eq (content : Text) :
    formatOf content = formatOfLines (splitInclusive '\n' content) := rfl

def leftLines (content : Text) : List Text :=
  (splitInclusive '\n' content).filter fun line => !isCommentedOut (parseOneLineEntry line).1

theorem formatOfLines_commentLine (lines : List Text) :
    formatOfLines (lines.map commentLine) =
      formatOfLines (lines.filter fun line => !isCommentedOut (parseOneLineEntry line).1) := by
  have hfind : ((lines.map commentLine).map trimStart).find?
        (fun line => !(line = [] || line.head? = some '#')) =
      ((lines.filter fun line => !isCommentedOut (parseOneLineEntry line).1).map trimStart).find?
        (fun line => !(line = [] || line.head? = some '#')) := by
    induction lines with
    | nil => rfl
    | cons line lines ih =>
      rw [List.map_cons, List.map_cons, List.filter_cons]
      cases h : isCommentedOut (parseOneLineEntry line).1 with
      | true =>
        have hmark := trimStart_commentLine h
        rw [List.find?_cons_of_neg (by simp [hmark]), ih]
        rfl
      | false =>
        have hkept : commentLine line = line := by
          rw [commentLine, h]
          rfl
        rw [hkept, Bool.not_false, if_pos rfl, List.map_cons, List.find?_cons, List.find?_cons, ih]
  rw [formatOfLines, formatOfLines, hfind]

variable {content : Text}

theorem commentCdrom_oneLine (h : formatOf content = .oneLine) :
    commentCdrom content =
      if (parseSources content).any isCommentedOut then
        some (((splitInclusive '\n' content).map commentLine).flatten,
          (parseSources content).countP isCommentedOut)
      else none := by
  have hedits : ((parseSources content).filter isCommentedOut).map commentEdit =
      laid 0 ((splitInclusive '\n' content).map fun line => (line, lineEdits line)) := by
    rw [parseSources_eq, h]
    exact commentEdits_eq 0 _
  have hnone : ((parseSources content).filter isCommentedOut).map commentEdit = [] ↔
      ¬ (parseSources content).any isCommentedOut = true := by
    rw [List.map_eq_nil_iff, List.filter_eq_nil_iff, List.any_eq_true]
    push Not
    rfl
  rw [commentCdrom]
  by_cases hany : (parseSources content).any isCommentedOut = true
  · rw [if_neg fun hnil => hnone.mp hnil hany, if_pos hany, List.length_map,
      ← List.countP_eq_length_filter, hedits]
    -- the edits stay inside their lines
    have hfits : ∀ p ∈ (splitInclusive '\n' content).map fun line => (line, lineEdits line),
        Fits 0 p.1.length p.2 := by
      intro p hp
      obtain ⟨line, -, rfl⟩ := List.mem_map.mp hp
      exact lineEdits_fits line
    have hspliced := splice_laid hfits
    rw [List.map_map, List.map_map] at hspliced
    have hid : (splitInclusive '\n' content).map
        (Prod.fst ∘ fun line => (line, lineEdits line)) = splitInclusive '\n' content :=
      List.map_id _
    rw [hid, flatten_splitInclusive] at hspliced
    rw [hspliced]
    congr 3
    exact List.map_congr_left fun line _ => splice_lineEdits line
  · rw [if_pos (hnone.mpr hany), if_neg hany]

theorem splitInclusive_commented (content : Text) :
    splitInclusive '\n' ((splitInclusive '\n' content).map commentLine).flatten =
      (splitInclusive '\n' content).map commentLine := by
  apply splitInclusive_flatten
  refine areLines_forall₂ ?_ (areLines_splitInclusive '\n' content)
  rw [List.forall₂_map_right_iff, List.forall₂_same]
  exact fun line _ => replaces_commentLine line

theorem leftLines_areLines (content : Text) : AreLines '\n' (leftLines content) :=
  areLines_filter (areLines_splitInclusive '\n' content) _

theorem formatOf_commented (content : Text) :
    formatOf ((splitInclusive '\n' content).map commentLine).flatten =
      formatOf (leftLines content).flatten := by
  rw [formatOf_eq, formatOf_eq, splitInclusive_commented,
    splitInclusive_flatten (leftLines_areLines content), formatOfLines_commentLine]
  rfl

theorem entries_commented (n m : ℕ) (lines : List Text) :
    List.Forall₂ (fun e e' => SameData e e' ∧ e'.enabled = (e.enabled && !isCommentedOut e))
      (entriesFrom .oneLine n (lines.map fun line => ⟨line, true⟩))
      (entriesFrom .oneLine m ((lines.map commentLine).map fun line => ⟨line, true⟩)) := by
  induction lines generalizing n m with
  | nil => exact .nil
  | cons line lines ih =>
    rw [List.map_cons, List.map_cons, List.map_cons, entriesFrom, entriesFrom, if_pos rfl,
      if_pos rfl]
    apply List.Forall₂.cons
    · obtain ⟨hdata, henabled⟩ := parse_commentLine line
      have hvalues (k : ℕ) (us : List Uri) : (us.map (Uri.shift k)).map Uri.value =
          us.map Uri.value := by
        rw [List.map_map]
        rfl
      refine ⟨⟨hdata.debTypes, ?_, hdata.suites, hdata.components⟩, ?_⟩
      · show ((parseOneLineEntry (commentLine line)).1.uris.map (Uri.shift m)).map Uri.value =
          ((parseOneLineEntry line).1.uris.map (Uri.shift n)).map Uri.value
        rw [hvalues, hvalues, hdata.uris]
      · rw [readPiece, readPiece, isCommentedOut_shift]
        exact henabled
    · exact ih _ _

/-- What commenting the `cdrom:` entries out is to do: no enabled one is left, as many entries as
reported are disabled, nothing else is read differently, and deb822 files are left alone. -/
structure CommentsCdrom (content : Text) : Prop where
  deb822 : formatOf content = .deb822 → commentCdrom content = none
  disabled : ∀ out n, commentCdrom content = some (out, n) → formatOf out = .oneLine →
    ∀ e ∈ parseSources out, (e.enabled && e.isCdrom) = false
  data : ∀ out n, commentCdrom content = some (out, n) →
    List.Forall₂ (fun e e' => (e.enabled && e.isCdrom) = false → SameData e e')
      (parseSources content) (parseSources out)
  count : ∀ out n, commentCdrom content = some (out, n) →
    ((parseSources content).zip (parseSources out)).countP
      (fun p => p.1.enabled && !p.2.enabled) = n
  again : ∀ out n, commentCdrom content = some (out, n) → commentCdrom out = none

def staysOneLine (content : Text) : Bool :=
  !(parseSources content).any isCommentedOut ||
    (formatOf content = .oneLine && formatOf (leftLines content).flatten = .oneLine)

theorem isCommentedOut_oneLine (line : Text) : isCommentedOut (parseOneLineEntry line).1 =
    ((parseOneLineEntry line).1.enabled && (parseOneLineEntry line).1.isCdrom) := by
  rw [isCommentedOut, parseOneLineEntry_eq]
  split
  · cases takeUri (behindHead (skipComment true line).2) <;> simp
  · simp [AptEntry.isCdrom]

theorem mem_entriesFrom_oneLine {n : ℕ} {lines : List Text} {e : AptEntry}
    (h : e ∈ entriesFrom .oneLine n (lines.map fun line => ⟨line, true⟩)) :
    ∃ line ∈ lines, ∃ k, e = (parseOneLineEntry line).1.shift k := by
  induction lines generalizing n with
  | nil => cases h
  | cons line lines ih =>
    rw [List.map_cons, entriesFrom, if_pos rfl] at h
    rcases List.mem_cons.mp h with rfl | h
    · exact ⟨line, List.mem_cons_self .., n, rfl⟩
    · obtain ⟨l, hl, k, he⟩ := ih h
      exact ⟨l, List.mem_cons_of_mem _ hl, k, he⟩

theorem length_entriesFrom (format : Format) (n : ℕ) (ps : List Piece) :
    (entriesFrom format n ps).length = ps.countP Piece.isEntry := by
  induction ps generalizing n with
  | nil => rfl
  | cons p ps ih =>
    rw [entriesFrom]
    split
    · rename_i h
      rw [List.length_cons, ih, List.countP_cons_of_pos h]
    · rename_i h
      rw [ih, List.countP_cons_of_neg h]

theorem countP_closePiece (stanza : Text) :
    (closePiece stanza).countP Piece.isEntry = if stanza = [] then 0 else 1 := by
  rw [closePiece]
  split <;> rfl

theorem countP_stanzaPieces {lines : List Text} (h : 2 ≤ lines.length) :
    (stanzaPieces [] lines).countP Piece.isEntry < lines.length := by
  have hbound (stanza : Text) (lines : List Text) :
      (stanzaPieces stanza lines).countP Piece.isEntry ≤
        (if stanza = [] then 0 else 1) + lines.countP fun line => !isBlankLine line := by
    induction lines generalizing stanza with
    | nil => rw [stanzaPieces, countP_closePiece, List.countP_nil, Nat.add_zero]
    | cons line lines ih =>
      rw [stanzaPieces]
      cases hblank : isBlankLine line with
      | true =>
        have hrest := ih []
        rw [if_pos rfl, Nat.zero_add] at hrest
        rw [if_pos rfl, List.countP_append, countP_closePiece, List.countP_cons_of_neg (by simp),
          List.countP_cons_of_neg (by simp [hblank])]
        omega
      | false =>
        have hrest := ih (stanza ++ line)
        rw [if_neg Bool.false_ne_true, List.countP_cons_of_pos (by simp [hblank])]
        split at hrest
        · omega
        · omega
  by_cases hblank : ∀ line ∈ lines, isBlankLine line = false
  · -- without blank lines there is one stanza
    have hone : stanzaPieces [] (lines ++ []) = stanzaPieces ([] ++ lines.flatten) [] :=
      stanzaPieces_append hblank []
    rw [List.append_nil, stanzaPieces, List.nil_append] at hone
    rw [hone, countP_closePiece]
    split
    · omega
    · omega
  · push Not at hblank
    obtain ⟨line, hline, hb⟩ := hblank
    have hlt : (lines.countP fun line => !isBlankLine line) < lines.length := by
      apply lt_of_le_of_ne List.countP_le_length
      intro he
      have hall := List.countP_eq_length.mp he line hline
      exact hb (by simpa using hall)
    have hle := hbound [] lines
    rw [if_pos rfl, Nat.zero_add] at hle
    omega

theorem two_le_length (content : Text) (h : (parseSources content).any isCommentedOut = true)
    (hone : formatOf content = .oneLine) (hleft : formatOf (leftLines content).flatten = .deb822) :
    2 ≤ (splitInclusive '\n' content).length := by
  have hcommented : ∃ line ∈ splitInclusive '\n' content,
      isCommentedOut (parseOneLineEntry line).1 = true := by
    obtain ⟨e, he, hout⟩ := List.any_eq_true.mp h
    rw [parseSources_eq, hone] at he
    obtain ⟨line, hline, k, rfl⟩ := mem_entriesFrom_oneLine he
    rw [isCommentedOut_shift] at hout
    exact ⟨line, hline, hout⟩
  have hkept : leftLines content ≠ [] := by
    intro hnil
    rw [hnil] at hleft
    cases hleft
  obtain ⟨line, hline, hout⟩ := hcommented
  obtain ⟨kept, hkept⟩ := List.exists_mem_of_ne_nil _ hkept
  obtain ⟨hmem, hnot⟩ := List.mem_filter.mp hkept
  have hne : kept ≠ line := by
    rintro rfl
    rw [hout] at hnot
    cases hnot
  match hlines : splitInclusive '\n' content with
  | [] => rw [hlines] at hline; cases hline
  | [l] =>
    rw [hlines, List.mem_singleton] at hline hmem
    exact absurd (hmem.trans hline.symm) hne
  | _ :: _ :: _ => simp

theorem commentCdrom_eq_none (content : Text) :
    commentCdrom content = none ↔ (parseSources content).any isCommentedOut = false := by
  rw [commentCdrom, Bool.eq_false_iff]
  have hnil : ((parseSources content).filter isCommentedOut).map commentEdit = [] ↔
      (parseSources content).any isCommentedOut ≠ true := by
    rw [List.map_eq_nil_iff, List.filter_eq_nil_iff, ne_eq, List.any_eq_true]
    push Not
    rfl
  rw [← hnil]
  split
  · rename_i h
    simp [h]
  · rename_i h
    simp [h]

theorem countP_zip {es es' : List AptEntry}
    (h : List.Forall₂ (fun e e' => SameData e e' ∧ e'.enabled = (e.enabled && !isCommentedOut e))
      es es') :
    (es.zip es').countP (fun p => p.1.enabled && !p.2.enabled) = es.countP isCommentedOut := by
  induction h with
  | nil => rfl
  | @cons e e' es es' he _ ih =>
    have hsame : (e.enabled && !e'.enabled) = isCommentedOut e := by
      rw [he.2, isCommentedOut]
      cases e.enabled <;> simp
    rw [List.zip_cons_cons, List.countP_cons, List.countP_cons, ih, hsame]

theorem exists_of_forall₂ {A B : Type} {R : A → B → Prop} {as : List A} {bs : List B}
    (h : List.Forall₂ R as bs) {b : B} (hb : b ∈ bs) : ∃ a ∈ as, R a b := by
  induction h with
  | nil => cases hb
  | cons hab _ ih =>
    rcases List.mem_cons.mp hb with rfl | hb
    · exact ⟨_, List.mem_cons_self .., hab⟩
    · obtain ⟨a, ha, hr⟩ := ih hb
      exact ⟨a, List.mem_cons_of_mem _ ha, hr⟩

theorem isCdrom_eq {e e' : AptEntry} (h : SameData e e') : e'.isCdrom = e.isCdrom := by
  have hvalues (e : AptEntry) : e.isCdrom = (e.uris.map Uri.value).any isCdromUri := by
    rw [AptEntry.isCdrom, List.any_map]
    rfl
  rw [hvalues, hvalues, h.uris]

theorem commentsCdrom_of_staysOneLine (h : staysOneLine content = true) :
    CommentsCdrom content := by
  rw [staysOneLine, Bool.or_eq_true, Bool.not_eq_true', Bool.and_eq_true, decide_eq_true_eq,
    decide_eq_true_eq] at h
  rcases h with hnone | ⟨hone, hleft⟩
  · rw [← commentCdrom_eq_none] at hnone
    constructor
    · exact fun _ => hnone
    all_goals
      intro out n hout
      rw [hnone] at hout
      cases hout
  · -- both files are read line by line
    have hentries := entries_commented 0 0 (splitInclusive '\n' content)
    have hold : parseSources content =
        entriesFrom .oneLine 0 ((splitInclusive '\n' content).map fun line => ⟨line, true⟩) := by
      rw [parseSources_eq, hone]
      rfl
    have hnew : parseSources ((splitInclusive '\n' content).map commentLine).flatten =
        entriesFrom .oneLine 0
          (((splitInclusive '\n' content).map commentLine).map fun line => ⟨line, true⟩) := by
      rw [parseSources_eq, formatOf_commented, hleft, piecesOf, splitInclusive_commented]
    rw [← hold, ← hnew] at hentries
    have hresult (out : Text) (n : ℕ) (hout : commentCdrom content = some (out, n)) :
        out = ((splitInclusive '\n' content).map commentLine).flatten ∧
          n = (parseSources content).countP isCommentedOut := by
      rw [commentCdrom_oneLine hone] at hout
      split at hout
      · cases hout
        exact ⟨rfl, rfl⟩
      · cases hout
    have hdisabled : ∀ e' ∈ parseSources ((splitInclusive '\n' content).map commentLine).flatten,
        (e'.enabled && e'.isCdrom) = false := by
      intro e' he'
      obtain ⟨e, he, hdata, henabled⟩ := exists_of_forall₂ hentries he'
      rw [hold] at he
      have hcdrom : isCommentedOut e = (e.enabled && e.isCdrom) := by
        obtain ⟨line, -, k, rfl⟩ := mem_entriesFrom_oneLine he
        rw [isCommentedOut_shift, isCommentedOut_oneLine, AptEntry.isCdrom, AptEntry.isCdrom,
          AptEntry.shift, List.any_map]
        rfl
      rw [henabled, isCdrom_eq hdata, hcdrom]
      cases e.enabled <;> cases e.isCdrom <;> rfl
    constructor
    · intro hdeb
      rw [hone] at hdeb
      cases hdeb
    · intro out n hout _
      rw [(hresult out n hout).1]
      exact hdisabled
    · intro out n hout
      rw [(hresult out n hout).1]
      exact hentries.imp fun e e' he _ => he.1
    · intro out n hout
      rw [(hresult out n hout).1, (hresult out n hout).2]
      exact countP_zip hentries
    · intro out n hout
      rw [(hresult out n hout).1, commentCdrom_eq_none, List.any_eq_false]
      intro e he hcommented
      have hno := hdisabled e he
      rw [isCommentedOut, Bool.and_eq_true, hno] at hcommented
      cases hcommented.1

/-- Commenting `cdrom:` entries out does what it is to do, unless the mark goes into a deb822
stanza or what is left of a one-line file looks like deb822. -/
theorem commentsCdrom_iff (content : Text) :
    CommentsCdrom content ↔ staysOneLine content = true := by
  refine ⟨fun h => ?_, commentsCdrom_of_staysOneLine⟩
  cases hany : (parseSources content).any isCommentedOut with
  | false =>
    rw [staysOneLine, hany]
    rfl
  | true =>
    have hsome : commentCdrom content ≠ none := by
      rw [ne_eq, commentCdrom_eq_none, hany]
      exact Bool.noConfusion
    have hone : formatOf content = .oneLine := by
      cases hformat : formatOf content with
      | oneLine => rfl
      | deb822 => exact absurd (h.deb822 hformat) hsome
    have hleft : formatOf (leftLines content).flatten = .oneLine := by
      cases hformat : formatOf (leftLines content).flatten with
      | oneLine => rfl
      | deb822 =>
        -- the entries of the result are stanzas, and these are fewer than the lines
        have hout := commentCdrom_oneLine hone
        rw [if_pos hany] at hout
        have hlen := (h.data _ _ hout).length_eq
        have htwo := two_le_length content hany hone hformat
        rw [← List.length_map (f := commentLine)] at htwo
        have hfewer := countP_stanzaPieces htwo
        rw [parseSources_eq, parseSources_eq, formatOf_commented, hformat, hone, piecesOf, piecesOf,
          splitInclusive_commented, length_entriesFrom, length_entriesFrom] at hlen
        rw [List.length_map] at hfewer
        have hlines : ((splitInclusive '\n' content).map fun line => (⟨line, true⟩ : Piece)).countP
            Piece.isEntry = (splitInclusive '\n' content).length := by
          rw [List.countP_map]
          exact List.countP_eq_length.mpr fun _ _ => rfl
        omega
    rw [staysOneLine, hone, hleft]
    simp

def cdromStanza : Text := "Types: deb\nURIs: cdrom:[DVD]/\nSuites: trixie\n".toList

theorem commentCdrom_cdromStanza : commentCdrom cdromStanza =
    some ("# Types: deb\nURIs: cdrom:[DVD]/\nSuites: trixie\n".toList, 1) := by
  decide +kernel

theorem stanza_commented : ¬ ∀ content, CommentsCdrom content := by
  intro h
  have hnone := (h cdromStanza).deb822 (by decide +kernel)
  rw [commentCdrom_cdromStanza] at hnone
  cases hnone

end CommentFile

end LandscapeKit.Mirror
