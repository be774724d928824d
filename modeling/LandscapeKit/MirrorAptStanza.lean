import LandscapeKit.MirrorAptParts

/-!
Stanzas of deb822 files: only the lines of `URIs` fields hold URIs. With other URIs in their
places the lines are read as before, and so is the stanza.
-/

namespace LandscapeKit.Mirror

open Text Splice

section Trim

theorem trimStart_head? {text : Text} {c : Char} (h : (trimStart text).head? = some c) :
    Hostnet.isWhitespace c = false := by
  have hhead := List.head?_dropWhile_not Hostnet.isWhitespace text
  rw [trimStart] at h
  rw [h] at hhead
  simpa using hhead

theorem trim_head? (text : Text) : (trim text).head? = (trimStart text).head? := by
  rw [trim]
  cases hstart : trimStart text with
  | nil => rfl
  | cons c rest =>
    have hc : Hostnet.isWhitespace c = false := trimStart_head? (by rw [hstart]; rfl)
    rw [List.reverse_cons, List.dropWhile_append]
    split
    · simp [hc]
    · simp

theorem trim_eq_nil {text : Text} : trim text = [] ↔ trimStart text = [] := by
  rw [← List.head?_eq_none_iff, trim_head?, List.head?_eq_none_iff]

theorem trimStart_append {a : Text} (h : trimStart a ≠ []) (b : Text) :
    trimStart (a ++ b) = trimStart a ++ b := by
  rw [trimStart] at h ⊢
  rw [List.dropWhile_append]
  split
  · rename_i hempty
    exact absurd (List.isEmpty_iff.mp hempty) h
  · rfl

theorem isBlankLine_iff {line : Text} : isBlankLine line = true ↔ trimStart line = [] := by
  rw [isBlankLine, decide_eq_true_eq, trim_eq_nil]

end Trim

section Lines

structure UrisLine (line name : Text) (gs : List (Text × Text)) (tail : Text) : Prop where
  split : splitOnce ":".toList line = some (name, joined gs tail)
  name : trim name = "URIs".toList
  spaced : Spaced gs tail

def urisParts (name : Text) (gs : List (Text × Text)) (tail : Text) : List Part :=
  ⟨false, name ++ ":".toList⟩ :: tokenParts (fun _ => true) gs tail

def isUrisLine (line : Text) : Bool :=
  !(isIgnored line) && (fieldOf line).any fun f => f.1 = "URIs".toList

theorem fieldOf_eq {line name value : Text} (h : splitOnce ":".toList line = some (name, value)) :
    fieldOf line = if trim name = [] || (trim name).any Hostnet.isWhitespace then none
      else some (trim name, value) := by
  rw [fieldOf, h]

theorem UrisLine.text {line name tail : Text} {gs : List (Text × Text)}
    (h : UrisLine line name gs tail) : line = partsText (urisParts name gs tail) := by
  rw [urisParts, partsText_cons, partsText_tokenParts]
  exact splitOnce_spec h.split

theorem UrisLine.trimStart_name {line name tail : Text} {gs : List (Text × Text)}
    (h : UrisLine line name gs tail) : (trimStart name).head? = some 'U' := by
  rw [← trim_head?, h.name]
  rfl

theorem UrisLine.head? {line name tail : Text} {gs : List (Text × Text)}
    (h : UrisLine line name gs tail) : (trimStart line).head? = some 'U' := by
  have hname := h.trimStart_name
  have hne : trimStart name ≠ [] := by
    intro hnil
    rw [hnil] at hname
    cases hname
  rw [splitOnce_spec h.split, List.append_assoc, trimStart_append hne, List.head?_append, hname]
  rfl

theorem UrisLine.not_ignored {line name tail : Text} {gs : List (Text × Text)}
    (h : UrisLine line name gs tail) : isIgnored line = false := by
  have hhead := h.head?
  have hne : trim line ≠ [] := by
    intro hnil
    rw [trim_eq_nil.mp hnil] at hhead
    cases hhead
  rw [isIgnored, trim_head?, hhead]
  simp [hne]

theorem UrisLine.field {line name tail : Text} {gs : List (Text × Text)}
    (h : UrisLine line name gs tail) : fieldOf line = some ("URIs".toList, joined gs tail) := by
  rw [fieldOf_eq h.split, h.name]
  rfl

theorem UrisLine.replace {line name tail : Text} {gs gs' : List (Text × Text)}
    (h : UrisLine line name gs tail) (hspaced : Spaced gs' tail) :
    UrisLine (partsText (urisParts name gs' tail)) name gs' tail := by
  refine ⟨?_, h.name, hspaced⟩
  rw [urisParts, partsText_cons, partsText_tokenParts]
  exact splitOnce_append h.split _

theorem exists_urisLine {line : Text} (h : isUrisLine line = true) :
    ∃ name gs tail, UrisLine line name gs tail := by
  rw [isUrisLine, Bool.and_eq_true, Option.any_eq_true] at h
  obtain ⟨-, field, hfield, hname⟩ := h
  rw [fieldOf] at hfield
  cases hsplit : splitOnce ":".toList line with
  | none =>
    rw [hsplit] at hfield
    cases hfield
  | some found =>
    obtain ⟨name, value⟩ := found
    rw [hsplit] at hfield
    obtain ⟨gs, tail, hvalue, hspaced⟩ := exists_spaced value
    obtain ⟨-, hfield⟩ := Option.ite_none_left_eq_some.mp hfield
    rw [← Option.some.inj hfield, decide_eq_true_eq] at hname
    refine ⟨name, gs, tail, ?_, hname, hspaced⟩
    rw [← hvalue]
    exact hsplit

end Lines

section Fold

/-- The lines of two stanzas, and their parts, which differ in URIs only. -/
inductive StanzaLine : Text → Text → List Part → List Part → Prop
  | same {line : Text} (h : isUrisLine line = false) :
    StanzaLine line line [⟨false, line⟩] [⟨false, line⟩]
  | uris {line name tail : Text} {gs gs' : List (Text × Text)} (h : UrisLine line name gs tail)
    (hspaced : Spaced gs' tail) (hgaps : gs'.map Prod.fst = gs.map Prod.fst) :
    StanzaLine line (partsText (urisParts name gs' tail)) (urisParts name gs tail)
      (urisParts name gs' tail)

theorem StanzaLine.text {line line' : Text} {ps ps' : List Part}
    (h : StanzaLine line line' ps ps') : line = partsText ps ∧ line' = partsText ps' := by
  cases h with
  | same _ => simp
  | uris h _ _ => exact ⟨h.text, rfl⟩

/-- What two readings have in common when their texts differ in URIs only. -/
structure Agree (s s' : Stanza) (ps ps' : List Part) : Prop where
  debTypes : s'.entry.debTypes = s.entry.debTypes
  suites : s'.entry.suites = s.entry.suites
  components : s'.entry.components = s.entry.components
  uris : s.entry.uris = urisFrom 0 ps
  uris' : s'.entry.uris = urisFrom 0 ps'
  offset : s.offset = (partsText ps).length
  offset' : s'.offset = (partsText ps').length

theorem readLine_offset (s : Stanza) (line : Text) :
    (readLine s line).offset = s.offset + line.length := by
  rw [readLine]
  split
  · rfl
  · cases fieldOf line <;> rfl

theorem readLine_uris_same (s : Stanza) {line : Text} (h : isUrisLine line = false) :
    (readLine s line).entry.uris = s.entry.uris := by
  rw [readLine]
  split
  · rfl
  · rename_i hignored
    cases hfield : fieldOf line with
    | none => rfl
    | some field =>
      obtain ⟨name, value⟩ := field
      have hname : name ≠ "URIs".toList := by
        intro hname
        rw [isUrisLine, hfield] at h
        simp [hignored, hname] at h
      dsimp only
      rw [readField]
      split
      · rfl
      · split
        · rfl
        · split <;> rfl

theorem readLine_same {s s' : Stanza} {ps ps' : List Part} (line : Text) (h : Agree s s' ps ps') :
    (readLine s' line).entry.debTypes = (readLine s line).entry.debTypes ∧
      (readLine s' line).entry.suites = (readLine s line).entry.suites ∧
      (readLine s' line).entry.components = (readLine s line).entry.components := by
  rw [readLine, readLine]
  split
  · exact ⟨h.debTypes, h.suites, h.components⟩
  · cases fieldOf line with
    | none => exact ⟨h.debTypes, h.suites, h.components⟩
    | some field =>
      dsimp only
      rw [readField, readField]
      split
      · exact ⟨rfl, h.suites, h.components⟩
      · split
        · exact ⟨h.debTypes, h.suites, h.components⟩
        · split
          · exact ⟨h.debTypes, rfl, h.components⟩
          · split
            · exact ⟨h.debTypes, h.suites, rfl⟩
            · exact ⟨h.debTypes, h.suites, h.components⟩

theorem readLine_urisLine {s : Stanza} {line name tail : Text} {gs : List (Text × Text)}
    (h : UrisLine line name gs tail) :
    (readLine s line).entry =
      { s.entry with uris := s.entry.uris ++ urisFrom s.offset (urisParts name gs tail) } := by
  have hlen : line.length = (name ++ ":".toList).length + (joined gs tail).length := by
    rw [← List.length_append, ← splitOnce_spec h.split]
  have htokens : tokens (joined gs tail) = listed gs tail := tokens_joined h.spaced
  have huris : urisFrom s.offset (urisParts name gs tail) =
      (listed gs tail).map fun t => (uriAt line t).shift s.offset := by
    have hmarked : urisFrom (name ++ ":".toList).length (tokenParts (fun _ => true) gs tail) = _ :=
      urisFrom_tokenParts hlen
    rw [List.filter_true] at hmarked
    have hshift := urisFrom_shift (name ++ ":".toList).length s.offset
      (tokenParts (fun _ => true) gs tail)
    rw [hmarked, List.map_map] at hshift
    rw [urisParts, urisFrom, Nat.add_comm s.offset]
    exact hshift.symm
  have hnot : ("URIs".toList = "Types".toList) = False := by decide
  rw [readLine, h.not_ignored, h.field, huris]
  simp only [Bool.false_eq_true, if_false, readField, hnot, if_true, htokens]

theorem agree_step {s s' : Stanza} {ps ps' qs qs' : List Part} {line line' : Text}
    (h : Agree s s' ps ps') (hline : StanzaLine line line' qs qs') :
    Agree (readLine s line) (readLine s' line') (ps ++ qs) (ps' ++ qs') := by
  have htext := hline.text
  have hoffset : (readLine s line).offset = (partsText (ps ++ qs)).length := by
    rw [readLine_offset, h.offset, partsText_append, List.length_append, ← htext.1]
  have hoffset' : (readLine s' line').offset = (partsText (ps' ++ qs')).length := by
    rw [readLine_offset, h.offset', partsText_append, List.length_append, ← htext.2]
  cases hline with
  | same hno =>
    obtain ⟨h1, h2, h3⟩ := readLine_same line h
    refine ⟨h1, h2, h3, ?_, ?_, hoffset, hoffset'⟩
    · rw [readLine_uris_same s hno, urisFrom_append, h.uris]
      exact (List.append_nil _).symm
    · rw [readLine_uris_same s' hno, urisFrom_append, h.uris']
      exact (List.append_nil _).symm
  | uris huris hspaced _ =>
    have hold := readLine_urisLine (s := s) huris
    have hnew := readLine_urisLine (s := s') (huris.replace hspaced)
    refine ⟨?_, ?_, ?_, ?_, ?_, hoffset, hoffset'⟩
    · rw [hold, hnew]
      exact h.debTypes
    · rw [hold, hnew]
      exact h.suites
    · rw [hold, hnew]
      exact h.components
    · rw [hold, urisFrom_append, ← h.uris, Nat.zero_add, ← h.offset]
    · rw [hnew, urisFrom_append, ← h.uris', Nat.zero_add, ← h.offset']

/-- Stanzas line by line. -/
inductive StanzaSwap : List Text → List Text → List Part → List Part → Prop
  | nil : StanzaSwap [] [] [] []
  | cons {line line' : Text} {lines lines' : List Text} {qs qs' ps ps' : List Part}
    (h : StanzaLine line line' qs qs') (hs : StanzaSwap lines lines' ps ps') :
    StanzaSwap (line :: lines) (line' :: lines') (qs ++ ps) (qs' ++ ps')

theorem StanzaSwap.text {lines lines' : List Text} {ps ps' : List Part}
    (h : StanzaSwap lines lines' ps ps') :
    lines.flatten = partsText ps ∧ lines'.flatten = partsText ps' := by
  induction h with
  | nil => exact ⟨rfl, rfl⟩
  | cons hline _ ih =>
    rw [List.flatten_cons, List.flatten_cons, partsText_append, partsText_append, ih.1, ih.2]
    exact ⟨by rw [hline.text.1], by rw [hline.text.2]⟩

theorem agree_foldl {lines lines' : List Text} {qs qs' : List Part}
    (h : StanzaSwap lines lines' qs qs') {s s' : Stanza} {ps ps' : List Part}
    (hs : Agree s s' ps ps') :
    Agree (lines.foldl readLine s) (lines'.foldl readLine s') (ps ++ qs) (ps' ++ qs') := by
  induction h generalizing s s' ps ps' with
  | nil => rwa [List.append_nil, List.append_nil]
  | cons hline _ ih =>
    rw [List.foldl_cons, List.foldl_cons, ← List.append_assoc, ← List.append_assoc]
    exact ih (agree_step hs hline)

theorem readLine_frame (s : Stanza) (line : Text) :
    (readLine s line).entry.raw = s.entry.raw ∧ (readLine s line).entry.start = s.entry.start ∧
      (readLine s line).entry.stop = s.entry.stop ∧
      (readLine s line).entry.enabled = s.entry.enabled := by
  have hfield (entry : AptEntry) (hasUris : Bool) (offset : ℕ) (name value : Text) :
      (readField entry hasUris offset line name value).1.raw = entry.raw ∧
        (readField entry hasUris offset line name value).1.start = entry.start ∧
        (readField entry hasUris offset line name value).1.stop = entry.stop ∧
        (readField entry hasUris offset line name value).1.enabled = entry.enabled := by
    rw [readField]
    split
    · exact ⟨rfl, rfl, rfl, rfl⟩
    · split
      · exact ⟨rfl, rfl, rfl, rfl⟩
      · split
        · exact ⟨rfl, rfl, rfl, rfl⟩
        · split <;> exact ⟨rfl, rfl, rfl, rfl⟩
  rw [readLine]
  split
  · exact ⟨rfl, rfl, rfl, rfl⟩
  · cases fieldOf line with
    | none => exact ⟨rfl, rfl, rfl, rfl⟩
    | some field => exact hfield ..

theorem foldl_frame (lines : List Text) (s : Stanza) :
    (lines.foldl readLine s).entry.raw = s.entry.raw ∧
      (lines.foldl readLine s).entry.start = s.entry.start ∧
      (lines.foldl readLine s).entry.stop = s.entry.stop ∧
      (lines.foldl readLine s).entry.enabled = s.entry.enabled := by
  induction lines generalizing s with
  | nil => exact ⟨rfl, rfl, rfl, rfl⟩
  | cons line lines ih =>
    obtain ⟨h1, h2, h3, h4⟩ := ih (readLine s line)
    obtain ⟨f1, f2, f3, f4⟩ := readLine_frame s line
    exact ⟨h1.trans f1, h2.trans f2, h3.trans f3, h4.trans f4⟩

theorem parseDeb822Stanza_frame (stanza : Text) :
    (parseDeb822Stanza stanza).1.raw = stanza ∧ (parseDeb822Stanza stanza).1.start = 0 ∧
      (parseDeb822Stanza stanza).1.stop = stanza.length ∧
      (parseDeb822Stanza stanza).1.enabled = true :=
  foldl_frame (splitInclusive '\n' stanza) (emptyStanza stanza)

theorem agree_stanza {stanza stanza' : Text} {ps ps' : List Part}
    (h : StanzaSwap (splitInclusive '\n' stanza) (splitInclusive '\n' stanza') ps ps') :
    (parseDeb822Stanza stanza').1.debTypes = (parseDeb822Stanza stanza).1.debTypes ∧
      (parseDeb822Stanza stanza').1.suites = (parseDeb822Stanza stanza).1.suites ∧
      (parseDeb822Stanza stanza').1.components = (parseDeb822Stanza stanza).1.components ∧
      (parseDeb822Stanza stanza).1.uris = urisFrom 0 ps ∧
      (parseDeb822Stanza stanza').1.uris = urisFrom 0 ps' := by
  have hempty : Agree (emptyStanza stanza) (emptyStanza stanza') [] [] :=
    ⟨rfl, rfl, rfl, rfl, rfl, rfl, rfl⟩
  have hfold := agree_foldl h hempty
  rw [List.nil_append, List.nil_append] at hfold
  exact ⟨hfold.debTypes, hfold.suites, hfold.components, hfold.uris, hfold.uris'⟩

end Fold

end LandscapeKit.Mirror
