import LandscapeKit.MirrorAptFile

/-!
What the rewriting does to a file, piece by piece: an entry that is a duplicate goes as a whole,
and of the others the URIs are replaced, each in its place.
-/

namespace LandscapeKit.Mirror

open Text Splice

section Reads

variable {format : Format} {text : Text} {pairs : List (Text × Text)}

structure Reads (format : Format) (piece : Text) (parts : List Part) : Prop where
  text : partsText parts = piece
  uris : (readPiece format piece).uris = urisFrom 0 parts
  ne_nil : ∀ p ∈ parts, p.isUri = true → p.text ≠ []

theorem readPiece_frame (format : Format) (text : Text) :
    (readPiece format text).raw = text ∧ (readPiece format text).start = 0 ∧
      (readPiece format text).stop = text.length := by
  cases format with
  | oneLine =>
    rw [readPiece, parseOneLineEntry_eq]
    split
    · cases takeUri (behindHead (skipComment true text).2) <;> exact ⟨rfl, rfl, rfl⟩
    · exact ⟨rfl, rfl, rfl⟩
  | deb822 =>
    obtain ⟨h1, h2, h3, -⟩ := parseDeb822Stanza_frame text
    exact ⟨h1, h2, h3⟩

theorem tokenParts_uri {mark : Text → Bool} {gs : List (Text × Text)} {tail : Text}
    (h : Spaced gs tail) : ∀ p ∈ tokenParts mark gs tail, p.isUri = true →
      p.text ≠ [] ∧ ∀ c ∈ p.text, isTokenChar c = true := by
  induction gs with
  | nil =>
    intro p hp huri
    rw [List.mem_singleton.mp hp] at huri
    cases huri
  | cons g gs ih =>
    intro p hp huri
    rw [tokenParts_cons] at hp
    rcases List.mem_cons.mp hp with rfl | hp
    · cases huri
    · rcases List.mem_cons.mp hp with rfl | hp
      · exact ⟨h.2.1, h.2.2.1⟩
      · exact ih h.2.2.2.2 p hp huri

theorem LineCut.ne_nil_parts {k : LineCut} (h : k.Valid) :
    ∀ p ∈ k.parts, p.isUri = true → p.text ≠ [] := by
  intro p hp huri
  rcases List.mem_cons.mp hp with rfl | hp
  · cases huri
  · rcases List.mem_cons.mp hp with rfl | hp
    · exact h.ne_nil
    · exact (tokenParts_uri h.spaced p hp huri).1

theorem newline_notMem_token {t : Text} (h : ∀ c ∈ t, isTokenChar c = true) : '\n' ∉ t := by
  intro hmem
  cases h '\n' hmem

theorem behindCdrom_last {depth : ℕ} {text behind : Text}
    (h : behindCdrom depth text = some behind) :
    ∃ front c, text = front ++ c :: behind ∧ c ≠ '\n' := by
  induction text generalizing depth with
  | nil => cases h
  | cons c text ih =>
    have hlater {d : ℕ} (h : behindCdrom d text = some behind) :
        ∃ front e, c :: text = front ++ e :: behind ∧ e ≠ '\n' := by
      obtain ⟨front, e, rfl, he⟩ := ih h
      exact ⟨c :: front, e, rfl, he⟩
    rw [behindCdrom] at h
    split at h
    · exact hlater h
    · split at h
      · rename_i hclose
        split at h
        · cases h
          split
          · rename_i hslash
            obtain ⟨rest, rfl⟩ := List.head?_eq_some_iff.mp hslash
            exact ⟨[c], '/', rfl, by decide⟩
          · exact ⟨[], c, rfl, by rw [hclose.1]; decide⟩
        · exact hlater h
      · exact hlater h

theorem takeUri_last {rest uri behind : Text} (h : takeUri rest = some (uri, behind)) :
    uri.getLast? ≠ some '\n' := by
  obtain ⟨hrest, hne⟩ := takeUri_spec h
  rw [takeUri] at h
  split at h
  · obtain ⟨b, hb, he⟩ := Option.map_eq_some_iff.mp h
    have hsame : b = behind := congrArg Prod.snd he
    subst hsame
    obtain ⟨front, c, htext, hc⟩ := behindCdrom_last hb
    have hcut : rest.take 6 ++ (front ++ c :: b) = uri ++ b := by
      rw [← htext, List.take_append_drop, hrest]
    have huri : rest.take 6 ++ front ++ [c] = uri := by
      apply List.append_cancel_right
      rw [← hcut]
      simp only [List.append_assoc, List.singleton_append]
    rw [← huri, List.getLast?_concat]
    exact fun he => hc (Option.some.inj he)
  · obtain ⟨-, -, hchars, -⟩ := takeToken_spec h
    exact fun hlast => newline_notMem_token hchars (List.mem_of_getLast? hlast)

theorem LineCut.Valid.newline_notMem {k : LineCut} (h : k.Valid)
    (hline : IsLine '\n' k.line ∨ IsOpenLine '\n' k.line) :
    ∀ p ∈ k.parts, p.isUri = true → '\n' ∉ p.text := by
  intro p hp huri
  rcases List.mem_cons.mp hp with rfl | hp
  · cases huri
  · rcases List.mem_cons.mp hp with rfl | hp
    · intro hmem
      have htext : k.line = k.lead ++ (k.uri ++ k.behind) := rfl
      rcases hline with hline | hopen
      · -- the only line end is the last character
        rw [isLine_iff, htext] at hline
        obtain ⟨hlast, hcount⟩ := hline
        rw [List.count_append, List.count_append] at hcount
        have hin : 0 < k.uri.count '\n' := List.count_pos_iff.mpr hmem
        rw [List.getLast?_append_of_ne_nil _ (by simp [h.ne_nil])] at hlast
        cases hbehind : k.behind with
        | nil =>
          rw [hbehind, List.append_nil] at hlast
          exact takeUri_last h.uri hlast
        | cons c w =>
          rw [hbehind, List.getLast?_append_of_ne_nil _ (List.cons_ne_nil _ _)] at hlast
          have hlater : 0 < k.behind.count '\n' := by
            rw [hbehind]
            exact List.count_pos_iff.mpr (List.mem_of_getLast? hlast)
          omega
      · apply hopen.2
        rw [htext]
        exact List.mem_append_right _ (List.mem_append_left _ hmem)
    · exact newline_notMem_token (tokenParts_uri h.spaced p hp huri).2

theorem exists_stanzaParts (lines : List Text) :
    ∃ ps, StanzaSwap lines lines ps ps ∧
      ∀ p ∈ ps, p.isUri = true → p.text ≠ [] ∧ '\n' ∉ p.text := by
  induction lines with
  | nil => exact ⟨[], .nil, fun p hp => absurd hp List.not_mem_nil⟩
  | cons line lines ih =>
    obtain ⟨ps, hps, hne⟩ := ih
    cases huris : isUrisLine line with
    | false =>
      refine ⟨_, .cons (.same huris) hps, ?_⟩
      intro p hp huri
      rcases List.mem_append.mp hp with hp | hp
      · rw [List.mem_singleton.mp hp] at huri
        cases huri
      · exact hne p hp huri
    | true =>
      obtain ⟨name, gs, tail, h⟩ := exists_urisLine huris
      have hline := StanzaLine.uris h h.spaced rfl
      rw [← h.text] at hline
      refine ⟨_, .cons hline hps, ?_⟩
      intro p hp huri
      rcases List.mem_append.mp hp with hp | hp
      · rcases List.mem_cons.mp hp with rfl | hp
        · cases huri
        · obtain ⟨hne', hchars⟩ := tokenParts_uri h.spaced p hp huri
          exact ⟨hne', newline_notMem_token hchars⟩
      · exact hne p hp huri

theorem exists_reads (format : Format) (text : Text) : ∃ parts, Reads format text parts := by
  cases format with
  | oneLine =>
    rcases exists_lineCut text with ⟨k, hk, rfl⟩ | hnone
    · refine ⟨k.parts, k.partsText, ?_, LineCut.ne_nil_parts hk⟩
      rw [readPiece, LineCut.parse hk]
      rfl
    · refine ⟨[⟨false, text⟩], by simp, hnone, ?_⟩
      intro p hp huri
      rw [List.mem_singleton.mp hp] at huri
      cases huri
  | deb822 =>
    obtain ⟨ps, hps, hne⟩ := exists_stanzaParts (splitInclusive '\n' text)
    obtain ⟨-, -, -, huris, -⟩ := agree_stanza hps
    have htext := hps.text.1
    rw [flatten_splitInclusive] at htext
    exact ⟨ps, htext.symm, huris, fun p hp huri => (hne p hp huri).1⟩

end Reads

section Edits

variable {pairs : List (Text × Text)} {dup : AptEntry → Bool}

def entryEdits (pairs : List (Text × Text)) (dup : AptEntry → Bool) (e : AptEntry) :
    List (Edit Char) :=
  if dup e then [⟨e.start, e.stop, []⟩] else uriEdits pairs e

def pieceEdits (pairs : List (Text × Text)) (dup : AptEntry → Bool) (format : Format) :
    ℕ → List Piece → List (Text × List (Edit Char))
  | _, [] => []
  | n, p :: ps =>
    (p.text,
      if p.isEntry then
        if dup ((readPiece format p.text).shift n) then [⟨0, p.text.length, []⟩]
        else uriEdits pairs (readPiece format p.text)
      else []) :: pieceEdits pairs dup format (n + p.text.length) ps

theorem uriEdits_shift (pairs : List (Text × Text)) (n : ℕ) (e : AptEntry) :
    uriEdits pairs (e.shift n) = (uriEdits pairs e).map (Edit.shift n) := by
  rw [uriEdits, uriEdits, AptEntry.shift, List.filterMap_map, List.map_filterMap]
  congr 1
  ext u : 1
  rw [Function.comp_apply, Uri.shift, Option.map_map]
  rfl

theorem laid_pieceEdits (format : Format) (n : ℕ) (ps : List Piece) :
    laid n (pieceEdits pairs dup format n ps) =
      (entriesFrom format n ps).flatMap (entryEdits pairs dup) := by
  induction ps generalizing n with
  | nil => rfl
  | cons p ps ih =>
    obtain ⟨-, hstart, hstop⟩ := readPiece_frame format p.text
    rw [pieceEdits, laid, entriesFrom, ih]
    split
    · rw [List.flatMap_cons, entryEdits, uriEdits_shift]
      congr 1
      split
      · rw [AptEntry.shift, hstart, hstop]
        rfl
      · rfl
    · rfl

theorem map_fst_pieceEdits (format : Format) (n : ℕ) (ps : List Piece) :
    (pieceEdits pairs dup format n ps).map Prod.fst = ps.map Piece.text := by
  induction ps generalizing n with
  | nil => rfl
  | cons p ps ih => rw [pieceEdits, List.map_cons, List.map_cons, ih]

theorem Reads.fits {format : Format} {text : Text} {parts : List Part}
    (h : Reads format text parts) :
    Fits 0 text.length (uriEdits pairs (readPiece format text)) := by
  have hfits := uriEdits_fits pairs 0 parts
  rw [Nat.zero_add, h.text, ← h.uris] at hfits
  exact hfits

theorem pieceEdits_fits (format : Format) (n : ℕ) (ps : List Piece) :
    ∀ q ∈ pieceEdits pairs dup format n ps, Fits 0 q.1.length q.2 := by
  induction ps generalizing n with
  | nil => exact fun q hq => absurd hq List.not_mem_nil
  | cons p ps ih =>
    rw [pieceEdits, List.forall_mem_cons]
    refine ⟨?_, ih _⟩
    split
    · split
      · exact ⟨Nat.zero_le _, Nat.zero_le _, le_refl _⟩
      · obtain ⟨parts, h⟩ := exists_reads format p.text
        exact h.fits
    · exact Nat.zero_le _

theorem ne_nil_of_piecesOf (format : Format) (content : Text) :
    ∀ p ∈ piecesOf format content, p.isEntry = true → p.text ≠ [] := by
  cases format with
  | oneLine =>
    intro p hp _
    obtain ⟨line, hline, rfl⟩ := List.mem_map.mp hp
    exact ne_nil_of_areLines (areLines_splitInclusive '\n' content) hline
  | deb822 =>
    have hclose (stanza : Text) : ∀ p ∈ closePiece stanza, p.text ≠ [] := by
      rw [closePiece]
      split
      · exact fun p hp => absurd hp List.not_mem_nil
      · rename_i hne
        intro p hp
        rw [List.mem_singleton.mp hp]
        exact hne
    have hstanza (stanza : Text) (lines : List Text) :
        ∀ p ∈ stanzaPieces stanza lines, p.isEntry = true → p.text ≠ [] := by
      induction lines generalizing stanza with
      | nil => exact fun p hp _ => hclose stanza p hp
      | cons line lines ih =>
        rw [stanzaPieces]
        split
        · intro p hp hentry
          rcases List.mem_append.mp hp with hp | hp
          · exact hclose stanza p hp
          · rcases List.mem_cons.mp hp with rfl | hp
            · cases hentry
            · exact ih [] p hp hentry
        · exact ih _
    exact hstanza [] _

theorem exists_piece {format : Format} {n : ℕ} {ps : List Piece} {e : AptEntry}
    (h : e ∈ entriesFrom format n ps) : ∃ before p after, ps = before ++ p :: after ∧
      p.isEntry = true ∧
      e = (readPiece format p.text).shift (n + (before.map Piece.text).flatten.length) := by
  induction ps generalizing n with
  | nil => cases h
  | cons p ps ih =>
    have hlater (h : e ∈ entriesFrom format (n + p.text.length) ps) :
        ∃ before q after, p :: ps = before ++ q :: after ∧ q.isEntry = true ∧
          e = (readPiece format q.text).shift (n + (before.map Piece.text).flatten.length) := by
      obtain ⟨before, q, after, rfl, hq, he⟩ := ih h
      refine ⟨p :: before, q, after, rfl, hq, ?_⟩
      rw [he, List.map_cons, List.flatten_cons, List.length_append, Nat.add_assoc]
    rw [entriesFrom] at h
    split at h
    · rename_i hentry
      rcases List.mem_cons.mp h with rfl | h
      · exact ⟨[], p, ps, rfl, hentry, rfl⟩
      · exact hlater h
    · exact hlater h

theorem entriesFrom_pairwise (format : Format) (n : ℕ) (ps : List Piece) :
    (entriesFrom format n ps).Pairwise fun e f => e.stop ≤ f.start := by
  induction ps generalizing n with
  | nil => exact List.Pairwise.nil
  | cons p ps ih =>
    rw [entriesFrom]
    split
    · apply List.Pairwise.cons _ (ih _)
      intro f hf
      obtain ⟨before, q, after, -, -, rfl⟩ := exists_piece hf
      obtain ⟨-, -, hstop⟩ := readPiece_frame format p.text
      rw [AptEntry.shift, AptEntry.shift, hstop]
      dsimp only
      omega
    · exact ih _

theorem mem_urisFrom {n : ℕ} {parts : List Part} {u : Uri} (h : u ∈ urisFrom n parts) :
    ∃ before p after, parts = before ++ p :: after ∧ p.isUri = true ∧ u.value = p.text ∧
      u.start = n + (partsText before).length ∧ u.stop = u.start + p.text.length := by
  induction parts generalizing n with
  | nil => cases h
  | cons p parts ih =>
    have hlater (h : u ∈ urisFrom (n + p.text.length) parts) :
        ∃ before q after, p :: parts = before ++ q :: after ∧ q.isUri = true ∧ u.value = q.text ∧
          u.start = n + (partsText before).length ∧ u.stop = u.start + q.text.length := by
      obtain ⟨before, q, after, rfl, hq, hvalue, hstart, hstop⟩ := ih h
      refine ⟨p :: before, q, after, rfl, hq, hvalue, ?_, hstop⟩
      rw [hstart, partsText_cons, List.length_append, Nat.add_assoc]
    rw [urisFrom] at h
    split at h
    · rename_i huri
      rcases List.mem_cons.mp h with rfl | h
      · exact ⟨[], p, parts, rfl, huri, rfl, rfl, rfl⟩
      · exact hlater h
    · exact hlater h

theorem uri_bounds {format : Format} {text : Text} {n : ℕ} {u : Uri}
    (h : u ∈ ((readPiece format text).shift n).uris) :
    n ≤ u.start ∧ u.start < u.stop ∧ u.stop ≤ n + text.length := by
  obtain ⟨parts, hreads⟩ := exists_reads format text
  obtain ⟨v, hv, rfl⟩ := List.mem_map.mp h
  rw [hreads.uris] at hv
  obtain ⟨before, p, after, rfl, huri, -, hstart, hstop⟩ := mem_urisFrom hv
  have hpos : 0 < p.text.length :=
    List.length_pos_of_ne_nil (hreads.ne_nil p (by simp) huri)
  have hlen := congrArg List.length hreads.text
  rw [partsText_append, partsText_cons, List.length_append, List.length_append] at hlen
  rw [Uri.shift]
  dsimp only
  omega

def fileEdits (pairs : List (Text × Text)) (content : Text) : List (Edit Char) :=
  (parseSources content).flatMap
    (entryEdits pairs (isDuplicate pairs (parseSources content)))

variable (pairs) (content : Text)

theorem fileEdits_eq : fileEdits pairs content =
    laid 0 (pieceEdits pairs (isDuplicate pairs (parseSources content)) (formatOf content) 0
      (piecesOf (formatOf content) content)) := by
  rw [laid_pieceEdits, ← parseSources_eq]
  rfl

theorem fileEdits_fits : Fits 0 content.length (fileEdits pairs content) := by
  have hpieces : ∀ q ∈ pieceEdits pairs (isDuplicate pairs (parseSources content))
      (formatOf content) 0 (piecesOf (formatOf content) content), Fits 0 q.1.length q.2 :=
    pieceEdits_fits _ _ _
  have hfits := laid_fits (n := 0) hpieces
  rw [map_fst_pieceEdits, piecesOf_text, Nat.zero_add, ← fileEdits_eq] at hfits
  exact hfits

theorem exists_entry {e : AptEntry} (h : e ∈ parseSources content) : ∃ text n, text ≠ [] ∧
    e = (readPiece (formatOf content) text).shift n := by
  rw [parseSources_eq] at h
  obtain ⟨before, p, after, hps, hentry, rfl⟩ := exists_piece h
  refine ⟨p.text, _, ?_, rfl⟩
  apply ne_nil_of_piecesOf (formatOf content) content p _ hentry
  rw [hps]
  exact List.mem_append_right _ (List.mem_cons_self ..)

theorem uri_in_entry {e : AptEntry} (h : e ∈ parseSources content) {u : Uri} (hu : u ∈ e.uris) :
    e.start ≤ u.start ∧ u.start < u.stop ∧ u.stop ≤ e.stop := by
  obtain ⟨text, n, -, rfl⟩ := exists_entry content h
  obtain ⟨-, hstart, hstop⟩ := readPiece_frame (formatOf content) text
  have hbounds := uri_bounds hu
  rw [AptEntry.shift, hstart, hstop]
  dsimp only
  omega

theorem fileEdits_pos : ∀ d ∈ fileEdits pairs content, d.start < d.stop := by
  intro d hd
  obtain ⟨e, he, hd⟩ := List.mem_flatMap.mp hd
  rw [entryEdits] at hd
  split at hd
  · obtain ⟨text, n, hne, rfl⟩ := exists_entry content he
    obtain ⟨-, hstart, hstop⟩ := readPiece_frame (formatOf content) text
    have hpos := List.length_pos_of_ne_nil hne
    rw [List.mem_singleton.mp hd, AptEntry.shift, hstart, hstop]
    dsimp only
    omega
  · obtain ⟨u, hu, hd⟩ := List.mem_filterMap.mp hd
    obtain ⟨new, -, rfl⟩ := Option.map_eq_some_iff.mp hd
    exact (uri_in_entry content he hu).2.1

theorem entries_apart :
    (parseSources content).Pairwise fun e f => e.stop ≤ f.start ∨ f.stop ≤ e.start := by
  rw [parseSources_eq]
  exact (entriesFrom_pairwise _ _ _).imp .inl

theorem filter_survives :
    ((parseSources content).flatMap (uriEdits pairs)).filter
        (survives (duplicateDeletions pairs (parseSources content))) =
      (parseSources content).flatMap fun e =>
        if isDuplicate pairs (parseSources content) e then [] else uriEdits pairs e := by
  rw [List.filter_flatMap]
  apply List.flatMap_congr
  intro e he
  have hinside : ∀ d ∈ uriEdits pairs e, e.start ≤ d.start ∧ d.start < d.stop ∧ d.stop ≤ e.stop := by
    intro d hd
    obtain ⟨u, hu, hd⟩ := List.mem_filterMap.mp hd
    obtain ⟨new, -, rfl⟩ := Option.map_eq_some_iff.mp hd
    exact uri_in_entry content he hu
  split
  · rename_i hdup
    rw [List.filter_eq_nil_iff]
    intro d hd hsurvives
    obtain ⟨h1, -, h3⟩ := hinside d hd
    rw [survives, Bool.not_eq_true', List.any_eq_false] at hsurvives
    apply hsurvives (e.start, e.stop)
    · exact List.mem_map.mpr ⟨e, List.mem_filter.mpr ⟨he, hdup⟩, rfl⟩
    · simp [h1, h3]
  · rename_i hkept
    rw [List.filter_eq_self]
    intro d hd
    obtain ⟨h1, h2, h3⟩ := hinside d hd
    rw [survives, Bool.not_eq_true', List.any_eq_false]
    intro span hspan hcovers
    obtain ⟨f, hf, rfl⟩ := List.mem_map.mp hspan
    obtain ⟨hf, hdup⟩ := List.mem_filter.mp hf
    rw [Bool.and_eq_true, decide_eq_true_eq, decide_eq_true_eq] at hcovers
    dsimp only at hcovers
    -- the deleted entry would lie over the kept one
    have hne : e ≠ f := by
      rintro rfl
      exact hkept hdup
    have hsymm : Std.Symm fun e f : AptEntry => e.stop ≤ f.start ∨ f.stop ≤ e.start :=
      ⟨fun _ _ => Or.symm⟩
    have hapart := (entries_apart content).forall he hf hne
    omega

theorem sortEdits_fileEdits :
    sortEdits (((parseSources content).flatMap (uriEdits pairs)).filter
        (survives (duplicateDeletions pairs (parseSources content))) ++
      (duplicateDeletions pairs (parseSources content)).map fun d => ⟨d.1, d.2, []⟩) =
      fileEdits pairs content := by
  apply sortEdits_eq
  · rw [filter_survives, duplicateDeletions, List.map_map, fileEdits]
    generalize isDuplicate pairs (parseSources content) = dup
    induction parseSources content with
    | nil => exact List.Perm.refl _
    | cons e es ih =>
      rw [List.flatMap_cons, List.flatMap_cons, List.filter_cons, entryEdits]
      split
      · rw [List.nil_append, List.map_cons, List.singleton_append]
        exact List.perm_middle.trans (ih.cons _)
      · rw [List.append_assoc]
        exact ih.append_left _
  · exact (fileEdits_fits pairs content).pairwise (fileEdits_pos pairs content)

theorem rewriteWith_eq : rewriteWith pairs content =
    if fileEdits pairs content = [] then none
    else some (splice content (fileEdits pairs content)) := by
  have hnone : ((parseSources content).flatMap (uriEdits pairs) = [] ∧
      duplicateDeletions pairs (parseSources content) = []) ↔ fileEdits pairs content = [] := by
    rw [duplicateDeletions, List.map_eq_nil_iff, List.filter_eq_nil_iff, List.flatMap_eq_nil_iff,
      fileEdits, List.flatMap_eq_nil_iff]
    constructor
    · intro ⟨huris, hdup⟩ e he
      rw [entryEdits, if_neg (hdup e he), huris e he]
    · intro h
      have hdup : ∀ e ∈ parseSources content,
          ¬ isDuplicate pairs (parseSources content) e = true := by
        intro e he hdup
        have hedits := h e he
        rw [entryEdits, if_pos hdup] at hedits
        cases hedits
      refine ⟨fun e he => ?_, hdup⟩
      have hedits := h e he
      rwa [entryEdits, if_neg (hdup e he)] at hedits
  rw [rewriteWith]
  dsimp only
  rw [sortEdits_fileEdits]
  by_cases h : fileEdits pairs content = []
  · rw [if_pos (hnone.mpr h), if_pos h]
  · rw [if_neg fun he => h (hnone.mp he), if_neg h]

end Edits

end LandscapeKit.Mirror
