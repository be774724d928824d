import LandscapeKit.MirrorAptLocal

/-!
Reading a piece again after its URIs were replaced. It is read as before, with the new URIs, when no
URI carries a port: with a port, brackets may go that a `cdrom:` label is balanced by.
-/

namespace LandscapeKit.Mirror

open Text Splice

variable {pairs : List (Text × Text)}

section Cdrom

def hasPort (uri : Text) : Bool :=
  (splitOnce "://".toList uri).any fun s =>
    hostOf (splitUserinfo (splitPath s.2).1).2 ≠ (splitUserinfo (splitPath s.2).1).2

theorem userinfoOf_append {rest : Text}
    (h : hostOf (splitUserinfo (splitPath rest).1).2 = (splitUserinfo (splitPath rest).1).2) :
    userinfoOf rest ++ hostIn rest ++ (splitPath rest).2 = rest := by
  have hauthority : userinfoOf rest ++ hostIn rest = (splitPath rest).1 := by
    rw [hostIn, h, userinfoOf, splitUserinfo]
    cases hat : rsplitOnce '@' (splitPath rest).1 with
    | none => rfl
    | some found =>
      obtain ⟨userinfo, hostport⟩ := found
      rw [(rsplitOnce_spec hat).1]
      simp
  rw [hauthority, splitPath_append]

theorem rewriteUri_noPort (hgood : GoodPairs pairs) {uri new : Text} (hport : hasPort uri = false)
    (h : rewriteUri pairs uri = some new) : ∃ scheme rest before suffix, ∃ p ∈ pairs,
      splitOnce "://".toList uri = some (scheme, rest) ∧ Matches p rest suffix ∧
      uri = scheme ++ "://".toList ++ before ++ (p.1 ++ suffix) ∧
      new = scheme ++ "://".toList ++ before ++ (p.2 ++ suffix) := by
  obtain ⟨scheme, rest, front, p, back, suffix, hsplit, hpairs, hmatch, -, rfl⟩ :=
    (rewriteUri_iff hgood).mp h
  rw [hasPort, hsplit, Option.any_some, decide_eq_false_iff_not, not_not] at hport
  have hrest : userinfoOf rest ++ hostIn rest ++ (splitPath rest).2 = rest :=
    userinfoOf_append hport
  rw [hmatch.host, hmatch.path] at hrest
  refine ⟨scheme, rest, userinfoOf rest, suffix, p, hpairs ▸ by simp, hsplit, hmatch, ?_, ?_⟩
  · have hpair : p.1.takeWhile (· ≠ '/') ++ p.1.dropWhile (· ≠ '/') = p.1 :=
      List.takeWhile_append_dropWhile
    calc uri = scheme ++ "://".toList ++ rest := splitOnce_spec hsplit
      _ = scheme ++ "://".toList ++ (userinfoOf rest ++ p.1.takeWhile (· ≠ '/') ++
          (p.1.dropWhile (· ≠ '/') ++ suffix)) := by rw [hrest]
      _ = scheme ++ "://".toList ++ userinfoOf rest ++
          (p.1.takeWhile (· ≠ '/') ++ p.1.dropWhile (· ≠ '/') ++ suffix) := by
        simp only [List.append_assoc]
      _ = scheme ++ "://".toList ++ userinfoOf rest ++ (p.1 ++ suffix) := by rw [hpair]
  · simp only [List.append_assoc]

theorem behindCdrom_plain {mid : Text} (h : ∀ c ∈ mid, c ≠ '[' ∧ c ≠ ']') (depth : ℕ)
    (text : Text) : behindCdrom depth (mid ++ text) = behindCdrom depth text := by
  induction mid with
  | nil => rfl
  | cons c mid ih =>
    rw [List.forall_mem_cons] at h
    rw [List.cons_append, behindCdrom, if_neg h.1.1, if_neg fun hc => h.1.2 hc.1, ih h.2]

theorem behindCdrom_exchange {a mid mid' suffix behind : Text} {depth : ℕ}
    (hmid : ∀ c ∈ mid, c ≠ '[' ∧ c ≠ ']') (hmid' : ∀ c ∈ mid', c ≠ '[' ∧ c ≠ ']')
    (hlen : 2 ≤ mid.length)
    (h : behindCdrom depth (a ++ (mid ++ (suffix ++ behind))) = some behind) :
    behindCdrom depth (a ++ (mid' ++ (suffix ++ behind))) = some behind := by
  induction a generalizing depth with
  | nil =>
    rw [List.nil_append, behindCdrom_plain hmid] at h
    rwa [List.nil_append, behindCdrom_plain hmid']
  | cons c a ih =>
    rw [List.cons_append, behindCdrom] at h ⊢
    split at h
    · rename_i hopen
      rw [if_pos hopen]
      exact ih h
    · rename_i hopen
      rw [if_neg hopen]
      split at h
      · rename_i hclose
        split at h
        · -- the URI would end in front of the part
          have hend := congrArg List.length (Option.some.inj h)
          have htail : ∀ t : Text, t.length ≤ (if t.head? = some '/' then t.tail else t).length + 1 := by
            intro t
            split
            · rw [List.length_tail]
              omega
            · omega
          have hlong := htail (a ++ (mid ++ (suffix ++ behind)))
          rw [hend, List.length_append, List.length_append, List.length_append] at hlong
          omega
        · rename_i hdepth
          rw [if_pos hclose, if_neg hdepth]
          exact ih h
      · rename_i hclose
        rw [if_neg hclose]
        exact ih h

theorem plain_of_hostPath {t : Text} (h : isHostPath t = true) : ∀ c ∈ t, c ≠ '[' ∧ c ≠ ']' := by
  rw [isHostPath, Bool.and_eq_true, List.all_eq_true] at h
  intro c hc
  have hall := h.2 c hc
  constructor
  · rintro rfl
    revert hall
    decide
  · rintro rfl
    revert hall
    decide

theorem takeUri_rewritten (hgood : GoodPairs pairs) (hlong : ∀ p ∈ pairs, 2 ≤ p.1.length)
    {uri behind : Text} (hport : hasPort uri = false)
    (h : takeUri (uri ++ behind) = some (uri, behind)) :
    takeUri (rewrittenUri pairs uri ++ behind) = some (rewrittenUri pairs uri, behind) := by
  have hchars : (∀ c ∈ uri, isTokenChar c = true) → ∀ c ∈ rewrittenUri pairs uri,
      isTokenChar c = true := isTokenChar_rewrittenUri hgood
  have hkept := isCdromUri_rewrittenUri hgood uri
  rw [rewrittenUri] at hchars hkept ⊢
  cases hnew : rewriteUri pairs uri with
  | none => exact h
  | some new =>
    obtain ⟨scheme, rest, before, suffix, p, hp, -, -, hold, hmoved⟩ :=
      rewriteUri_noPort hgood hport hnew
    rw [hnew, Option.getD_some] at hchars hkept
    rw [Option.getD_some]
    rw [takeUri] at h ⊢
    split at h
    · rename_i hcdrom
      obtain ⟨b, hbehind, he⟩ := Option.map_eq_some_iff.mp h
      have hb : b = behind := congrArg Prod.snd he
      subst hb
      rw [hold] at hcdrom hbehind
      simp only [List.append_assoc] at hcdrom hbehind
      rw [← List.append_assoc scheme, isCdromUri_scheme] at hcdrom
      have hsix : 6 ≤ (scheme ++ "://".toList).length :=
        (List.isPrefixOf_iff_prefix.mp hcdrom).length_le
      have hmid : isHostPath p.1 = true ∧ isHostPath p.2 = true := by
        obtain ⟨h1, h2, -⟩ := hgood p hp
        exact ⟨h1, h2⟩
      -- the scheme holds the six characters, and the pair's text is behind them
      rw [← List.append_assoc scheme, List.drop_append_of_le_length hsix,
        ← List.append_assoc (List.drop 6 _)] at hbehind
      have hnewBehind := behindCdrom_exchange (plain_of_hostPath hmid.1)
        (plain_of_hostPath hmid.2) (hlong p hp) hbehind
      have hdrop : (new ++ b).drop 6 =
          (scheme ++ "://".toList).drop 6 ++ before ++ (p.2 ++ (suffix ++ b)) := by
        rw [hmoved]
        simp only [List.append_assoc]
        rw [← List.append_assoc scheme, List.drop_append_of_le_length hsix]
      have hcdrom' : isCdromUri (new ++ b) = true := by
        rw [hmoved]
        simp only [List.append_assoc]
        rw [← List.append_assoc scheme, isCdromUri_scheme]
        exact hcdrom
      rw [if_pos hcdrom', hdrop, hnewBehind]
      simp
    · rename_i hplain
      obtain ⟨-, hne, htoken, hend⟩ := takeToken_spec h
      have hplain' : ¬ isCdromUri (new ++ behind) = true := by
        rw [isCdromUri_append hend] at hplain
        rwa [isCdromUri_append hend, hkept]
      have hsome : new ≠ [] := by
        rintro rfl
        have hnil := congrArg List.length hmoved
        simp at hnil
      rw [if_neg hplain']
      exact takeToken_append hsome (hchars htoken) hend

end Cdrom

section Moves

variable (pairs)

structure Moves (format : Format) (text : Text) (parts : List Part) : Prop where
  reads : Reads format text parts
  again : Reads format (partsText (movedParts pairs parts)) (movedParts pairs parts)
  enabled : (readPiece format (partsText (movedParts pairs parts))).enabled =
    (readPiece format text).enabled
  debTypes : (readPiece format (partsText (movedParts pairs parts))).debTypes =
    (readPiece format text).debTypes
  suites : (readPiece format (partsText (movedParts pairs parts))).suites =
    (readPiece format text).suites
  components : (readPiece format (partsText (movedParts pairs parts))).components =
    (readPiece format text).components
  issue : format = .oneLine → (parseOneLineEntry text).2 = none →
    (parseOneLineEntry (partsText (movedParts pairs parts))).2 = none
  edited : Edited format ⟨text, true⟩ (partsText (movedParts pairs parts))
  ne_nil : partsText (movedParts pairs parts) ≠ []

variable {pairs}

theorem movedParts_ne_nil (hgood : GoodPairs pairs) {parts : List Part}
    (h : ∀ p ∈ parts, p.isUri = true → p.text ≠ []) :
    ∀ p ∈ movedParts pairs parts, p.isUri = true → p.text ≠ [] := by
  intro q hq huri
  obtain ⟨p, hp, rfl⟩ := List.mem_map.mp hq
  rw [movedPart] at huri ⊢
  split at huri
  · rename_i hpuri
    rw [if_pos hpuri]
    intro hnil
    have hhead := head?_rewrittenUri hgood p.text
    dsimp only at hnil
    rw [hnil] at hhead
    exact h p hp hpuri (List.head?_eq_none_iff.mp hhead.symm)
  · rename_i hno
    exact absurd huri hno

theorem swaps_movedParts (hgood : GoodPairs pairs) {parts : List Part}
    (h : ∀ p ∈ parts, p.isUri = true → Unbroken p.text) :
    List.Forall₂ Swaps parts (movedParts pairs parts) := by
  induction parts with
  | nil => exact .nil
  | cons p parts ih =>
    rw [List.forall_mem_cons] at h
    exact .cons (swaps_movedPart hgood h.1) (ih h.2)

theorem exists_moves_oneLine (hgood : GoodPairs pairs) (hlong : ∀ p ∈ pairs, 2 ≤ p.1.length)
    {line : Text} (hline : IsLine '\n' line ∨ IsOpenLine '\n' line)
    (hport : ∀ u ∈ (parseOneLineEntry line).1.uris, hasPort u.value = false) :
    ∃ parts, Moves pairs .oneLine line parts := by
  have hsome : line ≠ [] := by
    rcases hline with ⟨body, -, rfl⟩ | h
    · simp
    · exact h.1
  rcases exists_lineCut line with ⟨k, hk, rfl⟩ | hnone
  · rw [LineCut.parse hk, LineCut.uris_eq] at hport
    have hwhole : staysWhole pairs k.entry = true := by
      have hbehind : k.line.drop (k.lead.length + k.uri.length) = k.behind := by
        rw [LineCut.line, ← List.append_assoc, ← List.length_append, List.drop_left]
      have hraw : k.entry.raw = k.line := rfl
      have hstart : k.entry.start = 0 := rfl
      rw [staysWhole, LineCut.uris_eq, List.head?_cons, Option.all_some, hraw, hstart]
      dsimp only
      rw [Nat.sub_zero, hbehind, decide_eq_true_eq]
      exact takeUri_rewritten hgood hlong (hport _ (List.mem_cons_self ..)) hk.uri
    have hmoved := hk.moved hgood hwhole
    have hparts := LineCut.parts_moved hgood k
    have htext : partsText (movedParts pairs k.parts) = (k.moved pairs).line := by
      rw [← hparts, LineCut.partsText]
    have hread : readPiece .oneLine (k.moved pairs).line = (k.moved pairs).entry := by
      rw [readPiece, LineCut.parse hmoved]
    have hold : readPiece .oneLine k.line = k.entry := by
      rw [readPiece, LineCut.parse hk]
    have hunbroken : ∀ p ∈ k.parts, p.isUri = true → Unbroken p.text := fun p hp huri =>
      ⟨LineCut.ne_nil_parts hk p hp huri, hk.newline_notMem hline p hp huri⟩
    have hswaps := swaps_movedParts hgood hunbroken
    have hreplaces := replaces_of_swaps hswaps
    have hnil := (swaps_ends hswaps).2.1
    rw [k.partsText] at hreplaces hnil
    refine ⟨k.parts, ⟨k.partsText, by rw [hold]; rfl, LineCut.ne_nil_parts hk⟩,
      ⟨rfl, ?_, movedParts_ne_nil hgood (LineCut.ne_nil_parts hk)⟩, ?_, ?_, ?_, ?_, ?_,
      .inr ⟨hreplaces, fun h => hsome (hnil.mp h)⟩, fun h => hsome (hnil.mp h)⟩
    · rw [htext, hread, ← hparts]
      rfl
    · rw [htext, hread, hold]
      rfl
    · rw [htext, hread, hold]
      rfl
    · rw [htext, hread, hold, LineCut.entry, LineCut.entry, LineCut.words_moved, ← List.map_take]
      exact filter_movedTokens hgood _
    · rw [htext, hread, hold, LineCut.entry, LineCut.entry, LineCut.words_moved, ← List.map_drop]
      exact filter_movedTokens hgood _
    · intro _ _
      rw [htext, LineCut.parse hmoved]
  · have hsame : movedParts pairs [⟨false, line⟩] = [⟨false, line⟩] := rfl
    have htext : partsText [⟨false, line⟩] = line := by simp
    have hreads : Reads .oneLine line [⟨false, line⟩] := by
      refine ⟨htext, hnone, ?_⟩
      intro p hp huri
      rw [List.mem_singleton.mp hp] at huri
      cases huri
    refine ⟨[⟨false, line⟩], hreads, ?_, ?_, ?_, ?_, ?_, ?_, ?_, ?_⟩
    all_goals rw [hsame, htext]
    · exact hreads
    · exact fun _ h => h
    · exact .inr ⟨⟨id, id⟩, hsome⟩
    · exact hsome

def StaysLine (line line' : Text) : Prop :=
  Replaces '\n' line (some line') ∧ isBlankLine line' = false ∧ line' ≠ []

theorem exists_movedLines (hgood : GoodPairs pairs) {lines : List Text}
    (hlines : ∀ line ∈ lines, isBlankLine line = false ∧ line ≠ []) :
    ∃ parts lines', StanzaSwap lines lines' parts (movedParts pairs parts) ∧
      (∀ p ∈ parts, p.isUri = true → p.text ≠ []) ∧ List.Forall₂ StaysLine lines lines' := by
  induction lines with
  | nil => exact ⟨[], [], .nil, fun p hp => absurd hp List.not_mem_nil, .nil⟩
  | cons line lines ih =>
    rw [List.forall_mem_cons] at hlines
    obtain ⟨parts, lines', hswap, hne, hstay⟩ := ih hlines.2
    cases huris : isUrisLine line with
    | false =>
      refine ⟨⟨false, line⟩ :: parts, line :: lines', .cons (.same huris) hswap, ?_,
        .cons ⟨⟨id, id⟩, hlines.1⟩ hstay⟩
      rw [List.forall_mem_cons]
      exact ⟨fun huri => absurd huri Bool.false_ne_true, hne⟩
    | true =>
      obtain ⟨name, gs, tail, h⟩ := exists_urisLine huris
      have hspaced := spaced_movedTokens hgood h.spaced
      have hgaps : (movedTokens pairs gs).map Prod.fst = gs.map Prod.fst := by
        rw [movedTokens, List.map_map]
        rfl
      have hparts : movedParts pairs (urisParts name gs tail) =
          urisParts name (movedTokens pairs gs) tail := by
        have htokens : movedParts pairs (tokenParts (fun _ => true) gs tail) =
            tokenParts (fun _ => true) (movedTokens pairs gs) tail :=
          movedParts_tokenParts (fun t ht => absurd ht (by decide)) (fun _ => rfl) gs tail
        rw [urisParts, movedParts, List.map_cons, ← movedParts, htokens]
        rfl
      have hmoved := h.replace hspaced
      have hunbroken : ∀ p ∈ urisParts name gs tail, p.isUri = true → Unbroken p.text := by
        rw [urisParts, List.forall_mem_cons]
        refine ⟨fun huri => absurd huri Bool.false_ne_true, fun p hp huri => ?_⟩
        obtain ⟨hsome, hchars⟩ := tokenParts_uri h.spaced p hp huri
        exact ⟨hsome, newline_notMem_token hchars⟩
      have hreplaces := replaces_of_swaps (swaps_movedParts hgood hunbroken)
      rw [hparts, ← h.text] at hreplaces
      have hsome : (trimStart (partsText (urisParts name (movedTokens pairs gs) tail))) ≠ [] := by
        intro hnil
        have hhead := hmoved.head?
        rw [hnil] at hhead
        cases hhead
      refine ⟨urisParts name gs tail ++ parts,
        partsText (urisParts name (movedTokens pairs gs) tail) :: lines', ?_, ?_,
        .cons ⟨hreplaces, ?_, ?_⟩ hstay⟩
      · rw [movedParts_append, hparts]
        exact .cons (.uris h hspaced hgaps) hswap
      · intro p hp huri
        rcases List.mem_append.mp hp with hp | hp
        · exact (hunbroken p hp huri).1
        · exact hne p hp huri
      · rw [Bool.eq_false_iff]
        exact fun hblank => hsome (isBlankLine_iff.mp hblank)
      · intro hnil
        rw [hnil] at hsome
        exact hsome rfl

theorem exists_moves_deb822 (hgood : GoodPairs pairs) {stanza : Text} (hsome : stanza ≠ [])
    (hlines : ∀ line ∈ splitInclusive '\n' stanza, isBlankLine line = false) :
    ∃ parts, Moves pairs .deb822 stanza parts := by
  have hareLines := areLines_splitInclusive '\n' stanza
  have hstanza : ∀ line ∈ splitInclusive '\n' stanza, isBlankLine line = false ∧ line ≠ [] :=
    fun line hline => ⟨hlines line hline, ne_nil_of_areLines hareLines hline⟩
  obtain ⟨parts, lines', hswap, hne, hstay⟩ := exists_movedLines hgood hstanza
  have hareLines' : AreLines '\n' lines' :=
    areLines_forall₂ (hstay.imp fun _ _ h => h.1) hareLines
  obtain ⟨htext, htext'⟩ := hswap.text
  rw [flatten_splitInclusive] at htext
  have hsplit : splitInclusive '\n' (partsText (movedParts pairs parts)) = lines' := by
    rw [← htext', splitInclusive_flatten hareLines']
  have hmoved := hswap
  rw [← hsplit] at hmoved
  obtain ⟨hdebTypes, hsuites, hcomponents, huris, huris'⟩ := agree_stanza hmoved
  have hempty : lines' ≠ [] := by
    rintro rfl
    have hnil := List.forall₂_nil_right_iff.mp hstay
    have hflat := flatten_splitInclusive '\n' stanza
    rw [hnil] at hflat
    exact hsome hflat.symm
  have hlast : partsText (movedParts pairs parts) ≠ [] := by
    rw [← htext']
    obtain ⟨l, ls, rfl⟩ := List.exists_cons_of_ne_nil hempty
    have hl := ne_nil_of_areLines hareLines' (List.mem_cons_self ..)
    simp [hl]
  refine ⟨parts, ⟨htext.symm, huris, hne⟩, ⟨rfl, huris', movedParts_ne_nil hgood hne⟩, ?_,
    hdebTypes, hsuites, hcomponents, fun h => Format.noConfusion h, .inr ?_, hlast⟩
  · exact (parseDeb822Stanza_frame _).2.2.2.trans (parseDeb822Stanza_frame _).2.2.2.symm
  · exact ⟨lines', htext'.symm, hempty, hstay⟩

theorem mem_entriesFrom (format : Format) (n : ℕ) {ps : List Piece} {p : Piece} (hp : p ∈ ps)
    (hentry : p.isEntry = true) :
    ∃ k, (readPiece format p.text).shift k ∈ entriesFrom format n ps := by
  induction ps generalizing n with
  | nil => cases hp
  | cons q ps ih =>
    rw [entriesFrom]
    rcases List.mem_cons.mp hp with rfl | hp
    · rw [if_pos hentry]
      exact ⟨n, List.mem_cons_self ..⟩
    · obtain ⟨k, hk⟩ := ih (n + q.text.length) hp
      refine ⟨k, ?_⟩
      split
      · exact List.mem_cons_of_mem _ hk
      · exact hk

theorem lines_of_piece {content : Text} {p : Piece} (hp : p ∈ piecesOf .deb822 content)
    (hentry : p.isEntry = true) :
    ∀ line ∈ splitInclusive '\n' p.text, isBlankLine line = false := by
  obtain ⟨bs, last, hcut, hbs, hlast⟩ := exists_blocks (splitInclusive '\n' content)
  have hareLines := areLines_splitInclusive '\n' content
  rw [hcut] at hareLines
  rw [piecesOf, hcut, stanzaPieces_blocks hbs hlast] at hp
  have hclose {s : List Text} (hs : AreLines '\n' s)
      (hblank : ∀ line ∈ s, isBlankLine line = false) (hp : p ∈ closePiece s.flatten) :
      ∀ line ∈ splitInclusive '\n' p.text, isBlankLine line = false := by
    rw [closePiece] at hp
    split at hp
    · cases hp
    · rw [List.mem_singleton.mp hp, splitInclusive_flatten hs]
      exact hblank
  clear hcut
  induction bs with
  | nil => exact hclose hareLines hlast hp
  | cons b bs ih =>
    rw [blockPieces_cons] at hp
    rw [blockLines_cons] at hareLines
    obtain ⟨hfirst, hrest⟩ := areLines_append hareLines
    rcases List.mem_append.mp hp with hp | hp
    · exact hclose hfirst (hbs b (List.mem_cons_self ..)).1 hp
    · rcases List.mem_cons.mp hp with rfl | hp
      · cases hentry
      · exact ih hp (fun b' hb' => hbs b' (List.mem_cons_of_mem _ hb')) (areLines_append hrest).2

theorem exists_moves (hgood : GoodPairs pairs) (hlong : ∀ p ∈ pairs, 2 ≤ p.1.length)
    {content : Text} (hport : ∀ e ∈ parseSources content, ∀ u ∈ e.uris, hasPort u.value = false)
    {p : Piece} (hp : p ∈ piecesOf (formatOf content) content) (hentry : p.isEntry = true) :
    ∃ parts, Moves pairs (formatOf content) p.text parts := by
  have hsome := ne_nil_of_piecesOf (formatOf content) content p hp hentry
  obtain ⟨n, hn⟩ := mem_entriesFrom (formatOf content) 0 hp hentry
  rw [← parseSources_eq] at hn
  have hnone : ∀ u ∈ (readPiece (formatOf content) p.text).uris, hasPort u.value = false :=
    fun u hu => hport _ hn (u.shift n) (List.mem_map_of_mem (f := Uri.shift n) hu)
  generalize formatOf content = format at hp hnone ⊢
  cases format with
  | oneLine =>
    obtain ⟨line, hline, rfl⟩ := List.mem_map.mp hp
    exact exists_moves_oneLine hgood hlong
      (line_of_areLines (areLines_splitInclusive '\n' content) hline) hnone
  | deb822 => exact exists_moves_deb822 hgood hsome (lines_of_piece hp hentry)

end Moves

section Heads

variable {format : Format} {text : Text} {parts : List Part}

def isText (p : Part) : Bool := !p.isUri

theorem min?_urisFrom (n : ℕ) (parts : List Part) :
    ((urisFrom n parts).map Uri.start).min?.getD (n + (partsText parts).length) =
      n + (partsText (parts.takeWhile isText)).length := by
  induction parts generalizing n with
  | nil => rfl
  | cons p parts ih =>
    rw [urisFrom, List.takeWhile_cons]
    cases huri : p.isUri with
    | false =>
      have htext : isText p = true := by rw [isText, huri]; rfl
      have hmore := ih (n + p.text.length)
      rw [if_neg Bool.false_ne_true, if_pos htext, partsText_cons, partsText_cons,
        List.length_append, List.length_append, ← Nat.add_assoc, ← Nat.add_assoc]
      exact hmore
    | true =>
      have htext : ¬ isText p = true := by rw [isText, huri]; exact Bool.false_ne_true
      rw [if_pos rfl, if_neg htext, List.map_cons, List.min?_cons]
      -- the URIs behind it do not begin earlier
      have hmin : ∀ m ∈ ((urisFrom (n + p.text.length) parts).map Uri.start).min?, n ≤ m := by
        intro m hm
        obtain ⟨u, hu, rfl⟩ := List.mem_map.mp (List.min?_mem hm)
        obtain ⟨before, q, after, -, -, -, hstart, -⟩ := mem_urisFrom hu
        omega
      cases hrest : ((urisFrom (n + p.text.length) parts).map Uri.start).min? with
      | none => rfl
      | some m =>
        have hle := hmin m hrest
        dsimp only [Option.elim, Option.getD_some]
        rw [min_eq_left hle]
        rfl

theorem entryHead_eq (h : Reads format text parts) (n : ℕ) :
    entryHead ((readPiece format text).shift n) = partsText (parts.takeWhile isText) := by
  obtain ⟨hraw, hstart, hstop⟩ := readPiece_frame format text
  have hmin := min?_urisFrom n parts
  have huris : ((readPiece format text).uris.map (Uri.shift n)).map Uri.start =
      (urisFrom n parts).map Uri.start := by
    rw [h.uris, urisFrom_shift, Nat.zero_add]
  rw [h.text] at hmin
  rw [entryHead, AptEntry.shift]
  dsimp only
  rw [huris, hraw, hstart, hstop, Nat.zero_add, Nat.add_comm text.length, hmin,
    Nat.add_sub_cancel_left, ← h.text]
  have hsplit : partsText parts =
      partsText (parts.takeWhile isText) ++ partsText (parts.dropWhile isText) := by
    rw [← partsText_append, List.takeWhile_append_dropWhile]
  rw [hsplit, List.take_left]

theorem takeWhile_movedParts (parts : List Part) :
    (movedParts pairs parts).takeWhile isText = parts.takeWhile isText := by
  induction parts with
  | nil => rfl
  | cons p parts ih =>
    have hsame : isText (movedPart pairs p) = isText p := by
      rw [isText, isText, movedPart]
      split <;> rfl
    rw [movedParts, List.map_cons, ← movedParts, List.takeWhile_cons, List.takeWhile_cons, ih, hsame]
    split
    · rename_i htext
      rw [isText, Bool.not_eq_true'] at htext
      rw [movedPart, if_neg (by rw [htext]; exact Bool.false_ne_true)]
    · rfl

theorem Moves.head (h : Moves pairs format text parts) (n m : ℕ) :
    entryHead ((readPiece format (partsText (movedParts pairs parts))).shift m) =
      entryHead ((readPiece format text).shift n) := by
  rw [entryHead_eq h.again, entryHead_eq h.reads, takeWhile_movedParts]

end Heads

end LandscapeKit.Mirror
