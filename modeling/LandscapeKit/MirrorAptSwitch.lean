import LandscapeKit.MirrorAptCdrom
import LandscapeKit.MirrorAptTables
import Mathlib.Data.List.DropRight

/-!
Switching from mirror to mirror. Two URIs name the same repository on one mirror when they do on
every other, and a one-line file without issues is read as a one-line file again.
-/

namespace LandscapeKit.Mirror

open Text Splice

section Normal

def schemeless (uri : Text) : Text := ((splitOnce "://".toList uri).map Prod.snd).getD uri

def stripSlashes (t : Text) : Text := t.rdropWhile fun c => c = '/'

theorem normalizeTarget_eq (uri : Text) : normalizeTarget uri = stripSlashes (schemeless uri) := rfl

theorem exists_stripSlashes (t : Text) : ∃ slashes, t = stripSlashes t ++ slashes ∧
    ∀ c ∈ slashes, c = '/' := by
  refine ⟨t.rtakeWhile fun c => c = '/', List.rdropWhile_append_rtakeWhile.symm, ?_⟩
  intro c hc
  have hslash := List.mem_rtakeWhile_imp (p := fun c => decide (c = '/')) hc
  exact of_decide_eq_true hslash

theorem stripSlashes_append {a : Text} (ha : a.getLast? ≠ some '/') (b : Text) :
    stripSlashes (a ++ b) = a ++ stripSlashes b := by
  induction b using List.reverseRecOn with
  | nil =>
    have hkept : stripSlashes a = a := by
      rw [stripSlashes, List.rdropWhile_eq_self_iff]
      intro hl hlast
      apply ha
      rw [List.getLast?_eq_some_getLast hl, of_decide_eq_true hlast]
    have hnil : stripSlashes [] = [] := rfl
    rw [hnil, List.append_nil, hkept]
  | append_singleton b c ih =>
    rw [← List.append_assoc, stripSlashes, stripSlashes, List.rdropWhile_concat,
      List.rdropWhile_concat]
    split
    · exact ih
    · rw [List.append_assoc]

theorem endsAtBoundary_slashes {a slashes : Text} (ha : endsAtBoundary a = true)
    (h : ∀ c ∈ slashes, c = '/') : endsAtBoundary (stripSlashes a ++ slashes) = true := by
  obtain ⟨gone, hcut, -⟩ := exists_stripSlashes a
  cases hkept : stripSlashes a with
  | nil =>
    cases slashes with
    | nil => rfl
    | cons c slashes =>
      rw [h c (List.mem_cons_self ..), endsAtBoundary, List.nil_append, List.head?_cons]
      decide
  | cons c kept =>
    rw [hkept] at hcut
    rw [hcut] at ha
    exact ha

end Normal

section Keys

variable {family : Family} {replaceSecurity : Bool} {mirror mirror' : MirrorName}
  {target target' : Text} {uri other scheme rest path suffix : Text}

/-- The name of a repository that the mirror has: a text on the mirror's host, below a
repository's path. -/
def NamesMirror (family : Family) (replaceSecurity : Bool) (target text : Text) : Prop :=
  hostIn text = target ∧ ∃ path suffix, Known family replaceSecurity text path suffix

theorem normalizeTarget_known (hmirror : mirrorHost mirror = some target)
    (hsplit : splitOnce "://".toList uri = some (scheme, rest)) (hport : hasPort uri = false)
    (h : Known family replaceSecurity rest path suffix) :
    normalizeTarget (rewrittenUri (replacementPairs family mirror replaceSecurity) uri) =
      userinfoOf rest ++ target ++ (path ++ stripSlashes suffix) := by
  obtain ⟨r, hr, rfl, -⟩ := h.host
  obtain ⟨-, hpath, hlast, -⟩ := official_path r hr
  have hne : r.2 ≠ [] := by
    intro hnil
    rw [hnil] at hpath
    cases hpath
  have hassoc : userinfoOf rest ++ (target ++ r.2) ++ suffix =
      userinfoOf rest ++ target ++ r.2 ++ suffix := by
    simp only [List.append_assoc]
  have hkept : schemeless (scheme ++ "://".toList ++ (userinfoOf rest ++ target ++ r.2 ++ suffix)) =
      userinfoOf rest ++ target ++ r.2 ++ suffix := by
    rw [schemeless, splitOnce_append hsplit]
    rfl
  rw [rewrittenUri_known hmirror hsplit hport h, hassoc, normalizeTarget_eq, hkept,
    stripSlashes_append, List.append_assoc]
  rwa [List.getLast?_append_of_ne_nil _ hne]

def IsUnknown (family : Family) (replaceSecurity : Bool) (uri : Text) : Prop :=
  ∀ scheme rest path suffix, splitOnce "://".toList uri = some (scheme, rest) →
    ¬ Known family replaceSecurity rest path suffix

theorem known_or_unknown (family : Family) (replaceSecurity : Bool) (uri : Text) :
    (∃ scheme rest path suffix, splitOnce "://".toList uri = some (scheme, rest) ∧
      Known family replaceSecurity rest path suffix) ∨ IsUnknown family replaceSecurity uri := by
  by_cases h : ∃ scheme rest path suffix, splitOnce "://".toList uri = some (scheme, rest) ∧
      Known family replaceSecurity rest path suffix
  · exact .inl h
  · right
    intro scheme rest path suffix hsplit hknown
    exact h ⟨scheme, rest, path, suffix, hsplit, hknown⟩

theorem normalizeTarget_apart (hmirror : mirrorHost mirror = some target)
    (hsplit : splitOnce "://".toList uri = some (scheme, rest)) (hport : hasPort uri = false)
    (hknown : Known family replaceSecurity rest path suffix)
    (hunknown : IsUnknown family replaceSecurity other)
    (hscheme : splitOnce "://".toList other = none →
      ¬ NamesMirror family replaceSecurity target other) :
    normalizeTarget (rewrittenUri (replacementPairs family mirror replaceSecurity) uri) ≠
      normalizeTarget (rewrittenUri (replacementPairs family mirror replaceSecurity) other) := by
  intro he
  rw [normalizeTarget_known hmirror hsplit hport hknown, rewrittenUri_unknown hmirror hunknown,
    normalizeTarget_eq] at he
  obtain ⟨slashes, hcut, hslashes⟩ := exists_stripSlashes (schemeless other)
  obtain ⟨r, hr, rfl, -⟩ := hknown.host
  have htarget := mirrorHost_mem mirror target hmirror
  have hhost := recognized_hosts target htarget
  have hboundary := endsAtBoundary_slashes hknown.boundary hslashes
  -- so the other one is below the same path of the mirror
  have hother : schemeless other =
      userinfoOf rest ++ target ++ (r.2 ++ (stripSlashes suffix ++ slashes)) := by
    rw [hcut, ← he]
    simp only [List.append_assoc]
  have hmoved := known_moved htarget hr rest hboundary
  rw [← hother] at hmoved
  cases hfound : splitOnce "://".toList other with
  | some found =>
    obtain ⟨scheme', rest'⟩ := found
    rw [schemeless, hfound] at hmoved
    exact hunknown scheme' rest' _ _ hfound hmoved
  | none =>
    have hplain : schemeless other = other := by
      rw [schemeless, hfound]
      rfl
    have hon := hostIn_moved hhost rest (head?_path hr (stripSlashes suffix ++ slashes))
    rw [← hother, hplain] at hon
    rw [hplain] at hmoved
    exact hscheme hfound ⟨hon, _, _, hmoved⟩

theorem normalizeTarget_known_iff {scheme' rest' path' suffix' : Text}
    (hmirror : mirrorHost mirror = some target)
    (hsplit : splitOnce "://".toList uri = some (scheme, rest)) (hport : hasPort uri = false)
    (hknown : Known family replaceSecurity rest path suffix)
    (hsplit' : splitOnce "://".toList other = some (scheme', rest'))
    (hport' : hasPort other = false)
    (hknown' : Known family replaceSecurity rest' path' suffix') :
    normalizeTarget (rewrittenUri (replacementPairs family mirror replaceSecurity) uri) =
        normalizeTarget (rewrittenUri (replacementPairs family mirror replaceSecurity) other) ↔
      userinfoOf rest = userinfoOf rest' ∧
        path ++ stripSlashes suffix = path' ++ stripSlashes suffix' := by
  have htarget := mirrorHost_mem mirror target hmirror
  have hhost := recognized_hosts target htarget
  rw [normalizeTarget_known hmirror hsplit hport hknown,
    normalizeTarget_known hmirror hsplit' hport' hknown']
  obtain ⟨r, hr, rfl, -⟩ := hknown.host
  obtain ⟨r', hr', rfl, -⟩ := hknown'.host
  obtain ⟨hpath, huserinfo, -⟩ := authority_moved hhost rest (head?_path hr (stripSlashes suffix))
  obtain ⟨hpath', huserinfo', -⟩ :=
    authority_moved hhost rest' (head?_path hr' (stripSlashes suffix'))
  constructor
  · intro he
    rw [he] at hpath huserinfo
    exact ⟨huserinfo.symm.trans huserinfo', hpath.symm.trans hpath'⟩
  · rintro ⟨hu, hp⟩
    rw [hu, hp]

theorem normalizeTarget_iff (hmirror : mirrorHost mirror = some target)
    (hmirror' : mirrorHost mirror' = some target')
    (hport : hasPort uri = false) (hport' : hasPort other = false)
    (hscheme : ∀ u, u = uri ∨ u = other → splitOnce "://".toList u = none →
      ¬ NamesMirror family replaceSecurity target u ∧
        ¬ NamesMirror family replaceSecurity target' u) :
    normalizeTarget (rewrittenUri (replacementPairs family mirror replaceSecurity) uri) =
        normalizeTarget (rewrittenUri (replacementPairs family mirror replaceSecurity) other) ↔
      normalizeTarget (rewrittenUri (replacementPairs family mirror' replaceSecurity) uri) =
        normalizeTarget (rewrittenUri (replacementPairs family mirror' replaceSecurity) other) := by
  rcases known_or_unknown family replaceSecurity uri with
    ⟨scheme, rest, path, suffix, hsplit, hknown⟩ | hunknown <;>
  rcases known_or_unknown family replaceSecurity other with
    ⟨scheme', rest', path', suffix', hsplit', hknown'⟩ | hunknown'
  · rw [normalizeTarget_known_iff hmirror hsplit hport hknown hsplit' hport' hknown',
      normalizeTarget_known_iff hmirror' hsplit hport hknown hsplit' hport' hknown']
  · have hno := normalizeTarget_apart hmirror hsplit hport hknown hunknown'
      fun h => (hscheme other (.inr rfl) h).1
    have hno' := normalizeTarget_apart hmirror' hsplit hport hknown hunknown'
      fun h => (hscheme other (.inr rfl) h).2
    exact ⟨fun he => absurd he hno, fun he => absurd he hno'⟩
  · have hno := normalizeTarget_apart hmirror hsplit' hport' hknown' hunknown
      fun h => (hscheme uri (.inl rfl) h).1
    have hno' := normalizeTarget_apart hmirror' hsplit' hport' hknown' hunknown
      fun h => (hscheme uri (.inl rfl) h).2
    exact ⟨fun he => absurd he.symm hno, fun he => absurd he.symm hno'⟩
  · rw [rewrittenUri_unknown hmirror hunknown, rewrittenUri_unknown hmirror hunknown',
      rewrittenUri_unknown hmirror' hunknown, rewrittenUri_unknown hmirror' hunknown']

theorem map_eq_map_iff_of {α β γ : Type} {f : α → β} {g : α → γ} {as bs : List α}
    (h : ∀ a ∈ as, ∀ b ∈ bs, f a = f b ↔ g a = g b) :
    as.map f = bs.map f ↔ as.map g = bs.map g := by
  induction as generalizing bs with
  | nil => simp
  | cons a as ih =>
    cases bs with
    | nil => simp
    | cons b bs =>
      have hhead := h a (List.mem_cons_self ..) b (List.mem_cons_self ..)
      have htail := ih fun a ha b hb => h a (List.mem_cons_of_mem _ ha) b (List.mem_cons_of_mem _ hb)
      rw [List.map_cons, List.map_cons, List.cons_eq_cons, List.map_cons, List.map_cons,
        List.cons_eq_cons, hhead, htail]

def SchemesNamed (family : Family) (replaceSecurity : Bool) (mirror : MirrorName)
    (content : Text) : Prop :=
  ∀ e ∈ parseSources content, ∀ u ∈ e.uris, splitOnce "://".toList u.value = none →
    ∀ target ∈ mirrorHost mirror, ¬ NamesMirror family replaceSecurity target u.value

theorem dedupKey_iff {content : Text} (hmirror : mirrorHost mirror = some target)
    (hmirror' : mirrorHost mirror' = some target')
    (hport : ∀ e ∈ parseSources content, ∀ u ∈ e.uris, hasPort u.value = false)
    (hscheme : SchemesNamed family replaceSecurity mirror content)
    (hscheme' : SchemesNamed family replaceSecurity mirror' content) {e f : AptEntry}
    (he : e ∈ parseSources content) (hf : f ∈ parseSources content) :
    dedupKey (replacementPairs family mirror replaceSecurity) f =
        dedupKey (replacementPairs family mirror replaceSecurity) e ↔
      dedupKey (replacementPairs family mirror' replaceSecurity) f =
        dedupKey (replacementPairs family mirror' replaceSecurity) e := by
  have huris (u : Uri) (hu : u ∈ f.uris) (v : Uri) (hv : v ∈ e.uris) :
      normalizeTarget (rewrittenUri (replacementPairs family mirror replaceSecurity) u.value) =
          normalizeTarget (rewrittenUri (replacementPairs family mirror replaceSecurity) v.value) ↔
        normalizeTarget (rewrittenUri (replacementPairs family mirror' replaceSecurity) u.value) =
          normalizeTarget
            (rewrittenUri (replacementPairs family mirror' replaceSecurity) v.value) := by
    apply normalizeTarget_iff hmirror hmirror' (hport f hf u hu) (hport e he v hv)
    intro w hw hnone
    rcases hw with hw | hw
    · rw [hw] at hnone ⊢
      exact ⟨hscheme f hf u hu hnone target hmirror, hscheme' f hf u hu hnone target' hmirror'⟩
    · rw [hw] at hnone ⊢
      exact ⟨hscheme e he v hv hnone target hmirror, hscheme' e he v hv hnone target' hmirror'⟩
  simp only [dedupKey, DedupKey.mk.injEq]
  rw [map_eq_map_iff_of huris]

end Keys

section Formats

theorem skipComment_plain {blanks : Text} {c : Char}
    (h : ∀ d ∈ blanks ++ [c], d ≠ '#' ∧ d ≠ 'd') (hc : isAsciiWhitespace c = false) (tail : Text) :
    ∃ d rest, skipComment true (blanks ++ c :: tail) = (true, d :: rest) ∧ d ≠ 'd' ∧
      isNotBlank d = true := by
  have hstop (d : Char) (rest : Text) (hd : isAsciiWhitespace d = false) (hmark : d ≠ '#') :
      skipComment true (d :: rest) = (true, d :: rest) := by
    rw [skipComment, hd, if_neg Bool.false_ne_true, if_neg hmark]
  induction blanks with
  | nil =>
    obtain ⟨hmark, hd⟩ := h c (by simp)
    exact ⟨c, tail, hstop c tail hc hmark, hd, by rw [isNotBlank, hc]; rfl⟩
  | cons b blanks ih =>
    rw [List.cons_append, List.forall_mem_cons] at h
    rw [List.cons_append]
    cases hb : isAsciiWhitespace b with
    | true =>
      rw [skipComment, hb, if_pos rfl]
      exact ih h.2
    | false => exact ⟨b, _, hstop b _ hb h.1.1, h.1.2, by rw [isNotBlank, hb]; rfl⟩

theorem head?_of_no_issue {line : Text} (h : (parseOneLineEntry line).2 = none) {c : Char}
    (hc : c = 'T' ∨ c = 'U') : (trimStart line).head? ≠ some c := by
  intro hhead
  have hcut : line.takeWhile Hostnet.isWhitespace ++ trimStart line = line :=
    List.takeWhile_append_dropWhile
  obtain ⟨tail, htail⟩ : ∃ tail, trimStart line = c :: tail := by
    cases hline : trimStart line with
    | nil =>
      rw [hline] at hhead
      cases hhead
    | cons d tail =>
      rw [hline] at hhead
      exact ⟨tail, by rw [Option.some.inj hhead]⟩
  -- a `#` or a `d` is no blank
  have hplain : ∀ d ∈ line.takeWhile Hostnet.isWhitespace ++ [c], d ≠ '#' ∧ d ≠ 'd' := by
    intro d hd
    rcases List.mem_append.mp hd with hd | hd
    · have hblank := List.mem_takeWhile_imp hd
      constructor
      · rintro rfl
        exact absurd hblank (by decide)
      · rintro rfl
        exact absurd hblank (by decide)
    · rw [List.mem_singleton.mp hd]
      rcases hc with rfl | rfl <;> decide
  have hnotBlank : isAsciiWhitespace c = false := by rcases hc with rfl | rfl <;> decide
  obtain ⟨d, rest, hskip, hd, hfirst⟩ := skipComment_plain hplain hnotBlank tail
  rw [← htail, hcut] at hskip
  have hword : (d :: rest).takeWhile isNotBlank = d :: rest.takeWhile isNotBlank :=
    List.takeWhile_cons_of_pos hfirst
  have htype : isDebType (d :: rest.takeWhile isNotBlank) = false := by
    have hno : ∀ word : Text, word.head? = some 'd' → d :: rest.takeWhile isNotBlank ≠ word := by
      rintro word hword rfl
      exact hd (Option.some.inj hword)
    rw [isDebType, decide_eq_false (hno _ (by decide)), decide_eq_false (hno _ (by decide))]
    rfl
  rw [parseOneLineEntry, hskip] at h
  dsimp only at h
  rw [hword, htype, if_neg Bool.false_ne_true] at h
  simp at h

theorem formatOfLines_of_no_issue {lines : List Text}
    (h : ∀ line ∈ lines, (parseOneLineEntry line).2 = none) : formatOfLines lines = .oneLine := by
  have hfind : ∀ line ∈ (lines.map trimStart).find? fun line =>
      !(line = [] || line.head? = some '#'),
        ("Types:".toList.isPrefixOf line || "URIs:".toList.isPrefixOf line) = false := by
    intro line hfound
    obtain ⟨full, hfull, rfl⟩ := List.mem_map.mp (List.mem_of_find?_eq_some hfound)
    have hno {field : Text} {c : Char} (hc : c = 'T' ∨ c = 'U') (hfield : field.head? = some c) :
        field.isPrefixOf (trimStart full) = false := by
      rw [Bool.eq_false_iff]
      intro hprefix
      obtain ⟨tail, htail⟩ := List.isPrefixOf_iff_prefix.mp hprefix
      apply head?_of_no_issue (h full hfull) hc
      rw [← htail, List.head?_append, hfield]
      rfl
    rw [hno (.inl rfl) (by decide), hno (.inr rfl) (by decide)]
    rfl
  rw [formatOfLines]
  cases hbody : (lines.map trimStart).find? fun line => !(line = [] || line.head? = some '#') with
  | none => rfl
  | some line =>
    rw [Option.any_some, hfind line hbody]
    rfl

theorem issue_leftPieces {pairs : List (Text × Text)} {lines : List Text}
    (dup : AptEntry → Bool) (n : ℕ)
    (hmoves : ∀ line ∈ lines, ∃ parts, Moves pairs .oneLine line parts)
    (h : ∀ line ∈ lines, (parseOneLineEntry line).2 = none) :
    ∀ p ∈ leftPieces (lines.map fun line => ⟨line, true⟩)
        (newTexts pairs dup .oneLine n (lines.map fun line => ⟨line, true⟩)),
      (parseOneLineEntry p.text).2 = none := by
  induction lines generalizing n with
  | nil => exact fun p hp => absurd hp List.not_mem_nil
  | cons line lines ih =>
    rw [List.forall_mem_cons] at hmoves h
    obtain ⟨parts, hparts⟩ := hmoves.1
    have hsplice := hparts.reads.splice pairs
    rw [List.map_cons, newTexts_cons, if_pos rfl]
    dsimp only
    rw [hsplice, leftPieces]
    cases dup ((readPiece .oneLine line).shift n) with
    | true =>
      rw [if_pos rfl, if_pos rfl]
      exact ih _ hmoves.2 h.2
    | false =>
      rw [if_neg Bool.false_ne_true, if_neg hparts.ne_nil, List.forall_mem_cons]
      exact ⟨hparts.issue rfl h.1, ih _ hmoves.2 h.2⟩

theorem issues_oneLineFrom {start number : ℕ} {lines : List Text}
    (h : ((oneLineFrom start number lines).map Prod.snd).flatten = []) :
    ∀ line ∈ lines, (parseOneLineEntry line).2 = none := by
  induction lines generalizing start number with
  | nil => exact fun line hline => absurd hline List.not_mem_nil
  | cons line lines ih =>
    rw [oneLineFrom] at h
    dsimp only at h
    rw [List.map_cons, List.flatten_cons, List.append_eq_nil_iff, List.map_eq_nil_iff] at h
    rw [List.forall_mem_cons]
    exact ⟨Option.toList_eq_nil_iff.mp h.1, ih h.2⟩

theorem formatOf_rewritten {pairs : List (Text × Text)} (hgood : GoodPairs pairs)
    (hlong : ∀ p ∈ pairs, 2 ≤ p.1.length) {content : Text}
    (hissues : (parseSourcesWithDiagnostics content).2 = [])
    (hport : ∀ e ∈ parseSources content, ∀ u ∈ e.uris, hasPort u.value = false)
    (hformat : formatOf content = .oneLine) : formatOf (rewritten pairs content) = .oneLine := by
  have hpieces := piecesOf_rewritten hgood hlong hport
  have hlines : ∀ line ∈ splitInclusive '\n' content, (parseOneLineEntry line).2 = none := by
    rw [parseSourcesWithDiagnostics, hformat] at hissues
    exact issues_oneLineFrom hissues
  rw [hformat] at hpieces
  have hmoves : ∀ line ∈ splitInclusive '\n' content, ∃ parts, Moves pairs .oneLine line parts := by
    intro line hline
    have hp : (⟨line, true⟩ : Piece) ∈ piecesOf (formatOf content) content := by
      rw [hformat]
      exact List.mem_map_of_mem (f := fun line => Piece.mk line true) hline
    have hparts := exists_moves hgood hlong hport hp rfl
    rwa [hformat] at hparts
  have hkept := issue_leftPieces (isDuplicate pairs (parseSources content)) 0 hmoves hlines
  rw [formatOf_eq]
  apply formatOfLines_of_no_issue
  intro line hline
  have hp : (⟨line, true⟩ : Piece) ∈ piecesOf .oneLine (rewritten pairs content) :=
    List.mem_map_of_mem (f := fun line => Piece.mk line true) hline
  rw [hpieces] at hp
  exact hkept _ hp

end Formats

section Switch

variable {family : Family} {replaceSecurity : Bool} {content : Text}

def switched (family : Family) (mirror : MirrorName) (replaceSecurity : Bool) (content : Text) :
    Text := (rewrite family mirror replaceSecurity content).getD content

/-- A deb822 file is read as one again. When the first stanza goes as a duplicate, the next one
decides, and it may begin with another field. -/
def StaysDeb822 (family : Family) (mirror : MirrorName) (replaceSecurity : Bool)
    (content : Text) : Prop :=
  formatOf content = .deb822 → formatOf (switched family mirror replaceSecurity content) = .deb822

theorem formatOf_switched {mirror : MirrorName}
    (hissues : (parseSourcesWithDiagnostics content).2 = [])
    (hport : ∀ e ∈ parseSources content, ∀ u ∈ e.uris, hasPort u.value = false)
    (hstays : StaysDeb822 family mirror replaceSecurity content) :
    formatOf (rewritten (replacementPairs family mirror replaceSecurity) content) =
      formatOf content := by
  cases hformat : formatOf content with
  | deb822 => exact hstays hformat
  | oneLine =>
    exact formatOf_rewritten (goodPairs_replacementPairs family mirror replaceSecurity)
      (long_replacementPairs mirror) hissues hport hformat

theorem rewrite_switched {mirror : MirrorName}
    (hissues : (parseSourcesWithDiagnostics content).2 = [])
    (hport : ∀ e ∈ parseSources content, ∀ u ∈ e.uris, hasPort u.value = false)
    (hstays : StaysDeb822 family mirror replaceSecurity content) :
    rewrite family mirror replaceSecurity (switched family mirror replaceSecurity content) =
      none := by
  have hgood := goodPairs_replacementPairs family mirror replaceSecurity
  have hformat := formatOf_switched hissues hport hstays
  have hlong : ∀ p ∈ replacementPairs family mirror replaceSecurity, 2 ≤ p.1.length :=
    long_replacementPairs mirror
  have hdup := isDuplicate_rewritten hgood hlong hport hformat
    (fun e _ u _ => undoes_self mirror u.value) fun e _ f _ => Iff.rfl
  have hdeletions : duplicateDeletions (replacementPairs family mirror replaceSecurity)
      (parseSources (switched family mirror replaceSecurity content)) = [] := by
    rw [duplicateDeletions, List.map_eq_nil_iff, List.filter_eq_nil_iff]
    intro e he hdupe
    have hno : isDuplicate _ _ e = false := hdup e he
    rw [switched, rewrite, ← rewritten, hno] at hdupe
    cases hdupe
  have hedits : (parseSources (switched family mirror replaceSecurity content)).flatMap
      (uriEdits (replacementPairs family mirror replaceSecurity)) = [] := by
    rw [List.flatMap_eq_nil_iff]
    intro e he
    rw [uriEdits, List.filterMap_eq_nil_iff]
    intro u hu
    rw [switched, rewrite, ← rewritten, parseSources_rewritten hgood hlong hport hformat] at he
    obtain ⟨old, hold⟩ := uris_leftPieces
      (fun p hp hentry => exists_moves hgood hlong hport hp hentry) e he u hu
    rw [hold, rewriteUri_rewrittenUri]
    rfl
  rw [rewrite, rewriteWith]
  dsimp only
  rw [if_pos ⟨hedits, hdeletions⟩]

/-- The first stanza goes as a duplicate and the second one begins with another field: then the
next switch also looks at the comments. -/
def flippingSources : Text :=
  ("Types: deb\nURIs: http://deb.debian.org/debian\nSuites: s\nComponents: main\n\n" ++
    "Enabled: yes\n# deb http://deb.debian.org/debian s main\nTypes: deb\n" ++
    "URIs: http://deb.debian.org/debian\nSuites: t\nComponents: main\n\n" ++
    "Types: deb\nURIs: http://deb.debian.org/debian\nSuites: s\n" ++
    "Components: main contrib\n").toList

def schemelessSources : Text :=
  ("deb mirrors.ustc.edu.cn/debian s main\n" ++
    "deb http://mirrors.ustc.edu.cn/debian s main\n").toList

end Switch

end LandscapeKit.Mirror
