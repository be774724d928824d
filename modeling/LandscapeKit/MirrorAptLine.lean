import LandscapeKit.MirrorAptParts

/-!
Lines of one-line files: a line with a URI is cut into what stands in front of it, the URI and
the tokens behind. Another URI and other tokens in their places are read as such.
-/

namespace LandscapeKit.Mirror

open Text Splice

section Scanners

def Alike (c c' : Char) : Prop :=
  c' = c ∨ isTokenChar c = true ∧ isTokenChar c' = true ∧ c' ≠ '['

theorem isAsciiWhitespace_of_alike {c c' : Char} (h : Alike c c') :
    isAsciiWhitespace c' = isAsciiWhitespace c := by
  rcases h with rfl | ⟨h1, h2, -⟩
  · rfl
  · rw [isAsciiWhitespace_of_token h1, isAsciiWhitespace_of_token h2]

theorem cuts_skipBrackets (depth : ℕ) : Cuts (skipBrackets depth) := by
  intro text
  induction text generalizing depth with
  | nil => exact List.suffix_refl _
  | cons c text ih =>
    rw [skipBrackets]
    split
    · exact (ih _).trans (List.suffix_cons ..)
    · split
      · split
        · exact List.suffix_cons ..
        · exact (ih _).trans (List.suffix_cons ..)
      · exact (ih _).trans (List.suffix_cons ..)

theorem length_skipBrackets (depth : ℕ) (c : Char) (text : Text) :
    (skipBrackets depth (c :: text)).length ≤ text.length := by
  have hcut := (cuts_skipBrackets · text)
  rw [skipBrackets]
  split
  · exact (hcut _).length_le
  · split
    · split
      · exact le_refl _
      · exact (hcut _).length_le
    · exact (hcut _).length_le

theorem skipBrackets_ahead {depth : ℕ} {a b w : Text} {c : Char} (c' : Char) (w' : Text)
    (h : skipBrackets depth (a ++ c :: w) = b ++ c :: w) :
    skipBrackets depth (a ++ c' :: w') = b ++ c' :: w' := by
  induction a generalizing depth with
  | nil =>
    have hlen := length_skipBrackets depth c w
    rw [List.nil_append] at h
    rw [h, List.length_append, List.length_cons] at hlen
    omega
  | cons d a ih =>
    rw [List.cons_append, skipBrackets] at h ⊢
    split at h
    · rename_i hopen
      rw [if_pos hopen]
      exact ih h
    · rename_i hopen
      rw [if_neg hopen]
      split at h
      · rename_i hclose
        rw [if_pos hclose]
        split at h
        · rename_i hdepth
          rw [if_pos hdepth, List.append_cancel_right h]
        · rename_i hdepth
          rw [if_neg hdepth]
          exact ih h
      · rename_i hclose
        rw [if_neg hclose]
        exact ih h

theorem cuts_skipOptions : Cuts skipOptions := by
  intro text
  rw [skipOptions]
  split
  · exact cuts_skipBrackets 0 text
  · exact List.suffix_refl _

theorem looksAhead_skipOptions : LooksAhead Alike skipOptions := by
  intro a b c c' w w' halike h
  rw [skipOptions] at h ⊢
  cases a with
  | nil =>
    split at h
    · rename_i hopen
      have hlen := length_skipBrackets 0 c w
      rw [List.nil_append] at h
      rw [h, List.length_append, List.length_cons] at hlen
      omega
    · rename_i hopen
      have hb : b = [] := List.self_eq_append_left.mp h
      have hc' : c' ≠ '[' := by
        rcases halike with rfl | ⟨-, -, hne⟩
        · simpa using hopen
        · exact hne
      rw [if_neg (by simpa using hc'), hb]
  | cons d a =>
    have hhead (x : Char) (v : Text) : (d :: a ++ x :: v).head? = some d := rfl
    rw [hhead] at h ⊢
    split at h
    · rename_i hopen
      rw [if_pos hopen]
      exact skipBrackets_ahead c' w' h
    · rename_i hopen
      rw [if_neg hopen, List.append_cancel_right h]

theorem looksAhead_skipWs : LooksAhead Alike skipWs :=
  looksAhead_dropWhile fun _ _ h => isAsciiWhitespace_of_alike h

theorem cuts_behindHead : Cuts behindHead := by
  have h1 := (cuts_dropWhile isNotBlank).comp (cuts_dropWhile isAsciiWhitespace)
  exact (h1.comp cuts_skipOptions).comp (cuts_dropWhile isAsciiWhitespace)

theorem isNotBlank_of_alike {c c' : Char} (h : Alike c c') : isNotBlank c' = isNotBlank c := by
  rw [isNotBlank, isNotBlank, isAsciiWhitespace_of_alike h]

theorem looksAhead_behindHead : LooksAhead Alike behindHead := by
  have htype : LooksAhead Alike (List.dropWhile isNotBlank) :=
    looksAhead_dropWhile fun _ _ h => isNotBlank_of_alike h
  have h1 := htype.comp (cuts_dropWhile _) looksAhead_skipWs
  have h2 := h1.comp cuts_skipOptions looksAhead_skipOptions
  exact h2.comp (cuts_dropWhile _) looksAhead_skipWs

def isLead (c : Char) : Bool := isAsciiWhitespace c || c = '#'

theorem skipComment_eq (enabled : Bool) (line : Text) :
    skipComment enabled line =
      (enabled && !(line.takeWhile isLead).contains '#', line.dropWhile isLead) := by
  induction line generalizing enabled with
  | nil => simp [skipComment]
  | cons c line ih =>
    rw [skipComment]
    split
    · rename_i hblank
      have hlead : isLead c = true := by rw [isLead, hblank, Bool.true_or]
      have hne : c ≠ '#' := by
        rintro rfl
        exact absurd hblank (by decide)
      rw [ih, List.takeWhile_cons_of_pos hlead, List.dropWhile_cons_of_pos hlead]
      simp [hne.symm]
    · rename_i hblank
      split
      · rename_i hhash
        have hlead : isLead c = true := by rw [hhash]; decide
        rw [ih, List.takeWhile_cons_of_pos hlead, List.dropWhile_cons_of_pos hlead]
        simp [hhash]
      · rename_i hhash
        have hlead : isLead c = false := by simp [isLead, hblank, hhash]
        rw [List.takeWhile_cons_of_neg (by simp [hlead]),
          List.dropWhile_cons_of_neg (by simp [hlead])]
        simp

theorem isLead_of_alike {c c' : Char} (h : Alike c c') : isLead c' = isLead c := by
  have hno {d : Char} (hd : isTokenChar d = true) : isLead d = false := by
    rw [isTokenChar, Bool.and_eq_true] at hd
    simpa [isLead] using hd
  rcases h with rfl | ⟨h1, h2, -⟩
  · rfl
  · rw [hno h1, hno h2]

theorem head_ahead {lead w : Text} {c c' : Char} (w' : Text) (halike : Alike c c')
    (h : behindHead (skipComment true (lead ++ c :: w)).2 = c :: w) :
    (skipComment true (lead ++ c' :: w')).1 = (skipComment true (lead ++ c :: w)).1 ∧
      (skipComment true (lead ++ c' :: w')).2.takeWhile isNotBlank =
        (skipComment true (lead ++ c :: w)).2.takeWhile isNotBlank ∧
      behindHead (skipComment true (lead ++ c' :: w')).2 = c' :: w' := by
  rw [skipComment_eq, skipComment_eq]
  rw [skipComment_eq] at h
  dsimp only at h ⊢
  obtain ⟨mid, hmid⟩ := cuts_behindHead ((lead ++ c :: w).dropWhile isLead)
  rw [h] at hmid
  obtain ⟨h1, h2⟩ := takeWhile_dropWhile_ahead isLead w' (isLead_of_alike halike) hmid.symm
  rw [← hmid] at h ⊢
  rw [h1, h2]
  have hcut : Cuts fun text => skipWs (skipOptions (skipWs text)) :=
    ((cuts_dropWhile isAsciiWhitespace).comp cuts_skipOptions).comp
      (cuts_dropWhile isAsciiWhitespace)
  obtain ⟨rest, hrest⟩ := hcut ((mid ++ c :: w).dropWhile isNotBlank)
  rw [behindHead] at h
  dsimp only at hrest
  rw [h] at hrest
  refine ⟨rfl, ?_, looksAhead_behindHead mid [] c c' w w' halike h⟩
  exact (takeWhile_dropWhile_ahead isNotBlank w' (isNotBlank_of_alike halike) hrest.symm).2

end Scanners

section Uris

theorem length_behindCdrom {depth : ℕ} {text behind : Text}
    (h : behindCdrom depth text = some behind) :
    behind <:+ text ∧ behind.length < text.length := by
  induction text generalizing depth with
  | nil => cases h
  | cons c text ih =>
    have hgrow (h : behind <:+ text ∧ behind.length < text.length) :
        behind <:+ c :: text ∧ behind.length < (c :: text).length :=
      ⟨h.1.trans (List.suffix_cons ..), Nat.lt_succ_of_lt h.2⟩
    rw [behindCdrom] at h
    split at h
    · exact hgrow (ih h)
    · split at h
      · split at h
        · cases h
          split
          · have htail := List.tail_suffix text
            exact ⟨htail.trans (List.suffix_cons ..), Nat.lt_succ_of_le htail.length_le⟩
          · exact ⟨List.suffix_cons .., Nat.lt_succ_self _⟩
        · exact hgrow (ih h)
      · exact hgrow (ih h)

theorem behindCdrom_ahead {depth : ℕ} {a b b' : Text} (hhead : b'.head? = b.head?)
    (h : behindCdrom depth (a ++ b) = some b) : behindCdrom depth (a ++ b') = some b' := by
  induction a generalizing depth with
  | nil => exact absurd (length_behindCdrom h).2 (lt_irrefl _)
  | cons c a ih =>
    rw [List.cons_append, behindCdrom] at h ⊢
    split at h
    · rename_i hopen
      rw [if_pos hopen]
      exact ih h
    · rename_i hopen
      rw [if_neg hopen]
      split at h
      · rename_i hclose
        rw [if_pos hclose]
        split at h
        · rename_i hdepth
          rw [if_pos hdepth]
          have hbehind := Option.some.inj h
          cases a with
          | nil =>
            rw [List.nil_append] at hbehind ⊢
            rw [hhead]
            split at hbehind
            · rename_i hslash
              obtain ⟨d, t, hb⟩ := List.exists_cons_of_ne_nil
                (l := b) (fun hnil => by rw [hnil] at hslash; cases hslash)
              have hlen := congrArg List.length hbehind
              rw [hb, List.tail_cons, List.length_cons] at hlen
              omega
            · rename_i hslash
              rw [if_neg hslash]
          | cons d a =>
            have hd (t : Text) : (d :: a ++ t).head? = some d := rfl
            have htail (t : Text) : (d :: a ++ t).tail = a ++ t := rfl
            rw [hd, htail] at hbehind ⊢
            split at hbehind
            · rename_i hslash
              have ha : a = [] := List.append_left_eq_self.mp hbehind
              rw [if_pos hslash, ha, List.nil_append]
            · exact absurd (List.append_left_eq_self.mp hbehind) (List.cons_ne_nil d a)
        · rename_i hdepth
          rw [if_neg hdepth]
          exact ih h
      · rename_i hclose
        rw [if_neg hclose]
        exact ih h

theorem isPrefixOf_append_token {p u b : Text} (hp : ∀ c ∈ p, isTokenChar c = true)
    (hb : ∀ c ∈ b.head?, isTokenChar c = false) : p.isPrefixOf (u ++ b) = p.isPrefixOf u := by
  induction p generalizing u with
  | nil => simp
  | cons d p ih =>
    have hrest := fun u => ih (u := u) fun c hc => hp c (List.mem_cons_of_mem _ hc)
    cases u with
    | nil =>
      cases b with
      | nil => rfl
      | cons c b =>
        have hne : d ≠ c := by
          intro he
          have h1 := hp d (List.mem_cons_self ..)
          rw [he, hb c rfl] at h1
          cases h1
        simp [List.isPrefixOf, hne]
    | cons c u => simp [List.isPrefixOf, hrest u]

theorem isCdromUri_append {u b : Text} (hb : ∀ c ∈ b.head?, isTokenChar c = false) :
    isCdromUri (u ++ b) = isCdromUri u :=
  isPrefixOf_append_token (List.forall_iff_forall_mem.mp (by decide +kernel)) hb

theorem takeUri_spec {rest u b : Text} (h : takeUri rest = some (u, b)) :
    rest = u ++ b ∧ u ≠ [] := by
  rw [takeUri] at h
  split at h
  · obtain ⟨behind, hbehind, he⟩ := Option.map_eq_some_iff.mp h
    cases he
    obtain ⟨hsuffix, hlt⟩ := length_behindCdrom hbehind
    have hrest := List.IsSuffix.trans hsuffix (List.drop_suffix 6 rest)
    rw [List.length_drop] at hlt
    obtain ⟨x, rfl⟩ := hrest
    rw [List.length_append] at hlt ⊢
    have htake : (x ++ b).take (x.length + b.length - b.length) = x := by
      rw [Nat.add_sub_cancel, List.take_left]
    rw [htake]
    refine ⟨rfl, ?_⟩
    rintro rfl
    rw [List.length_nil] at hlt
    omega
  · obtain ⟨h1, h2, -⟩ := takeToken_spec h
    exact ⟨h1, h2⟩

theorem takeUri_ahead {u b b' : Text} (hhead : b'.head? = b.head?)
    (h : takeUri (u ++ b) = some (u, b)) : takeUri (u ++ b') = some (u, b') := by
  rw [takeUri] at h ⊢
  split at h
  · rename_i hcdrom
    obtain ⟨behind, hbehind, he⟩ := Option.map_eq_some_iff.mp h
    have hb : behind = b := congrArg Prod.snd he
    rw [hb] at hbehind
    obtain ⟨-, hlt⟩ := length_behindCdrom hbehind
    rw [List.length_drop, List.length_append] at hlt
    have hsix : 6 ≤ u.length := by omega
    have hbegins (t : Text) : isCdromUri (u ++ t) = true := by
      have hlead := List.isPrefixOf_iff_prefix.mp hcdrom
      apply List.isPrefixOf_iff_prefix.mpr
      apply List.IsPrefix.trans _ (List.prefix_append u t)
      exact List.prefix_of_prefix_length_le hlead (List.prefix_append u b) (by simpa using hsix)
    rw [List.drop_append_of_le_length hsix] at hbehind
    rw [if_pos (hbegins b'), List.drop_append_of_le_length hsix, behindCdrom_ahead hhead hbehind]
    simp
  · rename_i hcdrom
    obtain ⟨-, hne, hchars, hend⟩ := takeToken_spec h
    have hend' : ∀ c ∈ b'.head?, isTokenChar c = false := by rwa [hhead]
    have hno : ¬ isCdromUri (u ++ b') = true := by
      rw [isCdromUri_append hend] at hcdrom
      rwa [isCdromUri_append hend']
    rw [if_neg hno]
    exact takeToken_append hne hchars hend'

end Uris

section Cut

structure LineCut where
  enabled : Bool
  debType : Text
  lead : Text
  uri : Text
  gs : List (Text × Text)
  tail : Text

def LineCut.behind (k : LineCut) : Text := joined k.gs k.tail

def LineCut.line (k : LineCut) : Text := k.lead ++ (k.uri ++ k.behind)

structure LineCut.Valid (k : LineCut) : Prop where
  enabled : (skipComment true k.line).1 = k.enabled
  debType : (skipComment true k.line).2.takeWhile isNotBlank = k.debType
  isDeb : isDebType k.debType = true
  head : behindHead (skipComment true k.line).2 = k.uri ++ k.behind
  ne_nil : k.uri ≠ []
  uri : takeUri (k.uri ++ k.behind) = some (k.uri, k.behind)
  spaced : Spaced k.gs k.tail

def isUrlText (t : Text) : Bool := containsText "://".toList t

def LineCut.parts (k : LineCut) : List Part :=
  ⟨false, k.lead⟩ :: ⟨true, k.uri⟩ :: tokenParts isUrlText k.gs k.tail

def LineCut.words (k : LineCut) : List Text := k.gs.map Prod.snd

def LineCut.entry (k : LineCut) : AptEntry :=
  ⟨k.line, 0, k.line.length, k.enabled, [k.debType], urisFrom 0 k.parts,
    (k.words.take 1).filter fun t => !isUrlText t, (k.words.drop 1).filter fun t => !isUrlText t⟩

theorem LineCut.partsText (k : LineCut) : partsText k.parts = k.line := by
  rw [parts, partsText_cons, partsText_cons, partsText_tokenParts]
  rfl

theorem map_fst_filter (p : Text → Bool) (ts : List (Text × Text)) :
    (ts.filter fun t => p t.1).map Prod.fst = (ts.map Prod.fst).filter p := by
  rw [List.filter_map]
  rfl

theorem parseOneLineEntry_eq (line : Text) :
    parseOneLineEntry line =
      if isDebType ((skipComment true line).2.takeWhile isNotBlank) then
        match takeUri (behindHead (skipComment true line).2) with
        | none => (⟨line, 0, line.length, (skipComment true line).1,
            [(skipComment true line).2.takeWhile isNotBlank], [], [], []⟩, some .missingUri)
        | some (uri, behind) => (⟨line, 0, line.length, (skipComment true line).1,
            [(skipComment true line).2.takeWhile isNotBlank],
            ((uri, behindHead (skipComment true line).2) :: (tokens behind).filter isUrl).map
              (uriAt line),
            (((tokens behind).take 1).filter fun t => !isUrl t).map Prod.fst,
            (((tokens behind).drop 1).filter fun t => !isUrl t).map Prod.fst⟩, none)
      else (⟨line, 0, line.length, (skipComment true line).1, [], [], [], []⟩,
        if (skipComment true line).1 && (skipComment true line).2.takeWhile isNotBlank ≠ [] then
          some .notADebLine else none) := rfl

theorem LineCut.parse {k : LineCut} (h : k.Valid) : parseOneLineEntry k.line = (k.entry, none) := by
  have htokens : tokens k.behind = listed k.gs k.tail := tokens_joined h.spaced
  have hfst := listed_fst k.gs k.tail
  rw [parseOneLineEntry_eq, h.debType, if_pos h.isDeb, h.head, h.uri]
  dsimp only
  rw [h.enabled, htokens, entry]
  congr 2
  · -- the first URI stands behind the lead, the others among the tokens
    have hlen : k.line.length = k.lead.length + k.uri.length + (joined k.gs k.tail).length := by
      rw [line, List.length_append, List.length_append, behind, Nat.add_assoc]
    have hmore : urisFrom (k.lead.length + k.uri.length) (tokenParts isUrlText k.gs k.tail) = _ :=
      urisFrom_tokenParts hlen
    rw [parts, urisFrom, urisFrom]
    simp only [Bool.false_eq_true, if_false, if_true, Nat.zero_add]
    have hstart : k.line.length - (k.uri ++ k.behind).length = k.lead.length := by
      rw [List.length_append, behind]
      omega
    rw [hmore, List.map_cons, uriAt, hstart]
    rfl
  · have hfilter := map_fst_filter (fun t => !isUrlText t) ((listed k.gs k.tail).take 1)
    rw [List.map_take, hfst] at hfilter
    exact hfilter
  · have hfilter := map_fst_filter (fun t => !isUrlText t) ((listed k.gs k.tail).drop 1)
    rw [List.map_drop, hfst] at hfilter
    exact hfilter

theorem exists_lineCut (line : Text) :
    (∃ k : LineCut, k.Valid ∧ k.line = line) ∨ (parseOneLineEntry line).1.uris = [] := by
  cases htype : isDebType ((skipComment true line).2.takeWhile isNotBlank) with
  | false =>
    right
    rw [parseOneLineEntry_eq, htype]
    rfl
  | true =>
    cases huri : takeUri (behindHead (skipComment true line).2) with
    | none =>
      right
      rw [parseOneLineEntry_eq, htype, huri]
      rfl
    | some found =>
      left
      obtain ⟨uri, behind⟩ := found
      obtain ⟨hrest, hne⟩ := takeUri_spec huri
      obtain ⟨gs, tail, hbehind, hspaced⟩ := exists_spaced behind
      have hcut : behindHead (skipComment true line).2 <:+ line := by
        rw [skipComment_eq]
        exact (cuts_behindHead _).trans (cuts_dropWhile isLead line)
      obtain ⟨lead, hlead⟩ := hcut
      rw [hrest, hbehind] at hlead huri
      rw [hbehind] at hrest
      refine ⟨⟨(skipComment true line).1, (skipComment true line).2.takeWhile isNotBlank, lead,
        uri, gs, tail⟩, ?_, hlead⟩
      have hline : lead ++ (uri ++ joined gs tail) = line := hlead
      constructor <;> simp only [LineCut.line, LineCut.behind, hline]
      · exact htype
      · exact hrest
      · exact hne
      · exact huri
      · exact hspaced

theorem LineCut.Valid.replace {k : LineCut} (h : k.Valid) {uri : Text} {gs : List (Text × Text)}
    (halike : ∀ c ∈ k.uri.head?, ∃ c' ∈ uri.head?, Alike c c')
    (huri : takeUri (uri ++ joined gs k.tail) = some (uri, joined gs k.tail))
    (hspaced : Spaced gs k.tail) : LineCut.Valid { k with uri := uri, gs := gs } := by
  obtain ⟨c, w, hc⟩ := List.exists_cons_of_ne_nil h.ne_nil
  obtain ⟨c', hc', hac⟩ := halike c (by rw [hc]; rfl)
  obtain ⟨w', hw'⟩ : ∃ w', uri = c' :: w' := by
    cases uri with
    | nil => cases hc'
    | cons d w' => exact ⟨w', by rw [Option.some.inj hc']⟩
  have hline : k.line = k.lead ++ c :: (w ++ k.behind) := by
    rw [LineCut.line, hc, List.cons_append]
  have hhead := h.head
  rw [hline, hc, List.cons_append] at hhead
  obtain ⟨h1, h2, h3⟩ := head_ahead (w' ++ joined gs k.tail) hac hhead
  have hnew : LineCut.line { k with uri := uri, gs := gs } =
      k.lead ++ c' :: (w' ++ joined gs k.tail) := by
    rw [LineCut.line, LineCut.behind, hw', List.cons_append]
  rw [← hline] at h1 h2
  constructor
  · rw [hnew, h1]
    exact h.enabled
  · rw [hnew, h2]
    exact h.debType
  · exact h.isDeb
  · rw [hnew, h3, LineCut.behind, hw', List.cons_append]
  · rw [hw']
    exact List.cons_ne_nil _ _
  · exact huri
  · exact hspaced

variable {pairs : List (Text × Text)}

def LineCut.moved (pairs : List (Text × Text)) (k : LineCut) : LineCut :=
  { k with uri := rewrittenUri pairs k.uri, gs := movedTokens pairs k.gs }

def staysWhole (pairs : List (Text × Text)) (e : AptEntry) : Bool :=
  e.uris.head?.all fun u =>
    let behind := e.raw.drop (u.stop - e.start)
    takeUri (rewrittenUri pairs u.value ++ behind) = some (rewrittenUri pairs u.value, behind)

theorem LineCut.uris_eq (k : LineCut) :
    k.entry.uris = ⟨k.uri, k.lead.length, k.lead.length + k.uri.length⟩ ::
      urisFrom (k.lead.length + k.uri.length) (tokenParts isUrlText k.gs k.tail) := by
  rw [entry, parts]
  simp [urisFrom]

theorem LineCut.Valid.moved (hgood : GoodPairs pairs) {k : LineCut} (h : k.Valid)
    (hwhole : staysWhole pairs k.entry = true) : (k.moved pairs).Valid := by
  have hbehind : k.line.drop (k.lead.length + k.uri.length) = k.behind := by
    rw [LineCut.line, ← List.append_assoc, ← List.length_append, List.drop_left]
  have huri : takeUri (rewrittenUri pairs k.uri ++ k.behind) =
      some (rewrittenUri pairs k.uri, k.behind) := by
    rw [staysWhole, LineCut.uris_eq, List.head?_cons, Option.all_some] at hwhole
    have hraw : k.entry.raw = k.line := rfl
    have hstart : k.entry.start = 0 := rfl
    simp only [hraw, hstart, Nat.sub_zero, hbehind, decide_eq_true_eq] at hwhole
    exact hwhole
  apply h.replace
  · intro c hc
    refine ⟨c, ?_, .inl rfl⟩
    rw [head?_rewrittenUri hgood]
    exact hc
  · exact takeUri_ahead (head?_joined_movedTokens hgood h.spaced) huri
  · exact spaced_movedTokens hgood h.spaced

theorem LineCut.parts_moved (hgood : GoodPairs pairs) (k : LineCut) :
    (k.moved pairs).parts = movedParts pairs k.parts := by
  have hplain (t : Text) (ht : isUrlText t = false) : rewrittenUri pairs t = t :=
    rewrittenUri_of_not_url ht
  have hkeep (t : Text) : isUrlText (rewrittenUri pairs t) = isUrlText t :=
    containsText_rewrittenUri hgood t
  have htokens := movedParts_tokenParts hplain hkeep k.gs k.tail
  rw [parts, parts, movedParts, List.map_cons, List.map_cons, ← movedParts, htokens]
  rfl

theorem filter_movedTokens (hgood : GoodPairs pairs) (ts : List Text) :
    (ts.map (rewrittenUri pairs)).filter (fun t => !isUrlText t) =
      ts.filter fun t => !isUrlText t := by
  induction ts with
  | nil => rfl
  | cons t ts ih =>
    have hkeep : isUrlText (rewrittenUri pairs t) = isUrlText t :=
      containsText_rewrittenUri hgood t
    rw [List.map_cons, List.filter_cons, List.filter_cons, hkeep, ih]
    split
    · rename_i hno
      have hplain : isUrlText t = false := by simpa using hno
      rw [rewrittenUri_of_not_url hplain]
    · rfl

theorem LineCut.words_moved (k : LineCut) :
    (k.moved pairs).words = k.words.map (rewrittenUri pairs) := by
  simp [words, moved, movedTokens]

end Cut

end LandscapeKit.Mirror
