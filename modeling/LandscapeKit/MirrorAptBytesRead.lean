import Mathlib.Data.List.DropRight
import LandscapeKit.MirrorAptBytes
import LandscapeKit.MirrorAptPieces

/-!
Reading by bytes finds what reading by characters does, with every position told in bytes. So no
slice of the reader begins or ends inside a character, and none of its loops runs on.
-/

namespace LandscapeKit.Mirror.Bytewise

open Text Utf8 Splice

variable {line rest : Text} {pos : ℕ}

section Scanners

theorem agrees_whitespace : Agrees isAsciiWhitespaceByte isAsciiWhitespace := by
  have hspace : Agrees _ (fun c => c = ' ') := agrees_eq (by decide)
  have htab : Agrees _ (fun c => c = '\t') := agrees_eq (by decide)
  have hnewline : Agrees _ (fun c => c = '\n') := agrees_eq (by decide)
  have hfeed : Agrees _ (fun c => c = '\x0c') := agrees_eq (by decide)
  have hreturn : Agrees _ (fun c => c = '\r') := agrees_eq (by decide)
  exact (((hspace.or htab).or hnewline).or hfeed).or hreturn

theorem agrees_token : Agrees isTokenByte isTokenChar := by
  have hhash : Agrees _ (fun c => c = '#') := agrees_eq (by decide)
  have hboth := agrees_whitespace.not.and hhash.not
  intro c b hb
  have hc := hboth c b hb
  rw [isTokenByte, isTokenChar, decide_not, decide_not]
  exact hc

theorem leftAt_skipWs (h : LeftAt line pos rest) :
    LeftAt line (skipWs line pos) (Mirror.skipWs rest) := by
  obtain ⟨hbytes, hleft⟩ := h.takeWhile agrees_whitespace
  rw [skipWs, bytesFrom, hbytes]
  exact hleft

theorem bytes_eq_nil_iff {text : Text} : bytes text = [] ↔ text = [] := by
  rw [← size_eq_zero_iff, size, List.length_eq_zero_iff]

theorem takeToken_eq (h : LeftAt line pos rest) :
    takeToken line pos = (Mirror.takeToken rest).map fun t => (pos, pos + size t.1) := by
  obtain ⟨hbytes, -⟩ := h.takeWhile agrees_token
  rw [takeToken, Mirror.takeToken, bytesFrom, hbytes]
  by_cases hnil : rest.takeWhile isTokenChar = []
  · rw [if_pos (bytes_eq_nil_iff.mpr hnil), if_pos hnil]
    rfl
  · rw [if_neg fun hb => hnil (bytes_eq_nil_iff.mp hb), if_neg hnil]
    rfl

end Scanners

section Brackets

variable {bs : Bytes}

theorem utf8_bracket : String.utf8EncodeChar '[' = [91] ∧ String.utf8EncodeChar ']' = [93] := by
  decide

theorem utf8_plain {c : Char} (hopen : c ≠ '[') (hclose : c ≠ ']') :
    ∀ b ∈ String.utf8EncodeChar c, b ≠ 91 ∧ b ≠ 93 := by
  have ho : Agrees _ (fun c => c = '[') := agrees_eq (by decide)
  have hc : Agrees _ (fun c => c = ']') := agrees_eq (by decide)
  intro b hb
  have h1 := ho c b hb
  have h2 := hc c b hb
  constructor
  · rintro rfl
    exact hopen (of_decide_eq_true h1.symm)
  · rintro rfl
    exact hclose (of_decide_eq_true h2.symm)

theorem cdromEnd_plain (h : ∀ b ∈ bs, b ≠ 91 ∧ b ≠ 93) (depth : ℕ) (rest : Bytes) :
    cdromEnd depth (bs ++ rest) = (cdromEnd depth rest).map (· + bs.length) := by
  induction bs with
  | nil => simp
  | cons b bs ih =>
    rw [List.forall_mem_cons] at h
    rw [List.cons_append, cdromEnd, if_neg h.1.1, if_neg fun hb => h.1.2 hb.1, ih h.2,
      Option.map_map]
    rfl

theorem skipBrackets_plain (h : ∀ b ∈ bs, b ≠ 91 ∧ b ≠ 93) (depth : ℕ) (rest : Bytes) :
    skipBrackets depth (bs ++ rest) = (skipBrackets depth rest).map (· + bs.length) := by
  induction bs with
  | nil => simp
  | cons b bs ih =>
    rw [List.forall_mem_cons] at h
    rw [List.cons_append, skipBrackets, if_neg h.1.1, if_neg h.1.2, ih h.2, Option.map_map]
    rfl

theorem cdromEnd_bytes (depth : ℕ) (text : Text) :
    Option.Rel (LeftAt text) (cdromEnd depth (bytes text)) (behindCdrom depth text) := by
  have hmore (c : Char) {t : Text} {found : Option Text} {e : Option ℕ}
      (h : Option.Rel (LeftAt t) e found) :
      Option.Rel (LeftAt (c :: t)) (e.map (· + c.utf8Size)) found := by
    cases h with
    | none => exact .none
    | some hleft => exact .some hleft.cons
  induction text generalizing depth with
  | nil => exact .none
  | cons c text ih =>
    rw [behindCdrom, bytes_cons]
    by_cases hopen : c = '['
    · subst hopen
      rw [if_pos rfl, utf8_bracket.1, List.singleton_append, cdromEnd, if_pos rfl]
      exact hmore '[' (ih (depth + 1))
    · rw [if_neg hopen]
      by_cases hclose : c = ']'
      · subst hclose
        have hne : (93 : UInt8) ≠ 91 := by decide
        rw [utf8_bracket.2, List.singleton_append, cdromEnd, if_neg hne]
        by_cases hdepth : 0 < depth
        · have hchar : ']' = ']' ∧ 0 < depth := ⟨rfl, hdepth⟩
          have hbyte : (93 : UInt8) = 93 ∧ 0 < depth := ⟨rfl, hdepth⟩
          rw [if_pos hchar, if_pos hbyte]
          by_cases hone : depth = 1
          · rw [if_pos hone, if_pos hone]
            -- the slash behind the label is one byte
            have hhead : (bytes text).head? = some 47 ↔ text.head? = some '/' :=
              head?_bytes '/' (by decide) text
            by_cases hslash : text.head? = some '/'
            · rw [if_pos hslash, if_pos (hhead.mpr hslash)]
              obtain ⟨tail, rfl⟩ : ∃ tail, text = '/' :: tail := by
                cases text with
                | nil => cases hslash
                | cons d tail => exact ⟨tail, by rw [Option.some.inj hslash]⟩
              exact .some ⟨[']', '/'], rfl, rfl⟩
            · rw [if_neg hslash, if_neg fun h => hslash (hhead.mp h)]
              exact .some ⟨[']'], rfl, rfl⟩
          · rw [if_neg hone, if_neg hone]
            exact hmore ']' (ih (depth - 1))
        · rw [if_neg fun h => hdepth h.2, if_neg fun h => hdepth h.2]
          exact hmore ']' (ih depth)
      · rw [if_neg fun h => hclose h.1, cdromEnd_plain (utf8_plain hopen hclose),
          String.length_utf8EncodeChar]
        exact hmore c (ih depth)

theorem skipBrackets_bytes {depth : ℕ} (hdepth : 0 < depth) (text : Text) :
    ∃ n, skipBrackets depth (bytes text) = some n ∧
      LeftAt text n (Mirror.skipBrackets depth text) := by
  have hmore (c : Char) {t found : Text} {e : Option ℕ}
      (h : ∃ n, e = some n ∧ LeftAt t n found) :
      ∃ n, e.map (· + c.utf8Size) = some n ∧ LeftAt (c :: t) n found := by
    obtain ⟨n, rfl, hleft⟩ := h
    exact ⟨n + c.utf8Size, rfl, hleft.cons⟩
  induction text generalizing depth with
  | nil => exact ⟨0, rfl, leftAt_zero []⟩
  | cons c text ih =>
    rw [Mirror.skipBrackets, bytes_cons]
    by_cases hopen : c = '['
    · subst hopen
      rw [if_pos rfl, utf8_bracket.1, List.singleton_append, skipBrackets, if_pos rfl]
      exact hmore '[' (ih (Nat.succ_pos depth))
    · rw [if_neg hopen]
      by_cases hclose : c = ']'
      · subst hclose
        have hne : (93 : UInt8) ≠ 91 := by decide
        rw [if_pos rfl, utf8_bracket.2, List.singleton_append, skipBrackets, if_neg hne,
          if_pos rfl, if_neg hdepth.ne']
        by_cases hone : depth = 1
        · rw [if_pos hone, if_pos hone]
          exact ⟨1, rfl, [']'], rfl, rfl⟩
        · rw [if_neg hone, if_neg hone]
          exact hmore ']' (ih (by omega))
      · rw [if_neg hclose, skipBrackets_plain (utf8_plain hopen hclose),
          String.length_utf8EncodeChar]
        exact hmore c (ih hdepth)

theorem skipOptions_eq (h : LeftAt line pos rest) (hblank : Mirror.skipWs rest = rest) :
    ∃ n, skipOptions line pos = some n ∧
      LeftAt line n (Mirror.skipWs (Mirror.skipOptions rest)) := by
  have hhead : (bytes rest).head? = some 91 ↔ rest.head? = some '[' :=
    head?_bytes '[' (by decide) rest
  rw [skipOptions, Mirror.skipOptions, bytesFrom, h.drop_bytes]
  by_cases hopen : rest.head? = some '['
  · rw [if_pos hopen, if_pos (hhead.mpr hopen)]
    obtain ⟨tail, rfl⟩ : ∃ tail, rest = '[' :: tail := by
      cases rest with
      | nil => cases hopen
      | cons c tail => exact ⟨tail, by rw [Option.some.inj hopen]⟩
    obtain ⟨n, hn, hleft⟩ := skipBrackets_bytes (Nat.succ_pos 0) tail
    rw [bytes_cons, utf8_bracket.1, List.singleton_append, skipBrackets, if_pos rfl, hn,
      Mirror.skipBrackets, if_pos rfl]
    exact ⟨_, rfl, leftAt_skipWs (h.trans hleft.cons)⟩
  · rw [if_neg hopen, if_neg fun hb => hopen (hhead.mp hb), hblank]
    exact ⟨pos, rfl, h⟩

theorem takeUri_eq (h : LeftAt line pos rest) :
    takeUri line pos = some ((Mirror.takeUri rest).map fun t => (pos, pos + size t.1)) := by
  have hsub : sub line pos (size line) = some rest := by
    rw [← h.le_size]
    have hwhole : LeftAt line pos (rest ++ []) := by rwa [List.append_nil]
    exact hwhole.sub
  rw [takeUri, hsub, Option.bind_eq_bind, Option.bind_some, Mirror.takeUri]
  split
  · rename_i hcdrom
    -- the six characters of the scheme are six bytes
    obtain ⟨label, rfl⟩ := List.isPrefixOf_iff_prefix.mp hcdrom
    have hlabel : LeftAt ("cdrom:".toList ++ label) 6 label := ⟨"cdrom:".toList, rfl, rfl⟩
    have hdrop : ("cdrom:".toList ++ label).drop 6 = label := rfl
    have hend := cdromEnd_bytes 0 label
    rw [hlabel.drop_bytes, hdrop]
    generalize cdromEnd 0 (bytes label) = e at hend ⊢
    generalize behindCdrom 0 label = found at hend ⊢
    cases hend with
    | none => rfl
    | some hleft =>
      rw [Option.map_some, Option.map_some, Option.map_some, (hlabel.trans hleft).size_take]
  · rw [takeToken_eq h]

end Brackets

section Places

def byteAt (text : Text) (n : ℕ) : ℕ := size (text.take n)

def uriInBytes (text : Text) (u : Uri) : Uri :=
  { u with start := byteAt text u.start, stop := byteAt text u.stop }

def entryInBytes (text : Text) (e : AptEntry) : AptEntry :=
  { e with
    start := byteAt text e.start
    stop := byteAt text e.stop
    uris := e.uris.map (uriInBytes text) }

theorem uriInBytes_uriAt {token behind : Text} (h : LeftAt line pos (token ++ behind)) :
    uriInBytes line (uriAt line (token, token ++ behind)) = ⟨token, pos, pos + size token⟩ := by
  have hlen : (token ++ behind).length ≤ line.length := by
    obtain ⟨front, rfl, -⟩ := h
    rw [front.length_append]
    omega
  have hstop : line.length - (token ++ behind).length + token.length =
      line.length - behind.length := by
    rw [List.length_append] at hlen ⊢
    omega
  rw [uriInBytes, uriAt]
  dsimp only
  rw [hstop, byteAt, byteAt, h.size_take, h.add.size_take]

theorem tokensFrom_eq {gs : List (Text × Text)} {tail : Text} {fuel : ℕ} (hs : Spaced gs tail)
    (h : LeftAt line pos (joined gs tail)) (hfuel : gs.length < fuel) :
    tokensFrom fuel line pos =
      some ((listed gs tail).map fun t => uriInBytes line (uriAt line t)) := by
  induction gs generalizing pos fuel with
  | nil =>
    obtain ⟨fuel, rfl⟩ : ∃ n, fuel = n + 1 := ⟨fuel - 1, by omega⟩
    have hnone : Mirror.takeToken (Mirror.skipWs (joined [] tail)) = none := hs
    rw [tokensFrom, takeToken_eq (leftAt_skipWs h), hnone]
    rfl
  | cons g gs ih =>
    obtain ⟨fuel, rfl⟩ : ∃ n, fuel = n + 1 := ⟨fuel - 1, by omega⟩
    obtain ⟨hgap, hne, htoken, hend, hrest⟩ := hs
    have hleft := leftAt_skipWs h
    rw [joined, skipWs_append hgap, skipWs_token hne htoken] at hleft
    rw [tokensFrom, takeToken_eq hleft, takeToken_append hne htoken hend, Option.map_some]
    dsimp only
    rw [hleft.sub, Option.bind_eq_bind, Option.bind_some,
      ih hrest hleft.add (Nat.lt_of_succ_lt_succ hfuel), listed, List.map_cons,
      uriInBytes_uriAt hleft]
    rfl

theorem tokens_eq (h : LeftAt line pos rest) : tokens line pos =
    some ((Mirror.tokens rest).map fun t => uriInBytes line (uriAt line t)) := by
  obtain ⟨gs, tail, rfl, hs⟩ := exists_spaced rest
  have hlen := length_le_joined hs
  have hsize := length_le_size (joined gs tail)
  have hle := h.le_size
  rw [tokens_joined hs]
  exact tokensFrom_eq hs h (by omega)

theorem collectTokens_eq (h : LeftAt line pos rest) :
    collectTokens line pos = some (Mirror.collectTokens rest) := by
  rw [collectTokens, tokens_eq h, Option.map_some, List.map_map, Mirror.collectTokens]
  rfl

end Places

section OneLine

def isLeadByte (b : UInt8) : Bool := isAsciiWhitespaceByte b || b = 35

theorem skipComment_eq (enabled : Bool) (bs : Bytes) :
    skipComment enabled bs = (enabled && !(bs.takeWhile isLeadByte).contains 35,
      (bs.takeWhile isLeadByte).length) := by
  induction bs generalizing enabled with
  | nil => simp [skipComment]
  | cons b bs ih =>
    rw [skipComment, List.takeWhile_cons]
    by_cases hblank : isAsciiWhitespaceByte b = true
    · have hne : (35 == b) = false := by
        rw [beq_eq_false_iff_ne]
        rintro rfl
        revert hblank
        decide
      have hlead : isLeadByte b = true := by rw [isLeadByte, hblank, Bool.true_or]
      rw [if_pos hblank, ih, if_pos hlead, List.contains_cons, hne, Bool.false_or,
        List.length_cons]
    · by_cases hhash : b = 35
      · have hlead : isLeadByte 35 = true := by decide
        subst hhash
        rw [if_neg hblank, if_pos rfl, ih, if_pos hlead, List.contains_cons, List.length_cons]
        simp
      · have hlead : ¬ isLeadByte b = true := by simp [isLeadByte, hblank, hhash]
        rw [if_neg hblank, if_neg hhash, if_neg hlead]
        simp

theorem skipComment_bytes (enabled : Bool) (text : Text) :
    (skipComment enabled (bytes text)).1 = (Mirror.skipComment enabled text).1 ∧
      LeftAt text (skipComment enabled (bytes text)).2 (Mirror.skipComment enabled text).2 := by
  have hhash : Agrees _ (fun c => c = '#') := agrees_eq (by decide)
  have hlead : Agrees isLeadByte isLead := agrees_whitespace.or hhash
  obtain ⟨-, hleft⟩ := (leftAt_zero text).takeWhile hlead
  rw [skipComment_eq, Mirror.skipComment_eq, takeWhile_bytes hlead]
  constructor
  · have hmem : (bytes (text.takeWhile isLead)).contains 35 =
        (text.takeWhile isLead).contains '#' := by
      rw [Bool.eq_iff_iff, List.contains_iff_mem, List.contains_iff_mem]
      exact mem_bytes '#' (by decide) _
    rw [hmem]
  · rwa [Nat.zero_add] at hleft

theorem byteAt_zero (text : Text) : byteAt text 0 = 0 := rfl

theorem byteAt_length (text : Text) : byteAt text text.length = size text := by
  rw [byteAt, List.take_length]

theorem parseOneLineEntry_bytes (line : Text) : parseOneLineEntry line =
    some (entryInBytes line (Mirror.parseOneLineEntry line).1,
      (Mirror.parseOneLineEntry line).2) := by
  obtain ⟨henabled, hstart⟩ := skipComment_bytes true line
  rw [parseOneLineEntry, Mirror.parseOneLineEntry_eq]
  generalize hscan : skipComment true (bytes line) = scan at henabled hstart ⊢
  generalize hcscan : Mirror.skipComment true line = cscan at henabled hstart ⊢
  obtain ⟨enabled, typeStart⟩ := scan
  obtain ⟨enabled', rest⟩ := cscan
  dsimp only at henabled hstart ⊢
  subst henabled
  have hblank : Agrees (fun b => !(isAsciiWhitespaceByte b)) isNotBlank := agrees_whitespace.not
  obtain ⟨hbytes, hstop⟩ := hstart.takeWhile hblank
  have htype : sub line typeStart (typeStart + size (rest.takeWhile isNotBlank)) =
      some (rest.takeWhile isNotBlank) := by
    apply LeftAt.sub
    rwa [List.takeWhile_append_dropWhile]
  rw [bytesFrom, hbytes, ← size, htype, Option.bind_eq_bind, Option.bind_some]
  split
  · obtain ⟨n, hn, hleft⟩ := skipOptions_eq (leftAt_skipWs hstop) (List.dropWhile_idempotent ..)
    have hhead : LeftAt line n (behindHead rest) := hleft
    rw [hn, Option.bind_eq_bind, Option.bind_some, takeUri_eq hhead, Option.bind_eq_bind,
      Option.bind_some]
    cases huri : Mirror.takeUri (behindHead rest) with
    | none =>
      rw [Option.map_none, entryInBytes, byteAt_zero, byteAt_length]
      rfl
    | some found =>
      obtain ⟨uri, behind⟩ := found
      obtain ⟨hcut, -⟩ := takeUri_spec huri
      rw [hcut] at hhead
      have hplace := uriInBytes_uriAt hhead
      rw [Option.map_some]
      dsimp only
      rw [hhead.sub, Option.bind_eq_bind, Option.bind_some, tokens_eq hhead.add,
        Option.bind_some, entryInBytes, byteAt_zero, byteAt_length, hcut,
        List.map_cons, List.map_cons, hplace]
      simp only [← List.map_take, ← List.map_drop, List.filter_map, List.map_map]
      rfl
  · rw [entryInBytes, byteAt_zero, byteAt_length]
    rfl

end OneLine

section Pieces

theorem byteAt_append {front text back : Text} {k : ℕ} (hk : k ≤ text.length) :
    byteAt (front ++ (text ++ back)) (k + front.length) = byteAt text k + size front := by
  rw [byteAt, Nat.add_comm, List.take_length_add_append, List.take_append_of_le_length hk,
    size_append, byteAt, Nat.add_comm]

theorem uriInBytes_shift {front text back : Text} {u : Uri} (hstart : u.start ≤ text.length)
    (hstop : u.stop ≤ text.length) :
    uriInBytes (front ++ (text ++ back)) (u.shift front.length) =
      (uriInBytes text u).shift (size front) := by
  rw [uriInBytes, uriInBytes, Uri.shift, Uri.shift]
  dsimp only
  rw [byteAt_append hstart, byteAt_append hstop]

theorem entryInBytes_shift (format : Format) (front text back : Text) :
    entryInBytes (front ++ (text ++ back)) ((readPiece format text).shift front.length) =
      (entryInBytes text (readPiece format text)).shift (size front) := by
  obtain ⟨-, hstart, hstop⟩ := readPiece_frame format text
  have huris : (readPiece format text).uris.map
      (uriInBytes (front ++ (text ++ back)) ∘ Uri.shift front.length) =
        (readPiece format text).uris.map (Uri.shift (size front) ∘ uriInBytes text) := by
    apply List.map_congr_left
    intro u hu
    obtain ⟨-, hlt, hle⟩ := uri_bounds (List.mem_map_of_mem (f := Uri.shift 0) hu)
    rw [Uri.shift] at hlt hle
    dsimp only at hlt hle
    exact uriInBytes_shift (by omega) (by omega)
  rw [entryInBytes, entryInBytes, AptEntry.shift, AptEntry.shift]
  dsimp only
  rw [hstart, hstop, byteAt_append (Nat.zero_le _), byteAt_append (le_refl _), List.map_map,
    List.map_map, huris]

theorem oneLineFrom_eq (front : Text) (number : ℕ) (lines : List Text) :
    oneLineFrom (size front) number lines =
      some ((Mirror.oneLineFrom front.length number lines).map fun p =>
        (entryInBytes (front ++ lines.flatten) p.1, p.2)) := by
  induction lines generalizing front number with
  | nil => rfl
  | cons line lines ih =>
    have hmore := ih (front ++ line) (number + 1)
    have hentry := entryInBytes_shift .oneLine front line lines.flatten
    rw [size_append, List.length_append, List.append_assoc] at hmore
    rw [readPiece] at hentry
    rw [oneLineFrom, parseOneLineEntry_bytes, Option.bind_eq_bind, Option.bind_some]
    dsimp only
    rw [hmore, Option.bind_eq_bind, Option.bind_some, Mirror.oneLineFrom, List.map_cons, List.flatten_cons]
    dsimp only
    rw [hentry]

end Pieces

section Stanzas

variable {stanza front back : Text} {s : Stanza}

theorem mem_tokens {t : Text × Text} (h : t ∈ Mirror.tokens rest) :
    ∃ before behind, rest = before ++ (t.1 ++ behind) ∧ t.2 = t.1 ++ behind := by
  obtain ⟨gs, tail, rfl, hs⟩ := exists_spaced rest
  rw [tokens_joined hs] at h
  clear hs
  induction gs with
  | nil => cases h
  | cons g gs ih =>
    rcases List.mem_cons.mp h with rfl | h
    · exact ⟨g.1, joined gs tail, rfl, rfl⟩
    · obtain ⟨before, behind, hrest, htoken⟩ := ih h
      refine ⟨g.1 ++ (g.2 ++ before), behind, ?_, htoken⟩
      rw [joined, hrest]
      simp only [List.append_assoc]

def stanzaInBytes (stanza : Text) (s : Stanza) : Stanza :=
  { s with entry := entryInBytes stanza s.entry, offset := byteAt stanza s.offset }

theorem readField_eq {value name : Text} {colon : ℕ} {entry : AptEntry} {hasUris : Bool}
    (hcolon : LeftAt line (colon + 1) value) :
    readField (entryInBytes (front ++ (line ++ back)) entry) hasUris (size front) line name colon =
      some (entryInBytes (front ++ (line ++ back))
          (Mirror.readField entry hasUris front.length line name value).1,
        (Mirror.readField entry hasUris front.length line name value).2) := by
  have hfound : ((Mirror.tokens value).map fun t => uriInBytes line (uriAt line t)).map
      (Uri.shift (size front)) =
        ((Mirror.tokens value).map fun t => (uriAt line t).shift front.length).map
          (uriInBytes (front ++ (line ++ back))) := by
    rw [List.map_map, List.map_map]
    apply List.map_congr_left
    intro t ht
    obtain ⟨before, behind, hvalue, htoken⟩ := mem_tokens ht
    have hbound : (uriAt line t).stop ≤ line.length := by
      obtain ⟨lead, hline, -⟩ := hcolon
      have hlen := congrArg List.length hline
      rw [hvalue] at hlen
      simp only [List.length_append] at hlen
      rw [uriAt]
      dsimp only
      rw [htoken, List.length_append]
      omega
    have hle : (uriAt line t).start ≤ (uriAt line t).stop := Nat.le_add_right ..
    exact (uriInBytes_shift (hle.trans hbound) hbound).symm
  rw [readField, Mirror.readField, collectTokens_eq hcolon, tokens_eq hcolon]
  split
  · rfl
  · split
    · rw [Option.bind_eq_bind, Option.bind_some, hfound, entryInBytes, entryInBytes]
      dsimp only
      rw [List.map_append]
    · split
      · rfl
      · split
        · rfl
        · rfl

theorem colonAt_spec {n : ℕ} (h : find ":".toList line = some n) :
    sub line 0 (size (line.take n)) = some (line.take n) ∧
      LeftAt line (size (line.take n) + 1) (line.drop (n + 1)) := by
  obtain ⟨⟨value, hvalue⟩, -⟩ := find_spec h
  have hcut := List.take_append_drop n line
  rw [← hvalue] at hcut
  have hstart : LeftAt line 0 (line.take n ++ (":".toList ++ value)) := by
    rw [hcut]
    exact leftAt_zero line
  have hdrop : line.drop (n + 1) = value := by
    rw [← List.drop_drop, ← hvalue]
    rfl
  have hname := hstart.sub
  rw [Nat.zero_add] at hname
  have hbehind := hstart.add.add
  rw [Nat.zero_add] at hbehind
  rw [hdrop]
  exact ⟨hname, hbehind⟩

theorem readLine_eq (hoffset : s.offset = front.length) :
    readLine (stanzaInBytes (front ++ (line ++ back)) s) line =
      some (stanzaInBytes (front ++ (line ++ back)) (Mirror.readLine s line)) := by
  have hhere : byteAt (front ++ (line ++ back)) s.offset = size front := by
    have h : byteAt (front ++ (line ++ back)) (0 + front.length) = byteAt line 0 + size front :=
      byteAt_append (Nat.zero_le _)
    rwa [Nat.zero_add, byteAt_zero, Nat.zero_add, ← hoffset] at h
  have hnext : byteAt (front ++ (line ++ back)) (s.offset + line.length) =
      size front + size line := by
    rw [hoffset, Nat.add_comm, byteAt_append (le_refl _), byteAt_length, Nat.add_comm]
  rw [readLine, Mirror.readLine, stanzaInBytes]
  dsimp only
  rw [hhere]
  split
  · rw [stanzaInBytes]
    dsimp only
    rw [hnext]
  · rw [colonAt, fieldOf, splitOnce]
    cases hfind : find ":".toList line with
    | none =>
      rw [Option.map_none, Option.map_none, stanzaInBytes]
      dsimp only
      rw [hnext]
    | some n =>
      obtain ⟨hname, hcolon⟩ := colonAt_spec hfind
      rw [Option.map_some, Option.map_some]
      dsimp only
      rw [hname, Option.bind_eq_bind, Option.bind_some]
      split
      · rw [stanzaInBytes]
        dsimp only
        rw [hnext]
      · rw [readField_eq hcolon, Option.bind_eq_bind, Option.bind_some, stanzaInBytes]
        dsimp only
        rw [hnext, hoffset]
        rfl

theorem readLines_eq (lines : List Text) (hoffset : s.offset = front.length) :
    readLines (stanzaInBytes (front ++ lines.flatten) s) lines =
      some (stanzaInBytes (front ++ lines.flatten) (lines.foldl Mirror.readLine s)) := by
  induction lines generalizing front s with
  | nil => rfl
  | cons line lines ih =>
    have hnext : (Mirror.readLine s line).offset = (front ++ line).length := by
      rw [readLine_offset, hoffset, List.length_append]
    have hmore := ih hnext
    rw [List.append_assoc] at hmore
    rw [readLines, List.flatten_cons, readLine_eq hoffset, Option.bind_eq_bind, Option.bind_some,
      hmore]
    rfl

theorem parseDeb822Stanza_eq (stanza : Text) : parseDeb822Stanza stanza =
    some (entryInBytes stanza (Mirror.parseDeb822Stanza stanza).1,
      (Mirror.parseDeb822Stanza stanza).2) := by
  have hlines := readLines_eq (splitInclusive '\n' stanza)
    (show (Mirror.emptyStanza stanza).offset = ([] : Text).length from rfl)
  rw [List.nil_append, flatten_splitInclusive] at hlines
  have hempty : emptyStanza stanza = stanzaInBytes stanza (Mirror.emptyStanza stanza) := by
    rw [stanzaInBytes, Mirror.emptyStanza, entryInBytes]
    dsimp only
    rw [byteAt_zero, byteAt_length]
    rfl
  rw [parseDeb822Stanza, hempty, hlines]
  rfl

theorem closeStanza_eq (front back : Text) (number : ℕ) :
    closeStanza (front ++ (stanza ++ back)) (size front) (size front + size stanza) number =
      some ((Mirror.closeStanza front.length number stanza).map fun p =>
        (entryInBytes (front ++ (stanza ++ back)) p.1, p.2)) := by
  have hsize : size front < size front + size stanza ↔ ¬ stanza = [] := by
    rw [← size_eq_zero_iff]
    omega
  rw [closeStanza, Mirror.closeStanza, sub_append]
  by_cases hnil : stanza = []
  · rw [if_neg fun h => hsize.mp h hnil, if_pos hnil]
    rfl
  · have hentry := entryInBytes_shift .deb822 front stanza back
    rw [readPiece] at hentry
    rw [if_pos (hsize.mpr hnil), if_neg hnil, Option.bind_eq_bind, Option.bind_some,
      parseDeb822Stanza_eq, Option.bind_eq_bind, Option.bind_some]
    dsimp only
    rw [List.map_singleton, hentry]

theorem deb822From_eq (number : ℕ) (front stanza : Text) (count : ℕ) (lines : List Text) :
    deb822From (front ++ (stanza ++ lines.flatten)) (size front) (size front + size stanza) number
        count lines =
      some ((Mirror.deb822From front.length number stanza count lines).map fun p =>
        (entryInBytes (front ++ (stanza ++ lines.flatten)) p.1, p.2)) := by
  induction lines generalizing number front stanza count with
  | nil =>
    have hsize : size (front ++ (stanza ++ ([] : List Text).flatten)) =
        size front + size stanza := by
      rw [List.flatten_nil, List.append_nil, size_append]
    rw [deb822From, hsize]
    exact closeStanza_eq front _ number
  | cons line lines ih =>
    rw [deb822From, Mirror.deb822From, List.flatten_cons]
    split
    · -- the blank line ends the stanza, and the next one begins behind it
      have hmore := ih (number + count + 1) (front ++ (stanza ++ line)) [] 0
      rw [size_nil, Nat.add_zero, List.nil_append, size_append, size_append, List.length_append,
        List.length_append, List.append_assoc, List.append_assoc, ← Nat.add_assoc,
        ← Nat.add_assoc] at hmore
      rw [closeStanza_eq, Option.bind_eq_bind, Option.bind_some, hmore, Option.bind_some,
        List.map_append]
    · have hmore := ih number front (stanza ++ line) (count + 1)
      rw [size_append, List.append_assoc, ← Nat.add_assoc] at hmore
      exact hmore

end Stanzas

theorem parseSources_eq (content : Text) :
    parseSources content = some ((Mirror.parseSources content).map (entryInBytes content)) := by
  have hflat := flatten_splitInclusive '\n' content
  have hparse : parseAs (formatOf content) content =
      some ((Mirror.parseAs (formatOf content) content).map fun p =>
        (entryInBytes content p.1, p.2)) := by
    cases formatOf content with
    | oneLine =>
      have h := oneLineFrom_eq [] 0 (splitInclusive '\n' content)
      rwa [List.nil_append, hflat] at h
    | deb822 =>
      have h := deb822From_eq 0 [] [] 0 (splitInclusive '\n' content)
      rwa [List.nil_append, List.nil_append, hflat] at h
  rw [parseSources, hparse, Option.map_some, Mirror.parseSources,
    Mirror.parseSourcesWithDiagnostics]
  dsimp only
  rw [List.map_map, List.map_map]
  rfl

end LandscapeKit.Mirror.Bytewise
