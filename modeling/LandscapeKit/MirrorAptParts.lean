import LandscapeKit.MirrorAptUri

/-!
Two views of a text. Its parts say which pieces are URIs, so that rewriting replaces parts and
the spans of the URIs follow from the parts in front. The tokens of a line come with the blanks
before them, and reading the line again finds the same tokens.
-/

namespace LandscapeKit.Mirror

open Text Splice

section Parts

structure Part where
  isUri : Bool
  text : Text

def partsText (ps : List Part) : Text := (ps.map Part.text).flatten

def urisFrom : ℕ → List Part → List Uri
  | _, [] => []
  | n, p :: ps =>
    if p.isUri then ⟨p.text, n, n + p.text.length⟩ :: urisFrom (n + p.text.length) ps
    else urisFrom (n + p.text.length) ps

variable (pairs : List (Text × Text))

def movedPart (p : Part) : Part :=
  if p.isUri then { p with text := rewrittenUri pairs p.text } else p

def movedParts (ps : List Part) : List Part := ps.map (movedPart pairs)

def uriEdit (u : Uri) : Option (Edit Char) :=
  (rewriteUri pairs u.value).map fun new => ⟨u.start, u.stop, new⟩

def partEdits (p : Part) : List (Edit Char) :=
  if p.isUri then ((rewriteUri pairs p.text).map fun new => ⟨0, p.text.length, new⟩).toList else []

@[simp]
theorem partsText_nil : partsText [] = [] := rfl

@[simp]
theorem partsText_cons (p : Part) (ps : List Part) :
    partsText (p :: ps) = p.text ++ partsText ps := rfl

@[simp]
theorem partsText_append (ps qs : List Part) :
    partsText (ps ++ qs) = partsText ps ++ partsText qs := by
  rw [partsText, List.map_append, List.flatten_append]
  rfl

@[simp]
theorem movedParts_append (ps qs : List Part) :
    movedParts pairs (ps ++ qs) = movedParts pairs ps ++ movedParts pairs qs := List.map_append

theorem urisFrom_append (n : ℕ) (ps qs : List Part) :
    urisFrom n (ps ++ qs) = urisFrom n ps ++ urisFrom (n + (partsText ps).length) qs := by
  induction ps generalizing n with
  | nil => rfl
  | cons p ps ih =>
    rw [List.cons_append, urisFrom, urisFrom, ih, partsText_cons, List.length_append,
      ← Nat.add_assoc]
    split
    · rw [List.cons_append]
    · rfl

theorem urisFrom_shift (n k : ℕ) (ps : List Part) :
    (urisFrom n ps).map (Uri.shift k) = urisFrom (n + k) ps := by
  induction ps generalizing n with
  | nil => rfl
  | cons p ps ih =>
    rw [urisFrom, urisFrom, Nat.add_right_comm n k]
    split
    · rw [List.map_cons, ih, Uri.shift, Nat.add_right_comm n _ k]
    · exact ih _

theorem urisFrom_value (n : ℕ) (ps : List Part) :
    (urisFrom n ps).map Uri.value = (ps.filter Part.isUri).map Part.text := by
  induction ps generalizing n with
  | nil => rfl
  | cons p ps ih =>
    rw [urisFrom, List.filter_cons]
    split <;> simp [ih]

theorem filterMap_uriEdit (n : ℕ) (ps : List Part) :
    (urisFrom n ps).filterMap (uriEdit pairs) =
      laid n (ps.map fun p => (p.text, partEdits pairs p)) := by
  induction ps generalizing n with
  | nil => rfl
  | cons p ps ih =>
    rw [urisFrom, List.map_cons, laid, partEdits]
    dsimp only
    split
    · rw [List.filterMap_cons, uriEdit]
      cases rewriteUri pairs p.text with
      | none => simpa using ih _
      | some new => simpa [Edit.shift, Nat.add_comm] using ih _
    · simpa using ih _

theorem partEdits_fits (p : Part) : Fits 0 p.text.length (partEdits pairs p) := by
  rw [partEdits]
  split
  · cases rewriteUri pairs p.text with
    | none => exact Nat.zero_le _
    | some new => exact ⟨le_refl 0, Nat.zero_le _, le_refl _⟩
  · exact Nat.zero_le _

theorem splice_partEdits (p : Part) : splice p.text (partEdits pairs p) = (movedPart pairs p).text := by
  rw [partEdits, movedPart]
  split
  · rw [rewrittenUri]
    cases rewriteUri pairs p.text with
    | none => exact splice_nil _
    | some new => exact splice_whole _ _
  · exact splice_nil _

theorem splice_parts (ps : List Part) :
    splice (partsText ps) ((urisFrom 0 ps).filterMap (uriEdit pairs)) =
      partsText (movedParts pairs ps) := by
  have hfits : ∀ q ∈ ps.map fun p => (p.text, partEdits pairs p), Fits 0 q.1.length q.2 := by
    intro q hq
    obtain ⟨p, -, rfl⟩ := List.mem_map.mp hq
    exact partEdits_fits pairs p
  have hlaid := splice_laid hfits
  simp only [List.map_map] at hlaid
  rw [filterMap_uriEdit, partsText]
  refine Eq.trans hlaid ?_
  rw [partsText, movedParts, List.map_map]
  congr 1
  apply List.map_congr_left
  intro p _
  exact splice_partEdits pairs p

theorem uriEdits_fits (n : ℕ) (ps : List Part) :
    Fits n (n + (partsText ps).length) ((urisFrom n ps).filterMap (uriEdit pairs)) := by
  rw [filterMap_uriEdit]
  have hfits : ∀ q ∈ ps.map fun p => (p.text, partEdits pairs p), Fits 0 q.1.length q.2 := by
    intro q hq
    obtain ⟨p, -, rfl⟩ := List.mem_map.mp hq
    exact partEdits_fits pairs p
  have hlaid := laid_fits (n := n) hfits
  simp only [List.map_map] at hlaid
  exact hlaid

def Unbroken (t : Text) : Prop := t ≠ [] ∧ '\n' ∉ t

def Swaps (p q : Part) : Prop :=
  q.isUri = p.isUri ∧ if p.isUri then Unbroken p.text ∧ Unbroken q.text else q.text = p.text

theorem getLast?_unbroken {t : Text} (h : Unbroken t) : t.getLast? ≠ some '\n' :=
  fun hlast => h.2 (List.mem_of_getLast? hlast)

theorem getLast?_cases {t t' : Text} (hnil : t' = [] ↔ t = [])
    (hlast : t'.getLast? = some '\n' ↔ t.getLast? = some '\n') (a a' : Option Char)
    (h : t = [] → (a' = some '\n' ↔ a = some '\n')) :
    t'.getLast?.or a' = some '\n' ↔ t.getLast?.or a = some '\n' := by
  rcases eq_or_ne t [] with ht | ht
  · rw [ht, hnil.mpr ht]
    exact h ht
  · obtain ⟨c, hc⟩ := Option.ne_none_iff_exists'.mp (mt List.getLast?_eq_none_iff.mp ht)
    obtain ⟨d, hd⟩ := Option.ne_none_iff_exists'.mp
      (mt List.getLast?_eq_none_iff.mp (mt hnil.mp ht))
    rw [hc, hd] at hlast
    rw [hc, hd, Option.some_or, Option.some_or]
    exact hlast

theorem swaps_ends {ps qs : List Part} (h : List.Forall₂ Swaps ps qs) :
    (partsText qs).count '\n' = (partsText ps).count '\n' ∧
      (partsText qs = [] ↔ partsText ps = []) ∧
      ((partsText qs).getLast? = some '\n' ↔ (partsText ps).getLast? = some '\n') := by
  induction h with
  | nil => simp
  | @cons p q ps qs hpq _ ih =>
    obtain ⟨hcount, hnil, hlast⟩ := ih
    obtain ⟨-, htext⟩ := hpq
    rw [partsText_cons, partsText_cons, List.count_append, List.count_append, hcount,
      List.getLast?_append, List.getLast?_append, List.append_eq_nil_iff, List.append_eq_nil_iff,
      hnil]
    split at htext
    · obtain ⟨hp, hq⟩ := htext
      rw [List.count_eq_zero.mpr hp.2, List.count_eq_zero.mpr hq.2]
      refine ⟨rfl, by simp [hp.1, hq.1], ?_⟩
      refine getLast?_cases hnil hlast _ _ fun _ => ?_
      simp [getLast?_unbroken hp, getLast?_unbroken hq]
    · rw [htext]
      exact ⟨rfl, Iff.rfl, getLast?_cases hnil hlast _ _ fun _ => Iff.rfl⟩

theorem replaces_of_swaps {ps qs : List Part} (h : List.Forall₂ Swaps ps qs) :
    Replaces '\n' (partsText ps) (some (partsText qs)) := by
  obtain ⟨hcount, hnil, hlast⟩ := swaps_ends h
  constructor
  · intro hline
    rw [isLine_iff] at hline ⊢
    exact ⟨hlast.mpr hline.1, hcount.trans hline.2⟩
  · intro ⟨hne, hopen⟩
    refine ⟨fun hn => hne (hnil.mp hn), ?_⟩
    rw [← List.count_eq_zero, hcount]
    exact List.count_eq_zero.mpr hopen

theorem swaps_movedPart {pairs : List (Text × Text)} (hgood : GoodPairs pairs) {p : Part}
    (h : p.isUri = true → Unbroken p.text) : Swaps p (movedPart pairs p) := by
  rw [movedPart]
  split
  · rename_i huri
    obtain ⟨hne, hbreak⟩ := h huri
    refine ⟨rfl, ?_⟩
    rw [if_pos huri]
    refine ⟨h huri, ?_, ?_⟩
    · intro hnil
      have hhead := head?_rewrittenUri hgood p.text
      dsimp only at hnil
      rw [hnil] at hhead
      exact hne (List.head?_eq_none_iff.mp hhead.symm)
    · intro hmem
      rcases mem_rewrittenUri hgood hmem with hmem | htoken
      · exact hbreak hmem
      · exact absurd htoken (by decide)
  · rename_i huri
    refine ⟨rfl, ?_⟩
    rw [if_neg huri]

end Parts

section Tokens

def joined : List (Text × Text) → Text → Text
  | [], tail => tail
  | g :: gs, tail => g.1 ++ (g.2 ++ joined gs tail)

def listed : List (Text × Text) → Text → List (Text × Text)
  | [], _ => []
  | g :: gs, tail => (g.2, g.2 ++ joined gs tail) :: listed gs tail

def Spaced : List (Text × Text) → Text → Prop
  | [], tail => takeToken (skipWs tail) = none
  | g :: gs, tail => (∀ c ∈ g.1, isAsciiWhitespace c = true) ∧ g.2 ≠ [] ∧
      (∀ c ∈ g.2, isTokenChar c = true) ∧ (∀ c ∈ (joined gs tail).head?, isTokenChar c = false) ∧
      Spaced gs tail

theorem takeToken_append {token behind : Text} (hne : token ≠ [])
    (htoken : ∀ c ∈ token, isTokenChar c = true)
    (hbehind : ∀ c ∈ behind.head?, isTokenChar c = false) :
    takeToken (token ++ behind) = some (token, behind) := by
  have hend : behind.takeWhile isTokenChar = [] ∧ behind.dropWhile isTokenChar = behind := by
    cases behind with
    | nil => exact ⟨rfl, rfl⟩
    | cons c behind =>
      have hc := hbehind c rfl
      simp [hc]
  rw [takeToken, List.takeWhile_append_of_pos htoken, List.dropWhile_append_of_pos htoken, hend.1,
    hend.2, List.append_nil, if_neg hne]

theorem takeToken_spec {rest token behind : Text} (h : takeToken rest = some (token, behind)) :
    rest = token ++ behind ∧ token ≠ [] ∧ (∀ c ∈ token, isTokenChar c = true) ∧
      ∀ c ∈ behind.head?, isTokenChar c = false := by
  rw [takeToken] at h
  split at h
  · cases h
  · rename_i hne
    cases h
    refine ⟨List.takeWhile_append_dropWhile.symm, hne, fun c hc => List.mem_takeWhile_imp hc, ?_⟩
    intro c hc
    have hhead := List.head?_dropWhile_not isTokenChar rest
    rw [Option.mem_def.mp hc] at hhead
    simpa using hhead

theorem skipWs_append {gap rest : Text} (h : ∀ c ∈ gap, isAsciiWhitespace c = true) :
    skipWs (gap ++ rest) = skipWs rest := List.dropWhile_append_of_pos h

theorem isAsciiWhitespace_of_token {c : Char} (h : isTokenChar c = true) :
    isAsciiWhitespace c = false := by
  rw [isTokenChar, Bool.and_eq_true, Bool.not_eq_true'] at h
  exact h.1

theorem skipWs_token {token rest : Text} (hne : token ≠ [])
    (h : ∀ c ∈ token, isTokenChar c = true) : skipWs (token ++ rest) = token ++ rest := by
  cases token with
  | nil => exact absurd rfl hne
  | cons c token =>
    have hc := isAsciiWhitespace_of_token (h c (List.mem_cons_self ..))
    exact List.dropWhile_cons_of_neg (by simp [hc])

theorem tokensFrom_joined {gs : List (Text × Text)} {tail : Text} (h : Spaced gs tail) {fuel : ℕ}
    (hfuel : gs.length ≤ fuel) : tokensFrom fuel (joined gs tail) = listed gs tail := by
  induction gs generalizing fuel with
  | nil =>
    cases fuel with
    | zero => rfl
    | succ fuel =>
      have hnone : takeToken (skipWs (joined [] tail)) = none := h
      rw [tokensFrom, hnone]
      rfl
  | cons g gs ih =>
    obtain ⟨h1, h2, h3, h4, h5⟩ := h
    cases fuel with
    | zero => exact absurd hfuel (Nat.not_succ_le_zero _)
    | succ fuel =>
      rw [tokensFrom, joined, skipWs_append h1, skipWs_token h2 h3, takeToken_append h2 h3 h4]
      dsimp only
      rw [ih h5 (Nat.le_of_succ_le_succ hfuel), listed]

theorem length_le_joined {gs : List (Text × Text)} {tail : Text} (h : Spaced gs tail) :
    gs.length ≤ (joined gs tail).length := by
  induction gs with
  | nil => exact Nat.zero_le _
  | cons g gs ih =>
    have hpos : 0 < g.2.length := List.length_pos_iff.mpr h.2.1
    have hle := ih h.2.2.2.2
    rw [joined, List.length_append, List.length_append, List.length_cons]
    omega

theorem tokens_joined {gs : List (Text × Text)} {tail : Text} (h : Spaced gs tail) :
    tokens (joined gs tail) = listed gs tail := tokensFrom_joined h (length_le_joined h)

theorem exists_spaced (rest : Text) : ∃ gs tail, rest = joined gs tail ∧ Spaced gs tail := by
  induction hn : rest.length using Nat.strong_induction_on generalizing rest with
  | _ n ih =>
    cases htoken : takeToken (skipWs rest) with
    | none => exact ⟨[], rest, rfl, htoken⟩
    | some found =>
      obtain ⟨token, behind⟩ := found
      obtain ⟨hrest, hne, hchars, hend⟩ := takeToken_spec htoken
      have hsplit : rest = rest.takeWhile isAsciiWhitespace ++ (token ++ behind) := by
        rw [← hrest]
        exact List.takeWhile_append_dropWhile.symm
      have hlt : behind.length < n := by
        have hlen := congrArg List.length hsplit
        have hpos : 0 < token.length := List.length_pos_iff.mpr hne
        rw [List.length_append, List.length_append] at hlen
        omega
      obtain ⟨gs, tail, hbehind, hspaced⟩ := ih behind.length hlt behind rfl
      refine ⟨(rest.takeWhile isAsciiWhitespace, token) :: gs, tail, ?_, ?_⟩
      · rw [joined, ← hbehind]
        exact hsplit
      · refine ⟨fun c hc => List.mem_takeWhile_imp hc, hne, hchars, ?_, hspaced⟩
        rw [← hbehind]
        exact hend

theorem listed_fst (gs : List (Text × Text)) (tail : Text) :
    (listed gs tail).map Prod.fst = gs.map Prod.snd := by
  induction gs with
  | nil => rfl
  | cons g gs ih => rw [listed, List.map_cons, List.map_cons, ih]

def tokenParts (mark : Text → Bool) (gs : List (Text × Text)) (tail : Text) : List Part :=
  gs.flatMap (fun g => [⟨false, g.1⟩, ⟨mark g.2, g.2⟩]) ++ [⟨false, tail⟩]

theorem tokenParts_cons (mark : Text → Bool) (g : Text × Text) (gs : List (Text × Text))
    (tail : Text) :
    tokenParts mark (g :: gs) tail = ⟨false, g.1⟩ :: ⟨mark g.2, g.2⟩ :: tokenParts mark gs tail :=
  rfl

theorem partsText_tokenParts (mark : Text → Bool) (gs : List (Text × Text)) (tail : Text) :
    partsText (tokenParts mark gs tail) = joined gs tail := by
  induction gs with
  | nil => simp [tokenParts, joined]
  | cons g gs ih => rw [tokenParts_cons, partsText_cons, partsText_cons, ih, joined]

theorem urisFrom_tokenParts {mark : Text → Bool} {gs : List (Text × Text)} {line tail : Text}
    {n : ℕ} (h : line.length = n + (joined gs tail).length) :
    urisFrom n (tokenParts mark gs tail) =
      ((listed gs tail).filter fun t => mark t.1).map (uriAt line) := by
  induction gs generalizing n with
  | nil => rfl
  | cons g gs ih =>
    rw [joined, List.length_append, List.length_append] at h
    have hstart : line.length - (g.2 ++ joined gs tail).length = n + g.1.length := by
      rw [List.length_append]
      omega
    have hrest := ih (n := n + g.1.length + g.2.length) (by omega)
    rw [tokenParts_cons, urisFrom, urisFrom, listed, List.filter_cons]
    simp only [Bool.false_eq_true, if_false]
    split
    · rw [List.map_cons, hrest, uriAt, hstart]
    · exact hrest

variable {pairs : List (Text × Text)}

def movedTokens (pairs : List (Text × Text)) (gs : List (Text × Text)) : List (Text × Text) :=
  gs.map fun g => (g.1, rewrittenUri pairs g.2)

theorem head?_joined_movedTokens (hgood : GoodPairs pairs) {gs : List (Text × Text)} {tail : Text}
    (h : Spaced gs tail) :
    (joined (movedTokens pairs gs) tail).head? = (joined gs tail).head? := by
  cases gs with
  | nil => rfl
  | cons g gs =>
    rw [movedTokens, List.map_cons, joined, joined, List.head?_append, List.head?_append,
      List.head?_append, List.head?_append, head?_rewrittenUri hgood]
    obtain ⟨c, token, htoken⟩ := List.exists_cons_of_ne_nil h.2.1
    rw [htoken]
    rfl

theorem spaced_movedTokens (hgood : GoodPairs pairs) {gs : List (Text × Text)} {tail : Text}
    (h : Spaced gs tail) : Spaced (movedTokens pairs gs) tail := by
  induction gs with
  | nil => exact h
  | cons g gs ih =>
    obtain ⟨h1, h2, h3, h4, h5⟩ := h
    refine ⟨h1, ?_, isTokenChar_rewrittenUri hgood h3, ?_, ih h5⟩
    · intro hnil
      have hhead := head?_rewrittenUri hgood g.2
      dsimp only at hnil
      rw [hnil] at hhead
      exact h2 (List.head?_eq_none_iff.mp hhead.symm)
    · have hhead := head?_joined_movedTokens hgood h5
      rw [movedTokens] at hhead
      rw [hhead]
      exact h4

theorem rewrittenUri_of_not_url {t : Text} (h : containsText "://".toList t = false) :
    rewrittenUri pairs t = t := by
  have hnone : splitOnce "://".toList t = none := by
    rw [containsText, Option.isSome_eq_false_iff, Option.isNone_iff_eq_none] at h
    rw [splitOnce, h, Option.map_none]
  rw [rewrittenUri, rewriteUri_eq, hnone]
  rfl

theorem movedParts_tokenParts {mark : Text → Bool}
    (hmark : ∀ t, mark t = false → rewrittenUri pairs t = t)
    (hkeep : ∀ t, mark (rewrittenUri pairs t) = mark t) (gs : List (Text × Text)) (tail : Text) :
    movedParts pairs (tokenParts mark gs tail) = tokenParts mark (movedTokens pairs gs) tail := by
  induction gs with
  | nil => rfl
  | cons g gs ih =>
    have hpart : movedPart pairs ⟨mark g.2, g.2⟩ =
        ⟨mark (rewrittenUri pairs g.2), rewrittenUri pairs g.2⟩ := by
      rw [movedPart, hkeep]
      dsimp only
      split
      · rfl
      · rename_i hno
        rw [hmark g.2 (by simpa using hno)]
    rw [tokenParts_cons, movedParts, List.map_cons, List.map_cons, ← movedParts, ih, hpart]
    rfl

end Tokens

end LandscapeKit.Mirror
