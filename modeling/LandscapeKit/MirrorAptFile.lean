import LandscapeKit.MirrorAptLine
import LandscapeKit.MirrorAptStanza

/-!
Files as pieces: lines, or stanzas and the blank lines between them. When pieces go, or change
inside their lines, the new file is cut into the pieces that are left.
-/

namespace LandscapeKit.Mirror

open Text Splice

section Pieces

structure Piece where
  text : Text
  isEntry : Bool
deriving DecidableEq

def closePiece (stanza : Text) : List Piece := if stanza = [] then [] else [⟨stanza, true⟩]

def stanzaPieces : Text → List Text → List Piece
  | stanza, [] => closePiece stanza
  | stanza, line :: lines =>
    if isBlankLine line then closePiece stanza ++ ⟨line, false⟩ :: stanzaPieces [] lines
    else stanzaPieces (stanza ++ line) lines

def piecesOf (format : Format) (content : Text) : List Piece :=
  match format with
  | .oneLine => (splitInclusive '\n' content).map fun line => ⟨line, true⟩
  | .deb822 => stanzaPieces [] (splitInclusive '\n' content)

def readPiece (format : Format) (text : Text) : AptEntry :=
  match format with
  | .oneLine => (parseOneLineEntry text).1
  | .deb822 => (parseDeb822Stanza text).1

def entriesFrom (format : Format) : ℕ → List Piece → List AptEntry
  | _, [] => []
  | n, p :: ps =>
    if p.isEntry then (readPiece format p.text).shift n :: entriesFrom format (n + p.text.length) ps
    else entriesFrom format (n + p.text.length) ps

theorem entriesFrom_append (format : Format) (n : ℕ) (ps qs : List Piece) :
    entriesFrom format n (ps ++ qs) =
      entriesFrom format n ps ++
        entriesFrom format (n + (ps.map Piece.text).flatten.length) qs := by
  induction ps generalizing n with
  | nil => rfl
  | cons p ps ih =>
    rw [List.cons_append, entriesFrom, entriesFrom, ih, List.map_cons, List.flatten_cons,
      List.length_append, ← Nat.add_assoc]
    split
    · rw [List.cons_append]
    · rfl

theorem oneLineFrom_eq (n number : ℕ) (lines : List Text) :
    (oneLineFrom n number lines).map Prod.fst =
      entriesFrom .oneLine n (lines.map fun line => ⟨line, true⟩) := by
  induction lines generalizing n number with
  | nil => rfl
  | cons line lines ih =>
    rw [oneLineFrom, List.map_cons, List.map_cons, ih]
    rfl

theorem closeStanza_eq (n number : ℕ) (stanza : Text) :
    (closeStanza n number stanza).map Prod.fst =
      entriesFrom .deb822 n (closePiece stanza) := by
  rw [closeStanza, closePiece]
  split <;> rfl

theorem closePiece_text (stanza : Text) :
    ((closePiece stanza).map Piece.text).flatten = stanza := by
  rw [closePiece]
  split
  · rename_i hempty
    exact hempty.symm
  · simp

theorem deb822From_eq (n number : ℕ) (stanza : Text) (k : ℕ) (lines : List Text) :
    (deb822From n number stanza k lines).map Prod.fst =
      entriesFrom .deb822 n (stanzaPieces stanza lines) := by
  induction lines generalizing n number stanza k with
  | nil => exact closeStanza_eq ..
  | cons line lines ih =>
    rw [deb822From, stanzaPieces]
    split
    · rw [List.map_append, closeStanza_eq, ih, entriesFrom_append, closePiece_text, entriesFrom]
      simp
    · exact ih ..

theorem parseAs_eq (format : Format) (content : Text) :
    (parseAs format content).map Prod.fst = entriesFrom format 0 (piecesOf format content) := by
  cases format with
  | oneLine => exact oneLineFrom_eq ..
  | deb822 => exact deb822From_eq ..

theorem parseSources_eq (content : Text) :
    parseSources content =
      entriesFrom (formatOf content) 0 (piecesOf (formatOf content) content) := parseAs_eq _ _

theorem stanzaPieces_text (stanza : Text) (lines : List Text) :
    ((stanzaPieces stanza lines).map Piece.text).flatten = stanza ++ lines.flatten := by
  induction lines generalizing stanza with
  | nil =>
    rw [stanzaPieces, closePiece_text]
    simp
  | cons line lines ih =>
    rw [stanzaPieces]
    split
    · rw [List.map_append, List.flatten_append, closePiece_text, List.map_cons, List.flatten_cons,
        ih]
      simp
    · rw [ih]
      simp

theorem piecesOf_text (format : Format) (content : Text) :
    ((piecesOf format content).map Piece.text).flatten = content := by
  cases format with
  | oneLine =>
    rw [piecesOf, List.map_map]
    have hid : (Piece.text ∘ fun line => (⟨line, true⟩ : Piece)) = id := rfl
    rw [hid, List.map_id, flatten_splitInclusive]
  | deb822 =>
    rw [piecesOf, stanzaPieces_text, flatten_splitInclusive]
    rfl

end Pieces

section Blocks

def blockLines (bs : List (List Text × Text)) (last : List Text) : List Text :=
  bs.flatMap (fun b => b.1 ++ [b.2]) ++ last

def IsBlock (b : List Text × Text) : Prop :=
  (∀ line ∈ b.1, isBlankLine line = false) ∧ isBlankLine b.2 = true

theorem exists_blocks (lines : List Text) :
    ∃ bs last, lines = blockLines bs last ∧ (∀ b ∈ bs, IsBlock b) ∧
      ∀ line ∈ last, isBlankLine line = false := by
  induction lines with
  | nil => exact ⟨[], [], rfl, by simp, by simp⟩
  | cons line lines ih =>
    obtain ⟨bs, last, hlines, hbs, hlast⟩ := ih
    cases hblank : isBlankLine line with
    | true =>
      refine ⟨([], line) :: bs, last, by rw [hlines]; rfl, ?_, hlast⟩
      intro b hb
      rcases List.mem_cons.mp hb with rfl | hb
      · exact ⟨by simp, hblank⟩
      · exact hbs b hb
    | false =>
      cases bs with
      | nil =>
        refine ⟨[], line :: last, by rw [hlines]; rfl, by simp, ?_⟩
        intro l hl
        rcases List.mem_cons.mp hl with rfl | hl
        · exact hblank
        · exact hlast l hl
      | cons b bs =>
        refine ⟨(line :: b.1, b.2) :: bs, last, by rw [hlines]; rfl, ?_, hlast⟩
        intro b' hb'
        rcases List.mem_cons.mp hb' with rfl | hb'
        · obtain ⟨h1, h2⟩ := hbs b (List.mem_cons_self ..)
          refine ⟨?_, h2⟩
          intro l hl
          rcases List.mem_cons.mp hl with rfl | hl
          · exact hblank
          · exact h1 l hl
        · exact hbs b' (List.mem_cons_of_mem _ hb')

theorem stanzaPieces_append {stanza : Text} {s : List Text}
    (h : ∀ line ∈ s, isBlankLine line = false) (lines : List Text) :
    stanzaPieces stanza (s ++ lines) = stanzaPieces (stanza ++ s.flatten) lines := by
  induction s generalizing stanza with
  | nil => rw [List.nil_append, List.flatten_nil, List.append_nil]
  | cons line s ih =>
    have hline := h line (List.mem_cons_self ..)
    rw [List.cons_append, stanzaPieces, hline]
    simp only [Bool.false_eq_true, if_false]
    rw [ih fun l hl => h l (List.mem_cons_of_mem _ hl), List.flatten_cons, List.append_assoc]

def blockPieces (bs : List (List Text × Text)) (last : List Text) : List Piece :=
  bs.flatMap (fun b => closePiece b.1.flatten ++ [⟨b.2, false⟩]) ++ closePiece last.flatten

theorem blockPieces_cons (b : List Text × Text) (bs : List (List Text × Text))
    (last : List Text) : blockPieces (b :: bs) last =
      closePiece b.1.flatten ++ (⟨b.2, false⟩ :: blockPieces bs last) := by
  simp [blockPieces]

theorem blockLines_cons (b : List Text × Text) (bs : List (List Text × Text))
    (last : List Text) :
    blockLines (b :: bs) last = b.1 ++ ([b.2] ++ blockLines bs last) := by
  simp [blockLines]

theorem stanzaPieces_blocks {bs : List (List Text × Text)} {last : List Text}
    (hbs : ∀ b ∈ bs, IsBlock b) (hlast : ∀ line ∈ last, isBlankLine line = false) :
    stanzaPieces [] (blockLines bs last) = blockPieces bs last := by
  induction bs with
  | nil =>
    have h : stanzaPieces [] (last ++ []) = stanzaPieces ([] ++ last.flatten) [] :=
      stanzaPieces_append hlast []
    rw [List.append_nil] at h
    exact h
  | cons b bs ih =>
    obtain ⟨h1, h2⟩ := hbs b (List.mem_cons_self ..)
    rw [blockLines_cons, List.singleton_append, stanzaPieces_append h1, stanzaPieces, h2, if_pos rfl,
      ih fun b' hb' => hbs b' (List.mem_cons_of_mem _ hb')]
    simp [blockPieces]

end Blocks

section Edited

def Edited (format : Format) (p : Piece) (t : Text) : Prop :=
  p.isEntry = true ∧ t = [] ∨
    match format with
    | .oneLine => Replaces '\n' p.text (some t) ∧ t ≠ []
    | .deb822 =>
      if p.isEntry then
        ∃ lines, t = lines.flatten ∧ lines ≠ [] ∧
          List.Forall₂ (fun l l' => Replaces '\n' l (some l') ∧ isBlankLine l' = false ∧ l' ≠ [])
            (splitInclusive '\n' p.text) lines
      else t = p.text

def leftPieces : List Piece → List Text → List Piece
  | p :: ps, t :: ts => if t = [] then leftPieces ps ts else ⟨t, p.isEntry⟩ :: leftPieces ps ts
  | _, _ => []

theorem leftPieces_append {ps qs : List Piece} {ts us : List Text} (h : ps.length = ts.length) :
    leftPieces (ps ++ qs) (ts ++ us) = leftPieces ps ts ++ leftPieces qs us := by
  induction ps generalizing ts with
  | nil =>
    rw [List.eq_nil_of_length_eq_zero h.symm]
    rfl
  | cons p ps ih =>
    cases ts with
    | nil => cases h
    | cons t ts =>
      have hrest := ih (Nat.succ.inj h)
      rw [List.cons_append, List.cons_append, leftPieces, leftPieces, hrest]
      split <;> rfl

theorem edited_oneLine {lines ts : List Text}
    (h : List.Forall₂ (Edited .oneLine) (lines.map fun line => ⟨line, true⟩) ts) :
    ∃ ps : List (Text × Option Text), ps.map Prod.fst = lines ∧
      (∀ p ∈ ps, Replaces '\n' p.1 p.2) ∧ (ps.filterMap Prod.snd).flatten = ts.flatten ∧
      ((ps.filterMap Prod.snd).map fun line => (⟨line, true⟩ : Piece)) =
        leftPieces (lines.map fun line => ⟨line, true⟩) ts := by
  induction lines generalizing ts with
  | nil =>
    cases h
    exact ⟨[], rfl, by simp, rfl, rfl⟩
  | cons line lines ih =>
    rw [List.map_cons] at h
    cases h with
    | @cons _ t _ ts hline hrest =>
      obtain ⟨ps, h1, h2, h3, h4⟩ := ih hrest
      rw [List.map_cons, leftPieces]
      rcases hline with ⟨-, rfl⟩ | ⟨hline, hne⟩
      · refine ⟨(line, none) :: ps, by rw [List.map_cons, h1], ?_, ?_, ?_⟩
        · intro p hp
          rcases List.mem_cons.mp hp with rfl | hp
          · trivial
          · exact h2 p hp
        · exact h3
        · exact h4
      · refine ⟨(line, some t) :: ps, by rw [List.map_cons, h1], ?_, ?_, ?_⟩
        · intro p hp
          rcases List.mem_cons.mp hp with rfl | hp
          · exact hline
          · exact h2 p hp
        · exact congrArg (t ++ ·) h3
        · rw [if_neg hne]
          exact congrArg (⟨t, true⟩ :: ·) h4

theorem forall₂_append {A B : Type} {R : A → B → Prop} {as as' : List A} {bs : List B}
    (h : List.Forall₂ R (as ++ as') bs) :
    ∃ cs cs', bs = cs ++ cs' ∧ List.Forall₂ R as cs ∧ List.Forall₂ R as' cs' := by
  induction as generalizing bs with
  | nil => exact ⟨[], bs, rfl, .nil, h⟩
  | cons a as ih =>
    cases h with
    | @cons _ b _ bs hab hrest =>
      obtain ⟨cs, cs', rfl, h1, h2⟩ := ih hrest
      exact ⟨b :: cs, cs', rfl, .cons hab h1, h2⟩

theorem edited_closePiece {s : List Text} {ts : List Text} (hlines : AreLines '\n' s)
    (h : List.Forall₂ (Edited .deb822) (closePiece s.flatten) ts) :
    ∃ ps : List (Text × Option Text), ps.map Prod.fst = s ∧ (∀ p ∈ ps, Replaces '\n' p.1 p.2) ∧
      (∀ line ∈ ps.filterMap Prod.snd, isBlankLine line = false) ∧
      closePiece (ps.filterMap Prod.snd).flatten = leftPieces (closePiece s.flatten) ts ∧
      (ps.filterMap Prod.snd).flatten = ts.flatten := by
  rw [closePiece] at h ⊢
  split at h
  · rename_i hempty
    cases h
    have hnil : s = [] := by
      rw [← splitInclusive_flatten hlines, hempty]
      rfl
    subst hnil
    exact ⟨[], rfl, by simp, by simp, rfl, rfl⟩
  · rename_i hne
    rw [if_neg hne]
    cases h with
    | @cons _ t _ ts hedit hrest =>
      cases hrest
      rcases hedit with ⟨-, rfl⟩ | ⟨lines, rfl, hsome, hchanged⟩
      · refine ⟨s.map fun line => (line, none), ?_, ?_, ?_, ?_, ?_⟩
        · rw [List.map_map]
          exact List.map_id _
        · intro p hp
          obtain ⟨line, -, rfl⟩ := List.mem_map.mp hp
          trivial
        all_goals
          have hnone : (s.map fun line => (line, (none : Option Text))).filterMap Prod.snd = [] := by
            rw [List.filterMap_map]
            exact List.filterMap_eq_nil_iff.mpr fun _ _ => rfl
          rw [hnone]
          simp [closePiece, leftPieces]
      · rw [splitInclusive_flatten hlines] at hchanged
        have hlines' : lines.flatten ≠ [] := by
          obtain ⟨l, ls, rfl⟩ := List.exists_cons_of_ne_nil hsome
          cases hchanged with
          | cons hl _ => simp [hl.2.2]
        have hzip : ∃ ps : List (Text × Option Text), ps.map Prod.fst = s ∧
            (∀ p ∈ ps, Replaces '\n' p.1 p.2) ∧ ps.filterMap Prod.snd = lines ∧
            ∀ line ∈ lines, isBlankLine line = false := by
          clear hne hlines hsome hlines'
          induction hchanged with
          | nil => exact ⟨[], rfl, by simp, rfl, by simp⟩
          | @cons l l' s lines hl _ ih =>
            obtain ⟨ps, rfl, h2, rfl, h4⟩ := ih
            refine ⟨(l, some l') :: ps, rfl, ?_, rfl, ?_⟩
            · exact List.forall_mem_cons.mpr ⟨hl.1, h2⟩
            · exact List.forall_mem_cons.mpr ⟨hl.2.1, h4⟩
        obtain ⟨ps, h1, h2, rfl, h4⟩ := hzip
        refine ⟨ps, h1, h2, h4, ?_, ?_⟩
        · rw [closePiece, if_neg hlines', leftPieces, if_neg hlines']
          rfl
        · simp

theorem edited_blocks {bs : List (List Text × Text)} {last : List Text} {ts : List Text}
    (hbs : ∀ b ∈ bs, IsBlock b)
    (hlines : AreLines '\n' (blockLines bs last))
    (h : List.Forall₂ (Edited .deb822) (blockPieces bs last) ts) :
    ∃ (ps : List (Text × Option Text)) (bs' : List (List Text × Text)) (last' : List Text),
      ps.map Prod.fst = blockLines bs last ∧ (∀ p ∈ ps, Replaces '\n' p.1 p.2) ∧
      ps.filterMap Prod.snd = blockLines bs' last' ∧ (∀ b ∈ bs', IsBlock b) ∧
      (∀ line ∈ last', isBlankLine line = false) ∧
      blockPieces bs' last' = leftPieces (blockPieces bs last) ts ∧
      (blockLines bs' last').flatten = ts.flatten := by
  induction bs generalizing ts with
  | nil =>
    obtain ⟨ps, h1, h2, h3, h4, h5⟩ := edited_closePiece hlines h
    exact ⟨ps, [], _, h1, h2, rfl, by simp, h3, h4, h5⟩
  | cons b bs ih =>
    rw [blockPieces_cons] at h ⊢
    rw [blockLines_cons] at hlines ⊢
    obtain ⟨hfirst, hrest⟩ := areLines_append hlines
    obtain ⟨cs, cs', rfl, hstanza, hlater⟩ := forall₂_append h
    cases hlater with
    | @cons _ t _ ts hblank hlater =>
      obtain ⟨ps, h1, h2, h3, h4, h5⟩ := edited_closePiece hfirst hstanza
      obtain ⟨qs, bs', last', k1, k2, k3, k4, k5, k6, k7⟩ :=
        ih (fun b' hb' => hbs b' (List.mem_cons_of_mem _ hb')) (areLines_append hrest).2 hlater
      have hkept : t = b.2 := by
        rcases hblank with ⟨hentry, -⟩ | hsame
        · cases hentry
        · exact hsame
      have hne : b.2 ≠ [] := ne_nil_of_areLines hrest (List.mem_cons_self ..)
      subst hkept
      have hblock := (hbs b (List.mem_cons_self ..)).2
      refine ⟨ps ++ (b.2, some b.2) :: qs, (ps.filterMap Prod.snd, b.2) :: bs', last', ?_, ?_, ?_,
        ?_, k5, ?_, ?_⟩
      · rw [List.map_append, List.map_cons, h1, k1]
        rfl
      · intro p hp
        rcases List.mem_append.mp hp with hp | hp
        · exact h2 p hp
        · rcases List.mem_cons.mp hp with rfl | hp
          · exact ⟨id, id⟩
          · exact k2 p hp
      · have hcons : ((b.2, some b.2) :: qs).filterMap Prod.snd = b.2 :: qs.filterMap Prod.snd := rfl
        rw [List.filterMap_append, hcons, k3]
        simp [blockLines]
      · exact List.forall_mem_cons.mpr ⟨⟨h3, hblock⟩, k4⟩
      · rw [leftPieces_append hstanza.length_eq, leftPieces, if_neg hne, ← h4, ← k6]
        simp [blockPieces]
      · rw [List.flatten_append, List.flatten_cons, ← h5, ← k7]
        simp [blockLines]

theorem piecesOf_edited {format : Format} {content : Text} {ts : List Text}
    (h : List.Forall₂ (Edited format) (piecesOf format content) ts) :
    piecesOf format ts.flatten = leftPieces (piecesOf format content) ts := by
  cases format with
  | oneLine =>
    obtain ⟨ps, h1, h2, h3, h4⟩ := edited_oneLine h
    have hlines : AreLines '\n' (ps.filterMap Prod.snd) :=
      areLines_filterMap (h1 ▸ areLines_splitInclusive '\n' content) h2
    rw [← h3, piecesOf, splitInclusive_flatten hlines, h4]
    rfl
  | deb822 =>
    obtain ⟨bs, last, hcut, hbs, hlast⟩ := exists_blocks (splitInclusive '\n' content)
    have hpieces : piecesOf .deb822 content = blockPieces bs last := by
      rw [piecesOf, hcut, stanzaPieces_blocks hbs hlast]
    have hlines := areLines_splitInclusive '\n' content
    rw [hcut] at hlines
    rw [hpieces] at h ⊢
    obtain ⟨ps, bs', last', h1, h2, h3, h4, h5, h6, h7⟩ := edited_blocks hbs hlines h
    have hnew : AreLines '\n' (ps.filterMap Prod.snd) :=
      areLines_filterMap (h1 ▸ hlines) h2
    rw [← h7, ← h3, piecesOf, splitInclusive_flatten hnew, h3, stanzaPieces_blocks h4 h5, h6]

end Edited

end LandscapeKit.Mirror
