import LandscapeKit.LibExtremes
import LandscapeKit.MirrorAptMoved

/-!
Rewriting a file that was rewritten before. The entries that are left have no duplicates among
them, and when the second table of pairs undoes what the first one did, the file is that of the
second table alone.
-/

namespace LandscapeKit.Mirror

open Text Splice Extremes

section Duplicates

variable {pairs : List (Text × Text)} {entries : List AptEntry} {e f : AptEntry}

def componentCount (e : AptEntry) : ℕ := e.components.length

theorem mem_dedupGroup : f ∈ dedupGroup pairs entries e ↔
    f ∈ entries ∧ isCompared f = true ∧ dedupKey pairs f = dedupKey pairs e := by
  rw [dedupGroup, List.mem_filter, Bool.and_eq_true, decide_eq_true_eq]

theorem isFirstMax_keeperOf (pairs : List (Text × Text)) (he : e ∈ entries)
    (hcompared : isCompared e = true) :
    IsFirstMax componentCount (dedupGroup pairs entries e) (keeperOf pairs entries e) := by
  have hmem : e ∈ dedupGroup pairs entries e := mem_dedupGroup.mpr ⟨he, hcompared, rfl⟩
  rw [keeperOf]
  cases hgroup : dedupGroup pairs entries e with
  | nil =>
    rw [hgroup] at hmem
    cases hmem
  | cons first group => exact isFirstMax_firstMax componentCount first group

theorem keeperOf_eq {k : AptEntry} (he : e ∈ entries) (hcompared : isCompared e = true)
    (h : IsFirstMax componentCount (dedupGroup pairs entries e) k) :
    keeperOf pairs entries e = k := (isFirstMax_keeperOf pairs he hcompared).unique h

theorem dedupGroup_congr (h : dedupKey pairs f = dedupKey pairs e) :
    dedupGroup pairs entries f = dedupGroup pairs entries e := by
  rw [dedupGroup, dedupGroup, h]

theorem isDuplicate_keeperOf (he : e ∈ entries) (hcompared : isCompared e = true) :
    isDuplicate pairs entries (keeperOf pairs entries e) = false := by
  have hkeeper := isFirstMax_keeperOf pairs he hcompared
  obtain ⟨hmem, hcompared', hkey⟩ := mem_dedupGroup.mp hkeeper.mem
  have hsame : keeperOf pairs entries (keeperOf pairs entries e) = keeperOf pairs entries e := by
    apply keeperOf_eq hmem hcompared'
    rw [dedupGroup_congr hkey]
    exact hkeeper
  rw [isDuplicate, hsame]
  simp

def isLeft (pairs : List (Text × Text)) (entries : List AptEntry) (e : AptEntry) : Bool :=
  !isDuplicate pairs entries e

theorem isDuplicate_left (he : e ∈ entries.filter (isLeft pairs entries)) :
    isDuplicate pairs (entries.filter (isLeft pairs entries)) e = false := by
  obtain ⟨hmem, hleft⟩ := List.mem_filter.mp he
  rw [isLeft, Bool.not_eq_true'] at hleft
  cases hcompared : isCompared e with
  | false => rw [isDuplicate, hcompared, Bool.false_and, Bool.false_and]
  | true =>
    have hgroup : dedupGroup pairs (entries.filter (isLeft pairs entries)) e =
        (dedupGroup pairs entries e).filter (isLeft pairs entries) := by
      rw [dedupGroup, dedupGroup, List.filter_filter, List.filter_filter]
      apply List.filter_congr
      intro f _
      exact Bool.and_comm ..
    have hkept : isLeft pairs entries (keeperOf pairs entries e) = true := by
      rw [isLeft, isDuplicate_keeperOf hmem hcompared]
      rfl
    have hsame : keeperOf pairs (entries.filter (isLeft pairs entries)) e =
        keeperOf pairs entries e := by
      apply keeperOf_eq he hcompared
      rw [hgroup]
      exact (isFirstMax_keeperOf pairs hmem hcompared).filter hkept
    rw [isDuplicate] at hleft ⊢
    rwa [hsame]

theorem isDuplicate_congr {pairs' : List (Text × Text)}
    (h : ∀ f ∈ entries, dedupKey pairs f = dedupKey pairs e ↔
      dedupKey pairs' f = dedupKey pairs' e) :
    isDuplicate pairs entries e = isDuplicate pairs' entries e := by
  have hgroup : dedupGroup pairs entries e = dedupGroup pairs' entries e := by
    rw [dedupGroup, dedupGroup]
    apply List.filter_congr
    intro f hf
    rw [decide_eq_decide.mpr (h f hf)]
  rw [isDuplicate, isDuplicate, keeperOf, keeperOf, hgroup]

structure Same (pairs : List (Text × Text)) (e e' : AptEntry) : Prop where
  compared : isCompared e' = isCompared e
  components : e'.components = e.components
  key : dedupKey pairs e' = dedupKey pairs e

theorem isDuplicate_map {φ : AptEntry → AptEntry} (hφ : ∀ f ∈ entries, Same pairs f (φ f))
    (hinj : ∀ f ∈ entries, ∀ g ∈ entries, φ f = φ g → f = g) (he : e ∈ entries) :
    isDuplicate pairs (entries.map φ) (φ e) = isDuplicate pairs entries e := by
  have hgroup : dedupGroup pairs (entries.map φ) (φ e) = (dedupGroup pairs entries e).map φ := by
    rw [dedupGroup, dedupGroup, List.filter_map]
    congr 1
    apply List.filter_congr
    intro f hf
    rw [Function.comp_apply, (hφ f hf).compared, (hφ f hf).key, (hφ e he).key]
  have hkeeper : isCompared e = true → keeperOf pairs (entries.map φ) (φ e) =
      φ (keeperOf pairs entries e) := by
    intro hcompared
    apply keeperOf_eq (List.mem_map_of_mem he) ((hφ e he).compared.trans hcompared)
    obtain ⟨front, back, hsplit, hfront, hback⟩ := isFirstMax_keeperOf pairs he hcompared
    have hcount (f : AptEntry) (hf : f ∈ dedupGroup pairs entries e) :
        componentCount (φ f) = componentCount f := by
      rw [componentCount, (hφ f (mem_dedupGroup.mp hf).1).components, componentCount]
    rw [hgroup, hsplit]
    rw [hsplit] at hcount
    refine ⟨front.map φ, back.map φ, by simp, ?_, ?_⟩
    · intro a ha
      obtain ⟨f, hf, rfl⟩ := List.mem_map.mp ha
      rw [hcount f (List.mem_append_left _ hf), hcount _ (by simp)]
      exact hfront f hf
    · intro a ha
      obtain ⟨f, hf, rfl⟩ := List.mem_map.mp ha
      rw [hcount f (by simp [hf]), hcount _ (by simp)]
      exact hback f hf
  rw [isDuplicate, isDuplicate, (hφ e he).compared]
  cases hcompared : isCompared e with
  | false => rw [Bool.false_and, Bool.false_and, Bool.false_and, Bool.false_and]
  | true =>
    have hmem := (mem_dedupGroup.mp (isFirstMax_keeperOf pairs he hcompared).mem).1
    have hne : φ e = φ (keeperOf pairs entries e) ↔ e = keeperOf pairs entries e :=
      ⟨hinj e he _ hmem, congrArg φ⟩
    rw [hkeeper hcompared, (hφ e he).components, (hφ _ hmem).components,
      decide_eq_decide.mpr (not_congr hne)]

theorem exists_map_of_forall₂ {R : AptEntry → AptEntry → Prop} {es es' : List AptEntry}
    (h : List.Forall₂ R es es') (hnodup : es.Nodup) :
    ∃ φ : AptEntry → AptEntry, es' = es.map φ ∧ ∀ e ∈ es, R e (φ e) := by
  induction h with
  | nil => exact ⟨id, rfl, fun e he => absurd he List.not_mem_nil⟩
  | @cons e e' es es' he _ ih =>
    obtain ⟨hnotMem, hnodup⟩ := List.nodup_cons.mp hnodup
    obtain ⟨φ, rfl, hφ⟩ := ih hnodup
    have hother (f : AptEntry) (hf : f ∈ es) : Function.update φ e e' f = φ f :=
      Function.update_of_ne (fun h : f = e => hnotMem (h ▸ hf)) ..
    refine ⟨Function.update φ e e', ?_, ?_⟩
    · rw [List.map_cons, Function.update_self, List.map_congr_left hother]
    · rw [List.forall_mem_cons, Function.update_self]
      exact ⟨he, fun f hf => hother f hf ▸ hφ f hf⟩

theorem isDuplicate_again {es' : List AptEntry} (hnodup : entries.Nodup) (hnodup' : es'.Nodup)
    (h : List.Forall₂ (Same pairs) (entries.filter (isLeft pairs entries)) es') :
    ∀ e' ∈ es', isDuplicate pairs es' e' = false := by
  obtain ⟨φ, rfl, hφ⟩ := exists_map_of_forall₂ h (hnodup.filter _)
  intro e' he'
  obtain ⟨e, he, rfl⟩ := List.mem_map.mp he'
  have hinj : ∀ f ∈ entries.filter (isLeft pairs entries),
      ∀ g ∈ entries.filter (isLeft pairs entries), φ f = φ g → f = g :=
    fun f hf g hg hfg => List.inj_on_of_nodup_map hnodup' hf hg hfg
  rw [isDuplicate_map hφ hinj he]
  exact isDuplicate_left he

end Duplicates

section Pieces

variable {P Q : List (Text × Text)} {format : Format} {text : Text} {parts : List Part}

theorem Reads.splice (h : Reads format text parts) (pairs : List (Text × Text)) :
    splice text (uriEdits pairs (readPiece format text)) = partsText (movedParts pairs parts) := by
  have hparts := splice_parts pairs parts
  rw [h.text, ← h.uris] at hparts
  exact hparts

theorem values_movedParts (n m : ℕ) (parts : List Part) :
    (urisFrom m (movedParts P parts)).map Uri.value =
      ((urisFrom n parts).map Uri.value).map (rewrittenUri P) := by
  rw [urisFrom_value, urisFrom_value]
  induction parts with
  | nil => rfl
  | cons p parts ih =>
    have hsame : (movedPart P p).isUri = p.isUri := by
      rw [movedPart]
      split <;> rfl
    rw [movedParts, List.map_cons, ← movedParts, List.filter_cons, List.filter_cons, hsame]
    split
    · rename_i huri
      rw [List.map_cons, List.map_cons, List.map_cons, ih, movedPart, if_pos huri]
    · exact ih

theorem values_shift (n : ℕ) (us : List Uri) : (us.map (Uri.shift n)).map Uri.value =
    us.map Uri.value := by
  rw [List.map_map]
  rfl

def Undoes (P Q : List (Text × Text)) (uri : Text) : Prop :=
  rewrittenUri Q (rewrittenUri P uri) = rewrittenUri Q uri

theorem movedParts_undoes (h : ∀ uri ∈ (urisFrom 0 parts).map Uri.value, Undoes P Q uri) :
    movedParts Q (movedParts P parts) = movedParts Q parts := by
  rw [urisFrom_value] at h
  rw [movedParts, movedParts, List.map_map]
  apply List.map_congr_left
  intro p hp
  rw [Function.comp_apply, movedPart, movedPart, movedPart]
  split
  · rename_i huri
    have hundoes : Undoes P Q p.text :=
      h p.text (List.mem_map_of_mem (List.mem_filter.mpr ⟨hp, huri⟩))
    rw [Undoes] at hundoes
    dsimp only
    rw [hundoes]
  · rfl

theorem Moves.same (h : Moves P format text parts)
    (hundoes : ∀ u ∈ (readPiece format text).uris, Undoes P Q u.value) (n m : ℕ) :
    Same Q ((readPiece format text).shift n)
      ((readPiece format (partsText (movedParts P parts))).shift m) := by
  have hvalues := values_movedParts (P := P) 0 0 parts
  rw [← h.reads.uris, ← h.again.uris] at hvalues
  have hkeys : ((readPiece format (partsText (movedParts P parts))).uris.map Uri.value).map
      (fun v => normalizeTarget (rewrittenUri Q v)) =
        ((readPiece format text).uris.map Uri.value).map
          fun v => normalizeTarget (rewrittenUri Q v) := by
    rw [hvalues, List.map_map, List.map_map, List.map_map]
    apply List.map_congr_left
    intro u hu
    have hu' : rewrittenUri Q (rewrittenUri P u.value) = rewrittenUri Q u.value := hundoes u hu
    dsimp only [Function.comp_apply]
    rw [hu']
  constructor
  · have hnil := congrArg (fun us => decide (us ≠ [])) hvalues
    simp only [ne_eq, List.map_eq_nil_iff] at hnil
    rw [isCompared, isCompared, AptEntry.shift, AptEntry.shift]
    simp only [ne_eq, List.map_eq_nil_iff]
    rw [h.enabled, h.debTypes, hnil]
  · exact h.components
  · have huris (e : AptEntry) (k : ℕ) : ((e.shift k).uris.map fun u =>
        normalizeTarget (rewrittenUri Q u.value)) =
          (e.uris.map Uri.value).map fun v => normalizeTarget (rewrittenUri Q v) := by
      rw [AptEntry.shift, List.map_map, List.map_map]
      rfl
    have hdebTypes := h.debTypes
    have hsuites := h.suites
    rw [dedupKey, dedupKey, h.head n m, huris, huris, hkeys]
    congr 1

def newTexts (pairs : List (Text × Text)) (dup : AptEntry → Bool) (format : Format) (n : ℕ)
    (ps : List Piece) : List Text :=
  (pieceEdits pairs dup format n ps).map fun q => splice q.1 q.2

variable {dup dup' : AptEntry → Bool} {n : ℕ}

theorem newTexts_cons (p : Piece) (ps : List Piece) :
    newTexts P dup format n (p :: ps) =
      (if p.isEntry then
        if dup ((readPiece format p.text).shift n) then []
        else splice p.text (uriEdits P (readPiece format p.text))
      else p.text) :: newTexts P dup format (n + p.text.length) ps := by
  rw [newTexts, pieceEdits, List.map_cons, ← newTexts]
  congr 1
  dsimp only
  split
  · split
    · exact splice_whole ..
    · rfl
  · exact splice_nil _

theorem edited_newTexts {ps : List Piece}
    (hmoves : ∀ p ∈ ps, p.isEntry = true → ∃ parts, Moves P format p.text parts)
    (hline : ∀ p ∈ ps, p.isEntry = false → format = .deb822) :
    List.Forall₂ (Edited format) ps (newTexts P dup format n ps) := by
  induction ps generalizing n with
  | nil => exact .nil
  | cons p ps ih =>
    rw [List.forall_mem_cons] at hmoves hline
    rw [newTexts_cons]
    refine .cons ?_ (ih hmoves.2 hline.2)
    obtain ⟨text, isEntry⟩ := p
    cases isEntry with
    | true =>
      obtain ⟨parts, hparts⟩ := hmoves.1 rfl
      rw [if_pos rfl]
      split
      · exact .inl ⟨rfl, rfl⟩
      · rw [hparts.reads.splice]
        exact hparts.edited
    | false =>
      have hformat := hline.1 rfl
      subst hformat
      exact .inr rfl

theorem same_leftPieces {ps : List Piece} {m : ℕ}
    (hmoves : ∀ p ∈ ps, p.isEntry = true → ∃ parts, Moves P format p.text parts)
    (hundoes : ∀ e ∈ entriesFrom format n ps, ∀ u ∈ e.uris, Undoes P Q u.value) :
    List.Forall₂ (Same Q) ((entriesFrom format n ps).filter fun e => !dup e)
      (entriesFrom format m (leftPieces ps (newTexts P dup format n ps))) := by
  induction ps generalizing n m with
  | nil => exact .nil
  | cons p ps ih =>
    rw [List.forall_mem_cons] at hmoves
    rw [entriesFrom] at hundoes
    rw [newTexts_cons, leftPieces, entriesFrom]
    obtain ⟨text, isEntry⟩ := p
    cases isEntry with
    | true =>
      obtain ⟨parts, hparts⟩ := hmoves.1 rfl
      rw [if_pos rfl, List.forall_mem_cons] at hundoes
      have hhere : ∀ u ∈ (readPiece format text).uris, Undoes P Q u.value :=
        fun u hu => hundoes.1 (u.shift n) (List.mem_map_of_mem (f := Uri.shift n) hu)
      rw [if_pos rfl, if_pos rfl, List.filter_cons]
      cases hdup : dup ((readPiece format text).shift n) with
      | true =>
        rw [if_pos rfl, if_pos rfl, if_neg (by decide)]
        exact ih hmoves.2 hundoes.2
      | false =>
        have hsplice := hparts.reads.splice P
        dsimp only at hsplice ⊢
        rw [if_neg Bool.false_ne_true, hsplice, if_neg hparts.ne_nil, entriesFrom, if_pos rfl,
          if_pos (by decide)]
        exact .cons (hparts.same hhere n m) (ih hmoves.2 hundoes.2)
    | false =>
      rw [if_neg Bool.false_ne_true] at hundoes ⊢
      rw [if_neg Bool.false_ne_true]
      dsimp only
      split
      · exact ih hmoves.2 hundoes
      · rw [entriesFrom, if_neg Bool.false_ne_true]
        exact ih hmoves.2 hundoes

theorem uris_leftPieces {ps : List Piece} {m : ℕ}
    (hmoves : ∀ p ∈ ps, p.isEntry = true → ∃ parts, Moves P format p.text parts) :
    ∀ e ∈ entriesFrom format m (leftPieces ps (newTexts P dup format n ps)), ∀ u ∈ e.uris,
      ∃ old, u.value = rewrittenUri P old := by
  induction ps generalizing n m with
  | nil => exact fun e he => absurd he List.not_mem_nil
  | cons p ps ih =>
    rw [List.forall_mem_cons] at hmoves
    rw [newTexts_cons, leftPieces]
    obtain ⟨text, isEntry⟩ := p
    cases isEntry with
    | true =>
      obtain ⟨parts, hparts⟩ := hmoves.1 rfl
      rw [if_pos rfl]
      cases dup ((readPiece format text).shift n) with
      | true =>
        rw [if_pos rfl, if_pos rfl]
        exact ih hmoves.2
      | false =>
        have hsplice := hparts.reads.splice P
        dsimp only at hsplice ⊢
        rw [if_neg Bool.false_ne_true, hsplice, if_neg hparts.ne_nil, entriesFrom, if_pos rfl,
          List.forall_mem_cons]
        refine ⟨?_, ih hmoves.2⟩
        intro u hu
        have hvalues := values_movedParts (P := P) 0 0 parts
        rw [← hparts.reads.uris, ← hparts.again.uris, ← values_shift m] at hvalues
        have hmem : u.value ∈ (((readPiece format text).uris.map Uri.value).map
            (rewrittenUri P)) := hvalues ▸ List.mem_map_of_mem hu
        obtain ⟨old, -, hold⟩ := List.mem_map.mp hmem
        exact ⟨old, hold.symm⟩
    | false =>
      rw [if_neg Bool.false_ne_true]
      dsimp only
      split
      · exact ih hmoves.2
      · rw [entriesFrom, if_neg Bool.false_ne_true]
        exact ih hmoves.2

theorem flatten_newTexts {ps : List Piece} {m : ℕ}
    (hmoves : ∀ p ∈ ps, p.isEntry = true → ∃ parts, Moves P format p.text parts)
    (hundoes : ∀ e ∈ entriesFrom format n ps, ∀ u ∈ e.uris, Undoes P Q u.value)
    (hleft : ∀ e ∈ entriesFrom format m (leftPieces ps (newTexts P dup format n ps)),
      dup' e = false) :
    (newTexts Q dup' format m (leftPieces ps (newTexts P dup format n ps))).flatten =
      (newTexts Q dup format n ps).flatten := by
  induction ps generalizing n m with
  | nil => rfl
  | cons p ps ih =>
    rw [List.forall_mem_cons] at hmoves
    rw [entriesFrom] at hundoes
    rw [newTexts_cons (P := Q), List.flatten_cons]
    rw [newTexts_cons, leftPieces] at hleft ⊢
    obtain ⟨text, isEntry⟩ := p
    cases isEntry with
    | true =>
      obtain ⟨parts, hparts⟩ := hmoves.1 rfl
      rw [if_pos rfl, List.forall_mem_cons] at hundoes
      have hhere : ∀ uri ∈ (urisFrom 0 parts).map Uri.value, Undoes P Q uri := by
        intro uri huri
        obtain ⟨u, hu, rfl⟩ := List.mem_map.mp huri
        rw [← hparts.reads.uris] at hu
        exact hundoes.1 (u.shift n) (List.mem_map_of_mem (f := Uri.shift n) hu)
      rw [if_pos rfl] at hleft ⊢
      rw [if_pos rfl]
      cases hdup : dup ((readPiece format text).shift n) with
      | true =>
        dsimp only at hleft ⊢
        rw [hdup, if_pos rfl, if_pos rfl] at hleft
        rw [if_pos rfl, if_pos rfl, if_pos rfl, List.nil_append]
        exact ih hmoves.2 hundoes.2 hleft
      | false =>
        have hsplice := hparts.reads.splice P
        dsimp only at hsplice hleft ⊢
        rw [hdup, if_neg Bool.false_ne_true, hsplice, if_neg hparts.ne_nil, entriesFrom,
          if_pos rfl, List.forall_mem_cons] at hleft
        rw [if_neg Bool.false_ne_true, hsplice, if_neg hparts.ne_nil, newTexts_cons, if_pos rfl,
          hleft.1, if_neg Bool.false_ne_true, List.flatten_cons, ih hmoves.2 hundoes.2 hleft.2,
          hparts.again.splice, movedParts_undoes hhere, if_neg Bool.false_ne_true,
          hparts.reads.splice]
    | false =>
      rw [if_neg Bool.false_ne_true] at hundoes hleft ⊢
      rw [if_neg Bool.false_ne_true]
      dsimp only at hleft ⊢
      split
      · rename_i hnil
        rw [if_pos hnil] at hleft
        rw [ih hmoves.2 hundoes hleft, hnil, List.nil_append]
      · rename_i hsome
        rw [if_neg hsome, entriesFrom, if_neg Bool.false_ne_true] at hleft
        rw [newTexts_cons, if_neg Bool.false_ne_true, List.flatten_cons]
        congr 1
        exact ih hmoves.2 hundoes hleft

theorem newTexts_congr {ps : List Piece}
    (h : ∀ e ∈ entriesFrom format n ps, dup e = dup' e) :
    newTexts Q dup format n ps = newTexts Q dup' format n ps := by
  induction ps generalizing n with
  | nil => rfl
  | cons p ps ih =>
    rw [entriesFrom] at h
    rw [newTexts_cons, newTexts_cons]
    split at h
    · rename_i hentry
      rw [List.forall_mem_cons] at h
      rw [h.1, ih h.2]
    · rename_i hentry
      rw [if_neg hentry, if_neg hentry, ih h]

end Pieces

section Files

variable {P Q : List (Text × Text)} {content : Text}

def rewritten (pairs : List (Text × Text)) (content : Text) : Text :=
  (rewriteWith pairs content).getD content

theorem rewritten_eq (pairs : List (Text × Text)) (content : Text) :
    rewritten pairs content = (newTexts pairs (isDuplicate pairs (parseSources content))
      (formatOf content) 0 (piecesOf (formatOf content) content)).flatten := by
  have hsplice : rewritten pairs content = splice content (fileEdits pairs content) := by
    rw [rewritten, rewriteWith_eq]
    split
    · rename_i hnone
      rw [hnone, splice_nil]
      rfl
    · rfl
  have hfits : ∀ q ∈ pieceEdits pairs (isDuplicate pairs (parseSources content))
      (formatOf content) 0 (piecesOf (formatOf content) content), Fits 0 q.1.length q.2 :=
    pieceEdits_fits _ _ _
  have hlaid := splice_laid hfits
  rw [map_fst_pieceEdits, piecesOf_text, ← fileEdits_eq] at hlaid
  rw [hsplice, hlaid, newTexts]

theorem nodup_parseSources (content : Text) : (parseSources content).Nodup := by
  have hapart := entriesFrom_pairwise (formatOf content) 0 (piecesOf (formatOf content) content)
  rw [← parseSources_eq] at hapart
  apply hapart.imp_of_mem
  rintro e f he - hle rfl
  have hpos := (located content e he).start_lt
  omega

theorem piecesOf_rewritten (hgood : GoodPairs P) (hlong : ∀ p ∈ P, 2 ≤ p.1.length)
    (hport : ∀ e ∈ parseSources content, ∀ u ∈ e.uris, hasPort u.value = false) :
    piecesOf (formatOf content) (rewritten P content) =
      leftPieces (piecesOf (formatOf content) content)
        (newTexts P (isDuplicate P (parseSources content)) (formatOf content) 0
          (piecesOf (formatOf content) content)) := by
  rw [rewritten_eq]
  apply piecesOf_edited
  apply edited_newTexts
  · exact fun p hp hentry => exists_moves hgood hlong hport hp hentry
  · intro p hp hentry
    generalize formatOf content = format at hp
    cases format with
    | oneLine =>
      obtain ⟨line, -, rfl⟩ := List.mem_map.mp hp
      cases hentry
    | deb822 => rfl

theorem parseSources_rewritten (hgood : GoodPairs P) (hlong : ∀ p ∈ P, 2 ≤ p.1.length)
    (hport : ∀ e ∈ parseSources content, ∀ u ∈ e.uris, hasPort u.value = false)
    (hformat : formatOf (rewritten P content) = formatOf content) :
    parseSources (rewritten P content) = entriesFrom (formatOf content) 0
      (leftPieces (piecesOf (formatOf content) content)
        (newTexts P (isDuplicate P (parseSources content)) (formatOf content) 0
          (piecesOf (formatOf content) content))) := by
  rw [parseSources_eq (rewritten P content), hformat, piecesOf_rewritten hgood hlong hport]

/-- What the first table did is undone by the second, and both find the same duplicates: then the
second one finds none in the new file. -/
theorem isDuplicate_rewritten (hgood : GoodPairs P) (hlong : ∀ p ∈ P, 2 ≤ p.1.length)
    (hport : ∀ e ∈ parseSources content, ∀ u ∈ e.uris, hasPort u.value = false)
    (hformat : formatOf (rewritten P content) = formatOf content)
    (hundoes : ∀ e ∈ parseSources content, ∀ u ∈ e.uris, Undoes P Q u.value)
    (hkeys : ∀ e ∈ parseSources content, ∀ f ∈ parseSources content,
      dedupKey P f = dedupKey P e ↔ dedupKey Q f = dedupKey Q e) :
    ∀ e ∈ parseSources (rewritten P content),
      isDuplicate Q (parseSources (rewritten P content)) e = false := by
  have hentries := parseSources_rewritten hgood hlong hport hformat
  have hdup : ∀ e ∈ parseSources content,
      isDuplicate P (parseSources content) e = isDuplicate Q (parseSources content) e :=
    fun e he => isDuplicate_congr fun f hf => hkeys e he f hf
  have hmoves : ∀ p ∈ piecesOf (formatOf content) content, p.isEntry = true →
      ∃ parts, Moves P (formatOf content) p.text parts :=
    fun p hp hentry => exists_moves hgood hlong hport hp hentry
  rw [parseSources_eq] at hundoes
  have hsame : List.Forall₂ (Same Q)
      ((entriesFrom (formatOf content) 0 (piecesOf (formatOf content) content)).filter fun e =>
        !isDuplicate P (parseSources content) e)
      (entriesFrom (formatOf content) 0 (leftPieces (piecesOf (formatOf content) content)
        (newTexts P (isDuplicate P (parseSources content)) (formatOf content) 0
          (piecesOf (formatOf content) content)))) := same_leftPieces hmoves hundoes
  rw [← parseSources_eq, ← hentries] at hsame
  have hfilter : ((parseSources content).filter fun e =>
      !isDuplicate P (parseSources content) e) =
        (parseSources content).filter (isLeft Q (parseSources content)) := by
    apply List.filter_congr
    intro e he
    rw [isLeft, hdup e he]
  rw [hfilter] at hsame
  exact isDuplicate_again (nodup_parseSources content)
    (nodup_parseSources (rewritten P content)) hsame

theorem rewritten_rewritten (hgood : GoodPairs P) (hlong : ∀ p ∈ P, 2 ≤ p.1.length)
    (hport : ∀ e ∈ parseSources content, ∀ u ∈ e.uris, hasPort u.value = false)
    (hformat : formatOf (rewritten P content) = formatOf content)
    (hundoes : ∀ e ∈ parseSources content, ∀ u ∈ e.uris, Undoes P Q u.value)
    (hkeys : ∀ e ∈ parseSources content, ∀ f ∈ parseSources content,
      dedupKey P f = dedupKey P e ↔ dedupKey Q f = dedupKey Q e) :
    rewritten Q (rewritten P content) = rewritten Q content := by
  have hpieces := piecesOf_rewritten hgood hlong hport
  have hentries := parseSources_rewritten hgood hlong hport hformat
  have hmoves : ∀ p ∈ piecesOf (formatOf content) content, p.isEntry = true →
      ∃ parts, Moves P (formatOf content) p.text parts :=
    fun p hp hentry => exists_moves hgood hlong hport hp hentry
  have hnone := isDuplicate_rewritten hgood hlong hport hformat hundoes hkeys
  rw [parseSources_eq] at hundoes
  rw [rewritten_eq Q (rewritten P content), hformat, hpieces]
  rw [hentries] at hnone
  rw [hentries, flatten_newTexts hmoves hundoes hnone, rewritten_eq Q content]
  rw [newTexts_congr]
  intro e he
  rw [← parseSources_eq] at he
  exact isDuplicate_congr fun f hf => hkeys e he f hf

end Files

end LandscapeKit.Mirror
