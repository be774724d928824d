import LandscapeKit.MirrorAptPieces

/-!
The rewriting of an apt file changes duplicates and URIs only. A URI is changed when its host is
the host of a pair and its path begins with the pair's path, up to a boundary; what is in front of
the host and behind the path stays.
-/

namespace LandscapeKit.Mirror

open Text Splice

section Places

variable {format : Format} {text content : Text} {pairs : List (Text × Text)}

theorem UrisLine.isUrisLine {line name tail : Text} {gs : List (Text × Text)}
    (h : UrisLine line name gs tail) : isUrisLine line = true := by
  rw [Mirror.isUrisLine, h.not_ignored, h.field]
  rfl

theorem StanzaSwap.place {lines lines' : List Text} {ps ps' : List Part}
    (h : StanzaSwap lines lines' ps ps') {n : ℕ} {u : Uri} (hu : u ∈ urisFrom n ps) :
    ∃ front line back, lines = front ++ line :: back ∧ isUrisLine line = true ∧
      n + front.flatten.length ≤ u.start ∧ u.stop ≤ n + front.flatten.length + line.length := by
  induction h generalizing n with
  | nil => cases hu
  | @cons line line' lines lines' qs qs' ps ps' hline hs ih =>
    rw [urisFrom_append] at hu
    rcases List.mem_append.mp hu with hu | hu
    · have huris : isUrisLine line = true := by
        cases hline with
        | same _ => exact absurd hu List.not_mem_nil
        | uris h _ _ => exact h.isUrisLine
      obtain ⟨before, p, after, hqs, -, -, hstart, hstop⟩ := mem_urisFrom hu
      have hlen := congrArg List.length hline.text.1
      rw [hqs, partsText_append, partsText_cons, List.length_append, List.length_append] at hlen
      refine ⟨[], line, lines, rfl, huris, ?_, ?_⟩
      · rw [List.flatten_nil, List.length_nil]
        omega
      · rw [List.flatten_nil, List.length_nil]
        omega
    · obtain ⟨front, l, back, rfl, huris, hstart, hstop⟩ := ih hu
      refine ⟨line :: front, l, back, rfl, huris, ?_, ?_⟩
      · rw [List.flatten_cons, List.length_append, hline.text.1]
        omega
      · rw [List.flatten_cons, List.length_append, hline.text.1]
        omega

def slice (content : Text) (start stop : ℕ) : Text := (content.drop start).take (stop - start)

theorem slice_append (a t b : Text) : slice (a ++ (t ++ b)) a.length (a.length + t.length) = t := by
  rw [slice, List.drop_left, Nat.add_sub_cancel_left, List.take_left]

def InPlace (format : Format) (e : AptEntry) (u : Uri) : Prop :=
  match format with
  | .oneLine => ∃ t, isDebType t = true ∧ e.debTypes = [t]
  | .deb822 => ∃ front line back, splitInclusive '\n' e.raw = front ++ line :: back ∧
      isUrisLine line = true ∧ e.start + front.flatten.length ≤ u.start ∧
      u.stop ≤ e.start + front.flatten.length + line.length

theorem inPlace_readPiece {n : ℕ} {u : Uri}
    (h : u ∈ ((readPiece format text).shift n).uris) :
    InPlace format ((readPiece format text).shift n) u := by
  obtain ⟨v, hv, rfl⟩ := List.mem_map.mp h
  cases format with
  | oneLine =>
    rw [readPiece] at hv
    rcases exists_lineCut text with ⟨k, hk, rfl⟩ | hnone
    · refine ⟨k.debType, hk.isDeb, ?_⟩
      rw [readPiece, LineCut.parse hk]
      rfl
    · rw [hnone] at hv
      cases hv
  | deb822 =>
    obtain ⟨ps, hps, -⟩ := exists_stanzaParts (splitInclusive '\n' text)
    obtain ⟨-, -, -, huris, -⟩ := agree_stanza hps
    obtain ⟨hraw, hstart, -⟩ := readPiece_frame .deb822 text
    rw [readPiece, huris] at hv
    obtain ⟨front, line, back, hlines, hline, h1, h2⟩ := hps.place hv
    refine ⟨front, line, back, ?_, hline, ?_, ?_⟩
    · rw [AptEntry.shift, hraw, hlines]
    · rw [AptEntry.shift, hstart, Uri.shift]
      dsimp only
      omega
    · rw [AptEntry.shift, hstart, Uri.shift]
      dsimp only
      omega

theorem newline_notMem_uri (content : Text) (p : Piece)
    (hp : p ∈ piecesOf (formatOf content) content) :
    ∀ u ∈ (readPiece (formatOf content) p.text).uris, '\n' ∉ u.value := by
  intro u hu
  cases hformat : formatOf content with
  | oneLine =>
    rw [hformat] at hp hu
    obtain ⟨line, hline, rfl⟩ := List.mem_map.mp hp
    rcases exists_lineCut line with ⟨k, hk, rfl⟩ | hnone
    · rw [readPiece, LineCut.parse hk, LineCut.entry] at hu
      obtain ⟨before, q, after, hparts, huri, hvalue, -, -⟩ := mem_urisFrom hu
      rw [hvalue]
      exact hk.newline_notMem (line_of_areLines (areLines_splitInclusive '\n' content) hline) q
        (hparts ▸ by simp) huri
    · rw [readPiece, hnone] at hu
      cases hu
  | deb822 =>
    rw [hformat] at hu
    obtain ⟨ps, hps, hne⟩ := exists_stanzaParts (splitInclusive '\n' p.text)
    obtain ⟨-, -, -, huris, -⟩ := agree_stanza hps
    rw [readPiece, huris] at hu
    obtain ⟨before, q, after, hparts, huri, hvalue, -, -⟩ := mem_urisFrom hu
    rw [hvalue]
    exact (hne q (hparts ▸ by simp) huri).2

structure Located (content : Text) (e : AptEntry) : Prop where
  raw : slice content e.start e.stop = e.raw
  start_lt : e.start < e.stop
  stop_le : e.stop ≤ content.length
  uri : ∀ u ∈ e.uris, slice content u.start u.stop = u.value ∧ '\n' ∉ u.value ∧
    e.start ≤ u.start ∧ u.start < u.stop ∧ u.stop ≤ e.stop ∧ InPlace (formatOf content) e u

theorem located (content : Text) : ∀ e ∈ parseSources content, Located content e := by
  intro e he
  have hentry := he
  rw [parseSources_eq] at hentry
  obtain ⟨before, p, after, hps, hp, rfl⟩ := exists_piece hentry
  have hcontent := piecesOf_text (formatOf content) content
  rw [hps, List.map_append, List.map_cons, List.flatten_append, List.flatten_cons] at hcontent
  obtain ⟨hraw, hstart, hstop⟩ := readPiece_frame (formatOf content) p.text
  have hne : p.text ≠ [] := ne_nil_of_piecesOf (formatOf content) content p (hps ▸ by simp) hp
  have hpos := List.length_pos_of_ne_nil hne
  generalize hn : (before.map Piece.text).flatten = front at hcontent he hentry ⊢
  have hlen := congrArg List.length hcontent
  rw [List.length_append, List.length_append] at hlen
  refine ⟨?_, ?_, ?_, ?_⟩
  · rw [AptEntry.shift, hraw, hstart, hstop, ← hcontent]
    simp only [Nat.zero_add]
    rw [Nat.add_comm p.text.length]
    exact slice_append ..
  · rw [AptEntry.shift, hstart, hstop]
    dsimp only
    omega
  · rw [AptEntry.shift, hstop]
    dsimp only
    omega
  · intro u hu
    obtain ⟨h1, h2, h3⟩ := uri_in_entry content he hu
    have hplace := inPlace_readPiece hu
    obtain ⟨v, hv, rfl⟩ := List.mem_map.mp hu
    refine ⟨?_, ?_, h1, h2, h3, hplace⟩
    · obtain ⟨parts, hreads⟩ := exists_reads (formatOf content) p.text
      rw [hreads.uris] at hv
      obtain ⟨lead, q, tail, hparts, -, hvalue, hqstart, hqstop⟩ := mem_urisFrom hv
      have htext := hreads.text
      rw [hparts, partsText_append, partsText_cons] at htext
      have hcut : content = (front ++ partsText lead) ++ (q.text ++ (partsText tail ++
          (after.map Piece.text).flatten)) := by
        rw [← hcontent, ← htext]
        simp only [List.append_assoc]
      have hbegin : v.start + front.length = (front ++ partsText lead).length := by
        rw [hqstart, List.length_append]
        omega
      rw [Uri.shift]
      dsimp only
      rw [hvalue, hqstop, Nat.zero_add, Nat.add_right_comm, hbegin, hcut]
      exact slice_append ..
    · exact newline_notMem_uri content p (hps ▸ by simp) v hv

end Places

end LandscapeKit.Mirror
