import LandscapeKit.MirrorDnfLines

/-!
The two passes over a repository file count its blocks in the same way, so a block is converted
when it holds a `baseurl` line itself. The blocks of the result are those of the file, and going
over them again changes nothing.
-/

namespace LandscapeKit.Mirror.Dnf

open Text Hostnet

structure Section where
  header : Option Text
  body : List Text
deriving DecidableEq

def Section.lines (s : Section) : List Text := s.header.toList ++ s.body

def Section.commented (s : Section) : Bool :=
  s.header.any fun line => isSectionHeader (trim line) = some true

def Section.hasBaseurl (s : Section) : Bool := !s.commented && s.body.any isBaseurlLine

def isHeader (line : Text) : Bool := (isSectionHeader (trim line)).isSome

def cut : List Text → List Text × List Section
  | [] => ([], [])
  | line :: lines =>
    if isHeader line then ([], ⟨some line, (cut lines).1⟩ :: (cut lines).2)
    else (line :: (cut lines).1, (cut lines).2)

def sections (lines : List Text) : List Section := ⟨none, (cut lines).1⟩ :: (cut lines).2

structure Section.Proper (s : Section) : Prop where
  header : ∀ line ∈ s.header, isHeader line = true
  body : ∀ line ∈ s.body, isHeader line = false

section Cut

variable {lines body : List Text} {ss : List Section}

theorem lines_cut (lines : List Text) :
    (cut lines).1 ++ (cut lines).2.flatMap Section.lines = lines := by
  induction lines with
  | nil => rfl
  | cons line lines ih =>
    rw [cut]
    split
    · rw [List.nil_append, List.flatMap_cons, Section.lines, List.append_assoc, ih]
      rfl
    · rw [List.cons_append, ih]

theorem lines_sections (lines : List Text) : (sections lines).flatMap Section.lines = lines :=
  lines_cut lines

theorem cut_proper (lines : List Text) : (∀ line ∈ (cut lines).1, isHeader line = false) ∧
    ∀ s ∈ (cut lines).2, s.header.isSome ∧ s.Proper := by
  induction lines with
  | nil => exact ⟨fun _ h => absurd h List.not_mem_nil, fun _ h => absurd h List.not_mem_nil⟩
  | cons line lines ih =>
    rw [cut]
    split
    · rename_i hline
      refine ⟨fun _ h => absurd h List.not_mem_nil, ?_⟩
      rw [List.forall_mem_cons]
      refine ⟨⟨rfl, ⟨?_, ih.1⟩⟩, ih.2⟩
      intro line' hline'
      rw [← Option.some.inj hline']
      exact hline
    · rename_i hline
      rw [List.forall_mem_cons]
      exact ⟨⟨Bool.eq_false_iff.mpr hline, ih.1⟩, ih.2⟩

theorem cut_append (hbody : ∀ line ∈ body, isHeader line = false)
    (hss : ∀ s ∈ ss, s.header.isSome ∧ s.Proper) :
    cut (body ++ ss.flatMap Section.lines) = (body, ss) := by
  have hlead (body lines : List Text) (h : ∀ line ∈ body, isHeader line = false) :
      cut (body ++ lines) = (body ++ (cut lines).1, (cut lines).2) := by
    induction body with
    | nil => rfl
    | cons line body ih =>
      rw [List.forall_mem_cons] at h
      rw [List.cons_append, cut, if_neg (by simp [h.1]), ih h.2]
      rfl
  have hblocks : cut (ss.flatMap Section.lines) = ([], ss) := by
    induction ss with
    | nil => rfl
    | cons s ss ih =>
      rw [List.forall_mem_cons] at hss
      obtain ⟨⟨hsome, hproper⟩, hss⟩ := hss
      obtain ⟨header, body⟩ := s
      obtain ⟨line, rfl⟩ := Option.isSome_iff_exists.mp hsome
      rw [List.flatMap_cons, Section.lines, List.append_assoc, Option.toList_some,
        List.singleton_append, cut, if_pos (hproper.header line rfl),
        hlead _ _ hproper.body, ih hss, List.append_nil]
  rw [hlead body _ hbody, hblocks, List.append_nil]

theorem sections_append (hbody : ∀ line ∈ body, isHeader line = false)
    (hss : ∀ s ∈ ss, s.header.isSome ∧ s.Proper) :
    sections ((⟨none, body⟩ :: ss).flatMap Section.lines) = ⟨none, body⟩ :: ss := by
  have hlines : (⟨none, body⟩ :: ss).flatMap Section.lines = body ++ ss.flatMap Section.lines := rfl
  rw [hlines, sections, cut_append hbody hss]

theorem proper_sections (lines : List Text) : ∀ s ∈ sections lines, s.Proper := by
  obtain ⟨hbody, hss⟩ := cut_proper lines
  rw [sections, List.forall_mem_cons]
  constructor
  · constructor
    · intro line hline
      cases hline
    · exact hbody
  · exact fun s hs => (hss s hs).2

end Cut

section Passes

variable {pairs : List (Text × Text)} {ss : List Section} {body : List Text}

theorem isSectionHeader_of_header {line : Text} (h : isHeader line = true) :
    ∃ commented, isSectionHeader (trim line) = some commented := Option.isSome_iff_exists.mp h

theorem isSectionHeader_of_body {line : Text} (h : isHeader line = false) :
    isSectionHeader (trim line) = none := by
  rw [← Option.not_isSome_iff_eq_none]
  exact Bool.eq_false_iff.mp h

theorem parseFrom_sections (hasBaseurl commented : Bool)
    (hbody : ∀ line ∈ body, isHeader line = false)
    (hss : ∀ s ∈ ss, s.header.isSome ∧ s.Proper) :
    parseFrom hasBaseurl commented (body ++ ss.flatMap Section.lines) =
      ⟨hasBaseurl || (!commented && body.any isBaseurlLine)⟩ ::
        ss.map fun s => ⟨s.hasBaseurl⟩ := by
  have hlead (has commented : Bool) (body lines : List Text)
      (h : ∀ line ∈ body, isHeader line = false) : parseFrom has commented (body ++ lines) =
        parseFrom (has || (!commented && body.any isBaseurlLine)) commented lines := by
    induction body generalizing has with
    | nil => simp
    | cons line body ih =>
      rw [List.forall_mem_cons] at h
      rw [List.cons_append, parseFrom, isSectionHeader_of_body h.1]
      dsimp only
      rw [ih _ h.2, isBaseurlLine_trim, List.any_cons, Bool.or_assoc, Bool.and_or_distrib_left]
  induction ss generalizing hasBaseurl commented body with
  | nil => rw [List.flatMap_nil, hlead _ _ _ _ hbody, parseFrom, List.map_nil]
  | cons s ss ih =>
    rw [List.forall_mem_cons] at hss
    obtain ⟨⟨hsome, hproper⟩, hss⟩ := hss
    obtain ⟨header, body'⟩ := s
    obtain ⟨line, rfl⟩ := Option.isSome_iff_exists.mp hsome
    obtain ⟨commented', hline⟩ := isSectionHeader_of_header (hproper.header line rfl)
    have hhas : (Section.mk (some line) body').hasBaseurl =
        (false || (!commented' && body'.any isBaseurlLine)) := by
      simp [Section.hasBaseurl, Section.commented, hline]
    rw [List.flatMap_cons, Section.lines, Option.toList_some, List.singleton_append,
      List.cons_append, hlead _ _ _ _ hbody, parseFrom, hline, List.map_cons, hhas]
    dsimp only
    rw [ih false commented' hproper.body hss]

def convertLine (pairs : List (Text × Text)) (hasBaseurl : Bool) (line : Text) : Text × Bool :=
  if hasBaseurl then transformLine line pairs else (line, false)

theorem rewriteFrom_sections (pre : List Block) (hasBaseurl : Bool)
    (hbody : ∀ line ∈ body, isHeader line = false)
    (hss : ∀ s ∈ ss, s.header.isSome ∧ s.Proper) :
    rewriteFrom (pre ++ ⟨hasBaseurl⟩ :: ss.map fun s => ⟨s.hasBaseurl⟩) pairs pre.length
        (body ++ ss.flatMap Section.lines) =
      body.map (convertLine pairs hasBaseurl) ++
        ss.flatMap fun s => s.lines.map (convertLine pairs s.hasBaseurl) := by
  have hlead (blocks : List Block) (n : ℕ) (has : Bool) (hn : blocks[n]? = some ⟨has⟩)
      (body lines : List Text) (h : ∀ line ∈ body, isHeader line = false) :
      rewriteFrom blocks pairs n (body ++ lines) =
        body.map (convertLine pairs has) ++ rewriteFrom blocks pairs n lines := by
    induction body with
    | nil => rfl
    | cons line body ih =>
      rw [List.forall_mem_cons] at h
      rw [List.cons_append, rewriteFrom, isSectionHeader_of_body h.1]
      simp only [Option.isSome_none, Bool.false_eq_true, if_false, hn, ih h.2, List.map_cons,
        List.cons_append, convertLine]
  induction ss generalizing pre hasBaseurl body with
  | nil =>
    rw [hlead _ _ hasBaseurl (by simp) _ _ hbody, List.flatMap_nil, rewriteFrom, List.flatMap_nil]
  | cons s ss ih =>
    rw [List.forall_mem_cons] at hss
    obtain ⟨⟨hsome, hproper⟩, hss⟩ := hss
    obtain ⟨header, body'⟩ := s
    obtain ⟨line, rfl⟩ := Option.isSome_iff_exists.mp hsome
    obtain ⟨commented', hline⟩ := isSectionHeader_of_header (hproper.header line rfl)
    have hgo := ih (pre ++ [⟨hasBaseurl⟩]) (Section.mk (some line) body').hasBaseurl hproper.body hss
    rw [List.append_assoc, List.length_append, List.length_singleton] at hgo
    rw [hlead _ _ hasBaseurl (by simp) _ _ hbody, List.flatMap_cons, Section.lines,
      Option.toList_some, List.singleton_append, List.cons_append, rewriteFrom, hline,
      List.flatMap_cons, List.map_cons]
    apply congrArg (_ ++ ·)
    have hblock : (pre ++ ⟨hasBaseurl⟩ :: ⟨(Section.mk (some line) body').hasBaseurl⟩ ::
        ss.map fun s => Block.mk s.hasBaseurl)[pre.length + 1]? =
        some ⟨(Section.mk (some line) body').hasBaseurl⟩ := by
      simp
    simp only [Option.isSome_some, if_true, hblock]
    exact congrArg (List.cons _) hgo

end Passes

section Rewrite

variable {content : Text} {family : Family} {mirror : MirrorName} {pairs : List (Text × Text)}

def Section.converted (pairs : List (Text × Text)) (s : Section) : List (Text × Bool) :=
  s.lines.map (convertLine pairs s.hasBaseurl)

theorem parseBlocks_eq (content : Text) :
    parseBlocks content = (sections (lines content)).map fun s => ⟨s.hasBaseurl⟩ := by
  obtain ⟨hbody, hss⟩ := cut_proper (lines content)
  have hparse := parseFrom_sections false false hbody hss
  rw [lines_cut] at hparse
  rw [parseBlocks, hparse]
  rfl

theorem rewriteFrom_eq (content : Text) (pairs : List (Text × Text)) :
    rewriteFrom (parseBlocks content) pairs 0 (lines content) =
      (sections (lines content)).flatMap (Section.converted pairs) := by
  obtain ⟨hbody, hss⟩ := cut_proper (lines content)
  have hrewrite := @rewriteFrom_sections pairs _ _ []
    (Section.mk none (cut (lines content)).1).hasBaseurl hbody hss
  rw [lines_cut, List.nil_append, List.length_nil] at hrewrite
  rw [parseBlocks_eq, sections, List.map_cons, hrewrite]
  rfl

theorem rewrite_eq (content : Text) (family : Family) (mirror : MirrorName) :
    rewrite content family mirror =
      let converted := (sections (lines content)).flatMap
        (Section.converted (replacementPairs family mirror))
      if converted.any Prod.snd then
        some ⟨unlines (converted.map Prod.fst),
          (cut (lines content)).2.countP fun s => !s.hasBaseurl⟩
      else none := by
  rw [rewrite]
  dsimp only
  rw [rewriteFrom_eq, parseBlocks_eq, sections, List.map_cons, List.drop_one, List.tail_cons,
    List.countP_map]
  rfl

theorem newline_notMem_lines (content : Text) : ∀ line ∈ lines content, '\n' ∉ line := by
  intro line hline hmem
  obtain ⟨raw, hraw, rfl⟩ := List.mem_map.mp hline
  rcases line_of_areLines (areLines_splitInclusive '\n' content) hraw with
    ⟨body, hbody, rfl⟩ | hopen
  · rw [lineBody, if_pos List.getLast?_concat, List.dropLast_concat] at hmem
    rcases stripCarriageReturn_cases body with h | h
    · exact hbody (h ▸ hmem)
    · exact hbody (h ▸ List.mem_append_left _ hmem)
  · rw [lineBody, if_neg fun hlast => hopen.2 (List.mem_of_getLast? hlast)] at hmem
    exact hopen.2 hmem

theorem lines_unlines {ls : List Text} (h : ∀ line ∈ ls, '\n' ∉ line) :
    lines (unlines ls) = ls.map stripCarriageReturn := by
  have hlines : AreLines '\n' (ls.map fun line => line ++ ['\n']) := by
    induction ls with
    | nil => trivial
    | cons line ls ih =>
      rw [List.forall_mem_cons] at h
      exact areLines_cons ⟨line, h.1, rfl⟩ (ih h.2)
  rw [lines, unlines, List.flatMap_def, splitInclusive_flatten hlines, List.map_map]
  apply List.map_congr_left
  intro line _
  rw [Function.comp_apply, lineBody, if_pos List.getLast?_concat, List.dropLast_concat]

theorem converts_convertLine (pairs : List (Text × Text)) (hasBaseurl : Bool) (line : Text) :
    (convertLine pairs hasBaseurl line).1 = line ∨
      Converts pairs line (convertLine pairs hasBaseurl line).1 := by
  cases hasBaseurl with
  | false => exact .inl rfl
  | true => exact .inr (converts_transformLine line pairs)

theorem isHeader_convertLine (pairs : List (Text × Text)) (hasBaseurl : Bool) (line : Text) :
    isHeader (convertLine pairs hasBaseurl line).1 = isHeader line := by
  rcases converts_convertLine pairs hasBaseurl line with h | h
  · rw [h]
  · rw [isHeader, isHeader, isSectionHeader_converts h]

theorem isSectionHeader_strip (line : Text) :
    isSectionHeader (trim (stripCarriageReturn line)) = isSectionHeader (trim line) :=
  stripCarriageReturn_eq (f := fun line => isSectionHeader (trim line))
    (fun _ hc line => by rw [trim_concat hc]) line

theorem isBaseurlLine_strip (line : Text) :
    isBaseurlLine (stripCarriageReturn line) = isBaseurlLine line :=
  stripCarriageReturn_eq (fun _ hc line => isBaseurlLine_concat hc line) line

def Section.again (pairs : List (Text × Text)) (s : Section) : Section :=
  ⟨s.header.map stripCarriageReturn,
    s.body.map fun line => stripCarriageReturn (convertLine pairs s.hasBaseurl line).1⟩

variable {s : Section}

theorem Section.Proper.again (h : s.Proper) : (s.again pairs).Proper := by
  constructor
  · intro line hline
    obtain ⟨old, hold, rfl⟩ := Option.mem_map.mp hline
    rw [isHeader, isSectionHeader_strip]
    exact h.header old hold
  · intro line hline
    obtain ⟨old, hold, rfl⟩ := List.mem_map.mp hline
    rw [isHeader, isSectionHeader_strip, ← isHeader, isHeader_convertLine]
    exact h.body old hold

theorem Section.Proper.lines_again (h : s.Proper) : (s.again pairs).lines =
    ((s.converted pairs).map Prod.fst).map stripCarriageReturn := by
  obtain ⟨header, body⟩ := s
  rw [Section.converted, List.map_map, List.map_map, Section.lines, Section.lines, List.map_append]
  congr 1
  · cases header with
    | none => rfl
    | some line =>
      have hline : isHeader line = true := h.header line rfl
      have hkept : (convertLine pairs (Section.mk (some line) body).hasBaseurl line).1 = line := by
        rw [convertLine, transformLine_header hline, ite_self]
      simp [Section.again, hkept]

theorem Section.again_hasBaseurl (s : Section) : (s.again pairs).hasBaseurl = s.hasBaseurl := by
  have hcommented : (s.again pairs).commented = s.commented := by
    rw [Section.commented, Section.commented, Section.again, Option.any_map]
    congr 1
    ext line
    simp only [isSectionHeader_strip]
  have hbody : (s.again pairs).body.any isBaseurlLine = s.body.any isBaseurlLine := by
    rw [Section.again, List.any_map]
    congr 1
    ext line
    rw [Function.comp_apply, isBaseurlLine_strip]
    rcases converts_convertLine pairs s.hasBaseurl line with h | h
    · rw [h]
    · rw [isBaseurlLine_converts h]
  rw [Section.hasBaseurl, hcommented, hbody, ← Section.hasBaseurl]

theorem newline_notMem_converted (content : Text) (family : Family) (mirror : MirrorName) :
    ∀ line ∈ ((sections (lines content)).flatMap
      (Section.converted (replacementPairs family mirror))).map Prod.fst, '\n' ∉ line := by
  intro line hline
  obtain ⟨out, hout, rfl⟩ := List.mem_map.mp hline
  obtain ⟨s, hs, hout⟩ := List.mem_flatMap.mp hout
  obtain ⟨old, hold, rfl⟩ := List.mem_map.mp hout
  have hmem : old ∈ lines content := by
    rw [← lines_sections (lines content)]
    exact List.mem_flatMap.mpr ⟨s, hs, hold⟩
  have hnot := newline_notMem_lines content old hmem
  rcases converts_convertLine (replacementPairs family mirror) s.hasBaseurl old with h | h
  · rwa [h]
  · exact newline_notMem_converts hnot h

theorem sections_rewritten (content : Text) (family : Family) (mirror : MirrorName) :
    sections (lines (unlines (((sections (lines content)).flatMap
        (Section.converted (replacementPairs family mirror))).map Prod.fst))) =
      (sections (lines content)).map (Section.again (replacementPairs family mirror)) := by
  have hproper := proper_sections (lines content)
  have hlines : ((((sections (lines content)).flatMap
        (Section.converted (replacementPairs family mirror))).map Prod.fst).map
          stripCarriageReturn) = ((sections (lines content)).map
            (Section.again (replacementPairs family mirror))).flatMap Section.lines := by
    rw [List.map_flatMap, List.map_flatMap, List.flatMap_map]
    apply List.flatMap_congr
    exact fun s hs => (hproper s hs).lines_again.symm
  rw [lines_unlines (newline_notMem_converted content family mirror), hlines]
  apply sections_append
  · exact (hproper _ (List.mem_cons_self ..)).again.body
  · intro s hs
    obtain ⟨old, hold, rfl⟩ := List.mem_map.mp hs
    obtain ⟨hsome, hold⟩ := (cut_proper (lines content)).2 old hold
    exact ⟨by rwa [Section.again, Option.isSome_map], hold.again⟩

theorem rewrite_again {result : DnfRewrite} (h : rewrite content family mirror = some result) :
    rewrite result.content family mirror = none := by
  rw [rewrite_eq] at h ⊢
  dsimp only at h ⊢
  split at h
  · cases h
    rw [sections_rewritten, if_neg]
    rw [Bool.not_eq_true, List.any_eq_false]
    intro out hout hchanged
    obtain ⟨s', hs', hsecond⟩ := List.mem_flatMap.mp hout
    obtain ⟨s, hs, rfl⟩ := List.mem_map.mp hs'
    obtain ⟨line, hline, rfl⟩ := List.mem_map.mp hsecond
    rw [s.again_hasBaseurl] at hchanged
    rw [(proper_sections _ s hs).lines_again] at hline
    -- the line as the first reading left it
    obtain ⟨new, hnew, rfl⟩ := List.mem_map.mp hline
    obtain ⟨first, hfirst, rfl⟩ := List.mem_map.mp hnew
    obtain ⟨old, -, rfl⟩ := List.mem_map.mp hfirst
    cases hhas : s.hasBaseurl with
    | false =>
      rw [hhas] at hchanged
      cases hchanged
    | true =>
      rw [hhas] at hchanged
      have hagain := transformLine_again family mirror old
      rw [convertLine, convertLine, if_pos rfl, if_pos rfl, hagain] at hchanged
      cases hchanged
  · cases h

def isRecognized (family : Family) (line : Text) : Bool :=
  (baseurlOf line).any fun url => (recognizedHosts family).any fun host => standsIn host url

structure Converted (family : Family) (mirror : MirrorName) (s : Section) (new : List Text) :
    Prop where
  kept : s.hasBaseurl = false → new = s.lines
  lines : s.hasBaseurl = true → List.Forall₂ (Converts (replacementPairs family mirror)) s.lines new
  active : s.hasBaseurl = true → ∃ line ∈ new, ∃ url, activeUrl line = some url
  target : s.hasBaseurl = true → (∃ line ∈ s.body, isRecognized family line = true) →
    ∃ line ∈ new, ∃ url, activeUrl line = some url ∧
      ∃ host ∈ targets family mirror, standsIn host url = true

theorem activeUrl_of_isRecognized {line : Text} (h : isRecognized family line = true)
    (mirror : MirrorName) :
    ∃ url, activeUrl (transformLine line (replacementPairs family mirror)).1 = some url ∧
      ∃ host ∈ targets family mirror, standsIn host url = true := by
  rw [isRecognized, Option.any_eq_true] at h
  obtain ⟨url, hurl, h⟩ := h
  obtain ⟨host, hhost, hstands⟩ := List.any_eq_true.mp h
  obtain ⟨indent, mark, hline⟩ := exists_of_baseurlOf hurl
  have htable := pairTable family mirror
  rw [transformLine_baseurl hline]
  refine ⟨_, (hline.active _).activeUrl, ?_⟩
  by_cases htarget : ∀ pair ∈ replacementPairs family mirror, pair.1 ≠ host
  · have hmem : host ∈ targets family mirror := by
      rcases recognized_cases mirror hhost with h | ⟨target, -, hpair⟩
      · exact h
      · exact absurd rfl (htarget _ hpair)
    exact ⟨host, hmem, standsIn_replaceHosts_kept htable hhost htarget hstands⟩
  · push Not at htarget
    obtain ⟨pair, hpair, rfl⟩ := htarget
    exact ⟨pair.2, replacementPairs_target pair hpair, standsIn_replaceHosts htable hpair hstands⟩

theorem Section.converted_spec (s : Section) (family : Family) (mirror : MirrorName) :
    Converted family mirror s
      ((s.converted (replacementPairs family mirror)).map Prod.fst) := by
  have hmem (line : Text) (hhas : s.hasBaseurl = true) (hline : line ∈ s.body) :
      (transformLine line (replacementPairs family mirror)).1 ∈
        (s.converted (replacementPairs family mirror)).map Prod.fst := by
    rw [Section.converted, List.map_map, hhas]
    exact List.mem_map.mpr ⟨line, List.mem_append_right _ hline, rfl⟩
  constructor
  · intro hhas
    rw [Section.converted, List.map_map, hhas]
    exact List.map_id' _
  · intro hhas
    rw [Section.converted, List.map_map, hhas, List.forall₂_map_right_iff]
    exact List.forall₂_same.mpr fun line _ => converts_transformLine line _
  · intro hhas
    have hbody := hhas
    rw [Section.hasBaseurl, Bool.and_eq_true, List.any_eq_true] at hbody
    obtain ⟨-, line, hline, hbase⟩ := hbody
    obtain ⟨indent, mark, url, h⟩ := exists_baseurlLine hbase
    refine ⟨_, hmem line hhas hline, ?_⟩
    rw [transformLine_baseurl h]
    exact ⟨_, (h.active _).activeUrl⟩
  · rintro hhas ⟨line, hline, h⟩
    exact ⟨_, hmem line hhas hline, activeUrl_of_isRecognized h mirror⟩

/-- Blocks without a `baseurl` line and those under a commented header keep their lines; in the
others a mirror list is commented out only beside an active URL, on the target host if one of the
block's URLs is recognised; and the result is left alone by another run. -/
theorem rewrite_sections {result : DnfRewrite} (h : rewrite content family mirror = some result) :
    (∃ news : List (List Text), result.content = unlines news.flatten ∧
      List.Forall₂ (Converted family mirror) (sections (lines content)) news) ∧
      rewrite result.content family mirror = none := by
  refine ⟨?_, rewrite_again h⟩
  rw [rewrite_eq] at h
  dsimp only at h
  split at h
  · cases h
    refine ⟨(sections (lines content)).map fun s =>
      (s.converted (replacementPairs family mirror)).map Prod.fst, ?_, ?_⟩
    · rw [List.map_flatMap, List.flatMap_def]
    · rw [List.forall₂_map_right_iff]
      exact List.forall₂_same.mpr fun s _ => s.converted_spec family mirror
  · cases h

def vendorsRepo : Text :=
  ("[baseos]\nbaseurl=http://dl.rockylinux.org/$contentdir/9\n[vendor]\n" ++
    "metalink=http://a.example/m\n#baseurl=http://a.example/r\n").toList

def vendorsRewritten : DnfRewrite where
  content := ("[baseos]\nbaseurl=http://mirrors.tuna.tsinghua.edu.cn/rockylinux/9\n[vendor]\n" ++
    "#lkit-mirror: metalink=http://a.example/m\nbaseurl=http://a.example/r\n").toList
  skippedRepositories := 0

theorem rewrite_vendorsRepo : rewrite vendorsRepo .rocky .tuna = some vendorsRewritten := by
  unfold vendorsRepo vendorsRewritten
  simp only [String.toList_append]
  repeat rewrite [String.toList_ofList]
  decide +kernel

theorem vendors_rewritten : (∃ news : List (List Text),
    vendorsRewritten.content = unlines news.flatten ∧
      List.Forall₂ (Converted .rocky .tuna) (sections (lines vendorsRepo)) news) ∧
      rewrite vendorsRewritten.content .rocky .tuna = none :=
  rewrite_sections rewrite_vendorsRepo

/-- Another vendor's block beside a recognised one loses its metalink and gets its commented URL
activated. -/
theorem vendor_changed : ¬ ∀ (content : Text) (family : Family) (mirror : MirrorName)
    (result : DnfRewrite), rewrite content family mirror = some result →
    ∀ (i : ℕ) (s : Section), (sections (lines content))[i]? = some s →
      (∀ line ∈ s.body, isRecognized family line = false) →
      ∃ s', (sections (lines result.content))[i]? = some s' ∧ s'.lines = s.lines := by
  intro h
  have hread : (sections (lines vendorsRepo))[2]? = some ⟨some "[vendor]".toList,
      ["metalink=http://a.example/m".toList, "#baseurl=http://a.example/r".toList]⟩ := by
    unfold vendorsRepo
    simp only [String.toList_append]
    repeat rewrite [String.toList_ofList]
    decide +kernel
  have hforeign : ∀ line ∈ ["metalink=http://a.example/m".toList,
      "#baseurl=http://a.example/r".toList], isRecognized .rocky line = false := by
    unfold isRecognized recognizedHosts recognizedMirrorHosts
    repeat rewrite [String.toList_ofList]
    decide +kernel
  have hthere : (sections (lines vendorsRewritten.content))[2]? = some ⟨some "[vendor]".toList,
      ["#lkit-mirror: metalink=http://a.example/m".toList,
        "baseurl=http://a.example/r".toList]⟩ := by
    unfold vendorsRewritten
    simp only [String.toList_append]
    repeat rewrite [String.toList_ofList]
    decide +kernel
  obtain ⟨s', hs', hkept⟩ := h vendorsRepo .rocky .tuna vendorsRewritten rewrite_vendorsRepo 2 _
    hread hforeign
  rw [hthere] at hs'
  cases hs'
  revert hkept
  decide +kernel

end Rewrite

end LandscapeKit.Mirror.Dnf
