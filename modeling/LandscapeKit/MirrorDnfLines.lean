import Mathlib.Data.List.DropRight
import LandscapeKit.MirrorDnf

/-!
The lines of a repository file. Blanks at their ends do not matter, and a line that was converted
is converted to itself, also without the carriage return that a second reading takes off.
-/

namespace LandscapeKit.Mirror.Dnf

open Text Hostnet

section Blanks

variable {c : Char} {line w : Text}

theorem trimStart_trimStart (text : Text) : trimStart (trimStart text) = trimStart text :=
  List.dropWhile_idempotent ..

theorem trimStart_concat (hc : isWhitespace c = true) (text : Text) :
    trimStart (text ++ [c]) = trimStart text ∨ trimStart (text ++ [c]) = trimStart text ++ [c] := by
  rw [trimStart, trimStart, List.dropWhile_append]
  split
  · rename_i hempty
    rw [List.isEmpty_iff.mp hempty]
    exact .inl (by simp [hc])
  · exact .inr rfl

theorem trim_concat (hc : isWhitespace c = true) (text : Text) : trim (text ++ [c]) = trim text := by
  rw [trim, trim]
  rcases trimStart_concat hc text with h | h
  · rw [h]
  · rw [h, List.reverse_append, List.reverse_singleton, List.singleton_append,
      List.dropWhile_cons_of_pos hc]

theorem prefix_concat (hw : c ∉ w) (text : Text) : w <+: text ++ [c] ↔ w <+: text := by
  rw [List.prefix_concat_iff]
  constructor
  · rintro (rfl | h)
    · exact absurd (by simp) hw
    · exact h
  · exact .inr

theorem prefix_trimStart_concat (hc : isWhitespace c = true) (hw : c ∉ w) (text : Text) :
    w <+: trimStart (text ++ [c]) ↔ w <+: trimStart text := by
  rcases trimStart_concat hc text with h | h
  · rw [h]
  · rw [h, prefix_concat hw]

theorem withoutMark_concat (hc : isWhitespace c = true) (text : Text) :
    withoutMark (text ++ [c]) = withoutMark text ++ [c] := by
  have hmark : c ≠ '#' := by
    rintro rfl
    cases hc
  cases text with
  | nil =>
    have hnone : stripLead "#".toList [c] = none := by
      rw [stripLead, if_neg]
      intro hp
      exact hmark (List.cons_prefix_cons.mp hp).1.symm
    rw [List.nil_append, withoutMark, hnone]
    rfl
  | cons d text =>
    by_cases hd : d = '#'
    · subst hd
      have hlead (rest : Text) : stripLead "#".toList ('#' :: rest) = some rest :=
        stripLead_append "#".toList rest
      rw [List.cons_append, withoutMark, withoutMark, hlead, hlead]
      rfl
    · have hnone (rest : Text) : stripLead "#".toList (d :: rest) = none := by
        rw [stripLead, if_neg]
        intro hp
        exact hd (List.cons_prefix_cons.mp hp).1.symm
      rw [List.cons_append, withoutMark, withoutMark, hnone, hnone]
      rfl

theorem isBaseurlLine_concat (hc : isWhitespace c = true) (line : Text) :
    isBaseurlLine (line ++ [c]) = isBaseurlLine line := by
  have hw : c ∉ "baseurl=".toList := by
    intro hmem
    have hnot : ∀ d ∈ "baseurl=".toList, isWhitespace d = false :=
      List.forall_iff_forall_mem.mp (by decide)
    rw [hnot c hmem] at hc
    cases hc
  rw [Bool.eq_iff_iff, isBaseurlLine, isBaseurlLine, List.isPrefixOf_iff_prefix,
    List.isPrefixOf_iff_prefix]
  rcases trimStart_concat hc line with h | h
  · rw [h]
  · rw [h, withoutMark_concat hc, prefix_trimStart_concat hc hw]

theorem isMirrorlistLine_concat (hc : isWhitespace c = true) (line : Text) :
    isMirrorlistLine (line ++ [c]) = isMirrorlistLine line := by
  have hw : ∀ w ∈ ["mirrorlist=".toList, "metalink=".toList], c ∉ w := by
    intro w hw hmem
    have hnot : ∀ w ∈ ["mirrorlist=".toList, "metalink=".toList], ∀ d ∈ w,
        isWhitespace d = false := by
      rw [List.forall_mem_cons, List.forall_mem_singleton]
      exact ⟨List.forall_iff_forall_mem.mp (by decide), List.forall_iff_forall_mem.mp (by decide)⟩
    rw [hnot w hw c hmem] at hc
    cases hc
  rw [List.forall_mem_cons, List.forall_mem_singleton] at hw
  rw [Bool.eq_iff_iff, isMirrorlistLine, isMirrorlistLine, Bool.or_eq_true, Bool.or_eq_true]
  simp only [List.isPrefixOf_iff_prefix, prefix_trimStart_concat hc hw.1,
    prefix_trimStart_concat hc hw.2]

theorem trim_append (text : Text) :
    ∃ blanks, trimStart text = trim text ++ blanks ∧ ∀ c ∈ blanks, isWhitespace c = true := by
  refine ⟨((trimStart text).reverse.takeWhile isWhitespace).reverse, ?_, ?_⟩
  · rw [trim, ← List.reverse_append, List.takeWhile_append_dropWhile, List.reverse_reverse]
  · intro c hc
    exact List.mem_takeWhile_imp (List.mem_reverse.mp hc)

theorem isBaseurlLine_trim (line : Text) : isBaseurlLine (trim line) = isBaseurlLine line := by
  have hblanks (text blanks : Text) (h : ∀ c ∈ blanks, isWhitespace c = true) :
      isBaseurlLine (text ++ blanks) = isBaseurlLine text := by
    induction blanks generalizing text with
    | nil => rw [List.append_nil]
    | cons c blanks ih =>
      rw [List.forall_mem_cons] at h
      rw [← List.singleton_append, ← List.append_assoc, ih _ h.2, isBaseurlLine_concat h.1]
  obtain ⟨blanks, he, hall⟩ := trim_append line
  have hstart : isBaseurlLine (trimStart line) = isBaseurlLine line := by
    rw [isBaseurlLine, isBaseurlLine, trimStart_trimStart]
  rw [← hstart, he, hblanks _ _ hall]

theorem stripCarriageReturn_cases (line : Text) : stripCarriageReturn line = line ∨
    line = stripCarriageReturn line ++ ['\r'] := by
  by_cases h : line.getLast? = some '\r'
  · obtain ⟨front, rfl⟩ := List.getLast?_eq_some_iff.mp h
    rw [stripCarriageReturn, if_pos h, List.dropLast_concat]
    exact .inr rfl
  · exact .inl (if_neg h)

theorem stripCarriageReturn_eq {A : Type} {f : Text → A}
    (hf : ∀ c, isWhitespace c = true → ∀ line, f (line ++ [c]) = f line) (line : Text) :
    f (stripCarriageReturn line) = f line := by
  rcases stripCarriageReturn_cases line with h | h
  · rw [h]
  · have hcr : isWhitespace '\r' = true := by decide
    rw [← hf '\r' hcr, ← h]

end Blanks

section Convert

variable {line indent mark url text : Text} {pairs : List (Text × Text)}

structure BaseurlLine (line indent mark url : Text) : Prop where
  text : line = indent ++ (mark ++ ("baseurl=".toList ++ url))
  indent : ∀ c ∈ indent, isWhitespace c = true
  mark : mark = [] ∨ ∃ blanks, mark = '#' :: blanks ∧ ∀ c ∈ blanks, isWhitespace c = true

theorem trimStart_of_blanks {blanks : Text} {c : Char} (h : ∀ c ∈ blanks, isWhitespace c = true)
    (hc : isWhitespace c = false) (rest : Text) :
    trimStart (blanks ++ c :: rest) = c :: rest := by
  rw [trimStart, List.dropWhile_append_of_pos h, List.dropWhile_cons_of_neg (by simp [hc])]

theorem BaseurlLine.trimStart (h : BaseurlLine line indent mark url) :
    trimStart line = mark ++ ("baseurl=".toList ++ url) := by
  rw [h.text]
  rcases h.mark with rfl | ⟨blanks, rfl, -⟩
  · exact trimStart_of_blanks h.indent (by decide) _
  · exact trimStart_of_blanks h.indent (by decide) _

theorem BaseurlLine.uncommented (h : BaseurlLine line indent mark url) :
    Mirror.trimStart (withoutMark (Mirror.trimStart line)) = "baseurl=".toList ++ url := by
  rw [h.trimStart]
  rcases h.mark with rfl | ⟨blanks, rfl, hblanks⟩
  · rfl
  · have hmark : withoutMark ('#' :: blanks ++ ("baseurl=".toList ++ url)) =
        blanks ++ ("baseurl=".toList ++ url) := by
      rw [withoutMark, List.cons_append]
      exact congrArg (fun o => Option.getD o _) (stripLead_append "#".toList _)
    rw [hmark]
    exact trimStart_of_blanks hblanks (by decide) _

theorem BaseurlLine.isBaseurlLine (h : BaseurlLine line indent mark url) :
    isBaseurlLine line = true := by
  rw [Dnf.isBaseurlLine, List.isPrefixOf_iff_prefix, h.uncommented]
  exact List.prefix_append ..

theorem BaseurlLine.active (h : BaseurlLine line indent mark url) (url' : Text) :
    BaseurlLine (indent ++ ("baseurl=".toList ++ url')) indent [] url' :=
  ⟨rfl, h.indent, .inl rfl⟩

theorem exists_baseurlLine (h : isBaseurlLine line = true) :
    ∃ indent mark url, BaseurlLine line indent mark url := by
  rw [isBaseurlLine, List.isPrefixOf_iff_prefix] at h
  obtain ⟨url, hurl⟩ := h
  have hcut (text : Text) : text = text.takeWhile isWhitespace ++ Mirror.trimStart text :=
    List.takeWhile_append_dropWhile.symm
  have hblank (text : Text) : ∀ c ∈ text.takeWhile isWhitespace, isWhitespace c = true :=
    fun c hc => List.mem_takeWhile_imp hc
  by_cases hmark : "#".toList <+: Mirror.trimStart line
  · obtain ⟨rest, hrest⟩ := hmark
    have hbody : withoutMark (Mirror.trimStart line) = rest := by
      rw [withoutMark, ← hrest, stripLead_append]
      rfl
    rw [hbody] at hurl
    refine ⟨line.takeWhile isWhitespace, '#' :: rest.takeWhile isWhitespace, url, ?_, hblank _,
      .inr ⟨_, rfl, hblank rest⟩⟩
    rw [hurl, List.cons_append, ← hcut rest]
    exact (hcut line).trans (congrArg _ hrest.symm)
  · have hbody : withoutMark (Mirror.trimStart line) = Mirror.trimStart line := by
      rw [withoutMark, stripLead, if_neg hmark]
      rfl
    rw [hbody, trimStart_trimStart] at hurl
    refine ⟨line.takeWhile isWhitespace, [], url, ?_, hblank _, .inl rfl⟩
    rw [hurl, List.nil_append, ← hcut line]

def baseurlOf (line : Text) : Option Text :=
  stripLead "baseurl=".toList (Mirror.trimStart (withoutMark (Mirror.trimStart line)))

def activeUrl (line : Text) : Option Text := stripLead "baseurl=".toList (Mirror.trimStart line)

theorem BaseurlLine.baseurlOf (h : BaseurlLine line indent mark url) :
    baseurlOf line = some url := by
  rw [Dnf.baseurlOf, h.uncommented, stripLead_append]

theorem BaseurlLine.activeUrl (h : BaseurlLine line indent [] url) : activeUrl line = some url := by
  rw [Dnf.activeUrl, h.trimStart]
  exact stripLead_append ..

theorem exists_of_baseurlOf (h : baseurlOf line = some url) :
    ∃ indent mark, BaseurlLine line indent mark url := by
  have hbase : isBaseurlLine line = true := by
    rw [isBaseurlLine, List.isPrefixOf_iff_prefix, eq_of_stripLead h]
    exact List.prefix_append ..
  obtain ⟨indent, mark, url', hline⟩ := exists_baseurlLine hbase
  rw [hline.baseurlOf] at h
  cases h
  exact ⟨indent, mark, hline⟩

theorem transformLine_baseurl (h : BaseurlLine line indent mark url) :
    transformLine line pairs = (indent ++ ("baseurl=".toList ++ replaceHosts url pairs),
      decide (url ≠ replaceHosts url pairs)) := by
  have hstart : isBaseurlLine (Mirror.trimStart line) = true := by
    rw [Dnf.isBaseurlLine, trimStart_trimStart]
    exact h.isBaseurlLine
  have hindent : line.take (line.length - (Mirror.trimStart line).length) = indent := by
    rw [h.trimStart, h.text, List.length_append, Nat.add_sub_cancel, List.take_left]
  have huncommented : Mirror.trimStart ((Mirror.trimStart line).dropWhile (· = '#')) =
      "baseurl=".toList ++ url := by
    rw [h.trimStart]
    rcases h.mark with rfl | ⟨blanks, rfl, hblanks⟩
    · rfl
    · have hdrop : (blanks ++ ("baseurl=".toList ++ url)).dropWhile (· = '#') =
          blanks ++ ("baseurl=".toList ++ url) := by
        cases blanks with
        | nil => rfl
        | cons c blanks =>
          apply List.dropWhile_cons_of_neg
          rw [decide_eq_true_eq]
          rintro rfl
          cases hblanks '#' (List.mem_cons_self ..)
      rw [List.cons_append, List.dropWhile_cons_of_pos (by decide), hdrop]
      exact trimStart_of_blanks hblanks (by decide) _
  have hkey : splitOnce "=".toList "baseurl=".toList = some ("baseurl".toList, []) := by decide
  have hsplit : splitOnce "=".toList ("baseurl=".toList ++ url) = some ("baseurl".toList, url) :=
    splitOnce_append hkey url
  rw [transformLine, if_pos hstart, hindent, huncommented]
  dsimp only
  rw [hsplit]
  dsimp only
  rw [List.append_assoc, List.append_assoc]
  rfl

inductive Converts (pairs : List (Text × Text)) : Text → Text → Prop
  | other {line : Text} (h : isBaseurlLine line = false) (h' : isMirrorlistLine line = false) :
      Converts pairs line line
  | disabled {line : Text} (h : isBaseurlLine line = false) (h' : isMirrorlistLine line = true) :
      Converts pairs line ("#lkit-mirror: ".toList ++ line)
  | baseurl {line indent mark url : Text} (h : BaseurlLine line indent mark url) :
      Converts pairs line (indent ++ ("baseurl=".toList ++ replaceHosts url pairs))

theorem converts_transformLine (line : Text) (pairs : List (Text × Text)) :
    Converts pairs line (transformLine line pairs).1 := by
  have hstart : isBaseurlLine (Mirror.trimStart line) = isBaseurlLine line := by
    rw [isBaseurlLine, isBaseurlLine, trimStart_trimStart]
  have hlist : isMirrorlistLine (Mirror.trimStart line) = isMirrorlistLine line := by
    rw [isMirrorlistLine, isMirrorlistLine, trimStart_trimStart]
  cases hbase : isBaseurlLine line with
  | true =>
    obtain ⟨indent, mark, url, h⟩ := exists_baseurlLine hbase
    rw [transformLine_baseurl h]
    exact .baseurl h
  | false =>
    have hskip : ¬ isBaseurlLine (Mirror.trimStart line) = true := by
      rw [hstart, hbase]
      exact Bool.false_ne_true
    rw [transformLine, if_neg hskip]
    cases hmirror : isMirrorlistLine line with
    | true =>
      rw [if_pos (hlist.trans hmirror)]
      exact .disabled hbase hmirror
    | false =>
      rw [if_neg (by rw [hlist, hmirror]; exact Bool.false_ne_true)]
      exact .other hbase hmirror

theorem transformLine_other (h : isBaseurlLine line = false) (h' : isMirrorlistLine line = false) :
    transformLine line pairs = (line, false) := by
  have hstart : ¬ isBaseurlLine (Mirror.trimStart line) = true := by
    rw [isBaseurlLine, trimStart_trimStart, ← isBaseurlLine, h]
    exact Bool.false_ne_true
  have hlist : ¬ isMirrorlistLine (Mirror.trimStart line) = true := by
    rw [isMirrorlistLine, trimStart_trimStart, ← isMirrorlistLine, h']
    exact Bool.false_ne_true
  rw [transformLine, if_neg hstart, if_neg hlist]

theorem isBaseurlLine_disabled (line : Text) :
    isBaseurlLine ("#lkit-mirror: ".toList ++ line) = false := by
  rw [Bool.eq_false_iff]
  intro h
  obtain ⟨indent, mark, url, hline⟩ := exists_baseurlLine h
  have hstart := hline.trimStart
  have hsame : Mirror.trimStart ("#lkit-mirror: ".toList ++ line) =
      "#lkit-mirror: ".toList ++ line := rfl
  rw [hsame] at hstart
  rcases hline.mark with rfl | ⟨blanks, rfl, hblanks⟩
  · cases hstart
  · cases blanks with
    | nil => cases hstart
    | cons c blanks =>
      have hc : 'l' = c := (List.cons.inj (List.cons.inj hstart).2).1
      cases hc ▸ hblanks c (List.mem_cons_self ..)

theorem isMirrorlistLine_disabled (line : Text) :
    isMirrorlistLine ("#lkit-mirror: ".toList ++ line) = false := rfl

theorem isSectionHeader_none (line : Text) {c : Char} {rest : Text}
    (hline : Mirror.trimStart line = c :: rest) (hc : c ≠ '[')
    (hrest : c = '#' → (Mirror.trimStart rest).head? ≠ some '[') :
    isSectionHeader (trim line) = none := by
  obtain ⟨blanks, he, -⟩ := trim_append line
  rw [hline] at he
  cases htrim : trim line with
  | nil => rfl
  | cons d body =>
    rw [htrim, List.cons_append] at he
    obtain ⟨rfl, hbody⟩ := List.cons.inj he
    rw [isSectionHeader, if_neg]
    rintro ⟨hopen, -⟩
    by_cases hmark : c = '#'
    · subst hmark
      have hlead : stripLead "#".toList ('#' :: body) = some body :=
        stripLead_append "#".toList body
      rw [hlead] at hopen
      apply hrest rfl
      have hne : Mirror.trimStart body ≠ [] := by
        intro hnil
        have hopen' : (Mirror.trimStart body).head? = some '[' := hopen
        rw [hnil] at hopen'
        cases hopen'
      rw [hbody, trimStart_append hne, List.head?_append_of_ne_nil _ hne]
      exact hopen
    · have hnone : stripLead "#".toList (c :: body) = none := by
        rw [stripLead, if_neg]
        intro hp
        exact hmark (List.cons_prefix_cons.mp hp).1.symm
      rw [hnone] at hopen
      exact hc (Option.some.inj hopen)

theorem isSectionHeader_baseurl (h : BaseurlLine line indent mark url) :
    isSectionHeader (trim line) = none := by
  have hstart := h.trimStart
  rcases h.mark with rfl | ⟨blanks, rfl, hblanks⟩
  · exact isSectionHeader_none line hstart (by decide) fun he => absurd he (by decide)
  · apply isSectionHeader_none line hstart (by decide)
    intro _ hopen
    have hbody : Mirror.trimStart (blanks ++ ("baseurl=".toList ++ url)) =
        "baseurl=".toList ++ url := trimStart_of_blanks hblanks (by decide) _
    have hhead : (Mirror.trimStart (blanks ++ ("baseurl=".toList ++ url))).head? = some '[' := hopen
    rw [hbody] at hhead
    cases hhead

theorem isSectionHeader_disabled (line : Text) :
    isSectionHeader (trim ("#lkit-mirror: ".toList ++ line)) = none := by
  have hstart : Mirror.trimStart ("#lkit-mirror: ".toList ++ line) =
    '#' :: ("lkit-mirror: ".toList ++ line) := rfl
  apply isSectionHeader_none _ hstart (by decide)
  intro _ hopen
  cases hopen

theorem isSectionHeader_mirrorlist (h : isMirrorlistLine line = true) :
    isSectionHeader (trim line) = none := by
  obtain ⟨rest, hrest⟩ : ∃ rest, Mirror.trimStart line = 'm' :: rest := by
    rw [isMirrorlistLine, Bool.or_eq_true, List.isPrefixOf_iff_prefix,
      List.isPrefixOf_iff_prefix] at h
    rcases h with ⟨t, ht⟩ | ⟨t, ht⟩
    · exact ⟨_, ht.symm⟩
    · exact ⟨_, ht.symm⟩
  exact isSectionHeader_none line hrest (by decide) fun he => absurd he (by decide)

theorem isSectionHeader_converts {new : Text} (h : Converts pairs line new) :
    isSectionHeader (trim new) = isSectionHeader (trim line) := by
  cases h with
  | other => rfl
  | disabled h h' => rw [isSectionHeader_disabled, isSectionHeader_mirrorlist h']
  | baseurl h =>
    rw [isSectionHeader_baseurl (h.active _), isSectionHeader_baseurl h]

theorem transformLine_header (h : (isSectionHeader (trim line)).isSome) :
    transformLine line pairs = (line, false) := by
  apply transformLine_other
  · rw [Bool.eq_false_iff]
    intro hbase
    obtain ⟨indent, mark, url, hline⟩ := exists_baseurlLine hbase
    rw [isSectionHeader_baseurl hline] at h
    cases h
  · rw [Bool.eq_false_iff]
    intro hlist
    rw [isSectionHeader_mirrorlist hlist] at h
    cases h

theorem isBaseurlLine_converts {new : Text} (h : Converts pairs line new) :
    isBaseurlLine new = isBaseurlLine line := by
  cases h with
  | other => rfl
  | disabled h h' => rw [isBaseurlLine_disabled, h]
  | baseurl h =>
    rw [(h.active _).isBaseurlLine, h.isBaseurlLine]

theorem transformLine_again (family : Family) (mirror : MirrorName) (line : Text) :
    (transformLine (stripCarriageReturn (transformLine line (replacementPairs family mirror)).1)
      (replacementPairs family mirror)).2 = false := by
  have htable := pairTable family mirror
  have hconverts := converts_transformLine line (replacementPairs family mirror)
  generalize (transformLine line (replacementPairs family mirror)).1 = new at hconverts
  have hkept (h : isBaseurlLine new = false) (h' : isMirrorlistLine new = false) :
      (transformLine (stripCarriageReturn new) (replacementPairs family mirror)).2 = false := by
    rw [transformLine_other]
    · rwa [stripCarriageReturn_eq fun c hc => isBaseurlLine_concat hc]
    · rwa [stripCarriageReturn_eq fun c hc => isMirrorlistLine_concat hc]
  cases hconverts with
  | other h h' => exact hkept h h'
  | disabled => exact hkept (isBaseurlLine_disabled line) (isMirrorlistLine_disabled line)
  | baseurl h =>
    rename_i indent mark url
    have hnew (url' : Text) := h.active url'
    rcases stripCarriageReturn_cases (indent ++ ("baseurl=".toList ++
        replaceHosts url (replacementPairs family mirror))) with hcr | hcr
    · rw [hcr, transformLine_baseurl (hnew _), replaceHosts_again htable]
      exact decide_eq_false (fun hne => hne rfl)
    · generalize hurl : replaceHosts url (replacementPairs family mirror) = url' at hcr ⊢
      have hagain : replaceHosts url' (replacementPairs family mirror) = url' := by
        rw [← hurl, replaceHosts_again htable]
      -- the carriage return is the last character of the URL
      obtain ⟨front, rfl⟩ : ∃ front, url' = front ++ ['\r'] := by
        apply List.getLast?_eq_some_iff.mp
        have hlast := congrArg List.getLast? hcr
        rw [List.getLast?_concat] at hlast
        cases url' with
        | nil =>
          rw [List.append_nil, List.getLast?_append_of_ne_nil _ (by decide)] at hlast
          cases hlast
        | cons c url' =>
          rwa [List.getLast?_append_of_ne_nil _ (by simp),
            List.getLast?_append_of_ne_nil _ (List.cons_ne_nil _ _)] at hlast
      have hline : stripCarriageReturn (indent ++ ("baseurl=".toList ++ (front ++ ['\r']))) =
          indent ++ ("baseurl=".toList ++ front) := by
        rw [← List.append_assoc, ← List.append_assoc] at hcr
        have hsame := List.append_cancel_right hcr
        rw [List.append_assoc, List.append_assoc] at hsame
        exact hsame.symm
      rw [hline, transformLine_baseurl (hnew _)]
      have hreturn : ∀ host ∈ recognizedHosts family, '\r' ∉ host :=
        fun host hhost => (lineEnd_notMem family host hhost).2
      rw [replaceHosts_concat htable (by decide) hreturn] at hagain
      exact decide_eq_false fun hne => hne (List.append_cancel_right hagain).symm

theorem newline_notMem_converts {family : Family} {mirror : MirrorName} {new : Text}
    (hline : '\n' ∉ line) (h : Converts (replacementPairs family mirror) line new) :
    '\n' ∉ new := by
  cases h with
  | other => exact hline
  | disabled =>
    rw [List.mem_append, not_or]
    exact ⟨by decide, hline⟩
  | baseurl h =>
    rw [h.text] at hline
    simp only [List.mem_append, not_or] at hline ⊢
    refine ⟨hline.1, hline.2.2.1, notMem_replaceHosts hline.2.2.2 fun pair hpair => ?_⟩
    exact (lineEnd_notMem family _ ((pairTable family mirror).target pair hpair)).1

end Convert

end LandscapeKit.Mirror.Dnf
