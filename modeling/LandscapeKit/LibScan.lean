import LandscapeKit.LibText

/-!
Scanning texts as `str` does it: the first place where a pattern occurs, the text before and
behind it, and lines with and without their ends.
-/

namespace LandscapeKit

namespace Text

def find (pattern : Text) : Text → Option ℕ
  | [] => if pattern = [] then some 0 else none
  | c :: text =>
    if pattern <+: c :: text then some 0 else (find pattern text).map (· + 1)

def splitOnce (pattern text : Text) : Option (Text × Text) :=
  (find pattern text).map fun n => (text.take n, text.drop (n + pattern.length))

def containsText (pattern text : Text) : Bool := (find pattern text).isSome

def rsplitOnce (c : Char) (text : Text) : Option (Text × Text) :=
  if c ∈ text then
    some ((text.reverse.dropWhile (· ≠ c)).reverse.dropLast,
      (text.reverse.takeWhile (· ≠ c)).reverse)
  else none

def splitInclusive (sep : Char) : Text → List Text
  | [] => []
  | c :: text =>
    if c = sep then [c] :: splitInclusive sep text
    else
      match splitInclusive sep text with
      | [] => [[c]]
      | line :: lines => (c :: line) :: lines

section Find

variable {pattern text a b : Text}

theorem find_spec {n : ℕ} (h : find pattern text = some n) :
    pattern <+: text.drop n ∧ n ≤ text.length := by
  induction text generalizing n with
  | nil =>
    rw [find] at h
    split at h
    · rename_i hp
      cases h
      rw [hp]
      exact ⟨List.nil_prefix, le_refl 0⟩
    · cases h
  | cons c text ih =>
    rw [find] at h
    split at h
    · rename_i hp
      cases h
      exact ⟨hp, Nat.zero_le _⟩
    · obtain ⟨m, hm, rfl⟩ := Option.map_eq_some_iff.mp h
      obtain ⟨h1, h2⟩ := ih hm
      exact ⟨h1, Nat.succ_le_succ h2⟩

theorem splitOnce_spec (h : splitOnce pattern text = some (a, b)) : text = a ++ pattern ++ b := by
  obtain ⟨n, hn, he⟩ := Option.map_eq_some_iff.mp h
  cases he
  obtain ⟨hp, hle⟩ := find_spec hn
  obtain ⟨rest, hrest⟩ := hp
  rw [List.append_assoc, ← List.drop_drop, ← hrest, List.drop_left, hrest, List.take_append_drop]

theorem find_min {n : ℕ} (h : find pattern text = some n) :
    ∀ m < n, ¬ pattern <+: text.drop m := by
  induction text generalizing n with
  | nil =>
    rw [find] at h
    split at h
    · cases h
      intro m hm
      exact absurd hm (Nat.not_lt_zero m)
    · cases h
  | cons c text ih =>
    rw [find] at h
    split at h
    · cases h
      intro m hm
      exact absurd hm (Nat.not_lt_zero m)
    · rename_i hc
      obtain ⟨k, hk, rfl⟩ := Option.map_eq_some_iff.mp h
      intro m hm
      cases m with
      | zero => exact hc
      | succ m => exact ih hk m (Nat.lt_of_succ_lt_succ hm)

theorem not_prefix_of_find (h : find pattern text = none) (m : ℕ) (hm : m ≤ text.length) :
    ¬ pattern <+: text.drop m := by
  induction text generalizing m with
  | nil =>
    rw [find] at h
    split at h
    · cases h
    · rename_i hp
      rw [List.drop_nil, List.prefix_nil]
      exact hp
  | cons c text ih =>
    rw [find] at h
    split at h
    · cases h
    · rename_i hc
      cases m with
      | zero => exact hc
      | succ m => exact ih (Option.map_eq_none_iff.mp h) m (Nat.le_of_succ_le_succ hm)

theorem find_append (hfree : ∀ n < a.length, ¬ pattern <+: (a ++ (pattern ++ b)).drop n) :
    find pattern (a ++ (pattern ++ b)) = some a.length := by
  induction a with
  | nil =>
    cases hp : ([] ++ (pattern ++ b) : Text) with
    | nil =>
      have hnil : pattern = [] := by
        rw [List.nil_append] at hp
        exact (List.append_eq_nil_iff.mp hp).1
      rw [find, if_pos hnil]
      rfl
    | cons c text =>
      rw [find, if_pos]
      · rfl
      · rw [← hp]
        exact List.prefix_append ..
  | cons c a ih =>
    have hnot := hfree 0 (Nat.zero_lt_succ _)
    rw [List.drop_zero, List.cons_append] at hnot
    rw [List.cons_append, find, if_neg hnot, ih]
    · rfl
    · intro n hn
      exact hfree (n + 1) (Nat.succ_lt_succ hn)

theorem splitOnce_char {c : Char} (ha : c ∉ a) : splitOnce [c] (a ++ c :: b) = some (a, b) := by
  have hfind : find [c] (a ++ ([c] ++ b)) = some a.length := by
    apply find_append
    intro n hn hprefix
    obtain ⟨rest, hrest⟩ := hprefix
    rw [List.drop_append_of_le_length hn.le, List.singleton_append] at hrest
    cases hdrop : a.drop n with
    | nil =>
      rw [List.drop_eq_nil_iff] at hdrop
      omega
    | cons d tail =>
      rw [hdrop, List.cons_append] at hrest
      have hd : c = d := (List.cons.inj hrest).1
      exact ha (List.mem_of_mem_drop (i := n) (by rw [hdrop, hd]; exact List.mem_cons_self ..))
  rw [List.singleton_append] at hfind
  rw [splitOnce, hfind, Option.map_some, List.take_left, List.length_singleton, ← List.drop_drop,
    List.drop_left]
  rfl

theorem splitOnce_append (h : splitOnce pattern text = some (a, b)) (b' : Text) :
    splitOnce pattern (a ++ pattern ++ b') = some (a, b') := by
  have htext := splitOnce_spec h
  obtain ⟨n, hn, he⟩ := Option.map_eq_some_iff.mp h
  have hlen : a.length = n := by
    cases he
    rw [List.length_take]
    exact Nat.min_eq_left (find_spec hn).2
  have hinside (m : ℕ) (hm : m < a.length) (tail : Text) :
      pattern <+: (a ++ (pattern ++ tail)).drop m ↔ pattern <+: (a ++ pattern).drop m := by
    have hle : m ≤ (a ++ pattern).length := by
      rw [List.length_append]
      omega
    rw [← List.append_assoc, List.drop_append_of_le_length hle]
    constructor
    · intro hp
      apply List.prefix_of_prefix_length_le hp (List.prefix_append ..)
      rw [List.length_drop, List.length_append]
      omega
    · exact fun hp => hp.trans (List.prefix_append ..)
  have hfind : find pattern (a ++ (pattern ++ b')) = some a.length := by
    apply find_append
    intro m hm hp
    apply find_min hn m (by omega)
    rw [htext, List.append_assoc]
    exact (hinside m hm b).mpr ((hinside m hm b').mp hp)
  rw [splitOnce, List.append_assoc, hfind, Option.map_some]
  congr 2
  · exact List.take_left
  · rw [← List.append_assoc, ← List.length_append, List.drop_left]

theorem rsplitOnce_append {c : Char} (hb : c ∉ b) : rsplitOnce c (a ++ c :: b) = some (a, b) := by
  have hall : ∀ d ∈ b.reverse, decide (d ≠ c) = true := by
    intro d hd
    have hne : d ≠ c := fun he => hb (he ▸ List.mem_reverse.mp hd)
    simp [hne]
  have hrev : (a ++ c :: b).reverse = b.reverse ++ c :: a.reverse := by simp
  rw [rsplitOnce, if_pos (by simp), hrev, List.dropWhile_append_of_pos hall,
    List.takeWhile_append_of_pos hall]
  simp

theorem rsplitOnce_spec {c : Char} (h : rsplitOnce c text = some (a, b)) :
    text = a ++ c :: b ∧ c ∉ b := by
  rw [rsplitOnce] at h
  split at h
  · rename_i hc
    -- the text is cut at its last `c`
    obtain ⟨x, y, htext, hy⟩ : ∃ x y, text = x ++ c :: y ∧ c ∉ y := by
      obtain ⟨y, x, hxy, hy⟩ := List.eq_append_cons_of_mem (List.mem_reverse.mpr hc)
      have hback := congrArg List.reverse hxy
      rw [List.reverse_reverse] at hback
      exact ⟨x.reverse, y.reverse, by simp [hback], fun hmem => hy (List.mem_reverse.mp hmem)⟩
    have hcut := rsplitOnce_append (a := x) hy
    rw [rsplitOnce, if_pos (by simp), ← htext, h] at hcut
    cases hcut
    exact ⟨htext, hy⟩
  · cases h

theorem rsplitOnce_none {c : Char} (h : c ∉ text) : rsplitOnce c text = none := by
  rw [rsplitOnce, if_neg h]

end Find

section Lines

variable {sep : Char}

@[simp]
theorem flatten_splitInclusive (sep : Char) (text : Text) :
    (splitInclusive sep text).flatten = text := by
  induction text with
  | nil => rfl
  | cons c text ih =>
    rw [splitInclusive]
    split
    · rw [List.flatten_cons, ih, List.singleton_append]
    · cases hl : splitInclusive sep text with
      | nil =>
        rw [hl] at ih
        rw [← ih]
        rfl
      | cons line lines =>
        rw [hl] at ih
        dsimp only
        rw [List.flatten_cons, List.cons_append, ← List.flatten_cons, ih]

def IsLine (sep : Char) (line : Text) : Prop := ∃ body, sep ∉ body ∧ line = body ++ [sep]

def IsOpenLine (sep : Char) (line : Text) : Prop := line ≠ [] ∧ sep ∉ line

theorem isLine_iff {line : Text} :
    IsLine sep line ↔ line.getLast? = some sep ∧ line.count sep = 1 := by
  constructor
  · rintro ⟨body, hbody, rfl⟩
    simp [List.count_eq_zero.mpr hbody]
  · intro ⟨hlast, hcount⟩
    obtain ⟨body, rfl⟩ := List.getLast?_eq_some_iff.mp hlast
    refine ⟨body, ?_, rfl⟩
    rw [List.count_append, List.count_singleton_self] at hcount
    exact List.count_eq_zero.mp (by omega)

def AreLines (sep : Char) : List Text → Prop
  | [] => True
  | line :: lines => if lines = [] then IsLine sep line ∨ IsOpenLine sep line
    else IsLine sep line ∧ AreLines sep lines

theorem areLines_cons {line : Text} {lines : List Text} (h : IsLine sep line)
    (hs : AreLines sep lines) : AreLines sep (line :: lines) := by
  rw [AreLines]
  split
  · exact .inl h
  · exact ⟨h, hs⟩

theorem areLines_splitInclusive (sep : Char) (text : Text) :
    AreLines sep (splitInclusive sep text) := by
  induction text with
  | nil => trivial
  | cons c text ih =>
    rw [splitInclusive]
    split
    · rename_i hc
      exact areLines_cons ⟨[], List.not_mem_nil, by rw [hc]; rfl⟩ ih
    · rename_i hc
      have hsep (body : Text) (h : sep ∉ body) : sep ∉ c :: body := by
        intro hmem
        rcases List.mem_cons.mp hmem with he | he
        · exact hc he.symm
        · exact h he
      cases hl : splitInclusive sep text with
      | nil =>
        rw [AreLines, if_pos rfl]
        exact .inr ⟨List.cons_ne_nil _ _, hsep [] List.not_mem_nil⟩
      | cons line lines =>
        rw [hl] at ih
        dsimp only
        rw [AreLines] at ih ⊢
        have hgrow (h : IsLine sep line) : IsLine sep (c :: line) := by
          obtain ⟨body, hbody, rfl⟩ := h
          exact ⟨c :: body, hsep body hbody, rfl⟩
        split
        · rename_i hempty
          rw [if_pos hempty] at ih
          rcases ih with h | ⟨-, h⟩
          · exact .inl (hgrow h)
          · exact .inr ⟨List.cons_ne_nil _ _, hsep line h⟩
        · rename_i hempty
          rw [if_neg hempty] at ih
          exact ⟨hgrow ih.1, ih.2⟩

theorem splitInclusive_line {line : Text} (h : IsLine sep line) (text : Text) :
    splitInclusive sep (line ++ text) = line :: splitInclusive sep text := by
  obtain ⟨body, hbody, rfl⟩ := h
  induction body with
  | nil =>
    rw [List.nil_append, List.singleton_append, splitInclusive, if_pos rfl]
  | cons c body ih =>
    have hc : c ≠ sep := fun he => hbody (he ▸ List.mem_cons_self ..)
    have hrest := ih fun hmem => hbody (List.mem_cons_of_mem _ hmem)
    rw [List.cons_append, List.cons_append, splitInclusive, if_neg hc, hrest]

theorem splitInclusive_open {line : Text} (h : IsOpenLine sep line) :
    splitInclusive sep line = [line] := by
  obtain ⟨hne, hsep⟩ := h
  induction line with
  | nil => exact absurd rfl hne
  | cons c line ih =>
    have hc : c ≠ sep := fun he => hsep (he ▸ List.mem_cons_self ..)
    rw [splitInclusive, if_neg hc]
    cases line with
    | nil => rfl
    | cons d line =>
      rw [ih (List.cons_ne_nil _ _) fun hmem => hsep (List.mem_cons_of_mem _ hmem)]

theorem splitInclusive_flatten {lines : List Text} (h : AreLines sep lines) :
    splitInclusive sep lines.flatten = lines := by
  induction lines with
  | nil => rfl
  | cons line lines ih =>
    rw [AreLines] at h
    split at h
    · rename_i hempty
      rw [hempty, List.flatten_cons, List.flatten_nil, List.append_nil]
      rcases h with h | h
      · have hline := splitInclusive_line h []
        rwa [List.append_nil] at hline
      · exact splitInclusive_open h
    · rw [List.flatten_cons, splitInclusive_line h.1, ih h.2]

theorem areLines_append {a b : List Text} (h : AreLines sep (a ++ b)) :
    AreLines sep a ∧ AreLines sep b := by
  induction a with
  | nil => exact ⟨trivial, h⟩
  | cons line a ih =>
    rw [List.cons_append, AreLines] at h
    split at h
    · rename_i hnil
      obtain ⟨rfl, rfl⟩ := List.append_eq_nil_iff.mp hnil
      refine ⟨?_, trivial⟩
      rw [AreLines, if_pos rfl]
      exact h
    · obtain ⟨ha, hb⟩ := ih h.2
      exact ⟨areLines_cons h.1 ha, hb⟩

theorem line_of_areLines {lines : List Text} (h : AreLines sep lines) {line : Text}
    (hmem : line ∈ lines) : IsLine sep line ∨ IsOpenLine sep line := by
  induction lines with
  | nil => exact absurd hmem List.not_mem_nil
  | cons l lines ih =>
    rw [AreLines] at h
    split at h
    · rename_i hempty
      rw [hempty] at hmem
      rwa [List.mem_singleton.mp hmem]
    · rcases List.mem_cons.mp hmem with rfl | hmem
      · exact .inl h.1
      · exact ih h.2 hmem

theorem ne_nil_of_areLines {lines : List Text} (h : AreLines sep lines) {line : Text}
    (hmem : line ∈ lines) : line ≠ [] := by
  rcases line_of_areLines h hmem with ⟨body, -, rfl⟩ | h
  · simp
  · exact h.1

def Replaces (sep : Char) (line : Text) : Option Text → Prop
  | none => True
  | some new => (IsLine sep line → IsLine sep new) ∧ (IsOpenLine sep line → IsOpenLine sep new)

theorem areLines_filterMap {ps : List (Text × Option Text)} (h : AreLines sep (ps.map Prod.fst))
    (hps : ∀ p ∈ ps, Replaces sep p.1 p.2) : AreLines sep (ps.filterMap Prod.snd) := by
  induction ps with
  | nil => trivial
  | cons p ps ih =>
    obtain ⟨line, new⟩ := p
    have hp := hps _ (List.mem_cons_self ..)
    have hrest := fun q hq => hps q (List.mem_cons_of_mem _ hq)
    rw [List.map_cons, AreLines] at h
    have hempty (hnil : ps.map Prod.fst = []) : ps = [] := List.map_eq_nil_iff.mp hnil
    cases new with
    | none =>
      rw [List.filterMap_cons_none rfl]
      split at h
      · rename_i hnil
        rw [hempty hnil]
        trivial
      · exact ih h.2 hrest
    | some new =>
      have hcons : ((line, some new) :: ps).filterMap Prod.snd = new :: ps.filterMap Prod.snd := rfl
      rw [hcons]
      split at h
      · rename_i hnil
        rw [hempty hnil, List.filterMap_nil, AreLines, if_pos rfl]
        exact h.imp hp.1 hp.2
      · exact areLines_cons (hp.1 h.1) (ih h.2 hrest)

theorem areLines_filter {lines : List Text} (h : AreLines sep lines) (keep : Text → Bool) :
    AreLines sep (lines.filter keep) := by
  induction lines with
  | nil => trivial
  | cons line lines ih =>
    rw [AreLines] at h
    rw [List.filter_cons]
    split at h
    · rename_i hnil
      rw [hnil, List.filter_nil]
      split
      · rwa [AreLines, if_pos rfl]
      · trivial
    · split
      · exact areLines_cons h.1 (ih h.2)
      · exact ih h.2

theorem areLines_forall₂ {lines lines' : List Text}
    (h : List.Forall₂ (fun l l' => Replaces sep l (some l')) lines lines')
    (hlines : AreLines sep lines) : AreLines sep lines' := by
  induction h with
  | nil => trivial
  | @cons line line' lines lines' hline hrest ih =>
    rw [AreLines] at hlines
    split at hlines
    · rename_i hnil
      subst hnil
      cases hrest
      rw [AreLines, if_pos rfl]
      exact hlines.imp hline.1 hline.2
    · exact areLines_cons (hline.1 hlines.1) (ih hlines.2)

end Lines

section Scanners

def Cuts (scan : Text → Text) : Prop := ∀ text, scan text <:+ text

/-- How far a scanner gets depends on the text up to the first character it leaves, and on that
character no more than `alike` tells. -/
def LooksAhead (alike : Char → Char → Prop) (scan : Text → Text) : Prop :=
  ∀ (a b : Text) (c c' : Char) (w w' : Text), alike c c' → scan (a ++ c :: w) = b ++ c :: w →
    scan (a ++ c' :: w') = b ++ c' :: w'

variable {scan scan' : Text → Text} {alike : Char → Char → Prop}

theorem Cuts.comp (h : Cuts scan) (h' : Cuts scan') : Cuts fun text => scan' (scan text) :=
  fun text => (h' (scan text)).trans (h text)

theorem LooksAhead.comp (h : LooksAhead alike scan) (hcut' : Cuts scan')
    (h' : LooksAhead alike scan') : LooksAhead alike fun text => scan' (scan text) := by
  intro a b c c' w w' halike heq
  dsimp only at heq ⊢
  -- the second scanner leaves the end of what the first one leaves
  obtain ⟨mid, hmid⟩ := hcut' (scan (a ++ c :: w))
  rw [heq, ← List.append_assoc] at hmid
  have hfirst := h a (mid ++ b) c c' w w' halike hmid.symm
  rw [← hmid, List.append_assoc] at heq
  rw [hfirst, List.append_assoc]
  have hsecond := h' (mid ++ b) b c c' w w' halike
  rw [List.append_assoc, List.append_assoc] at hsecond
  exact hsecond heq

theorem cuts_dropWhile (p : Char → Bool) : Cuts (List.dropWhile p) :=
  fun _ => List.dropWhile_suffix p

theorem takeWhile_dropWhile_ahead (p : Char → Bool) {a b w : Text} {c c' : Char} (w' : Text)
    (hc : p c' = p c) (h : (a ++ c :: w).dropWhile p = b ++ c :: w) :
    (a ++ c' :: w').dropWhile p = b ++ c' :: w' ∧
      (a ++ c' :: w').takeWhile p = (a ++ c :: w).takeWhile p := by
  induction a with
  | nil =>
    cases hp : p c with
    | true =>
      rw [List.nil_append, List.dropWhile_cons_of_pos hp] at h
      have hlen := (List.dropWhile_suffix (l := w) p).length_le
      rw [h, List.length_append, List.length_cons] at hlen
      omega
    | false =>
      rw [List.nil_append, List.dropWhile_cons_of_neg (by simp [hp])] at h
      have hb : b = [] := List.self_eq_append_left.mp h
      rw [hp] at hc
      rw [hb]
      simp [hp, hc]
  | cons d a ih =>
    cases hd : p d with
    | true =>
      rw [List.cons_append, List.dropWhile_cons_of_pos hd] at h
      obtain ⟨h1, h2⟩ := ih h
      simp only [List.cons_append, List.dropWhile_cons_of_pos hd, List.takeWhile_cons_of_pos hd]
      exact ⟨h1, by rw [h2]⟩
    | false =>
      rw [List.cons_append, List.dropWhile_cons_of_neg (by simp [hd]), ← List.cons_append] at h
      have hb : d :: a = b := List.append_cancel_right h
      rw [← hb]
      simp [hd]

theorem looksAhead_dropWhile {p : Char → Bool} (hp : ∀ c c', alike c c' → p c' = p c) :
    LooksAhead alike (List.dropWhile p) :=
  fun _ _ c c' _ w' halike h => (takeWhile_dropWhile_ahead p w' (hp c c' halike) h).1

end Scanners

end Text

end LandscapeKit
