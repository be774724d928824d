import LandscapeKit.LibWords
import LandscapeKit.MirrorHosts

/-!
Replacing hosts in a URL. The search goes on behind each place where the host was found, so what
is in front of the next one is seen only from there; with hosts that do not overlap this comes to
replacing words in a reading of the URL.
-/

namespace LandscapeKit.Mirror

open Text

def beginsAtBoundary (head : Text) : Bool := head.getLast?.all isBoundary

def replaceFrom (source target : Text) : ℕ → Text → Text
  | 0, rest => rest
  | n + 1, rest =>
    match splitOnce source rest with
    | none => rest
    | some (head, after) =>
      let boundary := beginsAtBoundary head && endsAtBoundary after
      head ++ ((if boundary then target else source) ++ replaceFrom source target n after)

def replaceHost (text source target : Text) : Text := replaceFrom source target text.length text

def replaceHosts (url : Text) (pairs : List (Text × Text)) : Text :=
  pairs.foldl (fun rewritten pair =>
    if containsText pair.1 rewritten then replaceHost rewritten pair.1 pair.2 else rewritten) url

def standsIn (host text : Text) : Bool :=
  (List.range (text.length + 1)).any fun n =>
    host.isPrefixOf (text.drop n) && beginsAtBoundary (text.take n) &&
      endsAtBoundary (text.drop (n + host.length))

theorem standsIn_iff {host text : Text} : standsIn host text = true ↔ ∃ front back,
    text = front ++ (host ++ back) ∧ beginsAtBoundary front = true ∧
      endsAtBoundary back = true := by
  simp only [standsIn, List.any_eq_true, List.mem_range, Bool.and_eq_true,
    List.isPrefixOf_iff_prefix]
  constructor
  · rintro ⟨n, hn, ⟨⟨back, hback⟩, hfront⟩, hend⟩
    refine ⟨text.take n, back, ?_, hfront, ?_⟩
    · rw [hback, List.take_append_drop]
    · rwa [← List.drop_drop, ← hback, List.drop_left] at hend
  · rintro ⟨front, back, rfl, hfront, hback⟩
    refine ⟨front.length, ?_, ⟨?_, ?_⟩, ?_⟩
    · rw [List.length_append]
      omega
    · rw [List.drop_left]
      exact List.prefix_append host back
    · rwa [List.take_left]
    · rwa [← List.drop_drop, List.drop_left, List.drop_left]

theorem notMem_replaceHosts {c : Char} {url : Text} {pairs : List (Text × Text)} (h : c ∉ url)
    (hpairs : ∀ pair ∈ pairs, c ∉ pair.2) : c ∉ replaceHosts url pairs := by
  have hfrom (source target : Text) (ht : c ∉ target) (n : ℕ) (rest : Text) (hrest : c ∉ rest) :
      c ∉ replaceFrom source target n rest := by
    induction n generalizing rest with
    | zero => exact hrest
    | succ n ih =>
      rw [replaceFrom]
      cases hsplit : splitOnce source rest with
      | none => exact hrest
      | some cut =>
        obtain ⟨head, after⟩ := cut
        rw [splitOnce_spec hsplit, List.append_assoc] at hrest
        simp only [List.mem_append, not_or] at hrest ⊢
        refine ⟨hrest.1, ?_, ih after hrest.2.2⟩
        split
        · exact ht
        · exact hrest.2.1
  induction pairs generalizing url with
  | nil => exact h
  | cons pair pairs ih =>
    rw [List.forall_mem_cons] at hpairs
    apply ih _ hpairs.2
    dsimp only
    split
    · exact hfrom _ _ hpairs.1 _ url h
    · exact h

/-- A table of hosts and what to put in their places: the hosts do not overlap, none is listed
twice and none is put anywhere. -/
structure PairTable (W : List Text) (pairs : List (Text × Text)) : Prop where
  separate : Separate W
  closed : Closed isBoundary W
  source : ∀ pair ∈ pairs, pair.1 ∈ W
  target : ∀ pair ∈ pairs, pair.2 ∈ W
  distinct : pairs.Pairwise fun p q => p.1 ≠ q.1
  apart : ∀ p ∈ pairs, ∀ q ∈ pairs, p.2 ≠ q.1

section Words

variable {W : List Text} {v u w : Text} {ts : List Token} {pairs : List (Text × Text)}

theorem replaceFrom_spell (hW : Separate W) (hc : Closed isBoundary W) (hv : v ∈ W) (n : ℕ)
    (hr : IsReading W ts) (hn : (spell ts).length ≤ n) :
    replaceFrom v u n (spell ts) = spell (swap isBoundary v u true ts) := by
  induction n generalizing ts with
  | zero =>
    have hempty : spell ts = [] := List.eq_nil_of_length_eq_zero (Nat.le_zero.mp hn)
    have hnot : .word v ∉ ts := by
      intro hmem
      obtain ⟨pre, post, rfl⟩ := List.append_of_mem hmem
      rw [spell_append, spell_word, List.append_eq_nil_iff, List.append_eq_nil_iff] at hempty
      exact hW.nonempty v hv hempty.2.1
    rw [swap_of_notMem hnot, replaceFrom]
  | succ n ih =>
    by_cases hmem : .word v ∈ ts
    · obtain ⟨pre, post, rfl, hpre⟩ := List.eq_append_cons_of_mem hmem
      have hpost : IsReading W post := (hr.of_append).2
      have hfront : beginsAtBoundary (spell pre) = endsOpen isBoundary true pre :=
        (endsOpen_spell hc hr.before []).symm
      have hback : endsAtBoundary (spell post) = startsOpen isBoundary post :=
        (startsOpen_spell hc hpost).symm
      have hlen : (spell post).length ≤ n := by
        have hpos := List.length_pos_of_ne_nil (hW.nonempty v hv)
        rw [spell_append, spell_word, List.length_append, List.length_append] at hn
        omega
      rw [replaceFrom, splitOnce_spell hW hv hr hpre]
      dsimp only
      rw [ih hpost hlen, hfront, hback, swap_append hpre, swap_self, spell_append, spell_word]
    · rw [replaceFrom, splitOnce_spell_none hW hv hr hmem, swap_of_notMem hmem]

theorem replaceHost_spell (hW : Separate W) (hc : Closed isBoundary W) (hv : v ∈ W)
    (hr : IsReading W ts) : replaceHost (spell ts) v u = spell (swap isBoundary v u true ts) :=
  replaceFrom_spell hW hc hv _ hr (le_refl _)

def swapAll (pairs : List (Text × Text)) (ts : List Token) : List Token :=
  pairs.foldl (fun ts pair => swap isBoundary pair.1 pair.2 true ts) ts

theorem PairTable.tail {pair : Text × Text} (h : PairTable W (pair :: pairs)) :
    PairTable W pairs where
  separate := h.separate
  closed := h.closed
  source p hp := h.source p (List.mem_cons_of_mem _ hp)
  target p hp := h.target p (List.mem_cons_of_mem _ hp)
  distinct := (List.pairwise_cons.mp h.distinct).2
  apart p hp q hq := h.apart p (List.mem_cons_of_mem _ hp) q (List.mem_cons_of_mem _ hq)

theorem swapAll_reading (h : PairTable W pairs) (hr : IsReading W ts) :
    IsReading W (swapAll pairs ts) := by
  induction pairs generalizing ts with
  | nil => exact hr
  | cons pair pairs ih => exact ih h.tail (hr.swap (h.target pair (List.mem_cons_self ..)))

theorem replaceHosts_spell (h : PairTable W pairs) (hr : IsReading W ts) :
    replaceHosts (spell ts) pairs = spell (swapAll pairs ts) := by
  induction pairs generalizing ts with
  | nil => rfl
  | cons pair pairs ih =>
    have hmem := List.mem_cons_self (a := pair) (l := pairs)
    have hhere : (if containsText pair.1 (spell ts) then replaceHost (spell ts) pair.1 pair.2
        else spell ts) = spell (swap isBoundary pair.1 pair.2 true ts) := by
      split
      · exact replaceHost_spell h.separate h.closed (h.source pair hmem) hr
      · rename_i hnone
        have hnot : .word pair.1 ∉ ts := by
          intro hword
          obtain ⟨pre, post, rfl, hpre⟩ := List.eq_append_cons_of_mem hword
          have hsplit := splitOnce_spell h.separate (h.source pair hmem) hr hpre
          obtain ⟨n, hn, -⟩ := Option.map_eq_some_iff.mp hsplit
          apply hnone
          rw [containsText, hn]
          rfl
        rw [swap_of_notMem hnot]
    show replaceHosts (if containsText pair.1 (spell ts) then _ else _) pairs = _
    rw [hhere]
    exact ih h.tail (hr.swap (h.target pair hmem))

theorem swapAll_settled (h : PairTable W pairs) (ts : List Token) : ∀ pair ∈ pairs,
    swap isBoundary pair.1 pair.2 true (swapAll pairs ts) = swapAll pairs ts := by
  -- a pair that has been seen to is not undone by the later ones
  have hkept (pair : Text × Text) (rest : List (Text × Text)) (ts : List Token)
      (hsource : ∀ q ∈ rest, q.1 ≠ pair.1) (htarget : ∀ q ∈ rest, q.2 ≠ pair.1)
      (hts : swap isBoundary pair.1 pair.2 true ts = ts) :
      swap isBoundary pair.1 pair.2 true (swapAll rest ts) = swapAll rest ts := by
    induction rest generalizing ts with
    | nil => exact hts
    | cons q rest ih =>
      rw [List.forall_mem_cons] at hsource htarget
      exact ih _ hsource.2 htarget.2 (swap_swap_other hsource.1 htarget.1 hts)
  induction pairs generalizing ts with
  | nil => exact fun pair hpair => absurd hpair List.not_mem_nil
  | cons p pairs ih =>
    intro pair hpair
    have hp := List.mem_cons_self (a := p) (l := pairs)
    rcases List.mem_cons.mp hpair with rfl | hpair
    · apply hkept pair pairs (swap isBoundary pair.1 pair.2 true ts)
      · exact fun q hq => ((List.pairwise_cons.mp h.distinct).1 q hq).symm
      · exact fun q hq => h.apart q (List.mem_cons_of_mem _ hq) pair hp
      · exact swap_swap (h.apart pair hp pair hp) id
    · exact ih h.tail _ pair hpair

theorem swapAll_of_settled (hts : ∀ pair ∈ pairs, swap isBoundary pair.1 pair.2 true ts = ts) :
    swapAll pairs ts = ts := by
  induction pairs with
  | nil => rfl
  | cons pair pairs ih =>
    rw [List.forall_mem_cons] at hts
    show swapAll pairs (swap isBoundary pair.1 pair.2 true ts) = ts
    rw [hts.1, ih hts.2]

theorem replaceHosts_again (h : PairTable W pairs) (url : Text) :
    replaceHosts (replaceHosts url pairs) pairs = replaceHosts url pairs := by
  obtain ⟨ts, hr, rfl⟩ := exists_reading h.separate url
  rw [replaceHosts_spell h hr, replaceHosts_spell h (swapAll_reading h hr),
    swapAll_of_settled (swapAll_settled h ts)]

theorem replaceHosts_concat (h : PairTable W pairs) {c : Char} (hc : isBoundary c = true)
    (hW : ∀ w ∈ W, c ∉ w) (url : Text) :
    replaceHosts (url ++ [c]) pairs = replaceHosts url pairs ++ [c] := by
  obtain ⟨ts, hr, rfl⟩ := exists_reading h.separate url
  have hswap (pairs : List (Text × Text)) (ts : List Token) :
      swapAll pairs (ts ++ [.letter c]) = swapAll pairs ts ++ [.letter c] := by
    induction pairs generalizing ts with
    | nil => rfl
    | cons pair pairs ih =>
      show swapAll pairs (swap _ _ _ _ (ts ++ [.letter c])) = swapAll pairs (swap _ _ _ _ ts) ++ _
      rw [swap_concat hc, ih]
  have hspell (ts : List Token) : spell (ts ++ [.letter c]) = spell ts ++ [c] := by simp
  rw [← hspell, replaceHosts_spell h (hr.concat hW h.separate.nonempty), hswap, hspell,
    replaceHosts_spell h hr]

theorem Stands.swapAll_other (hw : ∀ pair ∈ pairs, pair.1 ≠ w)
    (hs : Stands isBoundary w true ts) : Stands isBoundary w true (swapAll pairs ts) := by
  induction pairs generalizing ts with
  | nil => exact hs
  | cons pair pairs ih =>
    rw [List.forall_mem_cons] at hw
    exact ih hw.2 (hs.swap_other hw.1)

theorem standsIn_spell (hc : Closed isBoundary W) (hr : IsReading W ts)
    (hs : Stands isBoundary w true ts) : standsIn w (spell ts) = true := by
  have hnil : true = true → ([] : Text).getLast?.all isBoundary = true := fun _ => rfl
  obtain ⟨front, back, he, hfront, hback⟩ := hs.spell hc hr hnil
  exact standsIn_iff.mpr ⟨front, back, he, hfront, hback⟩

theorem standsIn_replaceHosts (h : PairTable W pairs) {url : Text} {pair : Text × Text}
    (hpair : pair ∈ pairs) (hs : standsIn pair.1 url = true) :
    standsIn pair.2 (replaceHosts url pairs) = true := by
  obtain ⟨front, back, rfl, hfront, hback⟩ := standsIn_iff.mp hs
  obtain ⟨ts, hr, he, hts⟩ := exists_reading_of_stands h.separate h.closed
    (h.source pair hpair) hfront hback
  rw [← he, replaceHosts_spell h hr]
  apply standsIn_spell h.closed (swapAll_reading h hr)
  clear he hr hs
  induction pairs generalizing ts with
  | nil => cases hpair
  | cons p pairs ih =>
    obtain ⟨hdistinct, -⟩ := List.pairwise_cons.mp h.distinct
    rcases List.mem_cons.mp hpair with rfl | hmem
    · show Stands _ _ _ (swapAll pairs (swap isBoundary pair.1 pair.2 true ts))
      apply Stands.swapAll_other
      · exact fun q hq => (h.apart pair hpair q (List.mem_cons_of_mem _ hq)).symm
      · exact hts.swap_self id
    · exact ih h.tail hmem _ (hts.swap_other (hdistinct pair hmem))

theorem standsIn_replaceHosts_kept (h : PairTable W pairs) {url : Text} (hw : w ∈ W)
    (hnot : ∀ pair ∈ pairs, pair.1 ≠ w) (hs : standsIn w url = true) :
    standsIn w (replaceHosts url pairs) = true := by
  obtain ⟨front, back, rfl, hfront, hback⟩ := standsIn_iff.mp hs
  obtain ⟨ts, hr, he, hts⟩ := exists_reading_of_stands h.separate h.closed hw hfront hback
  rw [← he, replaceHosts_spell h hr]
  exact standsIn_spell h.closed (swapAll_reading h hr) (Stands.swapAll_other hnot hts)

end Words

end LandscapeKit.Mirror
