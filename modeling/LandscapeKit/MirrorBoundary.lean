import LandscapeKit.LibSpaced
import LandscapeKit.MirrorBackends

/-!
Where `replace_host` puts the target. The search goes on behind each place it has looked at, so
it looks at the places of `match_indices`, and for a place right behind another it does not see
the character in front.
-/

namespace LandscapeKit.Mirror

open Text Spaced Splice

section Places

variable (source text : Text)

def occursAt (n : ℕ) : Bool := source.isPrefixOf (text.drop n)

def standsAt (n : ℕ) : Bool :=
  occursAt source text n && beginsAtBoundary (text.take n) &&
    endsAtBoundary (text.drop (n + source.length))

def matchIndices : List ℕ := places (occursAt source text) source.length text.length

def hostIndices : List ℕ := places (standsAt source text) source.length text.length

def replaceBounded (target : Text) : Text :=
  splice text (edits source.length target (hostIndices source text))

def acceptedFrom : ℕ → List ℕ → List ℕ
  | _, [] => []
  | start, n :: ns =>
    if beginsAtBoundary ((text.take n).drop start) && endsAtBoundary (text.drop (n + source.length))
    then n :: acceptedFrom (n + source.length) ns
    else acceptedFrom (n + source.length) ns

def acceptedIndices : List ℕ := acceptedFrom source text 0 (matchIndices source text)

end Places

section Search

variable {source text : Text}

theorem occursAt_iff {n : ℕ} : occursAt source text n = true ↔ source <+: text.drop n := by
  rw [occursAt, List.isPrefixOf_iff_prefix]

theorem standsAt_iff {n : ℕ} : standsAt source text n = true ↔ occursAt source text n = true ∧
    beginsAtBoundary (text.take n) = true ∧
      endsAtBoundary (text.drop (n + source.length)) = true := by
  rw [standsAt, Bool.and_eq_true, Bool.and_eq_true, and_assoc]

theorem end_le_of_occursAt {n : ℕ} (hsource : source ≠ []) (h : occursAt source text n = true) :
    n + source.length ≤ text.length := by
  have hlen := (occursAt_iff.mp h).length_le
  have hpos := List.length_pos_of_ne_nil hsource
  rw [List.length_drop] at hlen
  omega

def visitedFrom (source text : Text) (start : ℕ) : List ℕ :=
  spaced (occursAt source text) source.length (text.length - start) start 0

theorem search (hsource : source ≠ []) {start : ℕ} (hstart : start ≤ text.length) :
    (splitOnce source (text.drop start) = none ∧ visitedFrom source text start = []) ∨
      ∃ n, start ≤ n ∧ n + source.length ≤ text.length ∧
        splitOnce source (text.drop start) =
          some ((text.take n).drop start, text.drop (n + source.length)) ∧
        visitedFrom source text start = n :: visitedFrom source text (n + source.length) := by
  have hpos := List.length_pos_of_ne_nil hsource
  cases hfind : find source (text.drop start) with
  | none =>
    left
    refine ⟨by rw [splitOnce, hfind, Option.map_none], spaced_of_free ?_⟩
    intro m hm
    rw [Bool.eq_false_iff]
    intro hoccurs
    rw [occursAt_iff, ← List.drop_drop] at hoccurs
    apply not_prefix_of_find hfind m _ hoccurs
    rw [List.length_drop]
    omega
  | some m =>
    right
    obtain ⟨hbegins, -⟩ := find_spec hfind
    have hfirst := find_min hfind
    simp only [List.drop_drop] at hbegins hfirst
    have hoccurs : occursAt source text (start + m) = true := occursAt_iff.mpr hbegins
    have hend := end_le_of_occursAt hsource hoccurs
    refine ⟨start + m, Nat.le_add_right _ _, hend, ?_, ?_⟩
    · rw [splitOnce, hfind, Option.map_some, List.take_drop, List.drop_drop, Nat.add_assoc]
    · rw [visitedFrom, spaced_of_first hpos (n := m) (by omega) ?_ hoccurs, visitedFrom]
      · congr 2
        omega
      · intro i hi
        rw [Bool.eq_false_iff]
        intro hearly
        exact hfirst i hi (occursAt_iff.mp hearly)

theorem mem_acceptedFrom {start n : ℕ} {ns : List ℕ} (h : n ∈ acceptedFrom source text start ns) :
    n ∈ ns := by
  induction ns generalizing start with
  | nil => cases h
  | cons m ns ih =>
    rw [acceptedFrom] at h
    split at h
    · rcases List.mem_cons.mp h with rfl | h
      · exact List.mem_cons_self ..
      · exact List.mem_cons_of_mem _ (ih h)
    · exact List.mem_cons_of_mem _ (ih h)

theorem acceptedFrom_sublist (start : ℕ) (ns : List ℕ) :
    (acceptedFrom source text start ns).Sublist ns := by
  induction ns generalizing start with
  | nil => exact List.Sublist.refl _
  | cons m ns ih =>
    rw [acceptedFrom]
    split
    · exact (ih _).cons_cons m
    · exact (ih _).cons m

theorem replaceFrom_eq (hsource : source ≠ []) (target : Text) {start k : ℕ}
    (hstart : start ≤ text.length) (hk : text.length - start ≤ k) :
    replaceFrom source target k (text.drop start) = spliceFrom start (text.drop start)
      (edits source.length target
        (acceptedFrom source text start (visitedFrom source text start))) := by
  have hpos := List.length_pos_of_ne_nil hsource
  induction k generalizing start with
  | zero =>
    have hzero : text.length - start = 0 := Nat.le_zero.mp hk
    rw [visitedFrom, hzero]
    rfl
  | succ k ih =>
    rcases search hsource hstart with ⟨hsplit, hvisited⟩ | ⟨n, hn, hend, hsplit, hvisited⟩
    · rw [hvisited, replaceFrom, hsplit]
      rfl
    · -- the text up to the end of the place, and what the loop does behind it
      have hrest := ih hend (by omega)
      have htext : text.drop start =
          (text.take n).drop start ++ (source ++ text.drop (n + source.length)) := by
        have h := splitOnce_spec hsplit
        rwa [List.append_assoc] at h
      have hlength : ((text.take n).drop start).length = n - start := by
        rw [List.length_drop, List.length_take]
        omega
      have hfits : Fits (n + source.length) text.length (edits source.length target
          (acceptedFrom source text (n + source.length)
            (visitedFrom source text (n + source.length)))) := by
        apply fits_edits target hend
        · exact (spaced_pairwise _ _ hpos).sublist (acceptedFrom_sublist ..)
        · intro m hm
          obtain ⟨h1, -, h3⟩ := mem_spaced hpos (mem_acceptedFrom hm)
          exact ⟨h1, end_le_of_occursAt hsource h3⟩
      rw [hvisited, replaceFrom, hsplit, acceptedFrom]
      dsimp only
      rw [hrest]
      cases beginsAtBoundary ((text.take n).drop start) &&
        endsAtBoundary (text.drop (n + source.length)) with
      | true =>
        have htake : (text.drop start).take (n - start) = (text.take n).drop start := by
          rw [← hlength, htext, List.take_left]
        have hdrop : (text.drop start).drop (n + source.length - start) =
            text.drop (n + source.length) := by
          rw [List.drop_drop]
          congr 1
          omega
        rw [if_pos rfl, if_pos rfl, edits_cons, spliceFrom, htake, hdrop, List.append_assoc]
      | false =>
        have hbehind : start + ((text.take n).drop start ++ source).length =
            n + source.length := by
          rw [List.length_append, hlength]
          omega
        rw [if_neg Bool.false_ne_true, if_neg Bool.false_ne_true, htext, ← List.append_assoc,
          ← List.append_assoc, spliceFrom_behind _ _ (by rw [hbehind]; exact hfits), hbehind]

theorem containsFrom_eq (hsource : source ≠ []) {start k : ℕ} (hstart : start ≤ text.length)
    (hk : text.length - start ≤ k) : containsFrom source k (text.drop start) = true ↔
      acceptedFrom source text start (visitedFrom source text start) ≠ [] := by
  have hpos := List.length_pos_of_ne_nil hsource
  induction k generalizing start with
  | zero =>
    have hzero : text.length - start = 0 := Nat.le_zero.mp hk
    rw [visitedFrom, hzero]
    simp [containsFrom, spaced, acceptedFrom]
  | succ k ih =>
    rcases search hsource hstart with ⟨hsplit, hvisited⟩ | ⟨n, hn, hend, hsplit, hvisited⟩
    · rw [hvisited, containsFrom, hsplit]
      simp [acceptedFrom]
    · have hrest := ih hend (by omega)
      rw [hvisited, containsFrom, hsplit, acceptedFrom]
      dsimp only
      cases beginsAtBoundary ((text.take n).drop start) &&
        endsAtBoundary (text.drop (n + source.length)) with
      | true => simp
      | false => simpa using hrest

theorem replaceHost_eq (hsource : source ≠ []) (target : Text) :
    replaceHost text source target =
      splice text (edits source.length target (acceptedIndices source text)) :=
  replaceFrom_eq hsource target (Nat.zero_le _) (by rw [Nat.sub_zero])

theorem containsHost_iff (hsource : source ≠ []) :
    containsHost text source = true ↔ acceptedIndices source text ≠ [] :=
  containsFrom_eq hsource (Nat.zero_le _) (by rw [Nat.sub_zero])

end Search

section Choice

variable {source text : Text}

theorem beginsAtBoundary_drop {start n : ℕ} (hn : n ≤ text.length) :
    beginsAtBoundary ((text.take n).drop start) = true ↔
      n ≤ start ∨ beginsAtBoundary (text.take n) = true := by
  have hlength : (text.take n).length = n := by
    rw [List.length_take]
    omega
  rw [beginsAtBoundary, beginsAtBoundary, List.getLast?_drop, hlength]
  split
  · rename_i hle
    simp [hle]
  · rename_i hlt
    simp [hlt]

/-- What is accepted among places that do not overlap. The loop sees no character in front of the
first place where it starts, and of a place that stands right behind another. -/
theorem mem_acceptedFrom_iff (hsource : source ≠ []) {start : ℕ} {ns : List ℕ}
    (hspaced : ns.Pairwise fun m n => m + source.length ≤ n)
    (hns : ∀ n ∈ ns, start ≤ n ∧ n ≤ text.length) {n : ℕ} :
    n ∈ acceptedFrom source text start ns ↔
      n ∈ ns ∧ endsAtBoundary (text.drop (n + source.length)) = true ∧
        (n = start ∨ (∃ m ∈ ns, m + source.length = n) ∨
          beginsAtBoundary (text.take n) = true) := by
  have hpos := List.length_pos_of_ne_nil hsource
  induction ns generalizing start with
  | nil => simp [acceptedFrom]
  | cons a ns ih =>
    obtain ⟨hbehind, hrest⟩ := List.pairwise_cons.mp hspaced
    obtain ⟨hstart, ha⟩ := hns a (List.mem_cons_self ..)
    have htail : n ∈ acceptedFrom source text (a + source.length) ns ↔
        n ∈ ns ∧ endsAtBoundary (text.drop (n + source.length)) = true ∧
          (n = a + source.length ∨ (∃ m ∈ ns, m + source.length = n) ∨
            beginsAtBoundary (text.take n) = true) :=
      ih hrest fun m hm => ⟨hbehind m hm, (hns m (List.mem_cons_of_mem _ hm)).2⟩
    -- the places behind the first one
    have hlater : n ∈ acceptedFrom source text (a + source.length) ns ↔ n ≠ a ∧ n ∈ a :: ns ∧
        endsAtBoundary (text.drop (n + source.length)) = true ∧
          (n = start ∨ (∃ m ∈ a :: ns, m + source.length = n) ∨
            beginsAtBoundary (text.take n) = true) := by
      rw [htail]
      constructor
      · rintro ⟨hmem, hend, hor⟩
        have hle := hbehind n hmem
        refine ⟨by omega, List.mem_cons_of_mem _ hmem, hend, ?_⟩
        rcases hor with rfl | ⟨m, hm, rfl⟩ | hbegin
        · exact .inr (.inl ⟨a, List.mem_cons_self .., rfl⟩)
        · exact .inr (.inl ⟨m, List.mem_cons_of_mem _ hm, rfl⟩)
        · exact .inr (.inr hbegin)
      · rintro ⟨hne, hmem, hend, hor⟩
        have hmem' : n ∈ ns := (List.mem_cons.mp hmem).resolve_left hne
        have hle := hbehind n hmem'
        refine ⟨hmem', hend, ?_⟩
        rcases hor with rfl | ⟨m, hm, rfl⟩ | hbegin
        · omega
        · rcases List.mem_cons.mp hm with rfl | hm
          · exact .inl rfl
          · exact .inr (.inl ⟨m, hm, rfl⟩)
        · exact .inr (.inr hbegin)
    have hfirst (m : ℕ) (hm : m ∈ a :: ns) : m + source.length ≠ a := by
      intro heq
      rcases List.mem_cons.mp hm with rfl | hm
      · omega
      · have hle := hbehind m hm
        omega
    have hseen : beginsAtBoundary ((text.take a).drop start) = true ↔
        a = start ∨ beginsAtBoundary (text.take a) = true := by
      rw [beginsAtBoundary_drop ha]
      have heq : a ≤ start ↔ a = start := ⟨fun h => by omega, fun h => by omega⟩
      rw [heq]
    rw [acceptedFrom]
    by_cases hn : n = a
    · subst hn
      have hnot : n ∉ acceptedFrom source text (n + source.length) ns := fun h => (hlater.mp h).1 rfl
      have hor : (n = start ∨ (∃ m ∈ n :: ns, m + source.length = n) ∨
          beginsAtBoundary (text.take n) = true) ↔
            beginsAtBoundary ((text.take n).drop start) = true := by
        rw [hseen]
        constructor
        · rintro (h | ⟨m, hm, h⟩ | h)
          · exact .inl h
          · exact absurd h (hfirst m hm)
          · exact .inr h
        · rintro (h | h)
          · exact .inl h
          · exact .inr (.inr h)
      rw [hor, and_comm (a := endsAtBoundary _ = true), ← Bool.and_eq_true]
      split
      · rename_i haccepted
        simp [haccepted]
      · rename_i hrefused
        simp [hrefused, hnot]
    · have hskip : n ∈ (if beginsAtBoundary ((text.take a).drop start) &&
            endsAtBoundary (text.drop (a + source.length)) then
          a :: acceptedFrom source text (a + source.length) ns
          else acceptedFrom source text (a + source.length) ns) ↔
          n ∈ acceptedFrom source text (a + source.length) ns := by
        split
        · simp [hn]
        · rfl
      rw [hskip, hlater]
      simp [hn]

/-- The places that the loop looks at: no place right behind another one owes its boundary in
front to the search having started there, and none that has to stay overlaps a place that the
target belongs to. -/
structure Settled (source text : Text) : Prop where
  adjacent : ∀ m ∈ matchIndices source text, ∀ n ∈ matchIndices source text,
    m + source.length = n → endsAtBoundary (text.drop (n + source.length)) = true →
      beginsAtBoundary (text.take n) = true
  covered : ∀ n ∈ matchIndices source text, standsAt source text n = false →
    ∀ m, n < m → m < n + source.length → standsAt source text m = false

theorem mem_acceptedIndices (hsource : source ≠ []) {n : ℕ} :
    n ∈ acceptedIndices source text ↔ n ∈ matchIndices source text ∧
      endsAtBoundary (text.drop (n + source.length)) = true ∧
        ((∃ m ∈ matchIndices source text, m + source.length = n) ∨
          beginsAtBoundary (text.take n) = true) := by
  have hpos := List.length_pos_of_ne_nil hsource
  have hspaced : (matchIndices source text).Pairwise fun m n => m + source.length ≤ n :=
    places_pairwise _ hpos
  rw [acceptedIndices, mem_acceptedFrom_iff hsource hspaced
    fun n hn => ⟨Nat.zero_le n, (mem_places hpos hn).1.le⟩]
  have hzero : n = 0 → beginsAtBoundary (text.take n) = true := by
    rintro rfl
    rfl
  constructor
  · rintro ⟨hmem, hend, h | h | h⟩
    · exact ⟨hmem, hend, .inr (hzero h)⟩
    · exact ⟨hmem, hend, .inl h⟩
    · exact ⟨hmem, hend, .inr h⟩
  · rintro ⟨hmem, hend, h⟩
    exact ⟨hmem, hend, .inr h⟩

theorem hostIndices_subset {n : ℕ} (hsource : source ≠ []) (h : n ∈ hostIndices source text) :
    standsAt source text n = true := (mem_places (List.length_pos_of_ne_nil hsource) h).2

theorem mem_hostIndices_iff (hsource : source ≠ []) (h : Settled source text) (n : ℕ) :
    n ∈ hostIndices source text ↔
      n ∈ matchIndices source text ∧ standsAt source text n = true := by
  have hpos := List.length_pos_of_ne_nil hsource
  induction n using Nat.strong_induction_on with
  | _ n ih =>
    constructor
    · intro hn
      have hstands := hostIndices_subset hsource hn
      have hlt := (mem_places hpos hn).1
      refine ⟨?_, hstands⟩
      by_contra hnot
      obtain ⟨m, hm, hmn, hnm⟩ :=
        near_of_notMem_places hpos hlt (standsAt_iff.mp hstands).1 hnot
      cases hmstands : standsAt source text m with
      | false =>
        rw [h.covered m hm hmstands n hmn hnm] at hstands
        cases hstands
      | true =>
        have hapart := places_apart hpos ((ih m hmn).mpr ⟨hm, hmstands⟩) hn hmn
        omega
    · rintro ⟨hmem, hstands⟩
      have hlt := (mem_places hpos hmem).1
      by_contra hnot
      obtain ⟨m, hm, hmn, hnm⟩ := near_of_notMem_places hpos hlt hstands hnot
      have hapart := places_apart hpos ((ih m hmn).mp hm).1 hmem hmn
      omega

theorem mem_acceptedIndices_iff (hsource : source ≠ []) (h : Settled source text) (n : ℕ) :
    n ∈ acceptedIndices source text ↔
      n ∈ matchIndices source text ∧ standsAt source text n = true := by
  have hpos := List.length_pos_of_ne_nil hsource
  rw [mem_acceptedIndices hsource, standsAt_iff]
  constructor
  · rintro ⟨hmem, hend, ⟨m, hm, hmn⟩ | hbegin⟩
    · exact ⟨hmem, (mem_places hpos hmem).2, h.adjacent m hm n hmem hmn hend, hend⟩
    · exact ⟨hmem, (mem_places hpos hmem).2, hbegin, hend⟩
  · rintro ⟨hmem, -, hbegin, hend⟩
    exact ⟨hmem, hend, .inr hbegin⟩

theorem acceptedIndices_pairwise (hsource : source ≠ []) :
    (acceptedIndices source text).Pairwise fun m n => m + source.length ≤ n :=
  (places_pairwise _ (List.length_pos_of_ne_nil hsource)).sublist (acceptedFrom_sublist ..)

theorem hostIndices_pairwise (hsource : source ≠ []) :
    (hostIndices source text).Pairwise fun m n => m + source.length ≤ n :=
  places_pairwise _ (List.length_pos_of_ne_nil hsource)

theorem acceptedIndices_eq_iff (hsource : source ≠ []) :
    acceptedIndices source text = hostIndices source text ↔ Settled source text := by
  have hpos := List.length_pos_of_ne_nil hsource
  constructor
  · intro heq
    have hmem (n : ℕ) : n ∈ acceptedIndices source text ↔ n ∈ hostIndices source text := by
      rw [heq]
    refine ⟨fun m hm n hn hmn hend => ?_, fun n hn hstands m hnm hmn => ?_⟩
    · have haccepted : n ∈ acceptedIndices source text :=
        (mem_acceptedIndices hsource).mpr ⟨hn, hend, .inl ⟨m, hm, hmn⟩⟩
      have hstands := hostIndices_subset hsource ((hmem n).mp haccepted)
      exact (standsAt_iff.mp hstands).2.1
    · by_contra hm
      rw [Bool.not_eq_false] at hm
      -- the place inside is not looked at, so one that overlaps it is chosen instead
      have hout : m ∉ hostIndices source text := by
        rw [← hmem, mem_acceptedIndices hsource]
        rintro ⟨hvisited, -⟩
        have hapart := places_apart hpos hn hvisited hnm
        omega
      have hlt : m < text.length := by
        have hend := end_le_of_occursAt hsource (standsAt_iff.mp hm).1
        omega
      obtain ⟨b, hb, hbm, hmb⟩ := near_of_notMem_places hpos hlt hm hout
      have hvisited : b ∈ matchIndices source text :=
        ((mem_acceptedIndices hsource).mp ((hmem b).mpr hb)).1
      rcases Nat.lt_trichotomy b n with hlt | rfl | hlt
      · have hapart := places_apart hpos hvisited hn hlt
        omega
      · rw [hostIndices_subset hsource hb] at hstands
        cases hstands
      · have hapart := places_apart hpos hn hvisited hlt
        omega
  · intro h
    have hsorted {ns : List ℕ} (hns : ns.Pairwise fun m n => m + source.length ≤ n) :
        ns.Pairwise (· < ·) := hns.imp fun hle => by omega
    apply (hsorted (acceptedIndices_pairwise hsource)).eq_of_mem_iff
      (hsorted (hostIndices_pairwise hsource))
    intro n
    rw [mem_acceptedIndices_iff hsource h, mem_hostIndices_iff hsource h]

end Choice

section Replacement

variable {source text : Text}

theorem getElem?_of_occursAt {c : Char} {tail : Text} (hsource : source = c :: tail) {n : ℕ}
    (h : occursAt source text n = true) : text[n]? = some c := by
  obtain ⟨rest, hrest⟩ := occursAt_iff.mp h
  rw [← List.head?_drop, ← hrest, hsource]
  rfl

theorem exists_mark (text : Text) (hsource : source ≠ []) : ∃ mark : Text, ∀ ns ms : List ℕ,
    (∀ n ∈ ns, occursAt source text n = true) → (∀ m ∈ ms, occursAt source text m = true) →
      (ns.Pairwise fun m n => m + source.length ≤ n) →
        (ms.Pairwise fun m n => m + source.length ≤ n) →
          splice text (edits source.length mark ns) = splice text (edits source.length mark ms) →
            ns = ms := by
  obtain ⟨c, tail, hc⟩ := List.exists_cons_of_ne_nil hsource
  obtain ⟨mark, hmark⟩ : ∃ mark, mark ≠ c := by
    by_cases h : c = 'a'
    · exact ⟨'b', by rw [h]; decide⟩
    · exact ⟨'a', Ne.symm h⟩
  refine ⟨[mark], fun ns ms hns hms hnspaced hmspaced h => ?_⟩
  apply edits_inj hmark _ _ hnspaced hmspaced h
  · intro n hn
    exact ⟨Nat.zero_le n, getElem?_of_occursAt hc (hns n hn)⟩
  · intro m hm
    exact ⟨Nat.zero_le m, getElem?_of_occursAt hc (hms m hm)⟩

theorem occursAt_of_accepted (hsource : source ≠ []) :
    ∀ n ∈ acceptedIndices source text, occursAt source text n = true := fun _ hn =>
  (mem_places (List.length_pos_of_ne_nil hsource) (mem_acceptedFrom hn)).2

theorem occursAt_of_host (hsource : source ≠ []) :
    ∀ n ∈ hostIndices source text, occursAt source text n = true := fun _ hn =>
  (standsAt_iff.mp (hostIndices_subset hsource hn)).1

theorem containsHost_iff_replaces (hsource : source ≠ []) : containsHost text source = true ↔
    ∃ target, replaceHost text source target ≠ text := by
  rw [containsHost_iff hsource]
  constructor
  · intro hne
    obtain ⟨mark, hmark⟩ := exists_mark text hsource
    refine ⟨mark, fun heq => hne ?_⟩
    apply hmark _ [] (occursAt_of_accepted hsource) (fun m hm => absurd hm List.not_mem_nil)
      (acceptedIndices_pairwise hsource) List.Pairwise.nil
    rw [← replaceHost_eq hsource, heq]
    rfl
  · rintro ⟨target, hne⟩ hempty
    rw [replaceHost_eq hsource, hempty] at hne
    exact hne rfl

/-- The target stands exactly where the source has stood between boundaries, and `contains_host`
says whether it does anywhere. -/
structure BoundaryChecked (source text : Text) : Prop where
  replaces : ∀ target, replaceHost text source target = replaceBounded source text target
  contains : containsHost text source = true ↔ ∃ target, replaceHost text source target ≠ text

theorem boundaryChecked_iff (hsource : source ≠ []) :
    BoundaryChecked source text ↔ Settled source text := by
  rw [← acceptedIndices_eq_iff hsource]
  constructor
  · intro h
    obtain ⟨mark, hmark⟩ := exists_mark text hsource
    apply hmark _ _ (occursAt_of_accepted hsource) (occursAt_of_host hsource)
      (acceptedIndices_pairwise hsource) (hostIndices_pairwise hsource)
    rw [← replaceHost_eq hsource, h.replaces mark]
    rfl
  · intro heq
    refine ⟨fun target => ?_, containsHost_iff_replaces hsource⟩
    rw [replaceHost_eq hsource, heq]
    rfl

theorem boundaryChecked_plain : BoundaryChecked "a/b".toList "http://a/b".toList := by
  rw [boundaryChecked_iff (by decide)]
  have hvisited : matchIndices "a/b".toList "http://a/b".toList = [7] := by decide +kernel
  constructor
  · rw [hvisited]
    simp
  · rw [hvisited]
    intro n hn hstands
    rw [List.mem_singleton.mp hn] at hstands
    have hthere : standsAt "a/b".toList "http://a/b".toList 7 = true := by decide +kernel
    rw [hthere] at hstands
    cases hstands

/-- A host right behind itself is replaced, and one that overlaps a refused place is not. -/
theorem not_boundaryChecked :
    ¬ BoundaryChecked "deb.debian.org".toList "deb.debian.orgdeb.debian.org".toList ∧
      ¬ BoundaryChecked "pub/pub".toList "-pub/pub/pub".toList := by
  constructor
  · intro h
    have heq := h.replaces "mirror".toList
    revert heq
    decide +kernel
  · intro h
    have heq := h.replaces "mirror".toList
    revert heq
    decide +kernel

end Replacement

end LandscapeKit.Mirror
