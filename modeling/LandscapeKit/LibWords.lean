import Mathlib.Data.List.Pairwise
import LandscapeKit.LibScan

/-!
Texts in which some words are to be replaced by others. When no word begins another one and none
overlaps with another one, a text can be read in one way only: as letters and words. A word is
found exactly where it was read, and replacing words by words leaves the rest of the reading.
-/

namespace LandscapeKit

namespace Text

inductive Token where
  | letter (c : Char)
  | word (w : Text)
deriving DecidableEq

def Token.text : Token → Text
  | letter c => [c]
  | word w => w

def spell (ts : List Token) : Text := ts.flatMap Token.text

@[simp] theorem spell_nil : spell [] = [] := rfl

@[simp] theorem spell_letter (c : Char) (ts : List Token) :
    spell (.letter c :: ts) = c :: spell ts := rfl

@[simp] theorem spell_word (w : Text) (ts : List Token) : spell (.word w :: ts) = w ++ spell ts := rfl

@[simp] theorem spell_append (ts us : List Token) : spell (ts ++ us) = spell ts ++ spell us :=
  List.flatMap_append

/-- No word begins another one, and no word begins where another one has begun before and is
not at its end. -/
structure Separate (W : List Text) : Prop where
  nonempty : ∀ w ∈ W, w ≠ []
  free : W.Pairwise fun v w => ¬ v <+: w ∧ ¬ w <+: v
  apart : ∀ v ∈ W, ∀ w ∈ W, ∀ s, s ≠ [] → s <:+ v → s ≠ v → ¬ s <+: w ∧ ¬ w <+: s

theorem Separate.nodup {W : List Text} (h : Separate W) : W.Nodup :=
  h.free.imp fun {v w} hfree (he : v = w) => hfree.1 (he ▸ List.prefix_refl v)

theorem Separate.eq_of_prefix {W : List Text} (h : Separate W) {v w : Text} (hv : v ∈ W)
    (hw : w ∈ W) (hp : v <+: w) : v = w := by
  by_contra hne
  have hsymm : Std.Symm fun v w : Text => ¬ v <+: w ∧ ¬ w <+: v := ⟨fun _ _ hvw => hvw.symm⟩
  exact (h.free.forall hv hw hne).1 hp

def separate (firsts : Text) (W : List Text) : Bool :=
  decide (W.Pairwise fun v w => ¬ v.isPrefixOf w ∧ ¬ w.isPrefixOf v) &&
    W.all fun v => v.head?.any firsts.contains && v.tail.tails.all fun s =>
      !s.head?.any firsts.contains || W.all fun w => !s.isPrefixOf w && !w.isPrefixOf s

theorem of_separate {firsts : Text} {W : List Text} (h : separate firsts W = true) :
    Separate W := by
  simp only [separate, List.all_eq_true, Bool.and_eq_true, Bool.or_eq_true, decide_eq_true_eq,
    Bool.not_eq_true', List.isPrefixOf_iff_prefix, ← Bool.not_eq_true, List.mem_tails] at h
  obtain ⟨hfree, hfirst⟩ := h
  have hne (w : Text) (hw : w ∈ W) : w ≠ [] := by
    rintro rfl
    exact absurd (hfirst [] hw).1 (by simp)
  refine ⟨hne, hfree, fun v hv w hw s hs hsuffix hsv => ?_⟩
  have hinside : s <:+ v.tail := by
    obtain ⟨a, rfl⟩ := hsuffix
    cases a with
    | nil => exact absurd rfl hsv
    | cons c a => exact ⟨a, rfl⟩
  rcases (hfirst v hv).2 s hinside with hno | hall
  · -- what begins as a word does begins with one of the first characters
    have hhead (hp : s.head? = w.head?) : False := by
      rw [hp] at hno
      exact hno (hfirst w hw).1
    constructor
    · intro hp
      apply hhead
      obtain ⟨t, rfl⟩ := hp
      exact (List.head?_append_of_ne_nil s hs).symm
    · intro hp
      apply hhead
      obtain ⟨t, rfl⟩ := hp
      exact List.head?_append_of_ne_nil w (hne w hw)
  · exact hall w hw

def run : List Token → Text
  | .letter c :: ts => c :: run ts
  | _ => []

@[simp] theorem run_letter (c : Char) (ts : List Token) : run (.letter c :: ts) = c :: run ts := rfl

@[simp] theorem run_word (w : Text) (ts : List Token) : run (.word w :: ts) = [] := rfl

/-- A reading of a text: the words are among the given ones, and none of these can be read where
a letter was. -/
def IsReading (W : List Text) : List Token → Prop
  | [] => True
  | .letter c :: ts => (∀ w ∈ W, ¬ w <+: c :: run ts) ∧ IsReading W ts
  | .word w :: ts => w ∈ W ∧ IsReading W ts

section Reading

variable {W : List Text} {ts us : List Token} {w : Text}

theorem run_prefix (ts : List Token) : run ts <+: spell ts := by
  induction ts with
  | nil => exact List.prefix_refl _
  | cons t ts ih =>
    cases t with
    | letter c => exact List.cons_prefix_cons.mpr ⟨rfl, ih⟩
    | word w => exact List.nil_prefix

theorem prefix_run (hW : Separate W) (hr : IsReading W ts) (hw : w ∈ W) {front : Text}
    (hfront : front ≠ []) (h : w <+: front ++ spell ts) : w <+: front ++ run ts := by
  induction ts generalizing front with
  | nil => exact h
  | cons t ts ih =>
    cases t with
    | letter c =>
      have hmoved : w <+: (front ++ [c]) ++ spell ts := by simpa using h
      have hgo := ih hr.2 (by simp) hmoved
      simpa using hgo
    | word v =>
      rw [run_word, List.append_nil]
      by_contra hnot
      -- an end of the word lies over the beginning of `v`
      obtain ⟨s, rfl⟩ : front <+: w := by
        rcases List.prefix_or_prefix_of_prefix h (List.prefix_append front _) with hp | hp
        · exact absurd hp hnot
        · exact hp
      have hs : s <+: v ++ spell ts := (List.prefix_append_right_inj front).mp h
      have hne : s ≠ [] := by
        rintro rfl
        exact hnot (by simp)
      obtain ⟨h1, h2⟩ := hW.apart _ hw v hr.1 s hne (List.suffix_append front s) fun he =>
        hfront (List.self_eq_append_left.mp he)
      rcases List.prefix_or_prefix_of_prefix hs (List.prefix_append v _) with hp | hp
      · exact h1 hp
      · exact h2 hp

theorem exists_reading (hW : Separate W) (text : Text) : ∃ ts, IsReading W ts ∧ spell ts = text := by
  induction hn : text.length using Nat.strong_induction_on generalizing text with
  | _ n ih =>
    by_cases hword : ∃ w ∈ W, w <+: text
    · obtain ⟨w, hw, rest, rfl⟩ := hword
      have hpos := List.length_pos_of_ne_nil (hW.nonempty w hw)
      rw [List.length_append] at hn
      obtain ⟨ts, hr, rfl⟩ := ih rest.length (by omega) rest rfl
      exact ⟨.word w :: ts, ⟨hw, hr⟩, rfl⟩
    · cases text with
      | nil => exact ⟨[], trivial, rfl⟩
      | cons c rest =>
        obtain ⟨ts, hr, rfl⟩ := ih rest.length (by simp [← hn]) rest rfl
        refine ⟨.letter c :: ts, ⟨fun w hw hp => hword ⟨w, hw, ?_⟩, hr⟩, rfl⟩
        exact hp.trans (List.cons_prefix_cons.mpr ⟨rfl, run_prefix ts⟩)

theorem IsReading.of_append (h : IsReading W (ts ++ us)) : IsReading W us := by
  induction ts with
  | nil => exact h
  | cons t ts ih =>
    cases t with
    | letter c => exact ih h.2
    | word w => exact ih h.2

theorem run_append_word (ts us : List Token) (w : Text) : run (ts ++ .word w :: us) = run ts := by
  induction ts with
  | nil => rfl
  | cons t ts ih =>
    cases t with
    | letter c => exact congrArg (List.cons c) ih
    | word v => rfl

theorem IsReading.append (hts : IsReading W ts) (hw : w ∈ W) (hus : IsReading W us) :
    IsReading W (ts ++ .word w :: us) := by
  induction ts with
  | nil => exact ⟨hw, hus⟩
  | cons t ts ih =>
    cases t with
    | letter c =>
      show (∀ v ∈ W, ¬ v <+: c :: run (ts ++ .word w :: us)) ∧ IsReading W (ts ++ .word w :: us)
      rw [run_append_word]
      exact ⟨hts.1, ih hts.2⟩
    | word v => exact ⟨hts.1, ih hts.2⟩

theorem IsReading.before (h : IsReading W (ts ++ .word w :: us)) : IsReading W ts := by
  induction ts with
  | nil => trivial
  | cons t ts ih =>
    cases t with
    | letter c =>
      have hhead : ∀ v ∈ W, ¬ v <+: c :: run (ts ++ .word w :: us) := h.1
      rw [run_append_word] at hhead
      exact ⟨hhead, ih h.2⟩
    | word v => exact ⟨h.1, ih h.2⟩

theorem IsReading.concat {c : Char} (hts : IsReading W ts) (hc : ∀ w ∈ W, c ∉ w)
    (hne : ∀ w ∈ W, w ≠ []) : IsReading W (ts ++ [.letter c]) := by
  have hrun (ts : List Token) : run (ts ++ [.letter c]) = run ts ∨
      run (ts ++ [.letter c]) = run ts ++ [c] := by
    induction ts with
    | nil => exact .inr rfl
    | cons t ts ih =>
      cases t with
      | letter d => exact ih.imp (congrArg (List.cons d)) (congrArg (List.cons d))
      | word v => exact .inl rfl
  have hdrop (w a : Text) (hw : w ∈ W) (h : w <+: a ++ [c]) : w <+: a := by
    rcases List.prefix_concat_iff.mp h with he | hp
    · exact absurd (he ▸ by simp) (hc w hw)
    · exact hp
  induction ts with
  | nil =>
    refine ⟨fun w hw hp => hne w hw ?_, trivial⟩
    exact List.prefix_nil.mp (hdrop w [] hw hp)
  | cons t ts ih =>
    cases t with
    | letter d =>
      refine ⟨fun w hw hp => hts.1 w hw ?_, ih hts.2⟩
      change w <+: d :: run (ts ++ [.letter c]) at hp
      rcases hrun ts with he | he
      · rwa [he] at hp
      · rw [he] at hp
        exact hdrop w (d :: run ts) hw hp
    | word v => exact ⟨hts.1, ih hts.2⟩

theorem not_prefix_drop (hW : Separate W) (hw : w ∈ W) {pre rest : List Token}
    (hr : IsReading W (pre ++ rest)) (hpre : .word w ∉ pre) :
    ∀ n < (spell pre).length, ¬ w <+: (spell (pre ++ rest)).drop n := by
  induction pre with
  | nil => exact fun n hn => absurd hn (Nat.not_lt_zero n)
  | cons t pre ih =>
    rw [List.mem_cons, not_or] at hpre
    cases t with
    | letter c =>
      intro n hn hp
      cases n with
      | zero =>
        have hhere : w <+: [c] ++ spell (pre ++ rest) := hp
        exact hr.1 w hw (prefix_run hW hr.2 hw (List.cons_ne_nil _ _) hhere)
      | succ n => exact ih hr.2 hpre.2 n (Nat.lt_of_succ_lt_succ hn) hp
    | word v =>
      intro n hn hp
      rw [List.cons_append, spell_word] at hp
      rcases Nat.lt_or_ge n v.length with hlt | hge
      · rw [List.drop_append_of_le_length hlt.le] at hp
        have hcomparable := List.prefix_or_prefix_of_prefix hp (List.prefix_append (v.drop n) _)
        cases n with
        | zero =>
          rw [List.drop_zero] at hcomparable
          have hsame : w = v := by
            rcases hcomparable with h | h
            · exact hW.eq_of_prefix hw hr.1 h
            · exact (hW.eq_of_prefix hr.1 hw h).symm
          exact hpre.1 (congrArg Token.word hsame)
        | succ n =>
          have hne : v.drop (n + 1) ≠ [] := by
            intro hnil
            rw [List.drop_eq_nil_iff] at hnil
            omega
          obtain ⟨h1, h2⟩ := hW.apart v hr.1 w hw _ hne (List.drop_suffix _ v) (by
            intro he
            have hlen := congrArg List.length he
            rw [List.length_drop] at hlen
            omega)
          rcases hcomparable with h | h
          · exact h2 h
          · exact h1 h
      · rw [List.drop_append, List.drop_eq_nil_of_le hge, List.nil_append] at hp
        refine ih hr.2 hpre.2 (n - v.length) ?_ hp
        rw [spell_word, List.length_append] at hn
        omega

theorem splitOnce_spell (hW : Separate W) (hw : w ∈ W) {pre post : List Token}
    (hr : IsReading W (pre ++ .word w :: post)) (hpre : .word w ∉ pre) :
    splitOnce w (spell (pre ++ .word w :: post)) = some (spell pre, spell post) := by
  have hfind : find w (spell pre ++ (w ++ spell post)) = some (spell pre).length := by
    apply find_append
    have hnot := not_prefix_drop hW hw hr hpre
    rw [spell_append, spell_word] at hnot
    exact hnot
  rw [splitOnce, spell_append, spell_word, hfind, Option.map_some]
  congr 2
  · exact List.take_left
  · rw [← List.append_assoc, ← List.length_append, List.drop_left]

theorem splitOnce_spell_none (hW : Separate W) (hw : w ∈ W) (hr : IsReading W ts)
    (hts : .word w ∉ ts) : splitOnce w (spell ts) = none := by
  rw [splitOnce, Option.map_eq_none_iff]
  by_contra hsome
  obtain ⟨n, hn⟩ := Option.ne_none_iff_exists'.mp hsome
  obtain ⟨hp, hle⟩ := find_spec hn
  have hwhole : IsReading W (ts ++ []) := by rwa [List.append_nil]
  have hnot := not_prefix_drop hW hw hwhole hts
  rw [List.append_nil] at hnot
  rcases Nat.lt_or_ge n (spell ts).length with hlt | hge
  · exact hnot n hlt hp
  · rw [List.drop_eq_nil_of_le hge, List.prefix_nil] at hp
    exact hW.nonempty w hw hp

end Reading

section Swap

variable {W : List Text} {p : Char → Bool} {v u w : Text} {ts us : List Token} {b b' : Bool}

def startsOpen (p : Char → Bool) : List Token → Bool
  | [] => true
  | .letter c :: _ => p c
  | .word _ :: _ => false

def endsOpen (p : Char → Bool) : Bool → List Token → Bool
  | b, [] => b
  | _, .letter c :: ts => endsOpen p (p c) ts
  | _, .word _ :: ts => endsOpen p false ts

/-- Replacing a word between boundaries: `b` tells of the text in front. Behind each place where
the word was found the search starts afresh. -/
def swap (p : Char → Bool) (v u : Text) : Bool → List Token → List Token
  | _, [] => []
  | _, .letter c :: ts => .letter c :: swap p v u (p c) ts
  | b, .word w :: ts =>
    if w = v then .word (if b && startsOpen p ts then u else v) :: swap p v u true ts
    else .word w :: swap p v u false ts

@[simp] theorem swap_nil : swap p v u b [] = [] := rfl

@[simp] theorem swap_letter (c : Char) :
    swap p v u b (.letter c :: ts) = .letter c :: swap p v u (p c) ts := rfl

@[simp] theorem swap_self : swap p v u b (.word v :: ts) =
    .word (if b && startsOpen p ts then u else v) :: swap p v u true ts := if_pos rfl

theorem swap_other (h : w ≠ v) :
    swap p v u b (.word w :: ts) = .word w :: swap p v u false ts := if_neg h

@[simp] theorem startsOpen_swap : startsOpen p (swap p v u b ts) = startsOpen p ts := by
  cases ts with
  | nil => rfl
  | cons t ts =>
    cases t with
    | letter c => rfl
    | word w =>
      by_cases h : w = v
      · rw [h, swap_self]
        rfl
      · rw [swap_other h]
        rfl

theorem swap_append (hts : .word v ∉ ts) :
    swap p v u b (ts ++ us) = ts ++ swap p v u (endsOpen p b ts) us := by
  induction ts generalizing b with
  | nil => rfl
  | cons t ts ih =>
    rw [List.mem_cons, not_or] at hts
    cases t with
    | letter c => exact congrArg (List.cons (.letter c)) (ih hts.2)
    | word w =>
      have hne : w ≠ v := fun he => hts.1 (congrArg Token.word he.symm)
      rw [List.cons_append, swap_other hne, ih hts.2]
      rfl

theorem swap_of_notMem (hts : .word v ∉ ts) : swap p v u b ts = ts := by
  have happend : swap p v u b (ts ++ []) = ts ++ [] := swap_append hts
  rwa [List.append_nil] at happend

theorem swap_swap (hne : u ≠ v) (hb : b' = true → b = true) :
    swap p v u b' (swap p v u b ts) = swap p v u b ts := by
  induction ts generalizing b b' with
  | nil => rfl
  | cons t ts ih =>
    cases t with
    | letter c => exact congrArg (List.cons (.letter c)) (ih id)
    | word w =>
      by_cases h : w = v
      · rw [h, swap_self]
        cases hopen : b && startsOpen p ts
        · have hopen' : (b' && startsOpen p ts) = false := by
            rw [Bool.and_eq_false_iff] at hopen ⊢
            apply hopen.imp_left
            intro hfalse
            by_contra htrue
            rw [hb (Bool.not_eq_false b' ▸ htrue)] at hfalse
            cases hfalse
          simp only [Bool.false_eq_true, if_false, swap_self, startsOpen_swap, hopen']
          rw [ih id]
        · simp only [if_true]
          rw [swap_other hne, ih fun _ => rfl]
      · rw [swap_other h, swap_other h, ih id]

theorem swap_swap_other {v' u' : Text} (hv : v' ≠ v) (hu : u' ≠ v) (h : swap p v u b ts = ts) :
    swap p v u b (swap p v' u' b' ts) = swap p v' u' b' ts := by
  induction ts generalizing b b' with
  | nil => rfl
  | cons t ts ih =>
    cases t with
    | letter c => exact congrArg (List.cons (.letter c)) (ih (List.cons.inj h).2)
    | word w =>
      by_cases hw : w = v
      · subst hw
        rw [swap_self] at h
        obtain ⟨hhead, htail⟩ := List.cons.inj h
        rw [swap_other hv.symm, swap_self, startsOpen_swap, hhead, ih htail]
      · rw [swap_other hw] at h
        have htail := (List.cons.inj h).2
        by_cases hw' : w = v'
        · rw [hw', swap_self]
          have hkept : (if b' && startsOpen p ts then u' else v') ≠ v := by
            split
            · exact hu
            · exact hv
          rw [swap_other hkept, ih htail]
        · rw [swap_other hw', swap_other hw, ih htail]

theorem swap_concat {c : Char} (hc : p c = true) :
    swap p v u b (ts ++ [.letter c]) = swap p v u b ts ++ [.letter c] := by
  have hopen (ts : List Token) : startsOpen p (ts ++ [.letter c]) = startsOpen p ts := by
    cases ts with
    | nil => exact hc
    | cons t ts => cases t <;> rfl
  induction ts generalizing b with
  | nil => rfl
  | cons t ts ih =>
    cases t with
    | letter d => exact congrArg (List.cons (.letter d)) ih
    | word w =>
      rw [List.cons_append]
      by_cases h : w = v
      · rw [h, swap_self, swap_self, hopen, ih]
        rfl
      · rw [swap_other h, swap_other h, ih]
        rfl

theorem IsReading.swap (hr : IsReading W ts) (hu : u ∈ W) : IsReading W (swap p v u b ts) := by
  have hrun (ts : List Token) (b : Bool) : run (Text.swap p v u b ts) = run ts := by
    induction ts generalizing b with
    | nil => rfl
    | cons t ts ih =>
      cases t with
      | letter c => exact congrArg (List.cons c) (ih (p c))
      | word w =>
        by_cases h : w = v
        · rw [h, swap_self]
          rfl
        · rw [swap_other h]
          rfl
  induction ts generalizing b with
  | nil => trivial
  | cons t ts ih =>
    cases t with
    | letter c =>
      rw [swap_letter]
      refine ⟨?_, ih hr.2⟩
      rw [hrun]
      exact hr.1
    | word w =>
      by_cases h : w = v
      · rw [h, swap_self]
        refine ⟨?_, ih hr.2⟩
        split
        · exact hu
        · exact h ▸ hr.1
      · rw [swap_other h]
        exact ⟨hr.1, ih hr.2⟩

def Stands (p : Char → Bool) (w : Text) : Bool → List Token → Prop
  | _, [] => False
  | _, .letter c :: ts => Stands p w (p c) ts
  | b, .word v :: ts => (v = w ∧ b = true ∧ startsOpen p ts = true) ∨ Stands p w false ts

theorem Stands.swap_other (hne : v ≠ w) (h : Stands p w b ts) :
    Stands p w b (swap p v u b' ts) := by
  induction ts generalizing b b' with
  | nil => exact h
  | cons t ts ih =>
    cases t with
    | letter c => exact ih h
    | word x =>
      by_cases hx : x = v
      · rw [hx, swap_self]
        rcases h with ⟨hw, -⟩ | h
        · exact absurd (hx.symm.trans hw) hne
        · exact .inr (ih h)
      · rw [Text.swap_other hx]
        rcases h with ⟨hw, hb, hopen⟩ | h
        · exact .inl ⟨hw, hb, by rwa [startsOpen_swap]⟩
        · exact .inr (ih h)

theorem Stands.swap_self (hb : b = true → b' = true) (h : Stands p v b ts) :
    Stands p u b (swap p v u b' ts) := by
  induction ts generalizing b b' with
  | nil => exact h
  | cons t ts ih =>
    cases t with
    | letter c => exact ih id h
    | word x =>
      by_cases hx : x = v
      · rw [hx, Text.swap_self]
        rcases h with ⟨-, hin, hopen⟩ | h
        · rw [hb hin, hopen]
          exact .inl ⟨rfl, hin, by rwa [startsOpen_swap]⟩
        · exact .inr (ih (fun _ => rfl) h)
      · rw [Text.swap_other hx]
        rcases h with ⟨hw, -⟩ | h
        · exact absurd hw hx
        · exact .inr (ih id h)

theorem Stands.of_endsOpen (hopen : endsOpen p b ts = true) (hus : startsOpen p us = true) :
    Stands p w b (ts ++ .word w :: us) := by
  induction ts generalizing b with
  | nil => exact .inl ⟨rfl, hopen, hus⟩
  | cons t ts ih =>
    cases t with
    | letter c => exact ih hopen
    | word v => exact .inr (ih hopen)

end Swap

structure Closed (p : Char → Bool) (W : List Text) : Prop where
  head : ∀ w ∈ W, w.head?.all p = false
  last : ∀ w ∈ W, w.getLast?.all p = false

section Boundaries

variable {W : List Text} {p : Char → Bool} {w : Text} {ts : List Token}

theorem Closed.ne_nil (h : Closed p W) (hw : w ∈ W) : w ≠ [] := by
  rintro rfl
  cases h.head [] hw

theorem startsOpen_spell (hW : Closed p W) (hr : IsReading W ts) :
    startsOpen p ts = (spell ts).head?.all p := by
  cases ts with
  | nil => rfl
  | cons t ts =>
    cases t with
    | letter c => rfl
    | word w =>
      have hhead := hW.head w hr.1
      rw [spell_word, List.head?_append_of_ne_nil _ (hW.ne_nil hr.1), hhead]
      rfl

theorem endsOpen_spell (hW : Closed p W) (hr : IsReading W ts) (front : Text) :
    endsOpen p (front.getLast?.all p) ts = (front ++ spell ts).getLast?.all p := by
  induction ts generalizing front with
  | nil => rw [spell_nil, List.append_nil, endsOpen]
  | cons t ts ih =>
    cases t with
    | letter c =>
      have hgo := ih hr.2 (front ++ [c])
      rw [List.getLast?_concat, List.append_assoc] at hgo
      exact hgo
    | word w =>
      have hgo := ih hr.2 (front ++ w)
      rw [List.getLast?_append_of_ne_nil _ (hW.ne_nil hr.1), hW.last w hr.1,
        List.append_assoc] at hgo
      exact hgo

theorem exists_reading_of_stands (hW : Separate W) (hc : Closed p W) (hw : w ∈ W)
    {front back : Text} (hfront : front.getLast?.all p = true) (hback : back.head?.all p = true) :
    ∃ ts, IsReading W ts ∧ spell ts = front ++ (w ++ back) ∧ Stands p w true ts := by
  obtain ⟨pre, hpre, rfl⟩ := exists_reading hW front
  obtain ⟨post, hpost, rfl⟩ := exists_reading hW back
  refine ⟨pre ++ .word w :: post, hpre.append hw hpost, by simp, ?_⟩
  apply Stands.of_endsOpen
  · have hopen := endsOpen_spell hc hpre []
    rw [List.nil_append, hfront] at hopen
    exact hopen
  · rw [startsOpen_spell hc hpost, hback]

theorem Stands.spell (hW : Closed p W) (hr : IsReading W ts) {b : Bool} {front : Text}
    (hb : b = true → front.getLast?.all p = true) (h : Stands p w b ts) :
    ∃ before after, front ++ Text.spell ts = before ++ (w ++ after) ∧
      before.getLast?.all p = true ∧ after.head?.all p = true := by
  induction ts generalizing b front with
  | nil => exact h.elim
  | cons t ts ih =>
    cases t with
    | letter c =>
      have hlast : p c = true → (front ++ [c]).getLast?.all p = true := by
        rw [List.getLast?_concat]
        exact id
      obtain ⟨before, after, he, h1, h2⟩ := ih hr.2 hlast h
      exact ⟨before, after, by rw [← he]; simp, h1, h2⟩
    | word v =>
      rcases h with ⟨rfl, hin, hopen⟩ | h
      · refine ⟨front, Text.spell ts, rfl, hb hin, ?_⟩
        rw [← startsOpen_spell hW hr.2, hopen]
      · have hlast : false = true → (front ++ v).getLast?.all p = true := fun hf => by cases hf
        obtain ⟨before, after, he, h1, h2⟩ := ih hr.2 hlast h
        exact ⟨before, after, by rw [← he]; simp, h1, h2⟩

end Boundaries

end Text

end LandscapeKit
