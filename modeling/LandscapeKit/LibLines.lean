import Mathlib.Data.List.Basic
import Mathlib.Data.List.TakeWhile
import Mathlib.Data.List.Infix

/-!
Words and lines: a list cut at the separators a test picks out, and physical lines joined into
logical ones by a mark at the end of a line.
-/

namespace LandscapeKit

namespace Lines

section Words

variable {α : Type} {p : α → Bool}

def words (p : α → Bool) (l : List α) : List (List α) := (l.splitOnP p).filter fun w => !w.isEmpty

@[simp]
theorem words_nil : words p [] = [] := by simp [words]

theorem words_append_sep {sep : α} (h : p sep = true) (xs ys : List α) :
    words p (xs ++ sep :: ys) = words p xs ++ words p ys := by
  simp only [words, List.splitOnP_append_cons xs ys h, List.filter_append]

theorem words_sep_cons {sep : α} (h : p sep = true) (ys : List α) :
    words p (sep :: ys) = words p ys :=
  words_append_sep h [] ys

theorem words_of_clean {w : List α} (hw : w ≠ []) (h : ∀ x ∈ w, p x = false) :
    words p w = [w] := by
  simp [words, List.splitOnP_eq_singleton h, hw]

theorem words_of_seps {l : List α} (h : ∀ x ∈ l, p x = true) : words p l = [] := by
  induction l with
  | nil => exact words_nil
  | cons x l ih =>
    rw [words_sep_cons (h x (List.mem_cons_self ..))]
    exact ih fun y hy => h y (List.mem_cons_of_mem _ hy)

theorem exists_word (p : α → Bool) (l : List α) :
    (∀ x ∈ l, p x = true) ∨ ∃ seps w rest, l = seps ++ w ++ rest ∧ (∀ x ∈ seps, p x = true) ∧
      w ≠ [] ∧ (∀ x ∈ w, p x = false) ∧ words p l = w :: words p rest ∧
      rest.length < l.length := by
  induction l with
  | nil => exact .inl fun x hx => absurd hx List.not_mem_nil
  | cons x l ih =>
    by_cases hx : p x = true
    · rcases ih with hall | ⟨seps, w, rest, rfl, hseps, hw, hclean, hwords, hlt⟩
      · left
        intro y hy
        rcases List.mem_cons.mp hy with rfl | hy
        · exact hx
        · exact hall y hy
      · right
        refine ⟨x :: seps, w, rest, by simp, ?_, hw, hclean, ?_, ?_⟩
        · intro y hy
          rcases List.mem_cons.mp hy with rfl | hy
          · exact hx
          · exact hseps y hy
        · rw [words_sep_cons hx, hwords]
        · simp only [List.length_cons, List.length_append] at hlt ⊢
          omega
    · right
      have hx' : p x = false := by simpa using hx
      -- the word runs up to the first separator
      have hclean : ∀ y ∈ x :: l.takeWhile (fun y => !p y), p y = false := by
        intro y hy
        rcases List.mem_cons.mp hy with rfl | hy
        · exact hx'
        · simpa using List.mem_takeWhile_imp hy
      refine ⟨[], x :: l.takeWhile (fun y => !p y), l.dropWhile (fun y => !p y), by simp, by simp,
        by simp, hclean, ?_, ?_⟩
      · have hsplit : x :: l = (x :: l.takeWhile (fun y => !p y)) ++ l.dropWhile (fun y => !p y) := by
          simp
        cases hrest : l.dropWhile (fun y => !p y) with
        | nil =>
          rw [hsplit, hrest, List.append_nil, words_of_clean (by simp) hclean, words_nil]
        | cons sep rest =>
          have hsep : p sep = true := by
            have hhead := List.head?_dropWhile_not (fun y => !p y) l
            simpa [hrest] using hhead
          rw [hsplit, hrest, words_append_sep hsep, words_of_clean (by simp) hclean,
            words_sep_cons hsep, List.singleton_append]
      · have hle := List.length_dropWhile_le (fun y => !p y) l
        simp only [List.length_cons]
        omega

theorem mem_words {l w : List α} (h : w ∈ words p l) : w ≠ [] ∧ ∀ x ∈ w, p x = false := by
  induction hn : l.length using Nat.strong_induction_on generalizing l with
  | _ n ih =>
    subst hn
    rcases exists_word p l with hall | ⟨seps, w', rest, -, -, hw, hclean, hwords, hlt⟩
    · rw [words_of_seps hall] at h
      exact absurd h List.not_mem_nil
    · rw [hwords] at h
      rcases List.mem_cons.mp h with rfl | h
      · exact ⟨hw, hclean⟩
      · exact ih _ hlt h rfl

theorem words_eq_cons {l w : List α} {ws : List (List α)} (h : words p l = w :: ws) :
    ∃ seps rest, l = seps ++ w ++ rest ∧ ∀ x ∈ seps, p x = true := by
  rcases exists_word p l with hall | ⟨seps, w', rest, hl, hseps, -, -, hwords, -⟩
  · rw [words_of_seps hall] at h
    cases h
  · rw [hwords] at h
    cases h
    exact ⟨seps, rest, hl, hseps⟩

theorem words_intercalate {sep : α} (hsep : p sep = true) {ws : List (List α)}
    (h : ∀ w ∈ ws, w ≠ [] ∧ ∀ x ∈ w, p x = false) : words p ([sep].intercalate ws) = ws := by
  induction ws with
  | nil => exact words_nil
  | cons w ws ih =>
    obtain ⟨hw, hclean⟩ := h w (List.mem_cons_self ..)
    have hrest := ih fun v hv => h v (List.mem_cons_of_mem _ hv)
    cases ws with
    | nil => rw [List.intercalate_singleton, words_of_clean hw hclean]
    | cons v ws =>
      rw [List.intercalate_cons_cons, List.append_assoc, List.singleton_append,
        words_append_sep hsep, hrest, words_of_clean hw hclean, List.singleton_append]

end Words

section Joined

variable {α : Type} [DecidableEq α] {mark : α}

/-- The logical lines: a line with the mark at its end goes on in the next one, without the
mark. `cur` is the line that is still open; nothing may be open at the end. -/
def joined (mark : α) : Option (List α) → List (List α) → Option (List (List α))
  | none, [] => some []
  | some _, [] => none
  | cur, l :: rest =>
    if (cur.getD [] ++ l).getLast? = some mark then
      joined mark (some (cur.getD [] ++ l).dropLast) rest
    else (joined mark none rest).map ((cur.getD [] ++ l) :: ·)

theorem joined_cons (cur : Option (List α)) (l : List α) (rest : List (List α)) :
    joined mark cur (l :: rest) = if (cur.getD [] ++ l).getLast? = some mark then
      joined mark (some (cur.getD [] ++ l).dropLast) rest
    else (joined mark none rest).map ((cur.getD [] ++ l) :: ·) := by
  cases cur <;> rfl

theorem joined_single {l : List α} (h : l.getLast? ≠ some mark) :
    joined mark none [l] = some [l] := by
  rw [joined_cons, Option.getD_none, List.nil_append, if_neg h]
  rfl

theorem joined_some_nil {rest : List (List α)} (h : rest ≠ []) :
    joined mark (some []) rest = joined mark none rest := by
  cases rest with
  | nil => exact absurd rfl h
  | cons l rest => rw [joined_cons, joined_cons, Option.getD_some, Option.getD_none]

theorem joined_append {cur : Option (List α)} {a b ts : List (List α)}
    (h : joined mark cur a = some ts) :
    joined mark cur (a ++ b) = (joined mark none b).map (ts ++ ·) := by
  induction a generalizing cur ts with
  | nil =>
    cases cur with
    | none =>
      obtain rfl := Option.some.inj h
      simp
    | some => cases h
  | cons l a ih =>
    rw [joined_cons] at h
    rw [List.cons_append, joined_cons]
    split at h
    · rename_i hmark
      rw [if_pos hmark]
      exact ih h
    · rename_i hmark
      rw [if_neg hmark]
      obtain ⟨ts', hts', rfl⟩ := Option.map_eq_some_iff.mp h
      rw [ih hts', Option.map_map]
      rfl

theorem joined_ne_nil {cur : Option (List α)} {a ts : List (List α)} (ha : a ≠ [])
    (h : joined mark cur a = some ts) : ts ≠ [] := by
  induction a generalizing cur ts with
  | nil => exact absurd rfl ha
  | cons l a ih =>
    rw [joined_cons] at h
    split at h
    · cases a with
      | nil => cases h
      | cons l' a => exact ih (by simp) h
    · obtain ⟨ts', -, rfl⟩ := Option.map_eq_some_iff.mp h
      exact List.cons_ne_nil _ _

theorem joined_cut {a b : List (List α)} {t : List α} (ha : a ≠ []) (hb : b ≠ [])
    (h : joined mark none (a ++ b) = some [t]) : joined mark none a = none := by
  cases hcut : joined mark none a with
  | none => rfl
  | some ts =>
    have hts := joined_ne_nil ha hcut
    rw [joined_append hcut] at h
    obtain ⟨ts', hts', happ⟩ := Option.map_eq_some_iff.mp h
    have hts'' := joined_ne_nil hb hts'
    have hlen := congrArg List.length happ
    have h1 := List.length_pos_iff.mpr hts
    have h2 := List.length_pos_iff.mpr hts''
    simp only [List.length_append, List.length_cons, List.length_nil] at hlen
    omega

/-- What an open line becomes: some of its trailing marks are lost, and the first logical line
behind it that is not empty is added, if it gets that far. -/
theorem joined_absorb {rest : List (List α)} {u q x : List α} {xs : List (List α)}
    (h : joined mark (some (u ++ q)) rest = some (x :: xs)) :
    ∃ w s v ys, u = w ++ s ∧ (∀ c ∈ s, c = mark) ∧ x = w ++ v ∧
      joined mark (some q) rest = some ys ∧ (v = [] ∨ ys.find? (· ≠ []) = some v) := by
  induction rest generalizing u q with
  | nil => cases h
  | cons l rest ih =>
    rw [joined_cons, Option.getD_some, List.append_assoc] at h
    rw [joined_cons, Option.getD_some]
    by_cases hempty : q ++ l = []
    · rw [hempty, List.append_nil] at h
      rw [hempty, if_neg (by simp)]
      split at h
      · rename_i hmark
        -- nothing was added, so the open line goes on with one mark less
        obtain ⟨u', rfl⟩ := List.getLast?_eq_some_iff.mp hmark
        rw [List.dropLast_concat] at h
        have hrest : rest ≠ [] := by
          rintro rfl
          cases h
        obtain ⟨w, s, v, ys, rfl, hs, hx, hys, hv⟩ := ih (q := []) (by rw [List.append_nil]; exact h)
        rw [joined_some_nil hrest] at hys
        refine ⟨w, s ++ [mark], v, [] :: ys, by simp, ?_, hx, by rw [hys]; rfl, ?_⟩
        · intro c hc
          rcases List.mem_append.mp hc with hc | hc
          · exact hs c hc
          · exact List.mem_singleton.mp hc
        · simpa using hv
      · obtain ⟨xs', hxs', he⟩ := Option.map_eq_some_iff.mp h
        cases he
        exact ⟨x, [], [], [] :: xs, by simp, by simp, by simp, by rw [hxs']; rfl, .inl rfl⟩
    · have hlast : (u ++ (q ++ l)).getLast? = (q ++ l).getLast? :=
        List.getLast?_append_of_ne_nil _ hempty
      rw [hlast] at h
      split at h
      · rename_i hmark
        rw [if_pos hmark]
        apply ih
        rw [List.dropLast_append_of_ne_nil hempty] at h
        exact h
      · rename_i hmark
        rw [if_neg hmark]
        obtain ⟨xs', hxs', he⟩ := Option.map_eq_some_iff.mp h
        cases he
        refine ⟨u, [], q ++ l, (q ++ l) :: xs, by simp, by simp, rfl, by rw [hxs']; rfl, .inr ?_⟩
        simp [hempty]

end Joined

end Lines

end LandscapeKit
