import Mathlib.Data.List.Infix
import LandscapeKit.LibFiles

/-!
Paths as text. A path that is joined to a directory is followed part by part: a name leads
into a directory, `..` out of it, and a text that begins with a slash starts over. Symbolic
links are not followed.
-/

namespace LandscapeKit

def parts (text : String) : List String := (text.toList.splitOn '/').map String.ofList

def IsName (part : String) : Prop := part ≠ "" ∧ part ≠ "." ∧ part ≠ ".."

instance (part : String) : Decidable (IsName part) := inferInstanceAs (Decidable (_ ∧ _ ∧ _))

def enter (dir : Path) (part : String) : Path :=
  if part = "" ∨ part = "." then dir else if part = ".." then dir.dropLast else dir ++ [part]

def isAbsolute (text : String) : Bool := text.toList.head? = some '/'

def follow (dir : Path) (text : String) : Path :=
  (parts text).foldl enter (if isAbsolute text then [] else dir)

def locate (dir p : Path) : Path := p.foldl follow dir

def Below (base p : Path) : Prop := ∃ x xs, p = base ++ x :: xs

section Names

variable {dir : Path} {part : String} {ps : List String}

theorem enter_name (h : IsName part) : enter dir part = dir ++ [part] := by
  obtain ⟨h1, h2, h3⟩ := h
  simp only [enter, h1, h2, h3, or_self, if_false]

theorem foldl_enter_names (h : ∀ part ∈ ps, IsName part) : ps.foldl enter dir = dir ++ ps := by
  induction ps generalizing dir with
  | nil => simp
  | cons p ps ih =>
    rw [List.foldl_cons, enter_name (h p (List.mem_cons_self ..)),
      ih fun q hq => h q (List.mem_cons_of_mem p hq), List.append_assoc, List.singleton_append]

end Names

section Text

variable {text : String}

theorem eq_of_parts_eq {text' : String} (h : parts text = parts text') : text = text' := by
  have hsplit : text.toList.splitOn '/' = text'.toList.splitOn '/' :=
    List.map_injective_iff.mpr (fun _ _ he => String.ofList_inj.mp he) h
  have hjoin := congrArg (List.intercalate ['/']) hsplit
  rw [List.intercalate_splitOn, List.intercalate_splitOn] at hjoin
  exact String.toList_inj.mp hjoin

theorem parts_of_not_mem (h : '/' ∉ text.toList) : parts text = [text] := by
  simp [parts, List.splitOn_eq_singleton h]

theorem not_isAbsolute_of_not_mem (h : '/' ∉ text.toList) : isAbsolute text = false := by
  simp only [isAbsolute, decide_eq_false_iff_not]
  intro hh
  exact h (List.mem_of_mem_head? hh)

theorem follow_of_not_mem {dir : Path} (h : '/' ∉ text.toList) :
    follow dir text = enter dir text := by
  simp [follow, parts_of_not_mem h, not_isAbsolute_of_not_mem h]

theorem follow_name {dir : Path} (h : '/' ∉ text.toList) (hn : IsName text) :
    follow dir text = dir ++ [text] := by
  rw [follow_of_not_mem h, enter_name hn]

theorem parts_of_isAbsolute (h : isAbsolute text = true) : ∃ p ps, parts text = "" :: p :: ps := by
  simp only [isAbsolute, decide_eq_true_eq] at h
  obtain ⟨rest, hrest⟩ : ∃ rest, text.toList = '/' :: rest := List.head?_eq_some_iff.mp h
  have hsplit := List.splitOn_cons_eq_if_modifyHead (a := '/') '/' rest
  obtain ⟨q, qs, hq⟩ := List.exists_cons_of_ne_nil (List.splitOn_ne_nil '/' rest)
  refine ⟨String.ofList q, qs.map String.ofList, ?_⟩
  rw [parts, hrest, hsplit, hq]
  simp

theorem not_isAbsolute_of_parts {init : List String} {last : String}
    (h : parts text = init ++ [last]) (hinit : ∀ part ∈ init, IsName part) :
    isAbsolute text = false := by
  by_contra habs
  obtain ⟨p, ps, hp⟩ := parts_of_isAbsolute (Bool.of_not_eq_false habs)
  rw [h] at hp
  cases init with
  | nil => simp at hp
  | cons q qs =>
    have hq : q = "" := (List.cons.inj hp).1
    exact (hinit q (List.mem_cons_self ..)).1 hq

theorem follow_of_parts {dir : Path} {init : List String} {last : String}
    (h : parts text = init ++ [last]) (hinit : ∀ part ∈ init, IsName part) :
    follow dir text = enter (dir ++ init) last := by
  simp only [follow, not_isAbsolute_of_parts h hinit, h, List.foldl_append, List.foldl_cons,
    List.foldl_nil, foldl_enter_names hinit, Bool.false_eq_true, if_false]

theorem splitOn_append_of_not_mem (xs : List Char) {ys : List Char} (h : '/' ∉ ys) :
    ∃ init last, xs.splitOn '/' = init ++ [last] ∧
      (xs ++ ys).splitOn '/' = init ++ [last ++ ys] := by
  induction xs with
  | nil => exact ⟨[], [], by simp, by simp [List.splitOn_eq_singleton h]⟩
  | cons x xs ih =>
    obtain ⟨init, last, h1, h2⟩ := ih
    rw [List.cons_append, List.splitOn_cons_eq_if_modifyHead, List.splitOn_cons_eq_if_modifyHead,
      h1, h2]
    by_cases hx : (x == '/') = true
    · exact ⟨[] :: init, last, by simp [hx], by simp [hx]⟩
    · cases init with
      | nil => exact ⟨[], x :: last, by simp [hx], by simp [hx]⟩
      | cons q qs => exact ⟨(x :: q) :: qs, last, by simp [hx], by simp [hx]⟩

theorem parts_append (text : String) {suffix : String} (h : '/' ∉ suffix.toList) :
    ∃ init last, parts text = init ++ [last] ∧ parts (text ++ suffix) = init ++ [last ++ suffix] := by
  obtain ⟨init, last, h1, h2⟩ := splitOn_append_of_not_mem text.toList h
  refine ⟨init.map String.ofList, String.ofList last, by simp [parts, h1], ?_⟩
  simp [parts, String.toList_append, h2, String.ofList_append]

theorem parts_append_slash (text name : String) (h : '/' ∉ name.toList) :
    parts (text ++ "/" ++ name) = parts text ++ [name] := by
  have hsplit := List.splitOn_append_cons_self (a := '/') text.toList name.toList
  rw [List.splitOn_eq_singleton h] at hsplit
  simp [parts, String.toList_append, hsplit]

theorem mem_toList_iff_parts {c : Char} (hc : c ≠ '/') :
    c ∈ text.toList ↔ ∃ part ∈ parts text, c ∈ part.toList := by
  have hjoin : List.intercalate ['/'] (text.toList.splitOn '/') = text.toList :=
    List.intercalate_splitOn '/'
  have hmem (ls : List (List Char)) :
      c ∈ List.intercalate ['/'] ls ↔ ∃ l ∈ ls, c ∈ l := by
    induction ls with
    | nil => simp
    | cons l ls ih =>
      cases ls with
      | nil => simp
      | cons l' ls =>
        rw [List.intercalate_cons_cons, List.mem_append, List.mem_append, ih]
        simp [hc]
  rw [← hjoin, hmem, parts]
  simp

theorem parts_cons {name : String} (h : '/' ∉ name.toList) (text : String) :
    parts (name ++ "/" ++ text) = name :: parts text := by
  have hsplit := List.splitOn_append_cons_self_of_not_mem h text.toList
  simp [parts, String.toList_append, hsplit]

end Text

section Located

variable {dir p q base : Path} {x : String}

theorem locate_append : locate dir (p ++ q) = locate (locate dir p) q := by
  simp [locate, List.foldl_append]

theorem locate_names (h : ∀ part ∈ p, IsName part ∧ '/' ∉ part.toList) :
    locate dir p = dir ++ p := by
  induction p generalizing dir with
  | nil => simp [locate]
  | cons part p ih =>
    have hp := h part (List.mem_cons_self ..)
    have hrest : locate (dir ++ [part]) p = dir ++ [part] ++ p :=
      ih fun q hq => h q (List.mem_cons_of_mem part hq)
    rw [List.append_assoc, List.singleton_append] at hrest
    rw [← hrest]
    simp only [locate, List.foldl_cons, follow_name hp.2 hp.1]

theorem Below.inside (h : Below base p) : base <+: p := by
  obtain ⟨x, xs, rfl⟩ := h
  exact List.prefix_append base (x :: xs)

theorem Below.append (h : Below base p) (q : Path) : Below base (p ++ q) := by
  obtain ⟨x, xs, rfl⟩ := h
  exact ⟨x, xs ++ q, by simp⟩

theorem not_below_self : ¬ Below base base := by
  rintro ⟨x, xs, h⟩
  simpa using congrArg List.length h

theorem below_append_name_iff : Below base (p ++ [x]) ↔ base <+: p := by
  constructor
  · intro h
    rcases List.prefix_concat_iff.mp h.inside with hb | hp
    · exact absurd (hb ▸ h) not_below_self
    · exact hp
  · rintro ⟨r, rfl⟩
    cases r with
    | nil => exact ⟨x, [], by simp⟩
    | cons y ys => exact ⟨y, ys ++ [x], by simp⟩

theorem not_inside_dropLast (h : base ≠ []) : ¬ base <+: base.dropLast := by
  intro hpre
  have hlen := hpre.length_le
  have hpos := List.length_pos_iff.mpr h
  rw [List.length_dropLast] at hlen
  omega

theorem inside_enter_iff {init : Path} {last : String} (hb : base ≠ []) :
    base <+: enter (base ++ init) last ↔ ¬ (init = [] ∧ last = "..") := by
  rcases init.eq_nil_or_concat with rfl | ⟨qs, q, rfl⟩
  · unfold enter
    split
    · rename_i h
      rcases h with rfl | rfl <;> simp
    · split
      · rename_i hdd
        simpa [hdd] using not_inside_dropLast hb
      · rename_i hdd
        simp [hdd]
  · unfold enter
    split
    · simp
    · split
      · simp [← List.append_assoc]
      · simp

theorem below_enter_iff {init : Path} {last : String} (hb : base ≠ []) :
    Below base (enter (base ++ init) last) ↔
      ¬ (init = [] ∧ ¬ IsName last) ∧ ¬ (init.length = 1 ∧ last = "..") := by
  by_cases hn : IsName last
  · rw [enter_name hn]
    have hbelow : Below base (base ++ init ++ [last]) :=
      below_append_name_iff.mpr (List.prefix_append base init)
    simp only [hbelow, hn, hn.2.2, not_true_eq_false, and_false, not_false_eq_true, and_self]
  by_cases hdd : last = ".."
  · -- one directory back from the names that were followed
    have henter : enter (base ++ init) last = (base ++ init).dropLast := by
      subst hdd
      simp [enter]
    rw [henter]
    rcases init.eq_nil_or_concat with rfl | ⟨qs, q, rfl⟩
    · have hnot : ¬ Below base base.dropLast := fun h => not_inside_dropLast hb h.inside
      simpa [hn] using hnot
    · have hdrop : (base ++ qs.concat q).dropLast = base ++ qs := by
        simp [← List.append_assoc]
      rw [hdrop]
      cases qs with
      | nil => simp [hdd, not_below_self]
      | cons r rs =>
        have hbelow : Below base (base ++ r :: rs) := ⟨r, rs, rfl⟩
        simp [hbelow]
  · -- an empty part or a dot
    have henter : enter (base ++ init) last = base ++ init := by
      have hor : last = "" ∨ last = "." := by
        by_contra hne
        exact hn ⟨fun h => hne (.inl h), fun h => hne (.inr h), hdd⟩
      simp [enter, hor]
    rw [henter]
    cases init with
    | nil => simp [hn, not_below_self]
    | cons r rs =>
      have hbelow : Below base (base ++ r :: rs) := ⟨r, rs, rfl⟩
      simp [hbelow, hdd]

theorem below_append_iff : Below (dir ++ base) (dir ++ p) ↔ Below base p := by
  simp [Below, List.append_assoc]

end Located

end LandscapeKit
