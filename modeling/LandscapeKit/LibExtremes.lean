import Mathlib.Data.List.Basic
import Mathlib.Order.Monotone.Basic
import Mathlib.Order.MinMax

/-!
The first of the largest elements of a list, under a measure, and smallest numbers. The first of the
largest stays what it is when others are left out, and goes along with a map that keeps measures.
-/

namespace LandscapeKit.Extremes

variable {α β : Type} {f : α → ℕ} {k k' : α} {l : List α}

def firstMax (f : α → ℕ) (first : α) (l : List α) : α :=
  l.foldl (fun k a => if f k < f a then a else k) first

def IsFirstMax (f : α → ℕ) (l : List α) (k : α) : Prop :=
  ∃ front back, l = front ++ k :: back ∧ (∀ a ∈ front, f a < f k) ∧ ∀ a ∈ back, f a ≤ f k

theorem IsFirstMax.mem (h : IsFirstMax f l k) : k ∈ l := by
  obtain ⟨front, back, rfl, -, -⟩ := h
  exact List.mem_append_right _ (List.mem_cons_self ..)

theorem isFirstMax_firstMax_append (h : IsFirstMax f l k) (more : List α) :
    IsFirstMax f (l ++ more) (firstMax f k more) := by
  induction more generalizing l k with
  | nil => rwa [List.append_nil]
  | cons a more ih =>
    obtain ⟨front, back, rfl, hfront, hback⟩ := h
    have hstep : IsFirstMax f ((front ++ k :: back) ++ [a]) (if f k < f a then a else k) := by
      split
      · rename_i hlt
        refine ⟨front ++ k :: back, [], rfl, ?_, fun b hb => absurd hb List.not_mem_nil⟩
        intro b hb
        rcases List.mem_append.mp hb with hb | hb
        · exact (hfront b hb).trans hlt
        · rcases List.mem_cons.mp hb with rfl | hb
          · exact hlt
          · exact (hback b hb).trans_lt hlt
      · rename_i hle
        refine ⟨front, back ++ [a], by simp, hfront, ?_⟩
        intro b hb
        rcases List.mem_append.mp hb with hb | hb
        · exact hback b hb
        · rw [List.mem_singleton.mp hb]
          exact Nat.le_of_not_lt hle
    have hmore := ih hstep
    rw [List.append_assoc] at hmore
    exact hmore

theorem isFirstMax_firstMax (f : α → ℕ) (first : α) (l : List α) :
    IsFirstMax f (first :: l) (firstMax f first l) := by
  have hone : IsFirstMax f [first] first :=
    ⟨[], [], rfl, fun b hb => absurd hb List.not_mem_nil, fun b hb => absurd hb List.not_mem_nil⟩
  exact isFirstMax_firstMax_append hone l

theorem IsFirstMax.unique (h : IsFirstMax f l k) (h' : IsFirstMax f l k') : k = k' := by
  obtain ⟨front, back, rfl, hfront, hback⟩ := h
  obtain ⟨front', back', heq, hfront', hback'⟩ := h'
  -- of two places one is in front, and the element there is smaller and not smaller
  rcases List.append_eq_append_iff.mp heq with ⟨mid, rfl, hmid⟩ | ⟨mid, rfl, hmid⟩
  · cases mid with
    | nil => exact (List.cons.inj hmid).1
    | cons b mid =>
      obtain ⟨rfl, rfl⟩ := List.cons.inj hmid
      have hlt := hfront' k (List.mem_append_right _ (List.mem_cons_self ..))
      have hle := hback k' (List.mem_append_right _ (List.mem_cons_self ..))
      omega
  · cases mid with
    | nil => exact (List.cons.inj hmid).1.symm
    | cons b mid =>
      obtain ⟨rfl, rfl⟩ := List.cons.inj hmid
      have hlt := hfront k' (List.mem_append_right _ (List.mem_cons_self ..))
      have hle := hback' k (List.mem_append_right _ (List.mem_cons_self ..))
      omega

theorem IsFirstMax.filter (h : IsFirstMax f l k) {p : α → Bool} (hk : p k = true) :
    IsFirstMax f (l.filter p) k := by
  obtain ⟨front, back, rfl, hfront, hback⟩ := h
  refine ⟨front.filter p, back.filter p, ?_, ?_, ?_⟩
  · rw [List.filter_append, List.filter_cons_of_pos hk]
  · exact fun a ha => hfront a (List.mem_of_mem_filter ha)
  · exact fun a ha => hback a (List.mem_of_mem_filter ha)

theorem firstMax_map {g : β → ℕ} {φ : α → β} (hφ : ∀ a, g (φ a) = f a) (first : α) (l : List α) :
    firstMax g (φ first) (l.map φ) = φ (firstMax f first l) := by
  rw [firstMax, firstMax]
  induction l generalizing first with
  | nil => rfl
  | cons a l ih =>
    rw [List.map_cons, List.foldl_cons, List.foldl_cons, hφ, hφ]
    split
    · exact ih a
    · exact ih first

theorem min?_map {f : ℕ → ℕ} (hf : Monotone f) (ns : List ℕ) :
    (ns.map f).min? = ns.min?.map f := by
  cases ns with
  | nil => rfl
  | cons n ns =>
    rw [List.map_cons, List.min?_cons', List.min?_cons', Option.map_some]
    congr 1
    induction ns generalizing n with
    | nil => rfl
    | cons m ns ih => rw [List.map_cons, List.foldl_cons, List.foldl_cons, ← hf.map_min, ih]

end LandscapeKit.Extremes
