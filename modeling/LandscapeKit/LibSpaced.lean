import Mathlib.Data.List.Sort
import LandscapeKit.LibSplice

/-!
Places of a list chosen from left to right, each behind the end of the one before it, and the
list in which something else stands at these places.
-/

namespace LandscapeKit

namespace Spaced

/-- The places among the `k` ones from `a` on that satisfy `P`, each at least `len` behind the
last one chosen. The last argument says how many places are to be skipped. -/
def spaced (P : ℕ → Bool) (len : ℕ) : ℕ → ℕ → ℕ → List ℕ
  | 0, _, _ => []
  | k + 1, a, skip + 1 => spaced P len k (a + 1) skip
  | k + 1, a, 0 =>
    if P a then a :: spaced P len k (a + 1) (len - 1) else spaced P len k (a + 1) 0

def places (P : ℕ → Bool) (len k : ℕ) : List ℕ := spaced P len k 0 0

section Places

variable {P : ℕ → Bool} {len : ℕ}

theorem spaced_skip (k a skip : ℕ) :
    spaced P len k a skip = spaced P len (k - skip) (a + skip) 0 := by
  induction skip generalizing k a with
  | zero => rfl
  | succ skip ih =>
    cases k with
    | zero =>
      rw [Nat.zero_sub]
      rfl
    | succ k =>
      have hk : k + 1 - (skip + 1) = k - skip := by omega
      have ha : a + (skip + 1) = a + 1 + skip := by omega
      rw [spaced, ih, hk, ha]

theorem spaced_of_neg {k a : ℕ} (h : P a = false) :
    spaced P len (k + 1) a 0 = spaced P len k (a + 1) 0 := by
  rw [spaced, h]
  rfl

theorem spaced_of_pos {k a : ℕ} (hlen : 0 < len) (h : P a = true) :
    spaced P len (k + 1) a 0 = a :: spaced P len (k + 1 - len) (a + len) 0 := by
  have hk : k - (len - 1) = k + 1 - len := by omega
  have ha : a + 1 + (len - 1) = a + len := by omega
  rw [spaced, if_pos h, spaced_skip, hk, ha]

theorem spaced_of_first {k a n : ℕ} (hlen : 0 < len) (hn : n < k)
    (hfree : ∀ m < n, P (a + m) = false) (h : P (a + n) = true) :
    spaced P len k a 0 = (a + n) :: spaced P len (k - n - len) (a + n + len) 0 := by
  induction n generalizing k a with
  | zero =>
    obtain ⟨k, rfl⟩ : ∃ j, k = j + 1 := ⟨k - 1, by omega⟩
    exact spaced_of_pos hlen h
  | succ n ih =>
    have hfirst : P a = false := hfree 0 (Nat.succ_pos n)
    obtain ⟨k, rfl⟩ : ∃ j, k = j + 1 := ⟨k - 1, by omega⟩
    have ha : a + (n + 1) = a + 1 + n := by omega
    have hk : k + 1 - (n + 1) = k - n := by omega
    have hrest (m : ℕ) (hm : m < n) : P (a + 1 + m) = false := by
      have hm' := hfree (m + 1) (by omega)
      rwa [← Nat.add_assoc, Nat.add_right_comm] at hm'
    rw [ha] at h ⊢
    rw [spaced_of_neg hfirst, ih (by omega) hrest h, hk]

theorem spaced_of_free {k a : ℕ} (hfree : ∀ m < k, P (a + m) = false) :
    spaced P len k a 0 = [] := by
  induction k generalizing a with
  | zero => rfl
  | succ k ih =>
    have hfirst : P a = false := hfree 0 (Nat.succ_pos k)
    rw [spaced_of_neg hfirst]
    apply ih
    intro m hm
    have hm' := hfree (m + 1) (by omega)
    rwa [← Nat.add_assoc, Nat.add_right_comm] at hm'

theorem mem_spaced {k a n : ℕ} (hlen : 0 < len) (h : n ∈ spaced P len k a 0) :
    a ≤ n ∧ n < a + k ∧ P n = true := by
  induction k using Nat.strong_induction_on generalizing a with
  | _ k ih =>
    cases k with
    | zero => cases h
    | succ k =>
      cases hp : P a with
      | false =>
        rw [spaced_of_neg hp] at h
        obtain ⟨h1, h2, h3⟩ := ih k (by omega) h
        exact ⟨by omega, by omega, h3⟩
      | true =>
        rw [spaced_of_pos hlen hp] at h
        rcases List.mem_cons.mp h with rfl | h
        · exact ⟨le_refl n, by omega, hp⟩
        · obtain ⟨h1, h2, h3⟩ := ih (k + 1 - len) (by omega) h
          exact ⟨by omega, by omega, h3⟩

theorem spaced_pairwise (k a : ℕ) (hlen : 0 < len) :
    (spaced P len k a 0).Pairwise fun m n => m + len ≤ n := by
  induction k using Nat.strong_induction_on generalizing a with
  | _ k ih =>
    cases k with
    | zero => exact List.Pairwise.nil
    | succ k =>
      cases hp : P a with
      | false =>
        rw [spaced_of_neg hp]
        exact ih k (by omega) (a + 1)
      | true =>
        rw [spaced_of_pos hlen hp, List.pairwise_cons]
        exact ⟨fun n hn => (mem_spaced hlen hn).1, ih (k + 1 - len) (by omega) (a + len)⟩

theorem near_of_notMem {k a n : ℕ} (hlen : 0 < len) (ha : a ≤ n) (hn : n < a + k)
    (hp : P n = true) (h : n ∉ spaced P len k a 0) :
    ∃ m ∈ spaced P len k a 0, m < n ∧ n < m + len := by
  induction k using Nat.strong_induction_on generalizing a with
  | _ k ih =>
    cases k with
    | zero => omega
    | succ k =>
      have hne : P a = true → n ≠ a := by
        intro hpa heq
        rw [spaced_of_pos hlen hpa, heq] at h
        exact h (List.mem_cons_self ..)
      cases hpa : P a with
      | false =>
        have hne' : n ≠ a := by
          rintro rfl
          rw [hp] at hpa
          cases hpa
        rw [spaced_of_neg hpa] at h ⊢
        exact ih k (by omega) (by omega) (by omega) h
      | true =>
        have hlt : a < n := lt_of_le_of_ne ha (Ne.symm (hne hpa))
        rw [spaced_of_pos hlen hpa] at h ⊢
        by_cases hnear : n < a + len
        · exact ⟨a, List.mem_cons_self .., hlt, hnear⟩
        · have hrest : n ∉ spaced P len (k + 1 - len) (a + len) 0 :=
            fun hmem => h (List.mem_cons_of_mem _ hmem)
          obtain ⟨m, hm, hclose⟩ := ih (k + 1 - len) (by omega) (by omega) (by omega) hrest
          exact ⟨m, List.mem_cons_of_mem _ hm, hclose⟩

theorem mem_places {k n : ℕ} (hlen : 0 < len) (h : n ∈ places P len k) :
    n < k ∧ P n = true := by
  obtain ⟨-, hlt, hp⟩ := mem_spaced hlen h
  exact ⟨by omega, hp⟩

theorem places_pairwise (k : ℕ) (hlen : 0 < len) :
    (places P len k).Pairwise fun m n => m + len ≤ n := spaced_pairwise k 0 hlen

theorem places_apart {k m n : ℕ} (hlen : 0 < len) (hm : m ∈ places P len k)
    (hn : n ∈ places P len k) (hlt : m < n) : m + len ≤ n := by
  have hpair := places_pairwise (P := P) k hlen
  by_contra hclose
  have hsymm : (places P len k).Pairwise fun i j => i + len ≤ j ∨ j + len ≤ i :=
    hpair.imp Or.inl
  have hsym : Std.Symm fun i j : ℕ => i + len ≤ j ∨ j + len ≤ i := ⟨fun _ _ h => h.symm⟩
  rcases hsymm.forall hm hn (Nat.ne_of_lt hlt) with h | h <;> omega

theorem near_of_notMem_places {k n : ℕ} (hlen : 0 < len) (hn : n < k) (hp : P n = true)
    (h : n ∉ places P len k) : ∃ m ∈ places P len k, m < n ∧ n < m + len :=
  near_of_notMem hlen (Nat.zero_le n) (by omega) hp h

end Places

section Edits

variable {α : Type} {len : ℕ}

open Splice

def edits (len : ℕ) (new : List α) (ns : List ℕ) : List (Edit α) :=
  ns.map fun n => ⟨n, n + len, new⟩

theorem edits_cons (new : List α) (n : ℕ) (ns : List ℕ) :
    edits len new (n :: ns) = ⟨n, n + len, new⟩ :: edits len new ns := rfl

theorem fits_edits {a hi : ℕ} {ns : List ℕ} (new : List α) (ha : a ≤ hi)
    (hspaced : ns.Pairwise fun m n => m + len ≤ n) (hns : ∀ n ∈ ns, a ≤ n ∧ n + len ≤ hi) :
    Fits a hi (edits len new ns) := by
  induction ns generalizing a with
  | nil => exact ha
  | cons n ns ih =>
    obtain ⟨hbehind, hrest⟩ := List.pairwise_cons.mp hspaced
    obtain ⟨h1, h2⟩ := hns n (List.mem_cons_self ..)
    refine ⟨h1, Nat.le_add_right n len, ih h2 hrest ?_⟩
    intro m hm
    exact ⟨hbehind m hm, (hns m (List.mem_cons_of_mem _ hm)).2⟩

theorem getElem?_spliceFrom {pos : ℕ} {rest new : List α} {n : ℕ} {ns : List ℕ}
    (hn : n - pos ≤ rest.length) :
    (spliceFrom pos rest (edits len new (n :: ns)))[n - pos]? =
      (new ++ spliceFrom (n + len) (rest.drop (n + len - pos)) (edits len new ns))[0]? := by
  have hlength : (rest.take (n - pos)).length = n - pos := by
    rw [List.length_take]
    omega
  simp only [edits, List.map_cons, spliceFrom, List.append_assoc]
  rw [List.getElem?_append_right (by omega), hlength, Nat.sub_self]

theorem getElem?_spliceFrom_lt {pos i : ℕ} {rest new : List α} {n : ℕ} {ns : List ℕ}
    (hi : i < n - pos) (hn : n - pos ≤ rest.length) :
    (spliceFrom pos rest (edits len new (n :: ns)))[i]? = rest[i]? := by
  have hlength : (rest.take (n - pos)).length = n - pos := by
    rw [List.length_take]
    omega
  simp only [edits, List.map_cons, spliceFrom, List.append_assoc]
  rw [List.getElem?_append_left (by omega), List.getElem?_take_of_lt hi]

theorem getElem?_mark {pos k : ℕ} {rest : List α} {head : α} (len : ℕ) (ks : List ℕ) (mark : α)
    (h : rest[k - pos]? = some head) :
    (spliceFrom pos rest (edits len [mark] (k :: ks)))[k - pos]? = some mark := by
  obtain ⟨hlt, -⟩ := List.getElem?_eq_some_iff.mp h
  rw [getElem?_spliceFrom hlt.le]
  rfl

theorem edits_inj {pos : ℕ} {rest : List α} {ns ms : List ℕ} {mark head : α}
    (hmark : mark ≠ head) (hns : ∀ n ∈ ns, pos ≤ n ∧ rest[n - pos]? = some head)
    (hms : ∀ m ∈ ms, pos ≤ m ∧ rest[m - pos]? = some head)
    (hnspaced : ns.Pairwise fun m n => m + len ≤ n)
    (hmspaced : ms.Pairwise fun m n => m + len ≤ n)
    (h : spliceFrom pos rest (edits len [mark] ns) = spliceFrom pos rest (edits len [mark] ms)) :
    ns = ms := by
  have hno : some head ≠ some mark := fun he => hmark (Option.some.inj he).symm
  induction ns generalizing pos rest ms with
  | nil =>
    cases ms with
    | nil => rfl
    | cons m ms =>
      have hm := hms m (List.mem_cons_self ..)
      have hmarked := getElem?_mark len ms mark hm.2
      rw [← h, edits, List.map_nil, spliceFrom, hm.2] at hmarked
      exact absurd hmarked hno
  | cons n ns ih =>
    have hn := hns n (List.mem_cons_self ..)
    have hnmark := getElem?_mark len ns mark hn.2
    cases ms with
    | nil =>
      rw [h, edits, List.map_nil, spliceFrom, hn.2] at hnmark
      exact absurd hnmark hno
    | cons m ms =>
      have hm := hms m (List.mem_cons_self ..)
      have hmmark := getElem?_mark len ms mark hm.2
      obtain ⟨hnlt, -⟩ := List.getElem?_eq_some_iff.mp hn.2
      obtain ⟨hmlt, -⟩ := List.getElem?_eq_some_iff.mp hm.2
      rcases Nat.lt_trichotomy n m with hlt | rfl | hlt
      · rw [h, getElem?_spliceFrom_lt (by omega) hmlt.le, hn.2] at hnmark
        exact absurd hnmark hno
      · obtain ⟨hnbehind, hnrest⟩ := List.pairwise_cons.mp hnspaced
        obtain ⟨hmbehind, hmrest⟩ := List.pairwise_cons.mp hmspaced
        have hdrop {ks : List ℕ}
            (hks : ∀ k ∈ n :: ks, pos ≤ k ∧ rest[k - pos]? = some head)
            (hbehind : ∀ k ∈ ks, n + len ≤ k) (k : ℕ) (hk : k ∈ ks) :
            n + len ≤ k ∧ (rest.drop (n + len - pos))[k - (n + len)]? = some head := by
          have hle := hbehind k hk
          have hsum : n + len - pos + (k - (n + len)) = k - pos := by omega
          refine ⟨hle, ?_⟩
          rw [List.getElem?_drop, hsum]
          exact (hks k (List.mem_cons_of_mem _ hk)).2
        have htail : spliceFrom (n + len) (rest.drop (n + len - pos)) (edits len [mark] ns) =
            spliceFrom (n + len) (rest.drop (n + len - pos)) (edits len [mark] ms) := by
          simp only [edits, List.map_cons, spliceFrom] at h
          exact List.append_cancel_left h
        rw [ih (hdrop hns hnbehind) (hdrop hms hmbehind) hnrest hmrest htail]
      · rw [← h, getElem?_spliceFrom_lt (by omega) hnlt.le, hm.2] at hmmark
        exact absurd hmmark hno

end Edits

end Spaced

end LandscapeKit
