import Mathlib.Data.List.Basic
import Mathlib.Data.List.Pairwise
import Mathlib.Data.List.Sort

/-!
Edits of a list at positions: each replaces the elements from its start up to its end. A list
that is cut into pieces, with edits that stay inside the pieces, is edited piece by piece.
-/

namespace LandscapeKit

namespace Splice

variable {α : Type}

structure Edit (α : Type) where
  start : ℕ
  stop : ℕ
  new : List α
deriving DecidableEq

def Edit.shift (n : ℕ) (e : Edit α) : Edit α := { e with start := e.start + n, stop := e.stop + n }

def spliceFrom : ℕ → List α → List (Edit α) → List α
  | _, rest, [] => rest
  | pos, rest, e :: es =>
    rest.take (e.start - pos) ++ e.new ++ spliceFrom e.stop (rest.drop (e.stop - pos)) es

def splice (l : List α) (es : List (Edit α)) : List α := spliceFrom 0 l es

def Fits : ℕ → ℕ → List (Edit α) → Prop
  | lo, hi, [] => lo ≤ hi
  | lo, hi, e :: es => lo ≤ e.start ∧ e.start ≤ e.stop ∧ Fits e.stop hi es

theorem Fits.le {lo hi : ℕ} {es : List (Edit α)} (h : Fits lo hi es) : lo ≤ hi := by
  induction es generalizing lo with
  | nil => exact h
  | cons e es ih =>
    obtain ⟨h1, h2, h3⟩ := h
    have h4 := ih h3
    omega

theorem Fits.le_start {lo hi : ℕ} {es : List (Edit α)} (h : Fits lo hi es) {e : Edit α}
    (he : e ∈ es) : lo ≤ e.start ∧ e.start ≤ e.stop ∧ e.stop ≤ hi := by
  induction es generalizing lo with
  | nil => cases he
  | cons f es ih =>
    obtain ⟨h1, h2, h3⟩ := h
    rcases List.mem_cons.mp he with rfl | he
    · exact ⟨h1, h2, h3.le⟩
    · have h4 := ih h3 he
      omega

theorem Fits.pairwise {lo hi : ℕ} {es : List (Edit α)} (h : Fits lo hi es)
    (hpos : ∀ e ∈ es, e.start < e.stop) : es.Pairwise fun e f => e.start < f.start := by
  induction es generalizing lo with
  | nil => exact List.Pairwise.nil
  | cons e es ih =>
    obtain ⟨h1, h2, h3⟩ := h
    apply List.Pairwise.cons
    · intro f hf
      have hle := (h3.le_start hf).1
      have hlt := hpos e (List.mem_cons_self ..)
      omega
    · exact ih h3 fun f hf => hpos f (List.mem_cons_of_mem _ hf)

theorem spliceFrom_shift (n pos : ℕ) (rest : List α) (es : List (Edit α)) :
    spliceFrom (pos + n) rest (es.map (Edit.shift n)) = spliceFrom pos rest es := by
  induction es generalizing pos rest with
  | nil => rfl
  | cons e es ih =>
    simp only [List.map_cons, spliceFrom, Edit.shift, Nat.add_sub_add_right]
    rw [ih]

theorem spliceFrom_behind {pos hi : ℕ} (a b : List α) {es : List (Edit α)}
    (h : Fits (pos + a.length) hi es) :
    spliceFrom pos (a ++ b) es = a ++ spliceFrom (pos + a.length) b es := by
  cases es with
  | nil => rfl
  | cons e es =>
    obtain ⟨h1, h2, -⟩ := h
    have hstart : e.start - pos = a.length + (e.start - (pos + a.length)) := by omega
    have hstop : e.stop - pos = a.length + (e.stop - (pos + a.length)) := by omega
    simp only [spliceFrom]
    rw [hstart, hstop, List.take_length_add_append, List.drop_length_add_append]
    simp only [List.append_assoc]

theorem spliceFrom_append {pos hi : ℕ} (a b : List α) {es fs : List (Edit α)}
    (hes : Fits pos (pos + a.length) es) (hfs : Fits (pos + a.length) hi fs) :
    spliceFrom pos (a ++ b) (es ++ fs) =
      spliceFrom pos a es ++ spliceFrom (pos + a.length) b fs := by
  induction es generalizing pos a with
  | nil => exact spliceFrom_behind a b hfs
  | cons e es ih =>
    obtain ⟨h1, h2, h3⟩ := hes
    have hle := h3.le
    have hdrop : (a.drop (e.stop - pos)).length = a.length - (e.stop - pos) :=
      List.length_drop ..
    have hend : e.stop + (a.drop (e.stop - pos)).length = pos + a.length := by omega
    have hrest := ih (a.drop (e.stop - pos)) (by rw [hend]; exact h3) (by rw [hend]; exact hfs)
    rw [hend] at hrest
    simp only [List.cons_append, spliceFrom]
    rw [List.take_append_of_le_length (by omega), List.drop_append_of_le_length (by omega), hrest]
    simp only [List.append_assoc]

theorem fits_shift {n lo hi : ℕ} {es : List (Edit α)} (h : Fits lo hi es) :
    Fits (lo + n) (hi + n) (es.map (Edit.shift n)) := by
  induction es generalizing lo with
  | nil => exact Nat.add_le_add_right h n
  | cons e es ih =>
    obtain ⟨h1, h2, h3⟩ := h
    exact ⟨Nat.add_le_add_right h1 n, Nat.add_le_add_right h2 n, ih h3⟩

theorem Fits.append {lo mid hi : ℕ} {es fs : List (Edit α)} (hes : Fits lo mid es)
    (hfs : Fits mid hi fs) : Fits lo hi (es ++ fs) := by
  induction es generalizing lo with
  | nil =>
    have hle : lo ≤ mid := hes
    cases fs with
    | nil => exact le_trans hle hfs
    | cons f fs => exact ⟨le_trans hle hfs.1, hfs.2⟩
  | cons e es ih => exact ⟨hes.1, hes.2.1, ih hes.2.2⟩

def laid : ℕ → List (List α × List (Edit α)) → List (Edit α)
  | _, [] => []
  | n, p :: ps => p.2.map (Edit.shift n) ++ laid (n + p.1.length) ps

theorem laid_fits {n : ℕ} {ps : List (List α × List (Edit α))}
    (h : ∀ p ∈ ps, Fits 0 p.1.length p.2) :
    Fits n (n + (ps.map Prod.fst).flatten.length) (laid n ps) := by
  induction ps generalizing n with
  | nil => exact le_refl n
  | cons p ps ih =>
    have hp := fits_shift (n := n) (h p (List.mem_cons_self ..))
    rw [Nat.zero_add, Nat.add_comm] at hp
    have hps := ih (n := n + p.1.length) fun q hq => h q (List.mem_cons_of_mem _ hq)
    rw [List.map_cons, List.flatten_cons, List.length_append, ← Nat.add_assoc]
    exact hp.append hps

theorem spliceFrom_laid {n : ℕ} {ps : List (List α × List (Edit α))}
    (h : ∀ p ∈ ps, Fits 0 p.1.length p.2) :
    spliceFrom n (ps.map Prod.fst).flatten (laid n ps) =
      (ps.map fun p => splice p.1 p.2).flatten := by
  induction ps generalizing n with
  | nil => rfl
  | cons p ps ih =>
    have hps : ∀ q ∈ ps, Fits 0 q.1.length q.2 := fun q hq => h q (List.mem_cons_of_mem _ hq)
    have hp := fits_shift (n := n) (h p (List.mem_cons_self ..))
    rw [Nat.zero_add, Nat.add_comm] at hp
    have hfirst : spliceFrom n p.1 (p.2.map (Edit.shift n)) = splice p.1 p.2 := by
      have h := spliceFrom_shift n 0 p.1 p.2
      rwa [Nat.zero_add] at h
    rw [laid, List.map_cons, List.flatten_cons, spliceFrom_append p.1 _ hp (laid_fits hps), ih hps,
      hfirst, List.map_cons, List.flatten_cons]

theorem splice_laid {ps : List (List α × List (Edit α))} (h : ∀ p ∈ ps, Fits 0 p.1.length p.2) :
    splice (ps.map Prod.fst).flatten (laid 0 ps) = (ps.map fun p => splice p.1 p.2).flatten :=
  spliceFrom_laid h

theorem splice_nil (l : List α) : splice l [] = l := rfl

theorem splice_whole (l new : List α) : splice l [⟨0, l.length, new⟩] = new := by
  simp [splice, spliceFrom]

def sortEdits (es : List (Edit α)) : List (Edit α) :=
  es.insertionSort fun e f => e.start ≤ f.start

theorem sortEdits_eq {es fs : List (Edit α)} (hperm : es.Perm fs)
    (hfs : fs.Pairwise fun e f => e.start < f.start) : sortEdits es = fs := by
  have htotal : Std.Total fun e f : Edit α => e.start ≤ f.start := ⟨fun e f => le_total _ _⟩
  have htrans : IsTrans (Edit α) fun e f => e.start ≤ f.start := ⟨fun _ _ _ => le_trans⟩
  have hsorted : (sortEdits es).Pairwise fun e f => e.start ≤ f.start :=
    List.pairwise_insertionSort _ es
  have hsame : (sortEdits es).Perm fs := (List.perm_insertionSort _ es).trans hperm
  have hsymm : Std.Symm fun e f : Edit α => e.start ≠ f.start := ⟨fun _ _ => Ne.symm⟩
  apply List.Perm.eq_of_pairwise _ hsorted (hfs.imp le_of_lt) hsame
  intro e f he hf h1 h2
  -- two edits of the ordered list that start at one place are one edit
  by_contra hne
  exact (hfs.imp ne_of_lt).forall (hsame.mem_iff.mp he) hf hne (le_antisymm h1 h2)

end Splice

end LandscapeKit
