import Mathlib.Data.List.Perm.Subperm
import Mathlib.Algebra.BigOperators.Group.List.Basic
import Mathlib.Algebra.GroupWithZero.Nat
import Mathlib.Data.Finmap

/-!
Finite maps with a sum over their values. The maps are Mathlib's association
lists; what is added here is a weight summed over all entries, `retain`, and
updates in place.
-/

namespace LandscapeKit

abbrev Assoc (α β : Type) := AList (fun _ : α => β)

namespace Assoc

variable {α β : Type} [DecidableEq α]

def sumBy (f : β → ℕ) (m : Assoc α β) : ℕ := (m.entries.map (fun e => f e.2)).sum

def retain (p : β → Bool) (m : Assoc α β) : Assoc α β :=
  ⟨m.entries.filter (fun e => p e.2), m.nodupKeys.sublist List.filter_sublist⟩

omit [DecidableEq α] in
@[simp]
theorem sumBy_empty (f : β → ℕ) : sumBy f (∅ : Assoc α β) = 0 := rfl

theorem sumBy_insert (f : β → ℕ) (a : α) (b : β) (m : Assoc α β) :
    sumBy f (m.insert a b) = f b + sumBy f (m.erase a) := by
  simp [sumBy, AList.entries_insert, AList.erase]

theorem sumBy_erase_add (f : β → ℕ) (a : α) (b : β) (m : Assoc α β)
    (h : m.lookup a = some b) : sumBy f (m.erase a) + f b = sumBy f m := by
  have hmem : (⟨a, b⟩ : Sigma (fun _ : α => β)) ∈ m.entries := AList.mem_lookup_iff.mp h
  have hkey : a ∈ m.entries.keys := List.mem_keys_of_mem hmem
  obtain ⟨b', l₁, l₂, -, hsplit, herase⟩ := List.exists_of_kerase hkey
  have hb : b' = b := by
    have hmem' : (⟨a, b'⟩ : Sigma (fun _ : α => β)) ∈ m.entries := by
      rw [hsplit]
      simp
    have hl : m.lookup a = some b' := AList.mem_lookup_iff.mpr hmem'
    rw [h] at hl
    exact (Option.some.inj hl).symm
  subst hb
  have he : (m.erase a).entries = l₁ ++ l₂ := herase
  simp only [sumBy, he, hsplit, List.map_append, List.map_cons, List.sum_append, List.sum_cons]
  omega

theorem erase_of_lookup_none (a : α) (m : Assoc α β) (h : m.lookup a = none) :
    m.erase a = m := by
  have hkey : a ∉ m.entries.keys := AList.lookup_eq_none.mp h
  apply AList.ext
  exact List.kerase_of_notMem_keys hkey

theorem sumBy_insert_some (f : β → ℕ) (a : α) (b c : β) (m : Assoc α β)
    (h : m.lookup a = some b) : sumBy f (m.insert a c) + f b = sumBy f m + f c := by
  have he := sumBy_erase_add f a b m h
  rw [sumBy_insert]
  omega

theorem sumBy_insert_none (f : β → ℕ) (a : α) (c : β) (m : Assoc α β)
    (h : m.lookup a = none) : sumBy f (m.insert a c) = sumBy f m + f c := by
  rw [sumBy_insert, erase_of_lookup_none a m h]
  omega

theorem le_sumBy (f : β → ℕ) (a : α) (b : β) (m : Assoc α β) (h : m.lookup a = some b) :
    f b ≤ sumBy f m := by
  have he := sumBy_erase_add f a b m h
  omega

theorem lookup_retain (p : β → Bool) (m : Assoc α β) (a : α) :
    (retain p m).lookup a = (m.lookup a).filter p := by
  apply Option.ext
  intro b
  have hl : b ∈ (retain p m).lookup a ↔ (⟨a, b⟩ : Sigma (fun _ : α => β)) ∈ (retain p m).entries :=
    AList.mem_lookup_iff
  have hm : b ∈ m.lookup a ↔ (⟨a, b⟩ : Sigma (fun _ : α => β)) ∈ m.entries :=
    AList.mem_lookup_iff
  rw [← Option.mem_def, ← Option.mem_def, hl, Option.mem_filter_iff, hm]
  simp [retain]

theorem lookup_insert_eq (a : α) (b : β) (m : Assoc α β) (a' : α) :
    (m.insert a b).lookup a' = if a' = a then some b else m.lookup a' := by
  split
  next ha => rw [ha, AList.lookup_insert]
  next ha => exact AList.lookup_insert_ne ha

theorem lookup_erase_eq (a : α) (m : Assoc α β) (a' : α) :
    (m.erase a).lookup a' = if a' = a then none else m.lookup a' := by
  split
  next ha => rw [ha, AList.lookup_erase]
  next ha => exact AList.lookup_erase_ne ha

omit [DecidableEq α] in
theorem sumBy_le_sumBy_add (f g : β → ℕ) (c : ℕ) (hfg : ∀ b, f b ≤ g b + c) (m : Assoc α β) :
    sumBy f m ≤ sumBy g m + c * m.keys.length := by
  have hlen : m.keys.length = m.entries.length := by simp [AList.keys, List.keys]
  rw [hlen]
  simp only [sumBy]
  induction m.entries with
  | nil => simp
  | cons e es ih =>
    have he := hfg e.2
    simp only [List.map_cons, List.sum_cons, List.length_cons, Nat.mul_add, Nat.mul_one]
    omega

theorem sumBy_le_of_lookup (f : β → ℕ) (m' m : Assoc α β)
    (h : ∀ a b', m'.lookup a = some b' → ∃ b, m.lookup a = some b ∧ f b' ≤ f b) :
    sumBy f m' ≤ sumBy f m := by
  induction m' using AList.insertRec generalizing m with
  | H0 => exact Nat.zero_le _
  | IH a b' m' hnew ih =>
    obtain ⟨b, hb, hle⟩ := h a b' (AList.lookup_insert m')
    have hrest : sumBy f m' ≤ sumBy f (m.erase a) := by
      apply ih
      intro c d hd
      have hca : c ≠ a := by
        rintro rfl
        rw [AList.lookup_eq_none.mpr hnew] at hd
        exact absurd hd (by simp)
      have hm' : (m'.insert a b').lookup c = some d := by rw [AList.lookup_insert_ne hca, hd]
      obtain ⟨e, he, hde⟩ := h c d hm'
      exact ⟨e, by rw [AList.lookup_erase_ne hca, he], hde⟩
    have hm := sumBy_erase_add f a b m hb
    rw [sumBy_insert_none f a b' m' (AList.lookup_eq_none.mpr hnew)]
    omega

omit [DecidableEq α] in
theorem keys_length_le {γ : Type} (m : Assoc α β) (m' : Assoc α γ)
    (h : ∀ a, a ∈ m.keys → a ∈ m'.keys) : m.keys.length ≤ m'.keys.length :=
  (List.subperm_of_subset m.keys_nodup h).length_le

end Assoc

end LandscapeKit
