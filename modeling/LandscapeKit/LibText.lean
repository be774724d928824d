import Mathlib.Data.List.Basic
import Mathlib.Data.List.Infix

/-!
Text as a list of characters: taking a lead or an ending off, cutting at a separator, and
decimal numerals of a least width.
-/

namespace LandscapeKit

abbrev Text := List Char

instance : LawfulBEq Text := inferInstance

namespace Text

def stripLead (lead text : Text) : Option Text :=
  if lead <+: text then some (text.drop lead.length) else none

@[simp]
theorem stripLead_append (lead text : Text) : stripLead lead (lead ++ text) = some text := by
  simp [stripLead]

theorem eq_of_stripLead {lead text rest : Text} (h : stripLead lead text = some rest) :
    text = lead ++ rest := by
  unfold stripLead at h
  split at h
  · rename_i hlead
    rw [← Option.some.inj h]
    exact (List.prefix_iff_eq_append.mp hlead).symm
  · cases h

theorem not_mem_of_mem_splitOn {sep : Char} {text line : Text} (h : line ∈ text.splitOn sep) :
    sep ∉ line := by
  induction text generalizing line with
  | nil =>
    rw [List.splitOn_nil, List.mem_singleton] at h
    rw [h]
    exact List.not_mem_nil
  | cons c text ih =>
    rw [List.splitOn_cons_eq_if_modifyHead] at h
    split at h
    · rcases List.mem_cons.mp h with rfl | h
      · exact List.not_mem_nil
      · exact ih h
    · rename_i hc
      obtain ⟨l, ls, hls⟩ := List.exists_cons_of_ne_nil (List.splitOn_ne_nil sep text)
      rw [hls, List.modifyHead_cons] at h
      rcases List.mem_cons.mp h with rfl | h
      · intro hmem
        rcases List.mem_cons.mp hmem with rfl | hmem
        · simp at hc
        · exact ih (by rw [hls]; exact List.mem_cons_self ..) hmem
      · exact ih (by rw [hls]; exact List.mem_cons_of_mem _ h)

def padded (width n : ℕ) : Text := List.leftpad width '0' (Nat.toDigits 10 n)

theorem width_le_padded (width n : ℕ) : width ≤ (padded width n).length := by
  rw [padded, List.length_leftpad]
  exact le_max_left ..

def isLowerHex (c : Char) : Bool := c.isDigit || ('a' ≤ c && c ≤ 'f')

end Text

end LandscapeKit
