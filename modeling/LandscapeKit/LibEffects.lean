import Mathlib.Algebra.BigOperators.Group.List.Basic
import LandscapeKit.LibFiles
import Mathlib.Algebra.GroupWithZero.Nat

/-!
What a program does to a file system, one call after the other: directories and files are created,
and files are written to. Each call concerns one path and leaves the others as they are.
-/

namespace LandscapeKit

inductive Effect (β : Type) where
  | mkdir (p : Path)
  | create (p : Path)
  | write (p : Path) (chunk : List β)
deriving DecidableEq

namespace Effect

variable {β : Type}

def path : Effect β → Path
  | mkdir p => p
  | create p => p
  | write p _ => p

def size : Effect β → ℕ
  | write _ chunk => chunk.length
  | _ => 0

def apply (fs : Files (List β)) : Effect β → Files (List β)
  | mkdir p => fs.put p .dir
  | create p => fs.put p (.file [])
  | write p chunk =>
    match fs p with
    | some (.file content) => fs.put p (.file (content ++ chunk))
    | _ => fs

def applyAll (fs : Files (List β)) (effects : List (Effect β)) : Files (List β) :=
  effects.foldl apply fs

def sizes (effects : List (Effect β)) : ℕ := (effects.map size).sum

variable {fs : Files (List β)} {effects effects' : List (Effect β)} {r : Path}

@[simp] theorem applyAll_nil : applyAll fs [] = fs := rfl

theorem applyAll_cons (e : Effect β) : applyAll fs (e :: effects) =
    applyAll (apply fs e) effects := rfl

theorem applyAll_append : applyAll fs (effects ++ effects') =
    applyAll (applyAll fs effects) effects' := List.foldl_append

@[simp] theorem sizes_nil : sizes ([] : List (Effect β)) = 0 := rfl

@[simp] theorem sizes_cons (e : Effect β) : sizes (e :: effects) = e.size + sizes effects := by
  rw [sizes, List.map_cons, List.sum_cons, sizes]

@[simp] theorem sizes_append : sizes (effects ++ effects') = sizes effects + sizes effects' := by
  rw [sizes, List.map_append, List.sum_append, sizes, sizes]

theorem sizes_eq_zero (h : ∀ e ∈ effects, e.size = 0) : sizes effects = 0 := by
  apply List.sum_eq_zero
  intro n hn
  obtain ⟨e, he, rfl⟩ := List.mem_map.mp hn
  exact h e he

theorem apply_write {content : List β} {p : Path} (h : fs p = some (.file content))
    (chunk : List β) : apply fs (write p chunk) = fs.put p (.file (content ++ chunk)) := by
  rw [apply, h]

theorem apply_write_or (fs : Files (List β)) (p : Path) (chunk : List β) :
    (∃ content, apply fs (write p chunk) = fs.put p (.file (content ++ chunk))) ∨
      apply fs (write p chunk) = fs := by
  cases hp : fs p with
  | none =>
    right
    rw [apply, hp]
  | some node =>
    cases node with
    | file content => exact .inl ⟨content, apply_write hp chunk⟩
    | dir | link t =>
      right
      rw [apply, hp]

theorem apply_of_ne {e : Effect β} (h : r ≠ e.path) : apply fs e r = fs r := by
  cases e with
  | mkdir p => exact Function.update_of_ne h _ _
  | create p => exact Function.update_of_ne h _ _
  | write p chunk =>
    obtain ⟨content, happend⟩ | hsame := apply_write_or fs p chunk
    · rw [happend]
      exact Function.update_of_ne h _ _
    · rw [hsame]

theorem applyAll_of_ne (h : ∀ e ∈ effects, r ≠ e.path) : applyAll fs effects r = fs r := by
  induction effects generalizing fs with
  | nil => rfl
  | cons e effects ih =>
    obtain ⟨he, hrest⟩ := List.forall_mem_cons.mp h
    rw [applyAll_cons, ih hrest, apply_of_ne he]

theorem apply_noLink {e : Effect β} {t : List String} (h : apply fs e r = some (.link t)) :
    fs r = some (.link t) := by
  by_cases hr : r = e.path
  · subst hr
    cases e with
    | mkdir p =>
      rw [apply, path, Files.put, Function.update_self] at h
      cases h
    | create p =>
      rw [apply, path, Files.put, Function.update_self] at h
      cases h
    | write p chunk =>
      obtain ⟨content, happend⟩ | hsame := apply_write_or fs p chunk
      · rw [happend, path, Files.put, Function.update_self] at h
        cases h
      · rwa [hsame] at h
  · rwa [apply_of_ne hr] at h

theorem applyAll_noLink {t : List String} (h : applyAll fs effects r = some (.link t)) :
    fs r = some (.link t) := by
  induction effects generalizing fs with
  | nil => exact h
  | cons e effects ih => exact apply_noLink (ih h)

theorem apply_isSome {e : Effect β} (h : fs r ≠ none) : apply fs e r ≠ none := by
  by_cases hr : r = e.path
  · subst hr
    cases e with
    | mkdir p => simp [apply, path, Files.put]
    | create p => simp [apply, path, Files.put]
    | write p chunk =>
      obtain ⟨content, happend⟩ | hsame := apply_write_or fs p chunk
      · rw [happend]
        simp [path, Files.put]
      · rwa [hsame]
  · rwa [apply_of_ne hr]

theorem applyAll_isSome (h : fs r ≠ none) : applyAll fs effects r ≠ none := by
  induction effects generalizing fs with
  | nil => exact h
  | cons e effects ih => exact ih (apply_isSome h)

theorem applyAll_made {e : Effect β} (he : e ∈ effects)
    (hmade : ∀ fs : Files (List β), apply fs e e.path ≠ none) :
    applyAll fs effects e.path ≠ none := by
  obtain ⟨before, after, rfl⟩ := List.append_of_mem he
  rw [applyAll_append, applyAll_cons]
  exact applyAll_isSome (hmade _)

end Effect

end LandscapeKit
