import Mathlib.Data.List.Basic

/-!
Keyed tables that keep the order of their entries: a key that is present is
updated in place, a new key goes to the end.
-/

namespace LandscapeKit.Table

variable {α β : Type} [DecidableEq α]

def get (k : α) : List (α × β) → Option β
  | [] => none
  | (a, b) :: t => if a = k then some b else get k t

def set (k : α) (v : β) : List (α × β) → List (α × β)
  | [] => [(k, v)]
  | (a, b) :: t => if a = k then (a, v) :: t else (a, b) :: set k v t

def remove (k : α) (t : List (α × β)) : List (α × β) := t.filter (fun e => e.1 ≠ k)

def setOrRemove (k : α) : Option β → List (α × β) → List (α × β)
  | some v, t => set k v t
  | none, t => remove k t

@[simp]
theorem get_nil (k : α) : get k ([] : List (α × β)) = none := rfl

theorem get_set (k l : α) (v : β) (t : List (α × β)) :
    get l (set k v t) = if k = l then some v else get l t := by
  induction t with
  | nil => simp [set, get]
  | cons e t ih =>
    obtain ⟨a, b⟩ := e
    by_cases hk : a = k
    · -- the entry is updated in place, so the tail is not looked at
      subst hk
      by_cases hl : a = l <;> simp [set, get, hl]
    · by_cases hl : a = l
      · have hne : k ≠ l := fun h => hk (hl.trans h.symm)
        subst hl
        simp [set, get, hk, hne]
      · simp [set, get, hk, hl, ih]

theorem get_remove (k l : α) (t : List (α × β)) :
    get l (remove k t) = if k = l then none else get l t := by
  induction t with
  | nil => simp [remove, get]
  | cons e t ih =>
    obtain ⟨a, b⟩ := e
    have hrest : get l (t.filter (fun e => e.1 ≠ k)) = if k = l then none else get l t := ih
    by_cases hk : a = k
    · subst hk
      by_cases hl : a = l
      · simpa [remove, hl] using hrest
      · simpa [remove, get, hl] using hrest
    · by_cases hl : a = l
      · have hne : k ≠ l := fun h => hk (hl.trans h.symm)
        subst hl
        simp [remove, get, hk, hne]
      · simpa [remove, get, hk, hl] using hrest

theorem get_filter (keep : α → Bool) (k : α) (t : List (α × β)) :
    get k (t.filter fun e => keep e.1) = if keep k then get k t else none := by
  induction t with
  | nil => simp
  | cons e t ih =>
    obtain ⟨a, b⟩ := e
    by_cases hk : a = k
    · subst hk
      cases ha : keep a <;> simp_all [get]
    · cases ha : keep a <;> simp_all [get]

theorem get_setOrRemove (k l : α) (v : Option β) (t : List (α × β)) :
    get l (setOrRemove k v t) = if k = l then v else get l t := by
  cases v with
  | none => exact get_remove k l t
  | some v => exact get_set k l v t

theorem remove_set (k : α) (v : β) (t : List (α × β)) : remove k (set k v t) = remove k t := by
  induction t with
  | nil => simp [set, remove]
  | cons e t ih =>
    obtain ⟨a, b⟩ := e
    have hrest : (set k v t).filter (fun e => e.1 ≠ k) = t.filter (fun e => e.1 ≠ k) := ih
    by_cases hk : a = k
    · simp [set, remove, hk]
    · simpa [set, remove, hk] using hrest

end LandscapeKit.Table
