import Mathlib.Data.List.Infix
import Mathlib.Logic.Function.Basic

/-!
A file system as a map from paths to nodes, with the operations a program uses to move
whole trees around. `κ` is what a regular file holds.
-/

namespace LandscapeKit

inductive Node (κ : Type)
  | dir
  | file (content : κ)
  | link (target : List String)
deriving DecidableEq

abbrev Path := List String

abbrev Files (κ : Type) := Path → Option (Node κ)

def Apart (p q : Path) : Prop := ¬ p <+: q ∧ ¬ q <+: p

instance (p q : Path) : Decidable (Apart p q) := inferInstanceAs (Decidable (_ ∧ _))

namespace Apart

variable {p q r : Path}

theorem symm (h : Apart p q) : Apart q p := ⟨h.2, h.1⟩

theorem append_right (h : Apart p q) (r : Path) : Apart p (q ++ r) := by
  refine ⟨fun hp => ?_, fun hq => h.2 ((List.prefix_append q r).trans hq)⟩
  rcases List.prefix_or_prefix_of_prefix hp (List.prefix_append q r) with h1 | h1
  · exact h.1 h1
  · exact h.2 h1

end Apart

namespace Files

variable {κ : Type} (fs : Files κ)

def subtree (p : Path) : Files κ := fun r => fs (p ++ r)

def remove (p : Path) : Files κ := fun r => if p <+: r then none else fs r

def removePart (p : Path) (left : Files κ) : Files κ := fun r =>
  if p <+: r ∧ left r = none then none else fs r

def move (p q : Path) : Files κ := fun r =>
  if q <+: r then fs (p ++ r.drop q.length) else if p <+: r then none else fs r

def makeDirs (p : Path) : Files κ := fun r =>
  if r <+: p ∧ fs r = none then some .dir else fs r

def put (p : Path) (n : Node κ) : Files κ := Function.update fs p (some n)

def erase (p : Path) : Files κ := Function.update fs p none

def copy (p q : Path) : Files κ := fun r =>
  if q <+: r then (fs (p ++ r.drop q.length)).or (fs r) else fs r

def graft (p : Path) (other : Files κ) : Files κ := fun r => if p <+: r then other r else fs r

def isFile (p : Path) : Bool :=
  match fs p with
  | some (.file _) => true
  | _ => false

def isDir (p : Path) : Bool :=
  match fs p with
  | some .dir => true
  | _ => false

def lookup (p : Path) : Option (Node κ) :=
  if ∀ q ∈ p.inits, q = [] ∨ q = p ∨ fs.isDir q then fs p else none

theorem lookup_below {p q : Path} (hq : q ≠ []) (h : fs q = none) (hp : q <+: p) :
    fs.lookup p = none := by
  unfold lookup
  split
  · rename_i hdirs
    rcases hdirs q ((List.mem_inits q p).mpr hp) with he | rfl | hdir
    · exact absurd he hq
    · exact h
    · simp [isDir, h] at hdir
  · rfl

section Subtree

variable {p q r : Path}

@[simp] theorem subtree_nil_apply : fs.subtree p [] = fs p := by
  simp only [subtree, List.append_nil]

theorem subtree_congr {gs : Files κ} (h : fs.subtree p = gs.subtree p) : fs p = gs p := by
  rw [← subtree_nil_apply fs, h, subtree_nil_apply]

theorem subtree_remove_self : (fs.remove p).subtree p = fun _ => none := by
  funext r
  simp only [subtree, remove, List.prefix_append, if_true]

theorem subtree_remove_apart (h : Apart p q) : (fs.remove p).subtree q = fs.subtree q := by
  funext r
  simp only [subtree, remove, if_neg (h.append_right r).1]

theorem subtree_removePart_apart {left : Files κ} (h : Apart p q) :
    (fs.removePart p left).subtree q = fs.subtree q := by
  funext r
  simp only [subtree, removePart, (h.append_right r).1, false_and, if_false]

theorem removePart_none {left : Files κ} (h : fs q = none) : fs.removePart p left q = none := by
  unfold removePart
  split
  · rfl
  · exact h

theorem subtree_move_target : (fs.move p q).subtree q = fs.subtree p := by
  funext r
  simp only [subtree, move, List.prefix_append, if_true, List.drop_left]

theorem subtree_move_source (h : Apart p q) : (fs.move p q).subtree p = fun _ => none := by
  funext r
  simp only [subtree, move, if_neg (h.symm.append_right r).1, List.prefix_append, if_true]

theorem subtree_move_apart (hp : Apart p r) (hq : Apart q r) :
    (fs.move p q).subtree r = fs.subtree r := by
  funext x
  simp only [subtree, move, if_neg (hq.append_right x).1, if_neg (hp.append_right x).1]

theorem subtree_makeDirs_outside (h : ¬ q <+: p) : (fs.makeDirs p).subtree q = fs.subtree q := by
  funext r
  have hr : ¬ (q ++ r <+: p) := fun hp => h ((List.prefix_append q r).trans hp)
  simp only [subtree, makeDirs, hr, false_and, if_false]

theorem subtree_makeDirs_self (h : fs p ≠ none) : (fs.makeDirs p).subtree p = fs.subtree p := by
  funext r
  simp only [subtree, makeDirs]
  refine if_neg fun hr => ?_
  have hlen := hr.1.length_le
  simp only [List.length_append] at hlen
  have hnil : r = [] := List.eq_nil_of_length_eq_zero (by omega)
  rw [hnil, List.append_nil] at hr
  exact h hr.2

theorem subtree_put_apart {n : Node κ} (h : ¬ q <+: p) : (fs.put p n).subtree q = fs.subtree q := by
  funext r
  have hne : q ++ r ≠ p := fun he => h (he ▸ List.prefix_append q r)
  simp only [subtree, put, Function.update_of_ne hne]

theorem subtree_erase_apart (h : ¬ q <+: p) : (fs.erase p).subtree q = fs.subtree q := by
  funext r
  have hne : q ++ r ≠ p := fun he => h (he ▸ List.prefix_append q r)
  simp only [subtree, erase, Function.update_of_ne hne]

theorem subtree_copy_apart (h : Apart q r) : (fs.copy p q).subtree r = fs.subtree r := by
  funext x
  simp only [subtree, copy, if_neg (h.append_right x).1]

theorem subtree_copy_target (h : fs.subtree q = fun _ => none) :
    (fs.copy p q).subtree q = fs.subtree p := by
  funext r
  have hnone : fs (q ++ r) = none := congrFun h r
  simp only [subtree, copy, List.prefix_append, if_true, List.drop_left, hnone, Option.or_none]

end Subtree

end Files

end LandscapeKit
