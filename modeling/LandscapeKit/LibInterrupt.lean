import LandscapeKit.LibFaults
import Mathlib.Data.Nat.Notation

/-!
Programs made of single operations, each done whole or not at all. A budget says after how
many operations the program is cut off; without one it runs to its end.
-/

namespace LandscapeKit.Faults

structure Interruptible (σ : Type) where
  now : σ
  left : Option ℕ

variable {σ ε α β : Type}

def Prog.call (op : σ → Except ε (α × σ)) : Prog (Interruptible σ) ε α := fun s =>
  match s.left with
  | some 0 => (.crash, s)
  | left =>
    match op s.now with
    | .ok (a, t) => (.ok a, ⟨t, left.map Nat.pred⟩)
    | .error e => (.err e, ⟨s.now, left.map Nat.pred⟩)

namespace Prog

variable {op : σ → Except ε (α × σ)} {s t : σ} {left : Option ℕ}

@[simp] theorem call_cut : call op ⟨s, some 0⟩ = (.crash, ⟨s, some 0⟩) := rfl

theorem call_of_ok {a : α} (hleft : left ≠ some 0) (h : op s = .ok (a, t)) :
    call op ⟨s, left⟩ = (.ok a, ⟨t, left.map Nat.pred⟩) := by
  match left, hleft with
  | none, _ => simp only [call, h]
  | some (n + 1), _ => simp only [call, h]

theorem call_of_error {e : ε} (hleft : left ≠ some 0) (h : op s = .error e) :
    call op ⟨s, left⟩ = (.err e, ⟨s, left.map Nat.pred⟩) := by
  match left, hleft with
  | none, _ => simp only [call, h]
  | some (n + 1), _ => simp only [call, h]

end Prog

theorem Triple.call {op : σ → Except ε (α × σ)} {P C : σ → Prop} {Q : α → σ → Prop}
    {E : ε → σ → Prop} (hok : ∀ s a t, P s → op s = .ok (a, t) → Q a t)
    (herr : ∀ s e, P s → op s = .error e → E e s) (hcut : ∀ s, P s → C s) :
    Triple (fun s => P s.now) (Prog.call op) (fun a s => Q a s.now) (fun e s => E e s.now)
      fun s => C s.now := by
  rintro ⟨s, left⟩ hs
  by_cases hleft : left = some 0
  · rw [hleft, Prog.call_cut]
    exact hcut s hs
  · rcases h : op s with e | ⟨a, t⟩
    · rw [Prog.call_of_error hleft h]
      exact herr s e hs h
    · rw [Prog.call_of_ok hleft h]
      exact hok s a t hs h

/-- Nothing but the budget cuts the program off. -/
class Uncut (p : Prog (Interruptible σ) ε α) : Prop where
  runs : ∀ s, s.left = none → (p s).1 ≠ .crash ∧ (p s).2.left = none

namespace Uncut

instance pure (a : α) : Uncut (Pure.pure a : Prog (Interruptible σ) ε α) :=
  ⟨fun _ hs => ⟨by nofun, hs⟩⟩

instance fail (e : ε) : Uncut (Prog.fail e : Prog (Interruptible σ) ε α) :=
  ⟨fun _ hs => ⟨by nofun, hs⟩⟩

instance call (op : σ → Except ε (α × σ)) : Uncut (Prog.call op) := by
  refine ⟨?_⟩
  rintro ⟨s, left⟩ hs
  subst hs
  rcases h : op s with e | ⟨a, t⟩
  · rw [Prog.call_of_error (by nofun) h]
    exact ⟨by nofun, rfl⟩
  · rw [Prog.call_of_ok (by nofun) h]
    exact ⟨by nofun, rfl⟩

instance bind (p : Prog (Interruptible σ) ε α) (f : α → Prog (Interruptible σ) ε β)
    [hp : Uncut p] [hf : ∀ a, Uncut (f a)] : Uncut (p >>= f) := by
  refine ⟨fun s hs => ?_⟩
  obtain ⟨hend, hleft⟩ := hp.runs s hs
  rcases h : p s with ⟨a | e | _, t⟩
  · rw [Prog.bind_of_ok h]
    rw [h] at hleft
    exact (hf a).runs t hleft
  · rw [Prog.bind_of_err h]
    rw [h] at hleft
    exact ⟨by nofun, hleft⟩
  · rw [h] at hend
    exact absurd rfl hend

theorem andThen {p : Prog (Interruptible σ) ε α} {f : α → Prog (Interruptible σ) ε β}
    (hp : Uncut p) (hf : ∀ a, Uncut (f a)) : Uncut (p >>= f) :=
  inferInstance

instance attempt (p : Prog (Interruptible σ) ε α) [hp : Uncut p] : Uncut (Prog.attempt p) := by
  refine ⟨fun s hs => ?_⟩
  obtain ⟨hend, hleft⟩ := hp.runs s hs
  rcases h : p s with ⟨a | e | _, t⟩
  · rw [Prog.attempt_of_ok h]
    rw [h] at hleft
    exact ⟨by nofun, hleft⟩
  · rw [Prog.attempt_of_err h]
    rw [h] at hleft
    exact ⟨by nofun, hleft⟩
  · rw [h] at hend
    exact absurd rfl hend

instance ignore (p : Prog (Interruptible σ) ε α) [hp : Uncut p] : Uncut (Prog.ignore p) :=
  inferInstanceAs (Uncut (Prog.attempt p >>= fun _ => Pure.pure ()))

end Uncut

end LandscapeKit.Faults
