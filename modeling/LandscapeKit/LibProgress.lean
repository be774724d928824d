import Mathlib.Logic.Relation
import Mathlib.Data.Nat.Notation

/-!
Runs of a step relation: what holds in every state of a run, and when a run can always be
continued to a goal.
-/

namespace LandscapeKit

namespace Progress

open Relation

variable {σ : Type} {step : σ → σ → Prop}

theorem invariant {P : σ → Prop} {s t : σ} (hs : P s) (hstep : ∀ s t, P s → step s t → P t)
    (h : ReflTransGen step s t) : P t := by
  induction h with
  | refl => exact hs
  | tail _ hlast ih => exact hstep _ _ ih hlast

theorem reaches {P goal : σ → Prop} (size : σ → ℕ)
    (h : ∀ s, P s → ¬ goal s → ∃ t, step s t ∧ P t ∧ size t < size s) {s : σ} (hs : P s) :
    ∃ t, ReflTransGen step s t ∧ P t ∧ goal t := by
  induction hn : size s using Nat.strongRecOn generalizing s with
  | ind n ih =>
    by_cases hgoal : goal s
    · exact ⟨s, ReflTransGen.refl, hs, hgoal⟩
    · obtain ⟨t, hst, ht, hlt⟩ := h s hs hgoal
      rw [hn] at hlt
      obtain ⟨u, htu, hu, hend⟩ := ih (size t) hlt ht rfl
      exact ⟨u, ReflTransGen.head hst htu, hu, hend⟩

def Starved (step : σ → σ → Prop) (waits : σ → Prop) (serves : σ → σ → Prop) (s : σ) : Prop :=
  waits s ∧ ∀ t u, ReflTransGen step s t → step t u → ¬ serves t u

theorem starved_of_invariant {waits : σ → Prop} {serves : σ → σ → Prop} (P : σ → Prop) {s : σ}
    (hwaits : waits s) (hs : P s) (hstep : ∀ t u, P t → step t u → P u ∧ ¬ serves t u) :
    Starved step waits serves s := by
  refine ⟨hwaits, fun t u hst htu => ?_⟩
  have ht : P t := invariant hs (fun t u ht htu => (hstep t u ht htu).1) hst
  exact (hstep t u ht htu).2

end Progress

end LandscapeKit
