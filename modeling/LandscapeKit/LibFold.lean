import Mathlib.Data.List.Basic

/-!
A loop that can fail, as a condition on every turn and a state that is always
carried on: `Passes` says that each turn succeeds in the state it finds.
-/

namespace LandscapeKit.Fold

variable {σ α ε : Type}

def Passes (ok : σ → α → Prop) (next : σ → α → σ) : σ → List α → Prop
  | _, [] => True
  | st, a :: l => ok st a ∧ Passes ok next (next st a) l

theorem foldlM_eq_ok_iff {step : σ → α → Except ε σ} {ok : σ → α → Prop} {next : σ → α → σ}
    {I : σ → Prop} (hstep : ∀ s a s', I s → (step s a = .ok s' ↔ ok s a ∧ next s a = s'))
    (hinv : ∀ s a, I s → ok s a → I (next s a)) {s : σ} (hs : I s) (l : List α) (s' : σ) :
    l.foldlM step s = .ok s' ↔ Passes ok next s l ∧ l.foldl next s = s' := by
  induction l generalizing s with
  | nil =>
    simp only [List.foldlM_nil, Passes, true_and, List.foldl_nil]
    exact ⟨fun h => Except.ok.inj h, fun h => by rw [h]; rfl⟩
  | cons a l ih =>
    have hbind : (a :: l).foldlM step s = .ok s' ↔
        ∃ mid, step s a = .ok mid ∧ l.foldlM step mid = .ok s' := by
      rw [List.foldlM_cons]
      cases step s a with
      | error e => simp [bind, Except.bind]
      | ok mid => simp [bind, Except.bind]
    rw [hbind]
    constructor
    · rintro ⟨mid, hone, hrest⟩
      obtain ⟨hok, rfl⟩ := (hstep s a mid hs).mp hone
      obtain ⟨hpass, hend⟩ := (ih (hinv s a hs hok)).mp hrest
      exact ⟨⟨hok, hpass⟩, hend⟩
    · rintro ⟨⟨hok, hpass⟩, hend⟩
      refine ⟨next s a, (hstep s a _ hs).mpr ⟨hok, rfl⟩, ?_⟩
      exact (ih (hinv s a hs hok)).mpr ⟨hpass, hend⟩

end LandscapeKit.Fold
