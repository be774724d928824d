import Mathlib.Logic.Function.Basic

/-!
Programs that may fail or be cut off. A program returns, reports an error its caller can
catch, or stops dead; nothing runs after a crash, and no caller sees one. The triples give
one postcondition for each of the three endings, so that a crash condition holds at every
point where the program can be interrupted.
-/

namespace LandscapeKit.Faults

inductive Outcome (ε α : Type)
  | ok (a : α)
  | err (e : ε)
  | crash
deriving DecidableEq

def Prog (σ ε α : Type) := σ → Outcome ε α × σ

variable {σ ε α β : Type}

namespace Prog

def fail (e : ε) : Prog σ ε α := fun s => (.err e, s)

def bind (p : Prog σ ε α) (f : α → Prog σ ε β) : Prog σ ε β := fun s =>
  match p s with
  | (.ok a, t) => f a t
  | (.err e, t) => (.err e, t)
  | (.crash, t) => (.crash, t)

instance : Monad (Prog σ ε) where
  pure a := fun s => (.ok a, s)
  bind := Prog.bind

def attempt (p : Prog σ ε α) : Prog σ ε (Except ε α) := fun s =>
  match p s with
  | (.ok a, t) => (.ok (.ok a), t)
  | (.err e, t) => (.ok (.error e), t)
  | (.crash, t) => (.crash, t)

def ignore (p : Prog σ ε α) : Prog σ ε Unit := do
  let _ ← attempt p
  pure ()

def onlyIf (c : Bool) (p : Prog σ ε Unit) : Prog σ ε Unit :=
  if c then p else pure ()

def forEach (f : α → Prog σ ε Unit) : List α → Prog σ ε Unit
  | [] => pure ()
  | a :: as => do
    f a
    forEach f as

def read : Prog σ ε σ := fun s => (.ok s, s)

def modify (f : σ → σ) : Prog σ ε Unit := fun s => (.ok (), f s)

section Runs

variable {p : Prog σ ε α} {f : α → Prog σ ε β} {s t u : σ}

def Fails (p : Prog σ ε α) (s : σ) : Prop := ∃ e t, p s = (.err e, t)

theorem bind_of_ok {a : α} (h : p s = (.ok a, t)) : (p >>= f) s = f a t := by
  change Prog.bind p f s = f a t
  rw [Prog.bind, h]

theorem bind_of_err {e : ε} (h : p s = (.err e, t)) : (p >>= f) s = (.err e, t) := by
  change Prog.bind p f s = (.err e, t)
  rw [Prog.bind, h]

theorem bind_of_crash (h : p s = (.crash, t)) : (p >>= f) s = (.crash, t) := by
  change Prog.bind p f s = (.crash, t)
  rw [Prog.bind, h]

theorem bind_eq_err {e : ε} (h : (p >>= f) s = (.err e, u)) :
    p s = (.err e, u) ∨ ∃ a t, p s = (.ok a, t) ∧ f a t = (.err e, u) := by
  rcases hp : p s with ⟨a | e' | _, t⟩
  · exact .inr ⟨a, t, rfl, (bind_of_ok hp).symm.trans h⟩
  · have he := (bind_of_err (f := f) hp).symm.trans h
    simp only [Prod.mk.injEq, Outcome.err.injEq] at he
    obtain ⟨rfl, rfl⟩ := he
    exact .inl rfl
  · have hc := (bind_of_crash (f := f) hp).symm.trans h
    simp at hc

theorem bind_eq_ok {b : β} (h : (p >>= f) s = (.ok b, u)) :
    ∃ a t, p s = (.ok a, t) ∧ f a t = (.ok b, u) := by
  rcases hp : p s with ⟨a | e' | _, t⟩
  · exact ⟨a, t, rfl, (bind_of_ok hp).symm.trans h⟩
  · have hc := (bind_of_err (f := f) hp).symm.trans h
    simp at hc
  · have hc := (bind_of_crash (f := f) hp).symm.trans h
    simp at hc

theorem attempt_of_err {e : ε} (h : p s = (.err e, t)) :
    attempt p s = (.ok (.error e), t) := by
  rw [attempt, h]

theorem attempt_of_ok {a : α} (h : p s = (.ok a, t)) : attempt p s = (.ok (.ok a), t) := by
  rw [attempt, h]

theorem attempt_of_crash (h : p s = (.crash, t)) : attempt p s = (.crash, t) := by
  rw [attempt, h]

theorem ignore_of_ok {a : α} (h : p s = (.ok a, t)) : ignore p s = (.ok (), t) :=
  bind_of_ok (attempt_of_ok h)

theorem ignore_of_err {e : ε} (h : p s = (.err e, t)) : ignore p s = (.ok (), t) :=
  bind_of_ok (attempt_of_err h)

theorem ignore_of_crash (h : p s = (.crash, t)) : ignore p s = (.crash, t) :=
  bind_of_crash (attempt_of_crash h)

@[simp] theorem pure_andThen (a : α) (f : α → Prog σ ε β) :
    ((Pure.pure a : Prog σ ε α) >>= f) = f a := by
  funext s
  rfl

theorem andThen_assoc {γ : Type} (p : Prog σ ε α) (f : α → Prog σ ε β) (g : β → Prog σ ε γ) :
    (p >>= f) >>= g = p >>= fun a => f a >>= g := by
  funext s
  rcases hp : p s with ⟨a | e | _, t⟩
  · rw [bind_of_ok hp]
    change Prog.bind (p >>= f) g s = _
    rw [Prog.bind, bind_of_ok hp]
    rfl
  · rw [bind_of_err hp, bind_of_err (bind_of_err hp)]
  · rw [bind_of_crash hp, bind_of_crash (bind_of_crash hp)]

theorem andThen_congr {f g : α → Prog σ ε β} (h : ∀ a t, p s = (.ok a, t) → f a t = g a t) :
    (p >>= f) s = (p >>= g) s := by
  rcases hp : p s with ⟨a | e | _, t⟩
  · rw [bind_of_ok hp, bind_of_ok hp]
    exact h a t hp
  · rw [bind_of_err hp, bind_of_err hp]
  · rw [bind_of_crash hp, bind_of_crash hp]

theorem andThen_congr_left {q : Prog σ ε α} (h : p s = q s) : (p >>= f) s = (q >>= f) s := by
  change Prog.bind p f s = Prog.bind q f s
  rw [Prog.bind, Prog.bind, h]

@[simp] theorem andThen_done (p : Prog σ ε Unit) : (p >>= fun _ => pure ()) = p := by
  funext s
  rcases hp : p s with ⟨⟨⟩ | e | _, t⟩
  · exact bind_of_ok hp
  · exact bind_of_err hp
  · exact bind_of_crash hp

theorem forEach_append (f : α → Prog σ ε Unit) (as bs : List α) :
    forEach f (as ++ bs) = forEach f as >>= fun _ => forEach f bs := by
  induction as with
  | nil => rfl
  | cons a as ih =>
    rw [List.cons_append, forEach, ih, forEach, andThen_assoc]

@[simp] theorem onlyIf_true (q : Prog σ ε Unit) : onlyIf true q = q := by
  simp only [onlyIf, if_true]

@[simp] theorem onlyIf_false (q : Prog σ ε Unit) : onlyIf false q = pure () := by
  simp only [onlyIf, Bool.false_eq_true, if_false]

end Runs

end Prog

/-- What a final configuration has to satisfy: `Q` on return, `E` on an error, `C` after a
crash. -/
def Outcome.Satisfies (Q : α → σ → Prop) (E : ε → σ → Prop) (C : σ → Prop) :
    Outcome ε α × σ → Prop
  | (.ok a, s) => Q a s
  | (.err e, s) => E e s
  | (.crash, s) => C s

def Triple (P : σ → Prop) (p : Prog σ ε α) (Q : α → σ → Prop) (E : ε → σ → Prop)
    (C : σ → Prop) : Prop :=
  ∀ s, P s → Outcome.Satisfies Q E C (p s)

theorem Outcome.Satisfies.mono {Q Q' : α → σ → Prop} {E E' : ε → σ → Prop} {C C' : σ → Prop}
    {r : Outcome ε α × σ} (h : Outcome.Satisfies Q E C r)
    (hQ : ∀ a s, Q a s → Q' a s) (hE : ∀ e s, E e s → E' e s) (hC : ∀ s, C s → C' s) :
    Outcome.Satisfies Q' E' C' r := by
  obtain ⟨_ | _ | _, s⟩ := r
  · exact hQ _ _ h
  · exact hE _ _ h
  · exact hC _ h

namespace Triple

variable {P P' : σ → Prop} {Q Q' : α → σ → Prop} {R : β → σ → Prop}
  {E E' : ε → σ → Prop} {C C' : σ → Prop} {p : Prog σ ε α}

theorem consequence (h : Triple P p Q E C) (hP : ∀ s, P' s → P s)
    (hQ : ∀ a s, Q a s → Q' a s) (hE : ∀ e s, E e s → E' e s) (hC : ∀ s, C s → C' s) :
    Triple P' p Q' E' C' :=
  fun s hs => (h s (hP s hs)).mono hQ hE hC

theorem ends (h : Triple P p Q E C) (hE : ∀ e s, E e s → E' e s) (hC : ∀ s, C s → C' s) :
    Triple P p Q E' C' :=
  h.consequence (fun _ h => h) (fun _ _ h => h) hE hC

theorem strengthen (h : Triple P p Q E C) (hP : ∀ s, P' s → P s) : Triple P' p Q E C :=
  fun s hs => h s (hP s hs)

theorem pure (a : α) (h : ∀ s, P s → Q a s) :
    Triple P (Pure.pure a : Prog σ ε α) Q E C :=
  fun s hs => h s hs

theorem fail (e : ε) (h : ∀ s, P s → E e s) : Triple P (Prog.fail e : Prog σ ε α) Q E C :=
  fun s hs => h s hs

theorem modify (f : σ → σ) {Q : Unit → σ → Prop} (h : ∀ s, P s → Q () (f s)) :
    Triple P (Prog.modify f : Prog σ ε Unit) Q E C :=
  fun s hs => h s hs

theorem read {f : σ → Prog σ ε β} (h : ∀ w, Triple (fun s => P s ∧ s = w) (f w) R E C) :
    Triple P (Prog.read >>= f) R E C :=
  fun s hs => h s s ⟨hs, rfl⟩

theorem bind {f : α → Prog σ ε β} (hp : Triple P p Q E C)
    (hf : ∀ a, Triple (Q a) (f a) R E C) : Triple P (p >>= f) R E C := by
  intro s hs
  have h := hp s hs
  change Outcome.Satisfies R E C (Prog.bind p f s)
  unfold Prog.bind
  rcases hr : p s with ⟨a | e | _, t⟩
  · rw [hr] at h
    exact hf a t h
  · rw [hr] at h
    exact h
  · rw [hr] at h
    exact h

theorem and (hp : Triple P p Q E C) (hp' : Triple P' p Q' E' C') :
    Triple (fun s => P s ∧ P' s) p (fun a s => Q a s ∧ Q' a s) (fun e s => E e s ∧ E' e s)
      fun s => C s ∧ C' s := by
  rintro s ⟨hs, hs'⟩
  have h := hp s hs
  have h' := hp' s hs'
  rcases hr : p s with ⟨a | e | _, t⟩ <;> rw [hr] at h h' <;> exact ⟨h, h'⟩

theorem attempt (hp : Triple P p Q E C) :
    Triple P (Prog.attempt p)
      (fun r s => match r with
        | .ok a => Q a s
        | .error e => E e s) E' C := by
  intro s hs
  have h := hp s hs
  unfold Prog.attempt
  rcases hr : p s with ⟨a | e | _, t⟩ <;> rw [hr] at h <;> exact h

theorem ignore {I : σ → Prop} (hp : Triple P p (fun _ => I) (fun _ => I) C) :
    Triple P (Prog.ignore p) (fun _ => I) E' C := by
  refine hp.attempt.bind fun r => ?_
  cases r with
  | ok a => exact Triple.pure _ fun s hs => hs
  | error e => exact Triple.pure _ fun s hs => hs

theorem onlyIf {c : Bool} {p : Prog σ ε Unit} {Q : Unit → σ → Prop}
    (hp : c = true → Triple P p Q E C) (hn : c = false → ∀ s, P s → Q () s) :
    Triple P (Prog.onlyIf c p) Q E C := by
  cases c with
  | true => exact hp rfl
  | false => exact Triple.pure _ (hn rfl)

theorem ite {c : Prop} [Decidable c] {q : Prog σ ε α}
    (hp : c → Triple P p Q E C) (hq : ¬c → Triple P q Q E C) :
    Triple P (if c then p else q) Q E C := by
  split
  · exact hp ‹_›
  · exact hq ‹_›

theorem trivial (p : Prog σ ε α) :
    Triple (fun _ => True) p (fun _ _ => True) (fun _ _ => True) fun _ => True := by
  intro s _
  rcases p s with ⟨a | e | _, t⟩ <;> exact True.intro

theorem always {I : σ → Prop} (h : Triple P p (fun _ => I) (fun _ => I) I) {s : σ} (hs : P s) :
    I (p s).2 := by
  have hend := h s hs
  rcases hr : p s with ⟨a | e | _, t⟩ <;> rw [hr] at hend <;> exact hend

theorem of_always {I : σ → Prop} (h : ∀ s, P s → I (p s).2) :
    Triple P p (fun _ => I) (fun _ => I) I := by
  intro s hs
  have hend := h s hs
  rcases hr : p s with ⟨a | e | _, t⟩ <;> rw [hr] at hend <;> exact hend

theorem forEach_mem {f : β → Prog σ ε Unit} {bs : List β}
    (h : ∀ b ∈ bs, Triple P (f b) (fun _ => P) E C) :
    Triple P (Prog.forEach f bs) (fun _ => P) E C := by
  induction bs with
  | nil => exact Triple.pure _ fun s hs => hs
  | cons b bs ih =>
    apply Triple.bind (h b (List.mem_cons_self ..))
    intro _
    exact ih fun c hc => h c (List.mem_cons_of_mem _ hc)

end Triple

/-- However the program ends, the state it leaves is related to the one it began with. This
is the frame of a program: it holds of a run that is cut off as well as of one that returns. -/
class Within (R : σ → σ → Prop) (p : Prog σ ε α) : Prop where
  rel : ∀ s, R s (p s).2

namespace Within

variable {R S : σ → σ → Prop} {P : σ → Prop} {p : Prog σ ε α}

theorem triple (h : Within R p) (hP : ∀ s t, R s t → P s → P t) :
    Triple P p (fun _ => P) (fun _ => P) P :=
  Triple.of_always fun s hs => hP s _ (h.rel s) hs

theorem triple_ok {Q : α → σ → Prop} (h : Within R p) (hP : ∀ s t, R s t → P s → P t)
    (hQ : ∀ s a t, P s → p s = (.ok a, t) → Q a t) :
    Triple P p (fun a t => P t ∧ Q a t) (fun _ => P) P := by
  intro s hs
  have hr := h.rel s
  rcases hp : p s with ⟨a | e | _, t⟩ <;> rw [hp] at hr
  · exact ⟨hP s t hr hs, hQ s a t hs hp⟩
  · exact hP s t hr hs
  · exact hP s t hr hs

theorem frame {I : σ → Prop} {Q : α → σ → Prop} {E : ε → σ → Prop} {C : σ → Prop}
    (h : Within R p) (hI : ∀ s t, R s t → I s → I t) (ht : Triple P p Q E C) :
    Triple (fun s => P s ∧ I s) p (fun a s => Q a s ∧ I s) (fun e s => E e s ∧ I s)
      (fun s => C s ∧ I s) := by
  rintro s ⟨hs, hi⟩
  have hr := hI s _ (h.rel s) hi
  have hq := ht s hs
  rcases hp : p s with ⟨a | e | _, t⟩ <;> rw [hp] at hr hq <;> exact ⟨hq, hr⟩

theorem mono (h : Within R p) (hRS : ∀ s t, R s t → S s t) : Within S p :=
  ⟨fun s => hRS _ _ (h.rel s)⟩

instance pure [Std.Refl R] (a : α) : Within R (Pure.pure a : Prog σ ε α) :=
  ⟨fun s => Std.Refl.refl s⟩

instance fail [Std.Refl R] (e : ε) : Within R (Prog.fail e : Prog σ ε α) :=
  ⟨fun s => Std.Refl.refl s⟩

instance read [Std.Refl R] : Within R (Prog.read : Prog σ ε σ) :=
  ⟨fun s => Std.Refl.refl s⟩

instance bind [IsTrans σ R] (p : Prog σ ε α) (f : α → Prog σ ε β) [hp : Within R p]
    [hf : ∀ a, Within R (f a)] : Within R (p >>= f) := by
  refine ⟨fun s => ?_⟩
  have hr := hp.rel s
  change R s (Prog.bind p f s).2
  unfold Prog.bind
  rcases h : p s with ⟨a | e | _, t⟩ <;> rw [h] at hr
  · exact IsTrans.trans _ _ _ hr ((hf a).rel t)
  · exact hr
  · exact hr

theorem andThen [IsTrans σ R] {f : α → Prog σ ε β} (hp : Within R p)
    (hf : ∀ a, Within R (f a)) : Within R (p >>= f) :=
  inferInstance

theorem andThen_ok [IsTrans σ R] {f : α → Prog σ ε β} (hp : Within R p)
    (hf : ∀ s a t, p s = (.ok a, t) → Within R (f a)) : Within R (p >>= f) := by
  refine ⟨fun s => ?_⟩
  have hr := hp.rel s
  rcases h : p s with ⟨a | e | _, t⟩ <;> rw [h] at hr
  · rw [Prog.bind_of_ok h]
    exact IsTrans.trans _ _ _ hr ((hf s a t h).rel t)
  · rw [Prog.bind_of_err h]
    exact hr
  · rw [Prog.bind_of_crash h]
    exact hr

theorem stops {f : α → Prog σ ε β} (hp : Within R p) (hn : ∀ s a t, p s ≠ (.ok a, t)) :
    Within R (p >>= f) := by
  refine ⟨fun s => ?_⟩
  have hr := hp.rel s
  rcases h : p s with ⟨a | e | _, t⟩ <;> rw [h] at hr
  · exact absurd h (hn s a t)
  · rw [Prog.bind_of_err h]
    exact hr
  · rw [Prog.bind_of_crash h]
    exact hr

instance attempt (p : Prog σ ε α) [hp : Within R p] : Within R (Prog.attempt p) := by
  refine ⟨fun s => ?_⟩
  have hr := hp.rel s
  unfold Prog.attempt
  rcases h : p s with ⟨a | e | _, t⟩ <;> rw [h] at hr <;> exact hr

instance ignore [Std.Refl R] [IsTrans σ R] (p : Prog σ ε α) [Within R p] :
    Within R (Prog.ignore p) := by
  unfold Prog.ignore
  infer_instance

instance onlyIf [Std.Refl R] (c : Bool) (p : Prog σ ε Unit) [Within R p] :
    Within R (Prog.onlyIf c p) := by
  unfold Prog.onlyIf
  split <;> infer_instance

instance ite (c : Prop) [Decidable c] (p q : Prog σ ε α) [Within R p] [Within R q] :
    Within R (if c then p else q) := by
  split <;> infer_instance

instance forEach [Std.Refl R] [IsTrans σ R] (f : β → Prog σ ε Unit) [∀ b, Within R (f b)]
    (bs : List β) : Within R (Prog.forEach f bs) := by
  induction bs with
  | nil => exact Within.pure ()
  | cons b bs ih => exact Within.bind (f b) fun _ => Prog.forEach f bs

end Within

/-- The program never stops dead. -/
class Lives (p : Prog σ ε α) : Prop where
  alive : ∀ s t, p s ≠ (.crash, t)

namespace Lives

instance pure (a : α) : Lives (Pure.pure a : Prog σ ε α) := ⟨fun _ _ h => by cases h⟩

instance fail (e : ε) : Lives (Prog.fail e : Prog σ ε α) := ⟨fun _ _ h => by cases h⟩

instance bind (p : Prog σ ε α) (f : α → Prog σ ε β) [hp : Lives p] [hf : ∀ a, Lives (f a)] :
    Lives (p >>= f) := by
  refine ⟨fun s t h => ?_⟩
  rcases hr : p s with ⟨a | e | _, u⟩
  · rw [Prog.bind_of_ok hr] at h
    exact (hf a).alive u t h
  · rw [Prog.bind_of_err hr] at h
    cases h
  · exact hp.alive s u hr

theorem andThen {p : Prog σ ε α} {f : α → Prog σ ε β} (hp : Lives p) (hf : ∀ a, Lives (f a)) :
    Lives (p >>= f) :=
  inferInstance

instance attempt (p : Prog σ ε α) [hp : Lives p] : Lives (Prog.attempt p) := by
  refine ⟨fun s t h => ?_⟩
  rcases hr : p s with ⟨a | e | _, u⟩
  · rw [Prog.attempt_of_ok hr] at h
    cases h
  · rw [Prog.attempt_of_err hr] at h
    cases h
  · exact hp.alive s u hr

instance ignore (p : Prog σ ε α) [Lives p] : Lives (Prog.ignore p) := by
  unfold Prog.ignore
  infer_instance

theorem ignore_run (p : Prog σ ε α) [hp : Lives p] (s : σ) :
    Prog.ignore p s = (.ok (), (p s).2) := by
  rcases hr : p s with ⟨a | e | _, t⟩
  · exact Prog.ignore_of_ok hr
  · exact Prog.ignore_of_err hr
  · exact absurd hr (hp.alive s t)

instance read : Lives (Prog.read : Prog σ ε σ) := ⟨fun _ _ h => by cases h⟩

instance onlyIf (c : Bool) (p : Prog σ ε Unit) [Lives p] : Lives (Prog.onlyIf c p) := by
  unfold Prog.onlyIf
  split <;> infer_instance

instance ite (c : Prop) [Decidable c] (p q : Prog σ ε α) [Lives p] [Lives q] :
    Lives (if c then p else q) := by
  split <;> infer_instance

instance forEach (f : β → Prog σ ε Unit) [∀ b, Lives (f b)] (bs : List β) :
    Lives (Prog.forEach f bs) := by
  induction bs with
  | nil => exact Lives.pure ()
  | cons b bs ih => exact Lives.bind (f b) fun _ => Prog.forEach f bs

end Lives

/-- The program returns, from whatever state it is started in. -/
class Returns (p : Prog σ ε α) : Prop where
  ok : ∀ s, ∃ a t, p s = (.ok a, t)

namespace Returns

variable {p : Prog σ ε α}

theorem triple (h : Returns p) {P : σ → Prop} {Q : α → σ → Prop} {E E' : ε → σ → Prop}
    {C C' : σ → Prop} (ht : Triple P p Q E C) : Triple P p Q E' C' := by
  intro s hs
  obtain ⟨a, t, hp⟩ := h.ok s
  have hq := ht s hs
  rw [hp] at hq ⊢
  exact hq

instance pure (a : α) : Returns (Pure.pure a : Prog σ ε α) := ⟨fun s => ⟨a, s, rfl⟩⟩

instance read : Returns (Prog.read : Prog σ ε σ) := ⟨fun s => ⟨s, s, rfl⟩⟩

instance bind (p : Prog σ ε α) (f : α → Prog σ ε β) [hp : Returns p] [hf : ∀ a, Returns (f a)] :
    Returns (p >>= f) := by
  refine ⟨fun s => ?_⟩
  obtain ⟨a, t, hpa⟩ := hp.ok s
  obtain ⟨b, u, hfb⟩ := (hf a).ok t
  exact ⟨b, u, (Prog.bind_of_ok hpa).trans hfb⟩

theorem andThen {f : α → Prog σ ε β} (hp : Returns p) (hf : ∀ a, Returns (f a)) :
    Returns (p >>= f) :=
  inferInstance

instance attempt (p : Prog σ ε α) [hp : Returns p] : Returns (Prog.attempt p) := by
  refine ⟨fun s => ?_⟩
  obtain ⟨a, t, hpa⟩ := hp.ok s
  exact ⟨.ok a, t, Prog.attempt_of_ok hpa⟩

instance ignore (p : Prog σ ε α) [Returns p] : Returns (Prog.ignore p) := by
  unfold Prog.ignore
  infer_instance

instance onlyIf (c : Bool) (p : Prog σ ε Unit) [Returns p] : Returns (Prog.onlyIf c p) := by
  unfold Prog.onlyIf
  split <;> infer_instance

instance ite (c : Prop) [Decidable c] (p q : Prog σ ε α) [Returns p] [Returns q] :
    Returns (if c then p else q) := by
  split <;> infer_instance

end Returns

end LandscapeKit.Faults
