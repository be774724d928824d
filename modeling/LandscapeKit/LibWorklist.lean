import Mathlib.Data.Finset.Card
import Mathlib.Data.List.Nodup
import Mathlib.Logic.Relation

/-!
A work list: items are taken off a stack one by one, an item whose key has been seen is dropped,
and one with a new key puts what it leads to on the stack. Looking at an item may fail, and then
everything ends.
-/

namespace LandscapeKit.Worklist

variable {P K E : Type}

structure Work (P K : Type) where
  queue : List P
  seen : List K
  done : List P

variable [DecidableEq K] (key : P → Except E K) (next : P → Except E (List P))

def visit (p : P) (w : Work P K) : Except E (Work P K) := do
  let k ← key p
  if k ∈ w.seen then pure w
  else do
    let found ← next p
    pure ⟨found.reverse ++ w.queue, w.seen ++ [k], w.done ++ [p]⟩

def run : ℕ → Work P K → Option (Except E (Work P K))
  | 0, _ => none
  | fuel + 1, w =>
    match w.queue with
    | [] => some (.ok w)
    | p :: queue =>
      match visit key next p { w with queue } with
      | .error e => some (.error e)
      | .ok w => run fuel w

variable {key next} {w w' : Work P K} {p start : P} {leads : P → P → Prop}

/-! ## One turn -/

theorem visit_ok (h : visit key next p w = .ok w') :
    ∃ k, key p = .ok k ∧ ((k ∈ w.seen ∧ w' = w) ∨ (k ∉ w.seen ∧ ∃ found, next p = .ok found ∧
      w' = ⟨found.reverse ++ w.queue, w.seen ++ [k], w.done ++ [p]⟩)) := by
  simp only [visit, bind, Except.bind] at h
  split at h
  · cases h
  rename_i k hk
  refine ⟨k, hk, ?_⟩
  split at h
  · rename_i hseen
    exact .inl ⟨hseen, (Except.ok.inj h).symm⟩
  · rename_i hseen
    split at h
    · cases h
    · rename_i found hfound
      exact .inr ⟨hseen, found, hfound, (Except.ok.inj h).symm⟩

structure Inv (key : P → Except E K) (next : P → Except E (List P)) (leads : P → P → Prop)
    (start : P) (w : Work P K) : Prop where
  keys : w.done.map key = w.seen.map .ok
  nodup : w.seen.Nodup
  reached : ∀ p, p ∈ w.done ∨ p ∈ w.queue → Relation.ReflTransGen leads start p
  closed : ∀ p ∈ w.done, ∃ found, next p = .ok found ∧
    ∀ q ∈ found, q ∈ w.queue ∨ ∃ k ∈ w.seen, key q = .ok k
  head : w.done.head? = some start ∨ (w.done = [] ∧ w.queue = [start])

omit [DecidableEq K] in
theorem Inv.init : Inv key next leads start ⟨[start], [], []⟩ := by
  refine ⟨rfl, List.nodup_nil, ?_, fun p hp => absurd hp List.not_mem_nil, .inr ⟨rfl, rfl⟩⟩
  rintro p (hp | hp)
  · exact absurd hp List.not_mem_nil
  · rw [List.mem_singleton.mp hp]

theorem Inv.visit (hleads : ∀ p found, next p = .ok found → ∀ q ∈ found, leads p q)
    {queue : List P} (h : Inv key next leads start w) (hqueue : w.queue = p :: queue)
    (hvisit : visit key next p { w with queue } = .ok w') : Inv key next leads start w' := by
  obtain ⟨hkeys, hnodup, hreached, hclosed, hhead⟩ := h
  obtain ⟨k, hk, ⟨hseen, rfl⟩ | ⟨hseen, found, hfound, rfl⟩⟩ := visit_ok hvisit
  · -- the item is dropped: it has a key that was seen
    refine ⟨hkeys, hnodup, fun q hq => hreached q ?_, fun q hq => ?_, ?_⟩
    · rw [hqueue]
      exact hq.imp_right (List.mem_cons_of_mem _)
    · obtain ⟨found, hfound, hall⟩ := hclosed q hq
      refine ⟨found, hfound, fun r hr => ?_⟩
      rcases hall r hr with hr | hr
      · rw [hqueue] at hr
        rcases List.mem_cons.mp hr with rfl | hr
        · exact .inr ⟨k, hseen, hk⟩
        · exact .inl hr
      · exact .inr hr
    · rcases hhead with hhead | ⟨hdone, -⟩
      · exact .inl hhead
      · rw [hdone, List.map_nil, eq_comm, List.map_eq_nil_iff] at hkeys
        rw [hkeys] at hseen
        exact absurd hseen List.not_mem_nil
  · have hp : Relation.ReflTransGen leads start p := hreached p (.inr (hqueue ▸ List.mem_cons_self ..))
    refine ⟨?_, ?_, ?_, ?_, ?_⟩
    · rw [List.map_append, List.map_append, hkeys, List.map_singleton, hk, List.map_singleton]
    · rw [List.nodup_append]
      refine ⟨hnodup, List.nodup_singleton k, ?_⟩
      rintro a ha b hb rfl
      exact hseen (List.mem_singleton.mp hb ▸ ha)
    · rintro q (hq | hq)
      · rcases List.mem_append.mp hq with hq | hq
        · exact hreached q (.inl hq)
        · rw [List.mem_singleton.mp hq]
          exact hp
      · rcases List.mem_append.mp hq with hq | hq
        · exact hp.tail (hleads p found hfound q (List.mem_reverse.mp hq))
        · apply hreached q
          rw [hqueue]
          exact .inr (List.mem_cons_of_mem _ hq)
    · intro q hq
      rcases List.mem_append.mp hq with hq | hq
      · obtain ⟨found', hfound', hall⟩ := hclosed q hq
        refine ⟨found', hfound', fun r hr => ?_⟩
        rcases hall r hr with hr | ⟨k', hk', hr⟩
        · rw [hqueue] at hr
          rcases List.mem_cons.mp hr with rfl | hr
          · exact .inr ⟨k, by simp, hk⟩
          · exact .inl (List.mem_append_right _ hr)
        · exact .inr ⟨k', List.mem_append_left _ hk', hr⟩
      · rw [List.mem_singleton.mp hq]
        refine ⟨found, hfound, fun r hr => .inl ?_⟩
        exact List.mem_append_left _ (List.mem_reverse.mpr hr)
    · left
      rcases hhead with hhead | ⟨hdone, hstart⟩
      · simp [List.head?_append, hhead]
      · rw [hqueue] at hstart
        obtain ⟨rfl, -⟩ := List.cons.inj hstart
        simp [hdone]

/-! ## The loop -/

theorem run_mono {n m : ℕ} {r : Except E (Work P K)} (h : run key next n w = some r)
    (hnm : n ≤ m) : run key next m w = some r := by
  induction n generalizing w m with
  | zero => cases h
  | succ n ih =>
    obtain ⟨m, rfl⟩ : ∃ m', m = m' + 1 := ⟨m - 1, by omega⟩
    rw [run] at h ⊢
    split at h
    · exact h
    · split at h
      · exact h
      · exact ih h (by omega)

theorem exists_run (S : Finset K) (hS : ∀ p k, key p = .ok k → k ∈ S) (w : Work P K) :
    ∃ n r, run key next n w = some r := by
  -- the keys that have not been seen, and for each number of them the items on the stack
  induction hc : (S.filter (· ∉ w.seen)).card using Nat.strong_induction_on generalizing w with
  | _ c ihc =>
    induction hq : w.queue generalizing w with
    | nil =>
      refine ⟨1, .ok w, ?_⟩
      rw [run, hq]
    | cons p queue ihq =>
      cases hv : visit key next p { w with queue } with
      | error e =>
        refine ⟨1, .error e, ?_⟩
        rw [run, hq]
        dsimp only
        rw [hv]
      | ok w' =>
        have hgo {n : ℕ} {r : Except E (Work P K)} (h : run key next n w' = some r) :
            run key next (n + 1) w = some r := by
          rw [run, hq]
          dsimp only
          rw [hv]
          exact h
        obtain ⟨k, hk, ⟨-, rfl⟩ | ⟨hseen, found, hfound, rfl⟩⟩ := visit_ok hv
        · obtain ⟨n, r, h⟩ := ihq { w with queue } hc rfl
          exact ⟨n + 1, r, hgo h⟩
        · have hless : (S.filter (· ∉ w.seen ++ [k])).card < c := by
            rw [← hc]
            apply Finset.card_lt_card
            refine ⟨fun x hx => ?_, fun hsub => ?_⟩
            · simp only [Finset.mem_filter, List.mem_append, not_or] at hx ⊢
              exact ⟨hx.1, hx.2.1⟩
            · have hmem := hsub (Finset.mem_filter.mpr ⟨hS p k hk, hseen⟩)
              simp at hmem
          obtain ⟨n, r, h⟩ := ihc _ hless ⟨found.reverse ++ queue, w.seen ++ [k], w.done ++ [p]⟩ rfl
          exact ⟨n + 1, r, hgo h⟩

theorem run_ok (hleads : ∀ p found, next p = .ok found → ∀ q ∈ found, leads p q) {n : ℕ}
    (hinv : Inv key next leads start w) (h : run key next n w = some (.ok w')) :
    Inv key next leads start w' ∧ w'.queue = [] := by
  induction n generalizing w with
  | zero => cases h
  | succ n ih =>
    rw [run] at h
    split at h
    · rename_i hqueue
      obtain rfl := Except.ok.inj (Option.some.inj h)
      exact ⟨hinv, hqueue⟩
    · rename_i p queue hqueue
      split at h
      · cases Option.some.inj h
      · rename_i w₁ hvisit
        exact ih (hinv.visit hleads hqueue hvisit) h

/-! ## What has been collected -/

omit [DecidableEq K]

theorem Inv.head_done (h : Inv key next leads start w) (hqueue : w.queue = []) :
    w.done.head? = some start := by
  rcases h.head with hhead | ⟨-, hstart⟩
  · exact hhead
  · rw [hqueue] at hstart
    cases hstart

theorem Inv.nodup_keys (h : Inv key next leads start w) : (w.done.map key).Nodup := by
  rw [h.keys]
  apply h.nodup.map
  exact fun a b hab => Except.ok.inj hab

theorem Inv.mem_seen (h : Inv key next leads start w) {k : K} :
    k ∈ w.seen ↔ ∃ p ∈ w.done, key p = .ok k := by
  have hmem : Except.ok k ∈ w.seen.map (Except.ok (ε := E)) ↔ k ∈ w.seen := by simp
  rw [← hmem, ← h.keys, List.mem_map]

def Coherent (key : P → Except E K) (next : P → Except E (List P)) (leads : P → P → Prop)
    (start : P) : Prop :=
  ∀ p p' k found, Relation.ReflTransGen leads start p → Relation.ReflTransGen leads start p' →
    key p = .ok k → key p' = .ok k → next p = .ok found →
      ∀ q', leads p' q' → ∃ q ∈ found, ∀ k, key q = .ok k → key q' = .ok k

theorem Inv.complete (h : Inv key next leads start w) (hqueue : w.queue = [])
    (hcoherent : Coherent key next leads start) {q : P} (hq : Relation.ReflTransGen leads start q) :
    ∃ k ∈ w.seen, key q = .ok k := by
  have hstart : start ∈ w.done := List.mem_of_head? (h.head_done hqueue)
  have hkey {p : P} (hp : p ∈ w.done) : ∃ k ∈ w.seen, key p = .ok k := by
    have hmem : key p ∈ w.seen.map Except.ok := h.keys ▸ List.mem_map_of_mem hp
    obtain ⟨k, hk, he⟩ := List.mem_map.mp hmem
    exact ⟨k, hk, he.symm⟩
  induction hq with
  | refl => exact hkey hstart
  | @tail p q hp hstep ih =>
    obtain ⟨k, hk, hkp⟩ := ih
    -- the item that was taken in under this key
    obtain ⟨d, hd, hkd⟩ := h.mem_seen.mp hk
    obtain ⟨found, hfound, hall⟩ := h.closed d hd
    obtain ⟨r, hr, hsame⟩ := hcoherent d p k found (h.reached d (.inl hd)) hp hkd hkp hfound q hstep
    rcases hall r hr with hr | ⟨k', hk', hkr⟩
    · rw [hqueue] at hr
      exact absurd hr List.not_mem_nil
    · exact ⟨k', hk', hsame k' hkr⟩

end LandscapeKit.Worklist
