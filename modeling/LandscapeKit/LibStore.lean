import Mathlib.Logic.Function.Basic

/-!
A key-value store whose writes are conditional: on the key being absent, or on
the stored object still having a given tag.
-/

namespace LandscapeKit.Store

variable {K O T : Type} [DecidableEq K]

def putIfAbsent (k : K) (o : O) (s : K → Option O) : Option (K → Option O) :=
  if (s k).isNone then some (Function.update s k (some o)) else none

def putIfMatch [DecidableEq T] (tag : O → T) (k : K) (t : T) (o : O) (s : K → Option O) :
    Option (K → Option O) :=
  if (s k).map tag = some t then some (Function.update s k (some o)) else none

theorem putIfAbsent_eq_some {k : K} {o : O} {s s' : K → Option O}
    (h : putIfAbsent k o s = some s') : s k = none ∧ s' = Function.update s k (some o) := by
  unfold putIfAbsent at h
  split at h
  · next hk => exact ⟨Option.isNone_iff_eq_none.mp hk, (Option.some.inj h).symm⟩
  · cases h

theorem putIfMatch_update [DecidableEq T] {tag : O → T} {k : K} {t : T} {o : O}
    {s s' : K → Option O} (h : putIfMatch tag k t o s = some s') :
    s' = Function.update s k (some o) := by
  unfold putIfMatch at h
  split at h
  · exact (Option.some.inj h).symm
  · cases h

theorem putIfMatch_eq_some [DecidableEq T] {tag : O → T} (htag : Function.Injective tag) {k : K}
    {read o : O} {s s' : K → Option O} (h : putIfMatch tag k (tag read) o s = some s') :
    s k = some read ∧ s' = Function.update s k (some o) := by
  unfold putIfMatch at h
  split at h
  · next hk =>
    obtain ⟨stored, hstored, hsame⟩ := Option.map_eq_some_iff.mp hk
    rw [hstored, htag hsame]
    exact ⟨rfl, (Option.some.inj h).symm⟩
  · cases h

end LandscapeKit.Store
