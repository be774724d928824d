import LandscapeKit.PublishAgain

/-!
Whose the manifests are: each one is that of a run, and a run that has come past its own put the
one that is there.
-/

namespace LandscapeKit.Publish

variable {V D T ι : Type}

/-- The run has put its manifest, and nothing has failed since. -/
def Pc.isPast : Pc V T → Bool
  | .getStable _ | .putStableIfAbsent _ | .putStableIfMatch _ _ | .done (.ok ()) => true
  | _ => false

def Pc.isReady : Pc V T → Bool
  | .headManifest | .headAsset _ | .putAsset _ _ | .putManifest => true
  | pc => pc.isPast

def Pc.Behind (pc' pc : Pc V T) : Prop :=
  (pc'.isPast = true → pc.isPast = true) ∧ (pc'.isReady = true → pc.isReady = true)

theorem Pc.behind_refused (version : V) (pc : Pc V T) : (Service.refused version pc).Behind pc := by
  cases pc with
  | putRepository | putAsset a rest | putManifest =>
    exact ⟨fun h => absurd h Bool.false_ne_true, fun h => absurd h Bool.false_ne_true⟩
  | _ => exact ⟨id, id⟩

theorem Pc.behind_stopped (pc : Pc V T) : pc.stopped.Behind pc := by
  cases pc with
  | done outcome => exact ⟨id, id⟩
  | _ => exact ⟨fun h => absurd h Bool.false_ne_true, fun h => absurd h Bool.false_ne_true⟩

variable [LinearOrder V] (S : Service V D T) (job : ι → Job V)

def Service.manifestOf (j : Job V) : Object V D := .manifest (S.releaseManifest j.version j.assets)

/-- Every manifest is that of a run, and a run that is past its own put the one that is there. -/
structure Owned (s : System ι V D T) : Prop where
  manifest : ∀ v o, s.bucket (.manifest v) = some o → ∃ i, (job i).version = v ∧
    o = S.manifestOf (job i)
  own : ∀ i, (s.pc i).isPast → s.bucket (.manifest (job i).version) = some (S.manifestOf (job i))
  one : ∀ i j, (s.pc i).isPast → (s.pc j).isPast → (job i).version = (job j).version → i = j
  ready : ∀ i, (s.pc i).isReady → s.bucket .repository ≠ none

/-- What a request does to the manifests: it puts that of its run where there is none, or nothing,
and then the run has not come past it. -/
def Service.Marks (j : Job V) (b b' : Bucket V D) (pc pc' : Pc V T) : Prop :=
  b (.manifest j.version) = none ∧
      b' = Function.update b (.manifest j.version) (some (S.manifestOf j)) ∨
    (∀ v, b' (.manifest v) = b (.manifest v)) ∧ (pc'.isPast = true → pc.isPast = true)

variable {S job} [DecidableEq ι]

theorem Owned.update {s : System ι V D T} (h : Owned S job s) {i : ι} {b' : Bucket V D}
    {pc' : Pc V T} (hmarks : S.Marks (job i) s.bucket b' (s.pc i) pc')
    (hready : pc'.isReady = true → (s.pc i).isReady = true ∨ s.bucket .repository ≠ none)
    (hkept : s.bucket .repository ≠ none → b' .repository ≠ none) :
    Owned S job ⟨b', Function.update s.pc i pc'⟩ := by
  have hready' (j : ι) (hj : (Function.update s.pc i pc' j).isReady = true) :
      b' .repository ≠ none := by
    apply hkept
    by_cases hij : j = i
    · rw [hij, Function.update_self] at hj
      exact (hready hj).elim (h.ready i) id
    · rw [Function.update_of_ne hij] at hj
      exact h.ready j hj
  rcases hmarks with ⟨hnone, rfl⟩ | ⟨hsame, hpast⟩
  · -- no run of the version is past its manifest, so the others are not concerned
    have hother (j : ι) (hj : (s.pc j).isPast = true) : (job j).version ≠ (job i).version := by
      intro hversion
      have hown := h.own j hj
      rw [hversion, hnone] at hown
      cases hown
    have hput (v : V) (hv : v ≠ (job i).version) : Function.update s.bucket
        (.manifest (job i).version) (some (S.manifestOf (job i))) (.manifest v) =
          s.bucket (.manifest v) :=
      Function.update_of_ne (fun hkey => hv (Key.manifest.inj hkey)) _ _
    have hbefore {j : ι} (hne : j ≠ i)
        (hj : (Function.update s.pc i pc' j).isPast = true) : (s.pc j).isPast = true := by
      rwa [Function.update_of_ne hne] at hj
    refine ⟨fun v o ho => ?_, fun j hj => ?_, fun j k hj hk hversion => ?_, hready'⟩
    · by_cases hv : v = (job i).version
      · subst hv
        exact ⟨i, rfl, Option.some.inj (ho.symm.trans (Function.update_self ..))⟩
      · exact h.manifest v o ((hput v hv).symm.trans ho)
    · by_cases hij : j = i
      · rw [hij]
        exact Function.update_self ..
      · have hj' := hbefore hij hj
        exact (hput _ (hother j hj')).trans (h.own j hj')
    · by_cases hij : j = i
      · by_contra hjk
        have hki : k ≠ i := fun hki => hjk (hij.trans hki.symm)
        exact hother k (hbefore hki hk) (by rw [← hversion, hij])
      · by_cases hik : k = i
        · exact absurd (by rw [hversion, hik]) (hother j (hbefore hij hj))
        · exact h.one j k (hbefore hij hj) (hbefore hik hk) hversion
  · -- the manifests stay, and no run comes past its own
    have hbefore {j : ι} (hj : (Function.update s.pc i pc' j).isPast = true) :
        (s.pc j).isPast = true := by
      by_cases hij : j = i
      · subst hij
        rw [Function.update_self] at hj
        exact hpast hj
      · rwa [Function.update_of_ne hij] at hj
    refine ⟨fun v o ho => ?_, fun j hj => ?_, fun j k hj hk => ?_, hready'⟩
    · exact h.manifest v o ((hsame v).symm.trans ho)
    · exact (hsame _).trans (h.own j (hbefore hj))
    · exact h.one j k (hbefore hj) (hbefore hk)

variable [DecidableEq D] [DecidableEq T]

theorem step_at (version : V) (assets : LocalAssets) (b : Bucket V D) (pc : Pc V T) (k : Key V) :
    (S.step version assets b pc).1 k = b k ∨
      ∃ o, S.writes version assets pc = some (k, o) ∧
        (S.step version assets b pc).1 k = some o := by
  obtain h | ⟨k', o, hw, h⟩ : (S.step version assets b pc).1 = b ∨ ∃ k o,
    S.writes version assets pc = some (k, o) ∧
      (S.step version assets b pc).1 = Function.update b k (some o) := step_bucket
  · exact .inl (congrFun h k)
  · by_cases hk : k = k'
    · rw [← hk] at hw h
      exact .inr ⟨o, hw, by rw [h, Function.update_self]⟩
    · exact .inl (by rw [h, Function.update_of_ne hk])

theorem step_marks (j : Job V) (b : Bucket V D) (pc : Pc V T) :
    S.Marks j b (S.step j.version j.assets b pc).1 pc (S.step j.version j.assets b pc).2 := by
  -- no other request writes a manifest
  have hsame (hpc : pc ≠ .putManifest) (v : V) :
      (S.step j.version j.assets b pc).1 (.manifest v) = b (.manifest v) := by
    rcases step_at j.version j.assets b pc (.manifest v) with h | ⟨o, hw, -⟩
    · exact h
    · cases pc <;> first | exact absurd rfl hpc | cases hw
  cases pc with
  | putManifest =>
    simp only [Service.step]
    split
    · next b' hput => exact .inl (Store.putIfAbsent_eq_some hput)
    · exact .inr ⟨fun _ => rfl, fun h => absurd h Bool.false_ne_true⟩
  | getStable tries | putStableIfAbsent tries | putStableIfMatch etag tries =>
    exact .inr ⟨hsame (by simp), fun _ => rfl⟩
  | done outcome => exact .inr ⟨fun _ => rfl, id⟩
  | headAsset rest =>
    refine .inr ⟨hsame (by simp), fun h => ?_⟩
    cases rest with
    | nil => exact h
    | cons a rest =>
      simp only [Service.step] at h
      split at h
      · exact h
      · split at h
        · exact h
        · split at h <;> exact h
      · exact h
  | getRepository | getRepositoryAgain =>
    refine .inr ⟨hsame (by simp), fun h => ?_⟩
    simp only [Service.step] at h
    split at h
    · exact h
    · split at h <;> exact h
  | putRepository | headManifest | putAsset a rest =>
    refine .inr ⟨hsame (by simp), fun h => ?_⟩
    simp only [Service.step] at h
    split at h <;> exact h

theorem step_ready (version : V) (assets : LocalAssets) (b : Bucket V D) (pc : Pc V T)
    (h : (S.step version assets b pc).2.isReady = true) :
    pc.isReady = true ∨ b .repository ≠ none := by
  cases pc with
  | getRepository | getRepositoryAgain =>
    cases hb : b .repository with
    | none =>
      rw [Service.step, hb] at h
      exact absurd h Bool.false_ne_true
    | some o => exact .inr (Option.some_ne_none o)
  | putRepository =>
    simp only [Service.step] at h
    split at h <;> exact absurd h Bool.false_ne_true
  | done outcome => exact .inl h
  | _ => exact .inl rfl

theorem step_some (version : V) (assets : LocalAssets) (b : Bucket V D) (pc : Pc V T) {k : Key V}
    (h : b k ≠ none) : (S.step version assets b pc).1 k ≠ none := by
  rcases step_at version assets b pc k with hsame | ⟨o, -, hput⟩
  · rwa [hsame]
  · rw [hput]
    exact Option.some_ne_none o

theorem Owned.step {s : System ι V D T} (h : Owned S job s) (e : Event ι) :
    Owned S job (s.step S job e) := by
  cases e with
  | advance i =>
    exact h.update (step_marks (job i) s.bucket (s.pc i)) (step_ready _ _ _ _)
      (step_some _ _ _ _)
  | resent i =>
    have hbehind := Pc.behind_refused (job i).version (s.pc i)
    refine h.update ?_ (fun hr => .inl (hbehind.2 hr)) (step_some _ _ _ _)
    rcases step_marks (job i) s.bucket (s.pc i) with hput | ⟨hsame, -⟩
    · exact .inl hput
    · exact .inr ⟨hsame, hbehind.1⟩
  | stop i =>
    have hbehind := Pc.behind_stopped (s.pc i)
    exact h.update (.inr ⟨fun _ => rfl, hbehind.1⟩) (fun hr => .inl (hbehind.2 hr)) id

theorem Owned.run {s : System ι V D T} (h : Owned S job s) (events : List (Event ι)) :
    Owned S job (s.run S job events) := by
  induction events generalizing s with
  | nil => exact h
  | cons e events ih => exact ih (h.step e)

omit [LinearOrder V] [DecidableEq ι] [DecidableEq D] [DecidableEq T] in
theorem Owned.init : Owned S job (System.init : System ι V D T) where
  manifest v o h := by cases h
  own i h := absurd h Bool.false_ne_true
  one i j h := absurd h Bool.false_ne_true
  ready i h := absurd h Bool.false_ne_true

/-- A run that has ended stays as it ended. -/
theorem done_run {s : System ι V D T} {i : ι} {outcome : Except (RunError V) Unit}
    (h : s.pc i = .done outcome) (events : List (Event ι)) :
    (s.run S job events).pc i = .done outcome := by
  induction events generalizing s with
  | nil => exact h
  | cons e events ih =>
    apply ih
    have hstep (k : ι) {pc : Pc V T} (hpc : s.pc k = .done outcome → pc = .done outcome) :
        Function.update s.pc k pc i = .done outcome := by
      by_cases hik : i = k
      · rw [hik, Function.update_self]
        exact hpc (hik ▸ h)
      · rw [Function.update_of_ne hik, h]
    cases e with
    | advance k =>
      refine hstep k fun hk => ?_
      rw [hk]
    | resent k | stop k =>
      refine hstep k fun hk => ?_
      rw [hk]
      rfl

section Moments

variable {V D T ι : Type} [LinearOrder V] [DecidableEq D] [DecidableEq T] [DecidableEq ι]
  (S : Service V D T) (job : ι → Job V) (events : ℕ → List (Event ι))

def moment : ℕ → System ι V D T
  | 0 => System.init.run S job (events 0)
  | n + 1 => (moment n).run S job (events (n + 1))

theorem moment_reached (n : ℕ) : ∃ es, moment S job events n = System.init.run S job es := by
  induction n with
  | zero => exact ⟨events 0, rfl⟩
  | succ n ih =>
    obtain ⟨es, hes⟩ := ih
    refine ⟨es ++ events (n + 1), ?_⟩
    rw [moment, hes, System.run, System.run, System.run, List.foldl_append]

theorem moment_sound (n : ℕ) : Invariant S job (moment S job events n) ∧
    Owned S job (moment S job events n) ∧ HasDescriptor (moment S job events n).bucket := by
  obtain ⟨es, hes⟩ := moment_reached S job events n
  rw [hes]
  exact ⟨((Invariant.init S job).run es).1, Owned.init.run es, hasDescriptor_run S job es⟩

theorem moment_grows {m n : ℕ} (h : m ≤ n) :
    Grows (moment S job events m).bucket (moment S job events n).bucket := by
  induction n, h using Nat.le_induction with
  | base => exact .refl _
  | succ n _ ih => exact ih.trans ((moment_sound S job events n).1.run (events (n + 1))).2

end Moments

end LandscapeKit.Publish
