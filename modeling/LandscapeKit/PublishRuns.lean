import LandscapeKit.PublishBucket

/-!
What the bucket looks like however the runs interleave and wherever they stop:
releases never change, manifests list what is there, and the stable channel
only moves forward, to published releases.
-/

namespace LandscapeKit.Publish

variable {V D T : Type} [LinearOrder V]

def stableVersion (b : Bucket V D) : Option V :=
  match b .stable with
  | some (.stable _ version) => some version
  | _ => none

structure Grows (b b' : Bucket V D) : Prop where
  manifest : ∀ v o, b (.manifest v) = some o → b' (.manifest v) = some o
  asset : ∀ v n o, b (.asset v n) = some o → b' (.asset v n) = some o
  stable : ∀ v, stableVersion b = some v → ∃ v', stableVersion b' = some v' ∧ v ≤ v'

theorem Grows.refl (b : Bucket V D) : Grows b b :=
  ⟨fun _ _ h => h, fun _ _ _ h => h, fun v h => ⟨v, h, le_rfl⟩⟩

theorem Grows.trans {a b c : Bucket V D} (h1 : Grows a b) (h2 : Grows b c) : Grows a c where
  manifest v o h := h2.manifest v o (h1.manifest v o h)
  asset v n o h := h2.asset v n o (h1.asset v n o h)
  stable v h := by
    obtain ⟨v', h', hle⟩ := h1.stable v h
    obtain ⟨v'', h'', hle'⟩ := h2.stable v' h'
    exact ⟨v'', h'', hle.trans hle'⟩

theorem Grows.put {b : Bucket V D} {k : Key V} {o : Object V D} (h : b k = none) :
    Grows b (Function.update b k (some o)) := by
  have hkept (k' : Key V) (o' : Object V D) (hk : b k' = some o') :
      Function.update b k (some o) k' = some o' := by
    rw [Function.update_of_ne _ _ _, hk]
    rintro rfl
    rw [h] at hk
    cases hk
  constructor
  · exact fun v o' => hkept _ o'
  · exact fun v n o' => hkept _ o'
  · intro v hv
    refine ⟨v, ?_, le_rfl⟩
    unfold stableVersion at hv ⊢
    cases hs : b .stable with
    | none => simp [hs] at hv
    | some o' => rw [hkept _ o' hs]; simpa [hs] using hv

section Service

variable (S : Service V D T)

def Present (b : Bucket V D) (version : V) (a : RepositoryAsset D) : Prop :=
  ∃ content, b (.asset version a.url) = some (.asset content (S.sha256 content)) ∧
    S.sha256 content = a.sha256 ∧ content.length = a.size

structure Consistent (b : Bucket V D) : Prop where
  assets : ∀ v n o, b (.asset v n) = some o → ∃ content, o = .asset content (S.sha256 content)
  manifests : ∀ v o, b (.manifest v) = some o →
    ∃ m, o = .manifest m ∧ m.version = v ∧ ∀ a ∈ m.listed, Present S b v a
  stable : ∀ o, b .stable = some o →
    ∃ v, o = .stable protocolVersion v ∧ b (.manifest v) ≠ none

def Knows (b : Bucket V D) (version : V) (assets : LocalAssets) : Pc V T → Prop
  | .headAsset rest => ∃ uploaded, assets.iter = uploaded ++ rest ∧
      ∀ a ∈ uploaded, Present S b version (S.repositoryAsset a)
  | .putAsset a rest => ∃ uploaded, assets.iter = uploaded ++ a :: rest ∧
      ∀ a ∈ uploaded, Present S b version (S.repositoryAsset a)
  | .putManifest => ∀ a ∈ assets.iter, Present S b version (S.repositoryAsset a)
  | .getStable _ => b (.manifest version) ≠ none
  | .putStableIfAbsent _ => b (.manifest version) ≠ none
  | .putStableIfMatch etag _ => b (.manifest version) ≠ none ∧
      ∃ current, etag = S.etag (.stable protocolVersion current) ∧ current < version
  | .done (.ok ()) => ∃ v, stableVersion b = some v ∧ version ≤ v
  | _ => True

variable {S}

theorem Present.grow {b b' : Bucket V D} {v : V} {a : RepositoryAsset D} (h : Present S b v a)
    (hg : Grows b b') : Present S b' v a := by
  obtain ⟨content, hb, hrest⟩ := h
  exact ⟨content, hg.asset _ _ _ hb, hrest⟩

theorem manifest_grow {b b' : Bucket V D} {v : V} (h : b (.manifest v) ≠ none)
    (hg : Grows b b') : b' (.manifest v) ≠ none := by
  obtain ⟨o, ho⟩ := Option.ne_none_iff_exists'.mp h
  rw [hg.manifest v o ho]
  exact Option.some_ne_none o

theorem Knows.grow {b b' : Bucket V D} {version : V} {assets : LocalAssets} {pc : Pc V T}
    (h : Knows S b version assets pc) (hg : Grows b b') : Knows S b' version assets pc := by
  cases pc with
  | headAsset rest | putAsset a rest =>
    obtain ⟨uploaded, hiter, hup⟩ := h
    exact ⟨uploaded, hiter, fun a ha => (hup a ha).grow hg⟩
  | putManifest => exact fun a ha => (h a ha).grow hg
  | getStable tries | putStableIfAbsent tries => exact manifest_grow h hg
  | putStableIfMatch etag tries => exact ⟨manifest_grow h.1 hg, h.2⟩
  | done outcome =>
    cases outcome with
    | error e => trivial
    | ok u =>
      obtain ⟨v, hv, hle⟩ := h
      obtain ⟨v', hv', hle'⟩ := hg.stable v hv
      exact ⟨v', hv', hle.trans hle'⟩
  | _ => trivial

variable (S) in
def Proper (b : Bucket V D) : Key V → Object V D → Prop
  | .repository, _ => True
  | .stable, o => ∃ v, o = .stable protocolVersion v ∧ b (.manifest v) ≠ none
  | .manifest v, o => ∃ m, o = .manifest m ∧ m.version = v ∧ ∀ a ∈ m.listed, Present S b v a
  | .asset _ _, o => ∃ content, o = .asset content (S.sha256 content)

theorem Proper.grow {b b' : Bucket V D} {k : Key V} {o : Object V D} (h : Proper S b k o)
    (hg : Grows b b') : Proper S b' k o := by
  cases k with
  | repository => trivial
  | stable =>
    obtain ⟨v, hv, hm⟩ := h
    exact ⟨v, hv, manifest_grow hm hg⟩
  | manifest v =>
    obtain ⟨m, hm, hversion, hlisted⟩ := h
    exact ⟨m, hm, hversion, fun a ha => (hlisted a ha).grow hg⟩
  | asset v n => exact h

omit [LinearOrder V] in
theorem consistent_iff {b : Bucket V D} :
    Consistent S b ↔ ∀ k o, b k = some o → Proper S b k o := by
  constructor
  · intro h k o hk
    cases k with
    | repository => trivial
    | stable => exact h.stable o hk
    | manifest v => exact h.manifests v o hk
    | asset v n => exact h.assets v n o hk
  · intro h
    exact ⟨fun v n o => h _ o, fun v o => h _ o, fun o => h _ o⟩

theorem Consistent.write {b : Bucket V D} {k : Key V} {o : Object V D} (h : Consistent S b)
    (hg : Grows b (Function.update b k (some o))) (hp : Proper S b k o) :
    Consistent S (Function.update b k (some o)) := by
  rw [consistent_iff] at h ⊢
  intro k' o' hk
  by_cases he : k' = k
  · subst he
    rw [Function.update_self] at hk
    rw [← Option.some.inj hk]
    exact hp.grow hg
  · rw [Function.update_of_ne he] at hk
    exact (h k' o' hk).grow hg

theorem Grows.advance {b : Bucket V D} {current version : V} {n : ℕ}
    (h : b .stable = some (.stable n current)) (hlt : current < version) :
    Grows b (Function.update b .stable (some (.stable protocolVersion version))) where
  manifest v o hv := by rw [Function.update_of_ne (by simp), hv]
  asset v a o hv := by rw [Function.update_of_ne (by simp), hv]
  stable v hv := by
    have hcur : v = current := by simpa [stableVersion, h] using hv.symm
    exact ⟨version, by simp [stableVersion], by rw [hcur]; exact hlt.le⟩

structure StepOk (S : Service V D T) (version : V) (assets : LocalAssets) (b b' : Bucket V D)
    (pc' : Pc V T) : Prop where
  grows : Grows b b'
  consistent : Consistent S b'
  knows : Knows S b' version assets pc'

theorem StepOk.read {version : V} {assets : LocalAssets} {b : Bucket V D} {pc' : Pc V T}
    (h : Consistent S b) (hk : Knows S b version assets pc') : StepOk S version assets b b pc' :=
  ⟨.refl b, h, hk⟩

theorem StepOk.written {version : V} {assets : LocalAssets} {b b' : Bucket V D} {k : Key V}
    {o : Object V D} {pc' : Pc V T} (h : Consistent S b)
    (hput : Store.putIfAbsent k o b = some b') (hp : Proper S b k o)
    (hk : Grows b b' → b' k = some o → Knows S b' version assets pc') :
    StepOk S version assets b b' pc' := by
  obtain ⟨hnone, rfl⟩ := Store.putIfAbsent_eq_some hput
  have hg : Grows b (Function.update b k (some o)) := Grows.put hnone
  exact ⟨hg, h.write hg hp, hk hg (by simp)⟩

section Step

variable [DecidableEq D] [DecidableEq T] {version : V} {assets : LocalAssets} {b : Bucket V D}

omit [DecidableEq D] [DecidableEq T] in
theorem Knows.refused {pc : Pc V T} (hk : Knows S b version assets pc) :
    Knows S b version assets (Service.refused version pc) := by
  cases pc with
  | putStableIfMatch etag tries => exact hk.1
  | putStableIfAbsent tries => exact hk
  | putRepository | putAsset a rest | putManifest => trivial
  | getRepository | getRepositoryAgain | headManifest | getStable tries | headAsset rest
  | done outcome => exact hk

theorem step_headAsset (h : Consistent S b) {rest : List LocalAsset}
    (hk : Knows S b version assets (.headAsset rest : Pc V T)) :
    StepOk S version assets b (S.step version assets b (.headAsset rest)).1
      (S.step version assets b (.headAsset rest)).2 := by
  obtain ⟨uploaded, hiter, hup⟩ := hk
  cases rest with
  | nil =>
    apply StepOk.read h
    intro a ha
    rw [hiter, List.append_nil] at ha
    exact hup a ha
  | cons a rest =>
    simp only [Service.step]
    split
    · exact .read h ⟨uploaded, hiter, hup⟩
    · next content sha256 hstored =>
      split
      · exact .read h trivial
      · split
        · next hmatch =>
          -- the metadata is the hash of the content, so a matching object is the asset
          obtain ⟨content', hsame⟩ := h.assets _ _ _ hstored
          obtain ⟨rfl, rfl⟩ : content = content' ∧ sha256 = S.sha256 content' := by
            simpa using hsame
          apply StepOk.read h
          refine ⟨uploaded ++ [a], by simp [hiter], ?_⟩
          intro a' ha'
          rcases List.mem_append.mp ha' with ha' | ha'
          · exact hup a' ha'
          · rw [List.mem_singleton.mp ha']
            exact ⟨content, hstored, hmatch.2, hmatch.1⟩
        · exact .read h trivial
    · exact .read h trivial

theorem step_putAsset (h : Consistent S b) {a : LocalAsset} {rest : List LocalAsset}
    (hk : Knows S b version assets (.putAsset a rest : Pc V T)) :
    StepOk S version assets b (S.step version assets b (.putAsset a rest)).1
      (S.step version assets b (.putAsset a rest)).2 := by
  obtain ⟨uploaded, hiter, hup⟩ := hk
  simp only [Service.step]
  split
  · next b' hput =>
    apply StepOk.written h hput
    · exact ⟨a.content, rfl⟩
    · intro hg hnew
      refine ⟨uploaded ++ [a], by simp [hiter], ?_⟩
      intro a' ha'
      rcases List.mem_append.mp ha' with ha' | ha'
      · exact (hup a' ha').grow hg
      · rw [List.mem_singleton.mp ha']
        exact ⟨a.content, hnew, rfl, rfl⟩
  · exact .read h trivial

omit [LinearOrder V] [DecidableEq D] [DecidableEq T] in
theorem listed_releaseManifest (S : Service V D T) (version : V) (assets : LocalAssets) :
    (S.releaseManifest version assets).listed = assets.iter.map S.repositoryAsset := rfl

theorem step_putManifest (h : Consistent S b)
    (hk : Knows S b version assets (.putManifest : Pc V T)) :
    StepOk S version assets b (S.step version assets b .putManifest).1
      (S.step version assets b .putManifest).2 := by
  simp only [Service.step]
  split
  · next b' hput =>
    apply StepOk.written h hput
    · refine ⟨_, rfl, rfl, ?_⟩
      rw [listed_releaseManifest]
      intro a ha
      obtain ⟨l, hl, rfl⟩ := List.mem_map.mp ha
      exact hk l hl
    · intro _ hnew
      change b' (.manifest version) ≠ none
      rw [hnew]
      exact Option.some_ne_none _
  · exact .read h trivial

theorem step_getStable (h : Consistent S b) {tries : ℕ}
    (hk : Knows S b version assets (.getStable tries : Pc V T)) :
    StepOk S version assets b (S.step version assets b (.getStable tries)).1
      (S.step version assets b (.getStable tries)).2 := by
  cases tries with
  | zero => exact .read h trivial
  | succ tries =>
    simp only [Service.step]
    split
    · exact .read h hk
    · next protocol current hstored =>
      split
      · exact .read h trivial
      · next hprotocol =>
        obtain rfl := not_not.mp hprotocol
        split
        · next hle => exact .read h ⟨current, by simp [stableVersion, hstored], hle⟩
        · next hlt => exact .read h ⟨hk, current, rfl, not_le.mp hlt⟩
    · exact .read h trivial

theorem step_putStableIfAbsent (h : Consistent S b) {tries : ℕ}
    (hk : Knows S b version assets (.putStableIfAbsent tries : Pc V T)) :
    StepOk S version assets b (S.step version assets b (.putStableIfAbsent tries)).1
      (S.step version assets b (.putStableIfAbsent tries)).2 := by
  simp only [Service.step]
  split
  · next b' hput =>
    apply StepOk.written h hput
    · exact ⟨version, rfl, hk⟩
    · intro _ hnew
      exact ⟨version, by simp [stableVersion, hnew], le_rfl⟩
  · exact .read h hk

theorem step_putStableIfMatch (h : Consistent S b) {etag : T} {tries : ℕ}
    (hk : Knows S b version assets (.putStableIfMatch etag tries : Pc V T)) :
    StepOk S version assets b (S.step version assets b (.putStableIfMatch etag tries)).1
      (S.step version assets b (.putStableIfMatch etag tries)).2 := by
  obtain ⟨hmanifest, current, rfl, hlt⟩ := hk
  simp only [Service.step]
  split
  · next b' hput =>
    -- the tag still matches, so the channel is at the version that was read
    obtain ⟨hread, rfl⟩ := Store.putIfMatch_eq_some S.etag_injective hput
    have hg := Grows.advance hread hlt
    exact ⟨hg, h.write hg ⟨version, rfl, hmanifest⟩, version, by simp [stableVersion], le_rfl⟩
  · exact .read h hmanifest

theorem step_ok (h : Consistent S b) {pc : Pc V T} (hk : Knows S b version assets pc) :
    StepOk S version assets b (S.step version assets b pc).1 (S.step version assets b pc).2 := by
  cases pc with
  | getRepository =>
    simp only [Service.step]
    split
    · exact .read h trivial
    · split <;> exact .read h trivial
  | putRepository =>
    simp only [Service.step]
    split
    · next b' hput => exact .written h hput trivial (fun _ _ => trivial)
    · exact .read h trivial
  | getRepositoryAgain =>
    simp only [Service.step]
    split
    · exact .read h trivial
    · split <;> exact .read h trivial
  | headManifest =>
    simp only [Service.step]
    split
    · exact .read h trivial
    · exact .read h ⟨[], rfl, by simp⟩
  | headAsset rest => exact step_headAsset h hk
  | putAsset a rest => exact step_putAsset h hk
  | putManifest => exact step_putManifest h hk
  | getStable tries => exact step_getStable h hk
  | putStableIfAbsent tries => exact step_putStableIfAbsent h hk
  | putStableIfMatch etag tries => exact step_putStableIfMatch h hk
  | done outcome => exact .read h hk

end Step

end Service

/-! All runs together. -/

section System

variable {ι : Type} (S : Service V D T) (job : ι → Job V)

structure Invariant (s : System ι V D T) : Prop where
  consistent : Consistent S s.bucket
  knows : ∀ i, Knows S s.bucket (job i).version (job i).assets (s.pc i)

theorem Invariant.init : Invariant S job (System.init : System ι V D T) where
  consistent := by
    rw [consistent_iff]
    intro k o hk
    cases hk
  knows _ := trivial

variable {S job}

theorem Knows.stopped {b : Bucket V D} {version : V} {assets : LocalAssets} {pc : Pc V T}
    (h : Knows S b version assets pc) : Knows S b version assets pc.stopped := by
  cases pc <;> first | exact h | trivial

variable [DecidableEq ι]

theorem Invariant.update {s : System ι V D T} (h : Invariant S job s) {i : ι} {b' : Bucket V D}
    {pc' : Pc V T} (hok : StepOk S (job i).version (job i).assets s.bucket b' pc') :
    Invariant S job ⟨b', Function.update s.pc i pc'⟩ := by
  refine ⟨hok.consistent, ?_⟩
  intro j
  by_cases hj : j = i
  · subst hj
    simpa using hok.knows
  · simpa [hj] using (h.knows j).grow hok.grows

variable [DecidableEq D] [DecidableEq T]

theorem Invariant.step {s : System ι V D T} (h : Invariant S job s) (e : Event ι) :
    Invariant S job (s.step S job e) ∧ Grows s.bucket (s.step S job e).bucket := by
  cases e with
  | advance i =>
    have hok := step_ok h.consistent (h.knows i)
    exact ⟨h.update hok, hok.grows⟩
  | resent i =>
    have hok := step_ok h.consistent (h.knows i)
    exact ⟨h.update ⟨hok.grows, hok.consistent, ((h.knows i).grow hok.grows).refused⟩, hok.grows⟩
  | stop i =>
    exact ⟨h.update (.read h.consistent (h.knows i).stopped), .refl _⟩

theorem Invariant.run {s : System ι V D T} (h : Invariant S job s) (events : List (Event ι)) :
    Invariant S job (s.run S job events) ∧ Grows s.bucket (s.run S job events).bucket := by
  induction events generalizing s with
  | nil => exact ⟨h, .refl _⟩
  | cons e events ih =>
    obtain ⟨hinv, hgrows⟩ := h.step e
    obtain ⟨hinv', hgrows'⟩ := ih hinv
    exact ⟨hinv', hgrows.trans hgrows'⟩

variable (S job)

/-- However runs interleave and stop: manifests list only assets that are there with the recorded
hash and size, the stable channel names a published release, a run that has returned is not
ahead of it, and from there on releases do not change and the channel does not go back. -/
theorem repository_consistent (events later : List (Event ι)) :
    let s := (System.init : System ι V D T).run S job events
    let s' := s.run S job later
    (∀ v o, s.bucket (.manifest v) = some o →
      ∃ m, o = .manifest m ∧ m.version = v ∧ ∀ a ∈ m.listed, Present S s.bucket v a) ∧
    (∀ o, s.bucket .stable = some o →
      ∃ v, o = .stable protocolVersion v ∧ s.bucket (.manifest v) ≠ none) ∧
    (∀ i, s.pc i = .done (.ok ()) → ∃ v, stableVersion s.bucket = some v ∧ (job i).version ≤ v) ∧
    (∀ v o, s.bucket (.manifest v) = some o → s'.bucket (.manifest v) = some o) ∧
    (∀ v n o, s.bucket (.asset v n) = some o → s'.bucket (.asset v n) = some o) ∧
    (∀ v, stableVersion s.bucket = some v → ∃ v', stableVersion s'.bucket = some v' ∧ v ≤ v') := by
  intro s s'
  obtain ⟨hinv, -⟩ := (Invariant.init S job).run events
  obtain ⟨-, hgrows⟩ := hinv.run later
  refine ⟨hinv.consistent.manifests, hinv.consistent.stable, ?_, hgrows.manifest, hgrows.asset,
    hgrows.stable⟩
  intro i hi
  have hk := hinv.knows i
  rw [hi] at hk
  exact hk

end System

end LandscapeKit.Publish
