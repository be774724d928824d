import Mathlib.Data.List.Nodup
import Mathlib.Logic.Function.Iterate
import Mathlib.Tactic.IntervalCases
import LandscapeKit.PublishRuns

/-!
A publish that is run again after it was interrupted. What comes before the manifest is taken up
where it stopped; once the manifest is there the release counts as published, and the channel
stays where it was.
-/

namespace LandscapeKit.Publish

variable {V D T : Type} [LinearOrder V] [DecidableEq D] [DecidableEq T]

section Alone

variable (S : Service V D T) (version : V) (assets : LocalAssets)

def Service.alone (x : Bucket V D × Pc V T) : Bucket V D × Pc V T :=
  S.step version assets x.1 x.2

def Leads (x y : Bucket V D × Pc V T) : Prop := ∃ n, (S.alone version assets)^[n] x = y

variable {S version assets}

theorem Leads.refl (x : Bucket V D × Pc V T) : Leads S version assets x x := ⟨0, rfl⟩

theorem Leads.trans {x y z : Bucket V D × Pc V T} (h : Leads S version assets x y)
    (h' : Leads S version assets y z) : Leads S version assets x z := by
  obtain ⟨n, rfl⟩ := h
  obtain ⟨m, rfl⟩ := h'
  exact ⟨m + n, Function.iterate_add_apply _ m n x⟩

theorem Leads.next {b : Bucket V D} {pc : Pc V T} {y z : Bucket V D × Pc V T}
    (h : S.step version assets b pc = y) (h' : Leads S version assets y z) :
    Leads S version assets (b, pc) z := by
  obtain ⟨n, rfl⟩ := h'
  refine ⟨n + 1, ?_⟩
  rw [Function.iterate_succ_apply, ← h]
  rfl

theorem Leads.ends {x : Bucket V D × Pc V T} {b : Bucket V D} {outcome : Except (RunError V) Unit}
    (h : Leads S version assets x (b, .done outcome)) :
    ∃ n, ∀ m ≥ n, (S.alone version assets)^[m] x = (b, .done outcome) := by
  obtain ⟨n, hn⟩ := h
  have hfixed : S.alone version assets (b, .done outcome) = (b, .done outcome) := rfl
  refine ⟨n, fun m hm => ?_⟩
  obtain ⟨k, rfl⟩ := Nat.exists_eq_add_of_le' hm
  rw [Function.iterate_add_apply, hn]
  exact Function.iterate_fixed hfixed k

def HasDescriptor (b : Bucket V D) : Prop :=
  ∀ o, b .repository = some o → o = .descriptor protocolVersion

variable {b : Bucket V D}

theorem leads_headManifest (h : HasDescriptor b) : ∃ b', Leads S version assets
    (b, .getRepository) (b', .headManifest) ∧ ∀ k ≠ .repository, b' k = b k := by
  cases hrepository : b .repository with
  | some o =>
    refine ⟨b, .next (y := (b, .headManifest)) ?_ (.refl _), fun _ _ => rfl⟩
    simp [Service.step, hrepository, h o hrepository, Service.validateDescriptor]
  | none =>
    have hread : S.step version assets b .getRepository = (b, .putRepository) := by
      simp [Service.step, hrepository]
    have hwrite : S.step version assets b .putRepository = (Function.update b .repository
        (some (.descriptor protocolVersion)), .getRepositoryAgain) := by
      simp [Service.step, Store.putIfAbsent, hrepository]
    have hagain : S.step version assets (Function.update b .repository
        (some (.descriptor protocolVersion))) .getRepositoryAgain = (Function.update b .repository
          (some (.descriptor protocolVersion)), .headManifest) := by
      simp [Service.step, Service.validateDescriptor]
    exact ⟨_, .next hread (.next hwrite (.next hagain (.refl _))),
      fun k hk => Function.update_of_ne hk _ _⟩

def Matches (S : Service V D T) (a : LocalAsset) (o : Object V D) : Prop :=
  a.content.length < 2 ^ 63 ∧
    ∃ content sha256, o = .asset content sha256 ∧ content.length = a.content.length ∧
      sha256 = S.sha256 a.content

def Uncontested (S : Service V D T) (b : Bucket V D) (version : V) (rest : List LocalAsset) :
    Prop :=
  ∀ a ∈ rest, ∀ o, b (.asset version a.name) = some o → Matches S a o

theorem leads_assets {rest : List LocalAsset} (hnames : (rest.map LocalAsset.name).Nodup)
    (h : Uncontested S b version rest) : ∃ b', Leads S version assets
      (b, .headAsset rest) (b', .putManifest) ∧
        ∀ k, (∀ name, k ≠ .asset version name) → b' k = b k := by
  induction rest generalizing b with
  | nil => exact ⟨b, .next (y := (b, .putManifest)) rfl (.refl _), fun _ _ => rfl⟩
  | cons a rest ih =>
    obtain ⟨hfresh, hnames⟩ := List.nodup_cons.mp hnames
    obtain ⟨hmatch, hrest⟩ := List.forall_mem_cons.mp h
    cases hstored : b (.asset version a.name) with
    | some o =>
      obtain ⟨hsize, content, sha256, rfl, hlength, hsha⟩ := hmatch o hstored
      have hhead : S.step version assets b (.headAsset (a :: rest)) = (b, .headAsset rest) := by
        simp only [Service.step, hstored]
        rw [if_neg (Nat.not_le.mpr hsize), if_pos ⟨hlength, hsha⟩]
      obtain ⟨b', hleads, hkept⟩ := ih hnames hrest
      exact ⟨b', .next hhead hleads, hkept⟩
    | none =>
      have hhead : S.step version assets b (.headAsset (a :: rest)) = (b, .putAsset a rest) := by
        simp [Service.step, hstored]
      have hput : S.step version assets b (.putAsset a rest) =
          (Function.update b (.asset version a.name) (some (.asset a.content (S.sha256 a.content))),
            .headAsset rest) := by
        simp [Service.step, Store.putIfAbsent, hstored]
      -- the names differ, so the other assets are as free as before
      have hrest' : Uncontested S (Function.update b (.asset version a.name)
          (some (.asset a.content (S.sha256 a.content)))) version rest := by
        intro a' ha' o ho
        rw [Function.update_of_ne] at ho
        · exact hrest a' ha' o ho
        · intro hkey
          exact hfresh ((Key.asset.inj hkey).2 ▸ List.mem_map_of_mem ha')
      obtain ⟨b', hleads, hkept⟩ := ih hnames hrest'
      refine ⟨b', .next hhead (.next hput hleads), fun k hk => ?_⟩
      rw [hkept k hk, Function.update_of_ne (hk a.name)]

theorem leads_stable (h : ∀ o, b .stable = some o → ∃ v, o = .stable protocolVersion v) :
    ∃ b', Leads S version assets (b, .getStable 3) (b', .done (.ok ())) ∧
      ∀ k ≠ .stable, b' k = b k := by
  cases hstable : b .stable with
  | none =>
    have hread : S.step version assets b (.getStable 3) = (b, .putStableIfAbsent 2) := by
      simp [Service.step, hstable]
    have hwrite : S.step version assets b (.putStableIfAbsent 2) =
        (Function.update b .stable (some (.stable protocolVersion version)), .done (.ok ())) := by
      simp [Service.step, Store.putIfAbsent, hstable]
    exact ⟨_, .next hread (.next hwrite (.refl _)), fun k hk => Function.update_of_ne hk _ _⟩
  | some o =>
    obtain ⟨current, rfl⟩ := h o hstable
    by_cases hle : version ≤ current
    · have hread : S.step version assets b (.getStable 3) = (b, .done (.ok ())) := by
        simp [Service.step, hstable, hle]
      exact ⟨b, .next hread (.refl _), fun _ _ => rfl⟩
    · have hread : S.step version assets b (.getStable 3) =
          (b, .putStableIfMatch (S.etag (.stable protocolVersion current)) 2) := by
        simp [Service.step, hstable, hle]
      have hwrite : S.step version assets b
          (.putStableIfMatch (S.etag (.stable protocolVersion current)) 2) =
          (Function.update b .stable (some (.stable protocolVersion version)), .done (.ok ())) := by
        simp [Service.step, Store.putIfMatch, hstable]
      exact ⟨_, .next hread (.next hwrite (.refl _)), fun k hk => Function.update_of_ne hk _ _⟩

theorem nodup_iter (assets : LocalAssets) : (assets.iter.map LocalAsset.name).Nodup := by
  change [AssetName.webserverX86, .webserverAarch64, .staticArchive].Nodup
  decide

theorem leads_ok (hdescriptor : HasDescriptor b) (hconsistent : Consistent S b)
    (hmanifest : b (.manifest version) = none) (h : Uncontested S b version assets.iter) :
    ∃ b', Leads S version assets (b, .getRepository) (b', .done (.ok ())) ∧
      b' (.manifest version) = some (.manifest (S.releaseManifest version assets)) := by
  obtain ⟨b₁, hleads₁, hkept₁⟩ : ∃ b', Leads S version assets (b, .getRepository)
      (b', .headManifest) ∧ ∀ k ≠ .repository, b' k = b k := leads_headManifest hdescriptor
  have hnone₁ : b₁ (.manifest version) = none :=
    (hkept₁ (.manifest version) (by rintro ⟨⟩)).trans hmanifest
  have hhead : S.step version assets b₁ .headManifest = (b₁, .headAsset assets.iter) := by
    simp [Service.step, hnone₁]
  have h₁ : Uncontested S b₁ version assets.iter := by
    intro a ha o ho
    rw [hkept₁ (.asset version a.name) (by rintro ⟨⟩)] at ho
    exact h a ha o ho
  obtain ⟨b₂, hleads₂, hkept₂⟩ : ∃ b', Leads S version assets (b₁, .headAsset assets.iter)
      (b', .putManifest) ∧ ∀ k, (∀ name, k ≠ .asset version name) → b' k = b₁ k :=
    leads_assets (nodup_iter assets) h₁
  have hput : S.step version assets b₂ .putManifest = (Function.update b₂ (.manifest version)
      (some (.manifest (S.releaseManifest version assets))), .getStable 3) := by
    have hnone : b₂ (.manifest version) = none :=
      (hkept₂ (.manifest version) (fun _ => by rintro ⟨⟩)).trans hnone₁
    simp [Service.step, Store.putIfAbsent, hnone]
  have hstable : ∀ o, Function.update b₂ (.manifest version)
      (some (.manifest (S.releaseManifest version assets))) .stable = some o →
        ∃ v, o = .stable protocolVersion v := by
    intro o ho
    have hkey : (Key.stable : Key V) ≠ .manifest version := by rintro ⟨⟩
    rw [Function.update_of_ne hkey, hkept₂ .stable (fun _ => by rintro ⟨⟩),
      hkept₁ .stable (by rintro ⟨⟩)] at ho
    obtain ⟨v, hv, -⟩ := hconsistent.stable o ho
    exact ⟨v, hv⟩
  obtain ⟨b₃, hleads₃, hkept₃⟩ : ∃ b', Leads S version assets (_, .getStable 3)
      (b', .done (.ok ())) ∧ ∀ k ≠ .stable, b' k = _ := leads_stable hstable
  refine ⟨b₃, (hleads₁.trans (.next hhead hleads₂)).trans (.next hput hleads₃), ?_⟩
  rw [hkept₃ (.manifest version) (by rintro ⟨⟩), Function.update_self]

theorem leads_exists (hdescriptor : HasDescriptor b) (hmanifest : b (.manifest version) ≠ none) :
    ∃ b', Leads S version assets (b, .getRepository)
      (b', .done (.error (.releaseExists version))) ∧ ∀ k ≠ .repository, b' k = b k := by
  obtain ⟨b', hleads, hkept⟩ : ∃ b', Leads S version assets (b, .getRepository)
      (b', .headManifest) ∧ ∀ k ≠ .repository, b' k = b k := leads_headManifest hdescriptor
  have hhead : S.step version assets b' .headManifest =
      (b', .done (.error (.releaseExists version))) := by
    have hsome : (b' (.manifest version)).isSome = true := by
      rw [hkept (.manifest version) nofun]
      exact Option.isSome_iff_ne_none.mpr hmanifest
    simp [Service.step, hsome]
  exact ⟨b', hleads.trans (.next hhead (.refl _)), hkept⟩

end Alone

section Writes

variable (S : Service V D T) (version : V) (assets : LocalAssets)

def Service.writes : Pc V T → Option (Key V × Object V D)
  | .putRepository => some (.repository, .descriptor protocolVersion)
  | .putAsset a _ => some (.asset version a.name, .asset a.content (S.sha256 a.content))
  | .putManifest => some (.manifest version, .manifest (S.releaseManifest version assets))
  | .putStableIfAbsent _ => some (.stable, .stable protocolVersion version)
  | .putStableIfMatch _ _ => some (.stable, .stable protocolVersion version)
  | _ => none

variable {S version assets}

theorem step_bucket {b : Bucket V D} {pc : Pc V T} : (S.step version assets b pc).1 = b ∨
    ∃ k o, S.writes version assets pc = some (k, o) ∧
      (S.step version assets b pc).1 = Function.update b k (some o) := by
  cases pc with
  | putRepository | putAsset a rest | putManifest | putStableIfAbsent tries =>
    simp only [Service.step]
    split
    · next b' hput => exact .inr ⟨_, _, rfl, (Store.putIfAbsent_eq_some hput).2⟩
    · exact .inl rfl
  | putStableIfMatch etag tries =>
    simp only [Service.step]
    split
    · next b' hput => exact .inr ⟨_, _, rfl, Store.putIfMatch_update hput⟩
    · exact .inl rfl
  | getRepository | getRepositoryAgain =>
    simp only [Service.step]
    split
    · exact .inl rfl
    · split <;> exact .inl rfl
  | headManifest =>
    simp only [Service.step]
    split <;> exact .inl rfl
  | headAsset rest =>
    cases rest with
    | nil => exact .inl rfl
    | cons a rest =>
      simp only [Service.step]
      split
      · exact .inl rfl
      · split
        · exact .inl rfl
        · split <;> exact .inl rfl
      · exact .inl rfl
  | getStable tries =>
    cases tries with
    | zero => exact .inl rfl
    | succ tries =>
      simp only [Service.step]
      split
      · exact .inl rfl
      · split
        · exact .inl rfl
        · split <;> exact .inl rfl
      · exact .inl rfl
  | done outcome => exact .inl rfl

end Writes

section History

variable {ι : Type} [DecidableEq ι] (S : Service V D T) (job : ι → Job V)

theorem run_stored {P : Key V → Object V D → Prop} (s : System ι V D T)
    (h : Invariant S job s) (hs : ∀ k o, s.bucket k = some o → P k o)
    (hwrites : ∀ (b : Bucket V D) i (pc : Pc V T), Knows S b (job i).version (job i).assets pc →
      ∀ k o, S.writes (job i).version (job i).assets pc = some (k, o) → P k o)
    (events : List (Event ι)) : ∀ k o, (s.run S job events).bucket k = some o → P k o := by
  induction events generalizing s with
  | nil => exact hs
  | cons e events ih =>
    have hstep (i : ι) : ∀ k o, (S.step (job i).version (job i).assets s.bucket (s.pc i)).1 k =
        some o → P k o := by
      intro k o ho
      obtain hsame | ⟨k', o', hw, hput⟩ :
        (S.step (job i).version (job i).assets s.bucket (s.pc i)).1 = s.bucket ∨ ∃ k o,
          S.writes (job i).version (job i).assets (s.pc i) = some (k, o) ∧
            (S.step (job i).version (job i).assets s.bucket (s.pc i)).1 =
              Function.update s.bucket k (some o) := step_bucket
      · exact hs k o (hsame ▸ ho)
      · rw [hput] at ho
        by_cases hk : k = k'
        · subst hk
          rw [Function.update_self] at ho
          exact Option.some.inj ho ▸ hwrites s.bucket i _ (h.knows i) k o' hw
        · rw [Function.update_of_ne hk] at ho
          exact hs k o ho
    apply ih _ (h.step e).1
    cases e with
    | advance i => exact hstep i
    | resent i => exact hstep i
    | stop i => exact hs

theorem hasDescriptor_run (events : List (Event ι)) :
    HasDescriptor ((System.init : System ι V D T).run S job events).bucket := by
  have h := run_stored S job (P := fun k o => k = .repository → o = .descriptor protocolVersion)
    System.init (Invariant.init S job) (fun _ _ hk => nomatch hk) ?_ events
  · exact fun o ho => h _ o ho rfl
  · rintro b i pc - k o hw rfl
    cases pc <;> first | exact (Prod.ext_iff.mp (Option.some.inj hw)).2.symm | cases hw

theorem uploaded_run (events : List (Event ι)) {v : V} {name : AssetName} {o : Object V D}
    (h : ((System.init : System ι V D T).run S job events).bucket (.asset v name) = some o) :
    ∃ i, (job i).version = v ∧ ∃ a ∈ (job i).assets.iter, a.name = name ∧
      o = .asset a.content (S.sha256 a.content) := by
  have h' := run_stored S job (P := fun k o => ∀ v name, k = .asset v name →
    ∃ i, (job i).version = v ∧ ∃ a ∈ (job i).assets.iter, a.name = name ∧
      o = .asset a.content (S.sha256 a.content))
    System.init (Invariant.init S job) (fun _ _ hk => nomatch hk) ?_ events
  · exact h' _ o h v name rfl
  · rintro b i pc hknows k o hw v name rfl
    cases pc with
    | putAsset a rest =>
      obtain ⟨uploaded, hiter, -⟩ := hknows
      obtain ⟨hkey, ho⟩ := Prod.ext_iff.mp (Option.some.inj hw)
      obtain ⟨hv, hname⟩ := Key.asset.inj hkey
      refine ⟨i, hv, a, ?_, hname, ho.symm⟩
      rw [hiter]
      simp
    | _ => cases hw

theorem run_replicate (s : System ι V D T) (j : ι) (n : ℕ) :
    ((s.run S job (List.replicate n (.advance j))).bucket,
      (s.run S job (List.replicate n (.advance j))).pc j) =
        (S.alone (job j).version (job j).assets)^[n] (s.bucket, s.pc j) := by
  induction n generalizing s with
  | zero => rfl
  | succ n ih =>
    have hstep : (s.step S job (.advance j)).pc j =
        (S.alone (job j).version (job j).assets (s.bucket, s.pc j)).2 := Function.update_self ..
    rw [List.replicate_succ, System.run, List.foldl_cons]
    refine (ih (s.step S job (.advance j))).trans ?_
    rw [hstep, Function.iterate_succ_apply]
    rfl

structure Completed (b : Bucket V D) (job : Job V) : Prop where
  manifest : b (.manifest job.version) =
    some (.manifest (S.releaseManifest job.version job.assets))
  assets : ∀ a ∈ job.assets.iter, Present S b job.version (S.repositoryAsset a)
  stable : ∃ v, stableVersion b = some v ∧ job.version ≤ v

theorem name_inj (assets : LocalAssets) {a a' : LocalAsset} (ha : a ∈ assets.iter)
    (ha' : a' ∈ assets.iter) (h : a.name = a'.name) : a = a' :=
  List.inj_on_of_nodup_map (nodup_iter assets) ha ha' h

/-- Whatever was interrupted before: a run that goes on alone completes the release when it has no
manifest and nothing else under its names, which is so when its version comes from one directory;
and where the manifest is there the run fails and leaves the published release as it is. -/
theorem publish_again (events : List (Event ι)) (j : ι)
    (hfresh : ((System.init : System ι V D T).run S job events).pc j = .getRepository) :
    let s := (System.init : System ι V D T).run S job events
    let again n := s.run S job (List.replicate n (.advance j))
    let version := (job j).version
    (s.bucket (.manifest version) = none →
      Uncontested S s.bucket version (job j).assets.iter →
        ∃ n, ∀ m ≥ n, (again m).pc j = .done (.ok ()) ∧ Completed S (again m).bucket (job j)) ∧
    (s.bucket (.manifest version) ≠ none →
      ∃ n, ∀ m ≥ n, (again m).pc j = .done (.error (.releaseExists version)) ∧
        (∀ k ≠ .repository, (again m).bucket k = s.bucket k) ∧
        ∃ manifest, (again m).bucket (.manifest version) = some (.manifest manifest) ∧
          ∀ a ∈ manifest.listed, Present S (again m).bucket version a) ∧
    ((∀ i, (job i).version = version → (job i).assets = (job j).assets) →
      (∀ a ∈ (job j).assets.iter, a.content.length < 2 ^ 63) →
        Uncontested S s.bucket version (job j).assets.iter) := by
  intro s again version
  have hinv : Invariant S job s := ((Invariant.init S job).run events).1
  have hdescriptor : HasDescriptor s.bucket := hasDescriptor_run S job events
  have hagain (m : ℕ) {b' : Bucket V D} {outcome : Except (RunError V) Unit}
      (h : (S.alone version (job j).assets)^[m] (s.bucket, .getRepository) =
        (b', .done outcome)) : (again m).bucket = b' ∧ (again m).pc j = .done outcome := by
    have hrun := run_replicate S job s j m
    rw [hfresh, h] at hrun
    exact ⟨congrArg Prod.fst hrun, congrArg Prod.snd hrun⟩
  have hkept (m : ℕ) : Invariant S job (again m) := (hinv.run _).1
  refine ⟨?_, ?_, ?_⟩
  · intro hmanifest hfree
    obtain ⟨b', hleads, hwritten⟩ : ∃ b', Leads S version (job j).assets
        (s.bucket, .getRepository) (b', .done (.ok ())) ∧ b' (.manifest version) =
          some (.manifest (S.releaseManifest version (job j).assets)) :=
      leads_ok hdescriptor hinv.consistent hmanifest hfree
    obtain ⟨n, hn⟩ := hleads.ends
    refine ⟨n, fun m hm => ?_⟩
    obtain ⟨hbucket, hpc⟩ := hagain m (hn m hm)
    have hthere : (again m).bucket (.manifest version) =
        some (.manifest (S.releaseManifest version (job j).assets)) := by
      rw [hbucket]
      exact hwritten
    obtain ⟨manifest, hsame, -, hlisted⟩ := (hkept m).consistent.manifests version _ hthere
    have hknows := (hkept m).knows j
    rw [hpc] at hknows
    refine ⟨hpc, hthere, fun a ha => ?_, hknows⟩
    apply hlisted
    rw [← Object.manifest.inj hsame, listed_releaseManifest]
    exact List.mem_map_of_mem ha
  · intro hmanifest
    obtain ⟨b', hleads, hsame⟩ : ∃ b', Leads S version (job j).assets
        (s.bucket, .getRepository) (b', .done (.error (.releaseExists version))) ∧
          ∀ k ≠ .repository, b' k = s.bucket k := leads_exists hdescriptor hmanifest
    obtain ⟨n, hn⟩ := hleads.ends
    refine ⟨n, fun m hm => ?_⟩
    obtain ⟨hbucket, hpc⟩ := hagain m (hn m hm)
    have hsame' : ∀ k ≠ .repository, (again m).bucket k = s.bucket k := by
      rw [hbucket]
      exact hsame
    obtain ⟨o, ho⟩ := Option.ne_none_iff_exists'.mp hmanifest
    have hthere := (hsame' (.manifest version) nofun).trans ho
    obtain ⟨manifest, rfl, -, hlisted⟩ := (hkept m).consistent.manifests version o hthere
    exact ⟨hpc, hsame', manifest, hthere, hlisted⟩
  · intro hone hsize a ha o ho
    obtain ⟨i, hi, a', ha', hname, rfl⟩ := uploaded_run S job events ho
    rw [hone i hi] at ha'
    obtain rfl := name_inj _ ha' ha hname
    exact ⟨hsize a' ha, a'.content, _, rfl, rfl, rfl⟩

end History

section Interrupted

open Classical in
noncomputable def plainService : Service ℕ Bytes (Object ℕ Bytes) := ⟨id, id, Function.injective_id⟩

def smallAssets : LocalAssets := ⟨⟨[1], nofun⟩, ⟨[2], nofun⟩, ⟨[3], nofun⟩⟩

def otherAssets : LocalAssets := ⟨⟨[4], nofun⟩, ⟨[2], nofun⟩, ⟨[3], nofun⟩⟩

open Classical in
/-- A run stops after its descriptor is written, and the same release is published again. -/
theorem publish_again_early :
    let s := (System.init : System Bool ℕ Bytes (Object ℕ Bytes)).run plainService
      (fun _ => ⟨1, smallAssets⟩) [.advance false, .advance false, .stop false]
    ∃ n, ∀ m ≥ n, Completed plainService (s.run plainService (fun _ => ⟨1, smallAssets⟩)
      (List.replicate m (.advance true))).bucket ⟨1, smallAssets⟩ := by
  intro s
  have hagain := publish_again plainService (fun _ => ⟨1, smallAssets⟩)
    [.advance false, .advance false, .stop false] true rfl
  obtain ⟨hok, -, hfree⟩ := hagain
  obtain ⟨n, hn⟩ := hok rfl (hfree (fun _ _ => rfl) (by
    intro a ha
    simp only [smallAssets, LocalAssets.iter, List.mem_cons, List.not_mem_nil, or_false] at ha
    rcases ha with rfl | rfl | rfl <;> simp))
  exact ⟨n, fun m hm => (hn m hm).2⟩

theorem alone_error {S : Service V D T} {version : V} {assets : LocalAssets}
    {x : Bucket V D × Pc V T} {b : Bucket V D} {e : RunError V} {k : ℕ}
    (h : (S.alone version assets)^[k] x = (b, .done (.error e)))
    (hbefore : ∀ n < k, ((S.alone version assets)^[n] x).2 ≠ .done (.ok ())) (n : ℕ) :
    ((S.alone version assets)^[n] x).2 ≠ .done (.ok ()) := by
  by_cases hn : n < k
  · exact hbefore n hn
  · have hfixed : S.alone version assets (b, .done (.error e)) = (b, .done (.error e)) := rfl
    obtain ⟨m, rfl⟩ := Nat.exists_eq_add_of_le' (Nat.le_of_not_lt hn)
    rw [Function.iterate_add_apply, h, Function.iterate_fixed hfixed m]
    nofun

open Classical in
noncomputable def stoppedLate : System Bool ℕ Bytes (Object ℕ Bytes) :=
  System.init.run plainService (fun _ => ⟨1, smallAssets⟩)
    (List.replicate 12 (.advance false) ++ [.stop false])

def contestedJob (i : Fin 3) : Job ℕ := ⟨1, if i = 0 then otherAssets else smallAssets⟩

open Classical in
/-- Another directory has been published in part, and the first run of `smallAssets` has stopped. -/
noncomputable def stoppedBeside : System (Fin 3) ℕ Bytes (Object ℕ Bytes) :=
  System.init.run plainService contestedJob
    (List.replicate 6 (.advance 0) ++ [.stop 0, .stop 1])

open Classical in
/-- A publish that stopped behind its manifest is not completed, and neither is one whose release
another directory was published to. -/
theorem not_publish_again :
    (stoppedLate.pc false = .done (.error .s3) ∧ stoppedLate.pc true = .getRepository ∧
      ∀ n : ℕ, (stoppedLate.run plainService (fun _ => ⟨1, smallAssets⟩)
        (List.replicate n (.advance true))).pc true ≠ .done (.ok ())) ∧
    (stoppedBeside.pc 1 = .done (.error .s3) ∧ stoppedBeside.pc 2 = .getRepository ∧
      ∀ n : ℕ, (stoppedBeside.run plainService contestedJob
        (List.replicate n (.advance 2))).pc 2 ≠ .done (.ok ())) := by
  refine ⟨⟨rfl, rfl, fun n => ?_⟩, rfl, rfl, fun n => ?_⟩
  · have hfresh : stoppedLate.pc true = .getRepository := rfl
    have hrun := run_replicate plainService (fun _ => ⟨1, smallAssets⟩) stoppedLate true n
    have hend : (plainService.alone 1 smallAssets)^[2] (stoppedLate.bucket, .getRepository) =
        (stoppedLate.bucket, .done (.error (.releaseExists 1))) := rfl
    rw [hfresh] at hrun
    intro hok
    refine alone_error hend ?_ n ((congrArg Prod.snd hrun).symm.trans hok)
    intro m hm
    interval_cases m <;> exact nofun
  · have hfresh : stoppedBeside.pc 2 = .getRepository := rfl
    have hrun := run_replicate plainService contestedJob stoppedBeside 2 n
    have hend : (plainService.alone 1 smallAssets)^[3] (stoppedBeside.bucket, .getRepository) =
        (stoppedBeside.bucket, .done (.error (.objectExists (.asset 1 .webserverX86)))) := rfl
    rw [hfresh] at hrun
    intro hok
    refine alone_error hend ?_ n ((congrArg Prod.snd hrun).symm.trans hok)
    intro m hm
    interval_cases m <;> exact nofun

end Interrupted

end LandscapeKit.Publish
