import LandscapeKit.LibSemver

/-!
`lkit self upgrade`: which release is chosen and when it replaces the binary. Candidates are
spelled `rcN` and `rc.N`; for the choice both are read as `rc.N`, while the last comparison, with
the version that runs, is one of spellings.
-/

namespace LandscapeKit.SelfUpgrade

open Std Text Semver

structure GithubAsset where
  name : Text
  size : ℕ
  browserDownloadUrl : Text
deriving DecidableEq

structure GithubRelease where
  tagName : Text
  draft : Bool
  prerelease : Bool
  assets : List GithubAsset
deriving DecidableEq

inductive UpgradeError
  | request
  | invalidVersion (value : Text)
  | unnumbered (value : Text)
  | notAllowed (tag : Text)
  | mismatch (tag requested : Text)
  | noRelease
  | tooManyPages
  | install
  /-- an `expect` that failed -/
  | panicked
deriving DecidableEq

/-- The release API: a release by its tag, the latest one, and the pages of the list. -/
structure Api where
  tag : Text → Except UpgradeError GithubRelease
  latest : Except UpgradeError GithubRelease
  page : ℕ → Except UpgradeError (List GithubRelease)

variable (S : Library)

section Tags

/-- A tag that is a version in its canonical spelling, after a `v` or not. -/
def parseReleaseTag (tag : Text) : Option Version :=
  let value := (stripLead ['v'] tag).getD tag
  (S.parse value).filter fun version => S.display version = value

def parseUpgradeVersion (value : Text) : Except UpgradeError Version :=
  match parseReleaseTag S value with
  | none => .error (.invalidVersion value)
  | some version =>
    -- a bare `-rc` is no tag of a release
    if version.pre ≠ [] ∧ ¬version.pre.getLast?.any Char.isDigit then .error (.unnumbered value)
    else .ok version

def eligibleReleaseVersion (release : GithubRelease) (includePrerelease : Bool) :
    Option Version :=
  if release.draft ∨ (includePrerelease = false ∧ release.prerelease) then none
  else
    match parseUpgradeVersion S release.tagName with
    | .error _ => none
    | .ok version => if includePrerelease ∨ version.pre = [] then some version else none

def upgradeReleaseVersion (release : GithubRelease) (requested : Option Text)
    (includePrerelease : Bool) : Except UpgradeError Version := do
  match eligibleReleaseVersion S release (requested.isSome || includePrerelease) with
  | none => .error (.notAllowed release.tagName)
  | some version =>
    match requested with
    | none => .ok version
    | some value =>
      if (← parseUpgradeVersion S value) ≠ version then .error (.mismatch release.tagName value)
      else .ok version

/-- `trim_start_matches('0')`, and a single zero for what was zeros only. -/
def trimZeros (number : Text) : Text :=
  let number := number.dropWhile (· = '0')
  if number = [] then ['0'] else number

/-- `rcN` as `rc.N`. None is the `expect` that fails. -/
def upgradeVersionPrecedence (version : Version) : Option Version :=
  match stripLead rc version.pre with
  | none => some version
  | some number =>
    if number ≠ [] ∧ number.all Char.isDigit then
      (S.newPrerelease (candidate (trimZeros number))).map fun pre => { version with pre := pre }
    else some version

end Tags

section Selection

/-- One turn over a release of a page: the first of those that rank highest is kept. -/
def consider (latest : Option (Version × GithubRelease)) (release : GithubRelease) :
    Option (Option (Version × GithubRelease)) :=
  match eligibleReleaseVersion S release true with
  | none => some latest
  | some version =>
    (upgradeVersionPrecedence S version).map fun key =>
      if latest.all fun current => S.cmpPrecedence key current.1 = .gt then some (key, release)
      else latest

/-- The loop over the pages. A page of less than 100 releases is the last. -/
def discover (api : Api) : List ℕ → Option (Version × GithubRelease) →
    Except UpgradeError GithubRelease
  | [], _ => .error .tooManyPages
  | page :: pages, latest =>
    match api.page page with
    | .error e => .error e
    | .ok releases =>
      match releases.foldlM (consider S) latest with
      | none => .error .panicked
      | some latest =>
        if releases.length < 100 then
          match latest with
          | some (_, release) => .ok release
          | none => .error .noRelease
        else discover api pages latest

def fetchRelease (api : Api) (version : Option Text) (includePrerelease : Bool) :
    Except UpgradeError GithubRelease :=
  match version with
  | some tag =>
    match parseUpgradeVersion S tag with
    | .error e => .error e
    | .ok _ => api.tag tag
  | none => if includePrerelease then discover S api (List.range' 1 100) none else api.latest

/-- `upgrade`, with the version it replaces the binary by. `install` is what comes after the
comparison: the checksums, the download, the check of the new binary and the rename. -/
def upgrade (api : Api) (install : GithubRelease → Version → Except UpgradeError Unit)
    (running : Version) (requested : Option Text) (includePrerelease : Bool) :
    Except UpgradeError (Option Version) := do
  let release ← fetchRelease S api requested includePrerelease
  let version ← upgradeReleaseVersion S release requested includePrerelease
  if running = version then return none
  else
    install release version
    return some version

end Selection

section Order

def ranked (version : Version) : Version :=
  match stripLead rc version.pre with
  | none => version
  | some number =>
    if number ≠ [] ∧ number.all Char.isDigit then
      { version with pre := candidate (trimZeros number) }
    else version

/-- The prerelease is a candidate of this number, in either spelling. -/
def SpellsCandidate (pre : Text) (n : ℕ) : Prop :=
  ∃ digits, digits ≠ [] ∧ digits.all Char.isDigit ∧ value digits = n ∧
    (pre = rc ++ digits ∨ Canonical digits ∧ pre = candidate digits)

/-- A release that may be chosen: no draft, and its tag a version. -/
def Valid (release : GithubRelease) (version : Version) : Prop :=
  release.draft = false ∧ parseUpgradeVersion S release.tagName = .ok version

/-- The pages of a list that ends in time. -/
structure Listing (api : Api) (full : List (List GithubRelease)) (last : List GithubRelease) :
    Prop where
  pages : ∀ i, (h : i < full.length) → api.page (i + 1) = .ok full[i] ∧ 100 ≤ full[i].length
  short : last.length < 100
  ends : api.page (full.length + 1) = .ok last
  inTime : full.length < 100

/-- No release of the list ranks higher. -/
def Newest (releases : List GithubRelease) (release : GithubRelease) (version : Version) : Prop :=
  release ∈ releases ∧ Valid S release version ∧ ∀ other ∈ releases, ∀ v, Valid S other v →
    (S.cmpPrecedence (ranked v) (ranked version)).isLE

section Ranks

variable {S}

theorem canonical_trimZeros {number : Text} (h : number.all Char.isDigit) :
    Canonical (trimZeros number) := by
  rw [trimZeros]
  by_cases hzeros : number.dropWhile (· = '0') = []
  · rw [if_pos hzeros]
    decide
  · rw [if_neg hzeros]
    refine ⟨hzeros, ?_, fun hhead => ?_⟩
    · apply List.all_eq_true.mpr
      intro c hc
      exact List.all_eq_true.mp h c (List.dropWhile_subset _ hc)
    · have hnot := List.head?_dropWhile_not (fun c => decide (c = '0')) number
      rw [hhead] at hnot
      simp at hnot

theorem value_trimZeros (number : Text) : value (trimZeros number) = value number := by
  have hdrop : value (number.dropWhile (· = '0')) = value number := by
    induction number with
    | nil => rfl
    | cons c number ih =>
      rw [List.dropWhile_cons]
      split
      · rename_i hc
        rw [ih, of_decide_eq_true hc, value, value, Nat.ofDigitChars_cons]
        rfl
      · rfl
  rw [trimZeros]
  split
  · rename_i hzeros
    rw [hzeros] at hdrop
    rw [← hdrop]
    rfl
  · exact hdrop

theorem upgradeVersionPrecedence_eq (version : Version) :
    upgradeVersionPrecedence S version = some (ranked version) := by
  rw [upgradeVersionPrecedence, ranked]
  rcases stripLead rc version.pre with _ | number
  · rfl
  · dsimp only
    by_cases hnumber : number ≠ [] ∧ number.all Char.isDigit
    · rw [if_pos hnumber, if_pos hnumber,
        S.newPrerelease_candidate _ (canonical_trimZeros hnumber.2)]
      rfl
    · rw [if_neg hnumber, if_neg hnumber]

theorem ranked_candidate {version : Version} {n : ℕ} (h : SpellsCandidate version.pre n) :
    ∃ digits, Canonical digits ∧ value digits = n ∧
      ranked version = { version with pre := candidate digits } := by
  obtain ⟨digits, hne, hdigits, rfl, hpre | ⟨hcanonical, hpre⟩⟩ := h
  · refine ⟨trimZeros digits, canonical_trimZeros hdigits, value_trimZeros digits, ?_⟩
    rw [ranked, hpre, stripLead_append]
    exact if_pos ⟨hne, hdigits⟩
  · refine ⟨digits, hcanonical, rfl, ?_⟩
    have hdot : ¬('.' :: digits ≠ [] ∧ ('.' :: digits).all Char.isDigit = true) := by
      rintro ⟨-, hall⟩
      rw [List.all_cons] at hall
      cases hall
    rw [ranked, hpre, candidate, stripLead_append]
    dsimp only
    rw [if_neg hdot]
    rw [candidate] at hpre
    rw [← hpre]

end Ranks

end Order

section Choice

variable {S}

theorem eligible_iff {release : GithubRelease} {version : Version} :
    eligibleReleaseVersion S release true = some version ↔ Valid S release version := by
  rw [eligibleReleaseVersion, Valid]
  cases hdraft : release.draft with
  | true => exact iff_of_false (by simp) fun h => absurd h.1 (by decide)
  | false =>
    rcases parseUpgradeVersion S release.tagName with e | parsed
    · simp
    · simp

theorem valid_of_eligible {release : GithubRelease} {version : Version} {includePrerelease : Bool}
    (h : eligibleReleaseVersion S release includePrerelease = some version) :
    Valid S release version ∧
      (includePrerelease = false → release.prerelease = false ∧ version.pre = []) := by
  rw [eligibleReleaseVersion] at h
  split at h
  · cases h
  · rename_i hpublished
    rcases hparse : parseUpgradeVersion S release.tagName with e | parsed
    · rw [hparse] at h
      cases h
    · rw [hparse] at h
      dsimp only at h
      split at h
      · rename_i hallowed
        cases h
        simp only [not_or, not_and, Bool.not_eq_true] at hpublished
        refine ⟨⟨hpublished.1, hparse⟩, fun hstable => ⟨hpublished.2 hstable, ?_⟩⟩
        rcases hallowed with hpre | hpre
        · rw [hstable] at hpre
          cases hpre
        · exact hpre
      · cases h

theorem eligible_of_upgradeReleaseVersion {release : GithubRelease} {version : Version}
    {includePrerelease : Bool}
    (h : upgradeReleaseVersion S release none includePrerelease = .ok version) :
    eligibleReleaseVersion S release includePrerelease = some version := by
  rw [upgradeReleaseVersion, Option.isSome_none, Bool.false_or] at h
  rcases heligible : eligibleReleaseVersion S release includePrerelease with _ | chosen
  · rw [heligible] at h
    cases h
  · rw [heligible] at h
    cases h
    rfl

/-- What the loop keeps of the releases it has seen: none while none of them may be chosen, and
otherwise one that no other ranks above, with its rank. -/
def Best (S : Library) (seen : List GithubRelease) : Option (Version × GithubRelease) → Prop
  | none => ∀ release ∈ seen, ∀ version, ¬Valid S release version
  | some (key, release) => ∃ version, key = ranked version ∧ Newest S seen release version

theorem best_nil : Best S [] none := by
  intro release hmem
  cases hmem

theorem best_consider {seen : List GithubRelease} {latest : Option (Version × GithubRelease)}
    (h : Best S seen latest) (release : GithubRelease) :
    ∃ next, consider S latest release = some next ∧ Best S (seen ++ [release]) next := by
  rcases heligible : eligibleReleaseVersion S release true with _ | version
  · have hnot (version : Version) : ¬Valid S release version := by
      intro hvalid
      rw [eligible_iff.mpr hvalid] at heligible
      cases heligible
    refine ⟨latest, by rw [consider, heligible], ?_⟩
    match latest with
    | none =>
      intro other hmem v
      rcases List.mem_append.mp hmem with hseen | hlast
      · exact h other hseen v
      · rw [List.mem_singleton.mp hlast]
        exact hnot v
    | some (key, current) =>
      obtain ⟨version, hkey, hmem, hvalid, hall⟩ := h
      refine ⟨version, hkey, List.mem_append_left _ hmem, hvalid, fun other hother v hv => ?_⟩
      rcases List.mem_append.mp hother with hseen | hlast
      · exact hall other hseen v hv
      · rw [List.mem_singleton.mp hlast] at hv
        exact absurd hv (hnot v)
  · have hvalid := eligible_iff.mp heligible
    have hself : release ∈ seen ++ [release] := List.mem_append_right _ List.mem_cons_self
    have hsame {v : Version} (hv : Valid S release v) :
        (S.cmpPrecedence (ranked v) (ranked version)).isLE := by
      have heq := hv.2.symm.trans hvalid.2
      cases heq
      exact ReflCmp.isLE_rfl
    rw [consider, heligible]
    dsimp only
    rw [upgradeVersionPrecedence_eq, Option.map_some]
    refine ⟨_, rfl, ?_⟩
    match latest with
    | none =>
      refine ⟨version, rfl, hself, hvalid, fun other hother v hv => ?_⟩
      rcases List.mem_append.mp hother with hseen | hlast
      · exact absurd hv (h other hseen v)
      · rw [List.mem_singleton.mp hlast] at hv
        exact hsame hv
    | some (key, current) =>
      obtain ⟨kept, rfl, hmem, hkept, hall⟩ := h
      by_cases hgt : S.cmpPrecedence (ranked version) (ranked kept) = .gt
      · -- what the one before it was not below, the new one is not below either
        have hbelow : (S.cmpPrecedence (ranked kept) (ranked version)).isLE := by
          rw [OrientedCmp.gt_iff_lt.mp hgt]
          rfl
        rw [if_pos (by simpa using hgt)]
        refine ⟨version, rfl, hself, hvalid, fun other hother v hv => ?_⟩
        rcases List.mem_append.mp hother with hseen | hlast
        · exact TransCmp.isLE_trans (hall other hseen v hv) hbelow
        · rw [List.mem_singleton.mp hlast] at hv
          exact hsame hv
      · rw [if_neg (by simpa using hgt)]
        refine ⟨kept, rfl, List.mem_append_left _ hmem, hkept, fun other hother v hv => ?_⟩
        rcases List.mem_append.mp hother with hseen | hlast
        · exact hall other hseen v hv
        · rw [List.mem_singleton.mp hlast] at hv
          have heq := hv.2.symm.trans hvalid.2
          cases heq
          exact Ordering.isLE_iff_ne_gt.mpr hgt

theorem best_foldlM {seen : List GithubRelease} {latest : Option (Version × GithubRelease)}
    (h : Best S seen latest) (releases : List GithubRelease) :
    ∃ next, releases.foldlM (consider S) latest = some next ∧
      Best S (seen ++ releases) next := by
  induction releases generalizing seen latest with
  | nil =>
    refine ⟨latest, rfl, ?_⟩
    rw [List.append_nil]
    exact h
  | cons release releases ih =>
    obtain ⟨next, hnext, hbest⟩ := best_consider h release
    obtain ⟨final, hfinal, hall⟩ := ih hbest
    refine ⟨final, ?_, ?_⟩
    · rw [List.foldlM_cons, hnext]
      exact hfinal
    · rw [List.append_assoc] at hall
      exact hall

theorem discover_spec {api : Api} {full : List (List GithubRelease)} {last : List GithubRelease}
    {n k : ℕ} {seen : List GithubRelease} {latest : Option (Version × GithubRelease)}
    (hpages : ∀ i, (h : i < full.length) → api.page (n + i) = .ok full[i] ∧ 100 ≤ full[i].length)
    (hlast : api.page (n + full.length) = .ok last) (hshort : last.length < 100)
    (hk : full.length < k) (h : Best S seen latest) :
    ∃ next, Best S (seen ++ (full.flatten ++ last)) next ∧
      discover S api (List.range' n k) latest =
        match next with
        | some (_, release) => .ok release
        | none => .error .noRelease := by
  induction full generalizing n k seen latest with
  | nil =>
    obtain ⟨k, rfl⟩ := Nat.exists_eq_add_of_lt hk
    obtain ⟨next, hnext, hbest⟩ := best_foldlM h last
    rw [List.length_nil, Nat.add_zero] at hlast
    refine ⟨next, hbest, ?_⟩
    rw [List.length_nil, Nat.zero_add, List.range'_succ, discover, hlast]
    dsimp only
    rw [hnext]
    dsimp only
    rw [if_pos hshort]
  | cons page full ih =>
    obtain ⟨k, rfl⟩ : ∃ m, k = m + 1 := ⟨k - 1, by omega⟩
    obtain ⟨hpage, hlong⟩ := hpages 0 (Nat.zero_lt_succ _)
    obtain ⟨next, hnext, hbest⟩ := best_foldlM h page
    rw [List.getElem_cons_zero] at hpage hlong
    rw [Nat.add_zero] at hpage
    have hrest : ∀ i, (h : i < full.length) →
        api.page (n + 1 + i) = .ok full[i] ∧ 100 ≤ full[i].length := by
      intro i hi
      have hnth := hpages (i + 1) (Nat.succ_lt_succ hi)
      rw [List.getElem_cons_succ] at hnth
      rw [Nat.add_assoc, Nat.add_comm 1 i]
      exact hnth
    have hend : api.page (n + 1 + full.length) = .ok last := by
      rw [Nat.add_assoc, Nat.add_comm 1]
      exact hlast
    rw [List.length_cons] at hk
    obtain ⟨final, hfinal, hdiscover⟩ := ih (k := k) hrest hend (by omega) hbest
    refine ⟨final, ?_, ?_⟩
    · rw [List.flatten_cons, List.append_assoc, ← List.append_assoc]
      exact hfinal
    · rw [List.range'_succ, discover, hpage]
      dsimp only
      rw [hnext]
      dsimp only
      rw [if_neg (Nat.not_lt_of_ge hlong)]
      exact hdiscover

end Choice

section Claims

/-- What an automatic upgrade does. It goes to what it has chosen whenever that is not what runs,
and the choice is of the newest release, or of the latest one that is stable. -/
structure ChoosesNewest (S : Library) : Prop where
  ranks : ∀ version, upgradeVersionPrecedence S version = some (ranked version)
  numeric : ∀ (v w : Version) (m n : ℕ), v.major = w.major → v.minor = w.minor →
    v.patch = w.patch → SpellsCandidate v.pre m → SpellsCandidate w.pre n →
      S.cmpPrecedence (ranked v) (ranked w) = compare m n
  newest : ∀ api full last, Listing api full last →
    (∃ release ∈ full.flatten ++ last, ∃ version, Valid S release version) →
      ∃ release version, fetchRelease S api none true = .ok release ∧
        Newest S (full.flatten ++ last) release version
  orderless : ∀ api full last api' full' last', Listing api full last →
    Listing api' full' last' → (full.flatten ++ last).Perm (full'.flatten ++ last') →
      ∀ release version release' version',
        fetchRelease S api none true = .ok release → Valid S release version →
        fetchRelease S api' none true = .ok release' → Valid S release' version' →
          S.cmpPrecedence (ranked version) (ranked version') = .eq
  replaces : ∀ api install running includePrerelease version,
    upgrade S api install running none includePrerelease = .ok (some version) →
      version ≠ running ∧ ∃ release, fetchRelease S api none includePrerelease = .ok release ∧
        Valid S release version ∧
          (includePrerelease = false → release.prerelease = false ∧ version.pre = [])

/-- The binary is replaced by versions that rank higher only. -/
def NeverBack (S : Library) : Prop :=
  ∀ api install running includePrerelease version,
    upgrade S api install running none includePrerelease = .ok (some version) →
      S.cmpPrecedence (ranked running) (ranked version) = .lt

theorem fetchRelease_newest {S : Library} {api : Api} {full : List (List GithubRelease)}
    {last : List GithubRelease} (hlisting : Listing api full last) :
    ∃ next, Best S (full.flatten ++ last) next ∧
      fetchRelease S api none true =
        match next with
        | some (_, release) => .ok release
        | none => .error .noRelease := by
  have hpages : ∀ i, (h : i < full.length) →
      api.page (1 + i) = .ok full[i] ∧ 100 ≤ full[i].length := by
    intro i hi
    rw [Nat.add_comm]
    exact hlisting.pages i hi
  have hends : api.page (1 + full.length) = .ok last := by
    rw [Nat.add_comm]
    exact hlisting.ends
  exact discover_spec (k := 100) hpages hends hlisting.short hlisting.inTime best_nil

theorem newest_of_fetched {S : Library} {api : Api} {full : List (List GithubRelease)}
    {last : List GithubRelease} (hlisting : Listing api full last) {release : GithubRelease}
    {version : Version} (h : fetchRelease S api none true = .ok release)
    (hv : Valid S release version) : Newest S (full.flatten ++ last) release version := by
  obtain ⟨next, hbest, hfetch⟩ := fetchRelease_newest (S := S) hlisting
  rw [hfetch] at h
  match next with
  | none => cases h
  | some (key, chosen) =>
    cases h
    obtain ⟨chosenVersion, -, hnewest⟩ := hbest
    have heq := hv.2.symm.trans hnewest.2.1.2
    cases heq
    exact hnewest

theorem upgrade_choosesNewest (S : Library) : ChoosesNewest S where
  ranks := upgradeVersionPrecedence_eq
  numeric := by
    intro v w m n hmajor hminor hpatch hm hn
    obtain ⟨a, ha, rfl, hv⟩ := ranked_candidate hm
    obtain ⟨b, hb, rfl, hw⟩ := ranked_candidate hn
    rw [hv, hw, hmajor, hminor, hpatch]
    exact S.cmp_candidate _ _ _ a b _ _ ha hb
  newest := by
    rintro api full last hlisting ⟨release, hmem, version, hvalid⟩
    obtain ⟨next, hbest, hfetch⟩ := fetchRelease_newest (S := S) hlisting
    match next with
    | none => exact absurd hvalid (hbest release hmem version)
    | some (key, chosen) =>
      obtain ⟨chosenVersion, -, hnewest⟩ := hbest
      exact ⟨chosen, chosenVersion, hfetch, hnewest⟩
  orderless := by
    intro api full last api' full' last' hlisting hlisting' hperm release version release'
      version' hfetch hv hfetch' hv'
    have hnewest := newest_of_fetched hlisting hfetch hv
    have hnewest' := newest_of_fetched hlisting' hfetch' hv'
    have hle := hnewest.2.2 release' (hperm.mem_iff.mpr hnewest'.1) version' hv'
    have hge := hnewest'.2.2 release (hperm.mem_iff.mp hnewest.1) version hv
    exact OrientedCmp.isLE_antisymm hge hle
  replaces := by
    intro api install running includePrerelease version h
    rw [upgrade] at h
    rcases hfetch : fetchRelease S api none includePrerelease with e | release
    · rw [hfetch] at h
      cases h
    rcases hversion : upgradeReleaseVersion S release none includePrerelease with e | chosen
    · rw [hfetch] at h
      dsimp only [bind, Except.bind] at h
      rw [hversion] at h
      cases h
    rw [hfetch] at h
    dsimp only [bind, Except.bind] at h
    rw [hversion] at h
    dsimp only at h
    by_cases hsame : running = chosen
    · rw [if_pos hsame] at h
      cases h
    · rw [if_neg hsame] at h
      rcases hinstall : install release chosen with e | ⟨⟨⟩⟩
      · rw [hinstall] at h
        cases h
      · rw [hinstall] at h
        cases h
        have heligible := eligible_of_upgradeReleaseVersion hversion
        exact ⟨fun heq => hsame heq.symm, release, rfl, valid_of_eligible heligible⟩

/-- A repository whose latest stable release is 0.7.0. -/
def stableApi : Api where
  tag := fun _ => .error .request
  latest := .ok ⟨"v0.7.0".toList, false, false, []⟩
  page := fun _ => .error .request

/-- A candidate of the next version goes back to it. -/
theorem not_neverBack : ¬NeverBack standard := by
  intro h
  have hback := h stableApi (fun _ _ => .ok ()) ⟨0, 7, 1, "rc3".toList, []⟩ false
    ⟨0, 7, 0, [], []⟩ (by decide +kernel)
  exact absurd hback (by decide +kernel)

end Claims

end LandscapeKit.SelfUpgrade
