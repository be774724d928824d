import LandscapeKit.MirrorAptRepeat

/-!
The tables of a mirror: a repository that is known on one host is known on every other, and which
host a URI was on before does not matter afterwards.
-/

namespace LandscapeKit.Mirror

open Text Splice

section Repositories

/-- The repositories of a family: the official host and path, and the path on a mirror. -/
def repositories (family : Family) (replaceSecurity : Bool) : List (Text × Text) :=
  (if replaceSecurity then aptSecurityPaths family else []) ++ aptPaths family

variable {family : Family} {replaceSecurity : Bool} {target : Text}

theorem mem_replacementPairs {mirror : MirrorName} (h : mirrorHost mirror = some target)
    {p : Text × Text} : p ∈ replacementPairs family mirror replaceSecurity ↔
      ∃ r ∈ repositories family replaceSecurity, p.2 = target ++ r.2 ∧
        (p.1 = r.1 ∨ ∃ other ∈ recognizedMirrorHosts, other ≠ target ∧ p.1 = other ++ r.2) := by
  have hpairs : replacementPairs family mirror replaceSecurity =
      (repositories family replaceSecurity).map (fun r => (r.1, target ++ r.2)) ++
        (recognizedMirrorHosts.filter (· ≠ target)).flatMap fun other =>
          (repositories family replaceSecurity).map fun r => (other ++ r.2, target ++ r.2) := by
    rw [replacementPairs, h]
    rfl
  rw [hpairs, List.mem_append]
  constructor
  · rintro (hp | hp)
    · obtain ⟨r, hr, rfl⟩ := List.mem_map.mp hp
      exact ⟨r, hr, rfl, .inl rfl⟩
    · obtain ⟨other, hother, hp⟩ := List.mem_flatMap.mp hp
      obtain ⟨r, hr, rfl⟩ := List.mem_map.mp hp
      obtain ⟨hmem, hne⟩ := List.mem_filter.mp hother
      exact ⟨r, hr, rfl, .inr ⟨other, hmem, of_decide_eq_true hne, rfl⟩⟩
  · obtain ⟨source, new⟩ := p
    rintro ⟨r, hr, hnew, hsource⟩
    dsimp only at hnew hsource
    subst hnew
    rcases hsource with rfl | ⟨other, hmem, hne, rfl⟩
    · exact .inl (List.mem_map.mpr ⟨r, hr, rfl⟩)
    · apply Or.inr
      apply List.mem_flatMap.mpr
      refine ⟨other, List.mem_filter.mpr ⟨hmem, decide_eq_true hne⟩, ?_⟩
      exact List.mem_map.mpr ⟨r, hr, rfl⟩

theorem official_path : ∀ r ∈ repositories family replaceSecurity,
    r.1.dropWhile (· ≠ '/') = r.2 ∧ isPath r.2 = true ∧ r.2.getLast? ≠ some '/' ∧
      r.1.takeWhile (· ≠ '/') ∉ recognizedMirrorHosts ∧ 2 ≤ r.1.length := by
  unfold repositories aptSecurityPaths aptPaths recognizedMirrorHosts
  repeat rewrite [String.toList_ofList]
  cases family <;> cases replaceSecurity <;> decide +kernel

theorem paths_apart : ∀ r ∈ repositories family replaceSecurity,
    ∀ r' ∈ repositories family replaceSecurity, startsAtHost r.2 r'.2 = true → r.2 = r'.2 := by
  cases family <;> cases replaceSecurity <;> decide +kernel

theorem long_hosts : ∀ host ∈ recognizedMirrorHosts, 2 ≤ host.length := by
  unfold recognizedMirrorHosts
  repeat rewrite [String.toList_ofList]
  decide +kernel

theorem endsAtBoundary_append {a b : Text} (h : endsAtBoundary (a ++ b) = true) (ha : a ≠ []) :
    endsAtBoundary a = true := by
  obtain ⟨c, a, rfl⟩ := List.exists_cons_of_ne_nil ha
  exact h

theorem path_unique {r r' : Text × Text} (hr : r ∈ repositories family replaceSecurity)
    (hr' : r' ∈ repositories family replaceSecurity) {suffix suffix' : Text}
    (h : r.2 ++ suffix = r'.2 ++ suffix') (hb : endsAtBoundary suffix = true)
    (hb' : endsAtBoundary suffix' = true) : r.2 = r'.2 ∧ suffix = suffix' := by
  have hsame (heq : r.2 = r'.2) : r.2 = r'.2 ∧ suffix = suffix' := by
    rw [heq] at h
    exact ⟨heq, List.append_cancel_left h⟩
  have hstarts {a d : Text} (hd : endsAtBoundary d = true) : startsAtHost a (a ++ d) = true := by
    rw [startsAtHost, List.drop_left, hd, Bool.and_true]
    exact List.isPrefixOf_iff_prefix.mpr (List.prefix_append ..)
  rcases List.append_eq_append_iff.mp h with ⟨d, hpath, hsuffix⟩ | ⟨d, hpath, hsuffix⟩
  · by_cases hnil : d = []
    · exact hsame (by rw [hpath, hnil, List.append_nil])
    · rw [hsuffix] at hb
      exact hsame (paths_apart r hr r' hr' (hpath ▸ hstarts (endsAtBoundary_append hb hnil)))
  · by_cases hnil : d = []
    · exact hsame (by rw [hpath, hnil, List.append_nil])
    · rw [hsuffix] at hb'
      exact hsame (paths_apart r' hr' r hr (hpath ▸ hstarts (endsAtBoundary_append hb' hnil))).symm

end Repositories

section Known

variable {family : Family} {replaceSecurity : Bool} {rest path suffix : Text}

/-- A URI behind its scheme is below a repository's path, on its official host or on a mirror. -/
structure Known (family : Family) (replaceSecurity : Bool) (rest path suffix : Text) : Prop where
  host : ∃ r ∈ repositories family replaceSecurity, r.2 = path ∧
    (hostIn rest ∈ recognizedMirrorHosts ∨ hostIn rest = r.1.takeWhile (· ≠ '/'))
  path : (splitPath rest).2 = path ++ suffix
  boundary : endsAtBoundary suffix = true

variable {mirror : MirrorName} {target : Text}

theorem known_of_matches (hmirror : mirrorHost mirror = some target) {p : Text × Text}
    (hp : p ∈ replacementPairs family mirror replaceSecurity) (h : Matches p rest suffix) :
    ∃ path, Known family replaceSecurity rest path suffix ∧ p.2 = target ++ path := by
  obtain ⟨r, hr, hnew, hsource⟩ := (mem_replacementPairs hmirror).mp hp
  obtain ⟨hofficial, hpath, -⟩ := official_path r hr
  refine ⟨r.2, ⟨⟨r, hr, rfl, ?_⟩, ?_, h.boundary⟩, hnew⟩
  · rcases hsource with hsource | ⟨other, hmem, -, hsource⟩
    · exact .inr (hsource ▸ h.host)
    · left
      have hhost := h.host
      rw [hsource, (hostPath_append (recognized_hosts other hmem) hpath).2] at hhost
      rwa [hhost]
  · rcases hsource with hsource | ⟨other, hmem, -, hsource⟩
    · rw [h.path, hsource, hofficial]
    · have hcut := (hostPath_append (recognized_hosts other hmem) hpath).2
      have hsplit := List.takeWhile_append_dropWhile (p := fun c => decide (c ≠ '/')) (l := p.1)
      rw [hsource, hcut] at hsplit
      rw [h.path, hsource, List.append_cancel_left hsplit]

theorem Known.matches (hmirror : mirrorHost mirror = some target)
    (h : Known family replaceSecurity rest path suffix) : hostIn rest = target ∨
      ∃ p ∈ replacementPairs family mirror replaceSecurity, Matches p rest suffix := by
  obtain ⟨r, hr, rfl, hhost⟩ := h.host
  obtain ⟨hofficial, hpath, -⟩ := official_path r hr
  by_cases htarget : hostIn rest = target
  · exact .inl htarget
  · right
    rcases hhost with hhost | hhost
    · obtain ⟨-, hcut⟩ := hostPath_append (recognized_hosts _ hhost) hpath
      have hsplit := List.takeWhile_append_dropWhile (p := fun c => decide (c ≠ '/'))
        (l := hostIn rest ++ r.2)
      rw [hcut] at hsplit
      refine ⟨(hostIn rest ++ r.2, target ++ r.2), (mem_replacementPairs hmirror).mpr
        ⟨r, hr, rfl, .inr ⟨_, hhost, htarget, rfl⟩⟩, hcut.symm, ?_, h.boundary⟩
      rw [h.path, List.append_cancel_left hsplit]
    · refine ⟨(r.1, target ++ r.2), (mem_replacementPairs hmirror).mpr
        ⟨r, hr, rfl, .inl rfl⟩, hhost, ?_, h.boundary⟩
      rw [h.path, hofficial]

variable {uri scheme : Text}

theorem known_of_rewriteUri (hmirror : mirrorHost mirror = some target)
    {new : Text} (h : rewriteUri (replacementPairs family mirror replaceSecurity) uri = some new) :
    ∃ scheme rest path suffix, splitOnce "://".toList uri = some (scheme, rest) ∧
      Known family replaceSecurity rest path suffix ∧
      new = scheme ++ "://".toList ++ (userinfoOf rest ++ (target ++ path) ++ suffix) := by
  have hgood := goodPairs_replacementPairs family mirror replaceSecurity
  obtain ⟨scheme, rest, suffix, p, hp, hsplit, hcand, hend, -, rfl⟩ := rewriteUri_spec hgood h
  have hmatch : Matches p rest suffix := (matches_iff (hgood p hp).1).mpr ⟨hcand, hend⟩
  obtain ⟨path, hknown, htarget⟩ := known_of_matches hmirror hp hmatch
  exact ⟨scheme, rest, path, suffix, hsplit, hknown, by rw [htarget]⟩

theorem rewrittenUri_known (hmirror : mirrorHost mirror = some target)
    (hsplit : splitOnce "://".toList uri = some (scheme, rest)) (hport : hasPort uri = false)
    (h : Known family replaceSecurity rest path suffix) :
    rewrittenUri (replacementPairs family mirror replaceSecurity) uri =
      scheme ++ "://".toList ++ (userinfoOf rest ++ (target ++ path) ++ suffix) := by
  have hgood := goodPairs_replacementPairs family mirror replaceSecurity
  rw [rewrittenUri]
  cases hnew : rewriteUri (replacementPairs family mirror replaceSecurity) uri with
  | some new =>
    obtain ⟨scheme', rest', path', suffix', hsplit', hknown, rfl⟩ :=
      known_of_rewriteUri hmirror hnew
    obtain ⟨rfl, rfl⟩ := Prod.mk.inj (Option.some.inj (hsplit.symm.trans hsplit'))
    obtain ⟨r, hr, rfl, -⟩ := h.host
    obtain ⟨r', hr', rfl, -⟩ := hknown.host
    obtain ⟨hpath, rfl⟩ := path_unique hr hr' (h.path.symm.trans hknown.path) h.boundary
      hknown.boundary
    rw [Option.getD_some, hpath]
  | none =>
    rcases h.matches hmirror with htarget | ⟨p, hp, hmatch⟩
    · rw [hasPort, hsplit, Option.any_some, decide_eq_false_iff_not, not_not] at hport
      have hrest : userinfoOf rest ++ hostIn rest ++ (splitPath rest).2 = rest :=
        userinfoOf_append hport
      rw [Option.getD_none]
      calc uri = scheme ++ "://".toList ++ rest := splitOnce_spec hsplit
        _ = scheme ++ "://".toList ++ (userinfoOf rest ++ hostIn rest ++ (splitPath rest).2) := by
          rw [hrest]
        _ = scheme ++ "://".toList ++ (userinfoOf rest ++ (target ++ path) ++ suffix) := by
          rw [htarget, h.path]
          simp only [List.append_assoc]
    · obtain ⟨new, hsome⟩ := exists_rewriteUri hgood hsplit hp hmatch
      rw [hnew] at hsome
      cases hsome

theorem rewrittenUri_unknown (hmirror : mirrorHost mirror = some target)
    (h : ∀ scheme rest path suffix, splitOnce "://".toList uri = some (scheme, rest) →
      ¬ Known family replaceSecurity rest path suffix) :
    rewrittenUri (replacementPairs family mirror replaceSecurity) uri = uri := by
  rw [rewrittenUri]
  cases hnew : rewriteUri (replacementPairs family mirror replaceSecurity) uri with
  | none => rfl
  | some new =>
    obtain ⟨scheme, rest, path, suffix, hsplit, hknown, -⟩ := known_of_rewriteUri hmirror hnew
    exact absurd hknown (h scheme rest path suffix hsplit)

theorem hostIn_moved {host : Text} (hhost : host.all isHostChar = true) (rest : Text)
    {path : Text} (hpath : path.head? = some '/') :
    hostIn (userinfoOf rest ++ host ++ path) = host := by
  rw [hostIn, (authority_moved hhost rest hpath).2.2]
  exact hostOf_host (List.all_eq_true.mp hhost)

theorem head?_path {r : Text × Text} (hr : r ∈ repositories family replaceSecurity)
    (suffix : Text) : (r.2 ++ suffix).head? = some '/' := by
  obtain ⟨-, hpath, -⟩ := official_path r hr
  rw [isPath, Bool.and_eq_true, decide_eq_true_eq] at hpath
  rw [List.head?_append, hpath.1]
  rfl

theorem known_moved (htarget : target ∈ recognizedMirrorHosts) {r : Text × Text}
    (hr : r ∈ repositories family replaceSecurity) (rest : Text) {suffix : Text}
    (hb : endsAtBoundary suffix = true) :
    Known family replaceSecurity (userinfoOf rest ++ target ++ (r.2 ++ suffix)) r.2 suffix := by
  have hhost := recognized_hosts target htarget
  have hpath := head?_path hr suffix
  refine ⟨⟨r, hr, rfl, .inl ?_⟩, (authority_moved hhost rest hpath).1, hb⟩
  rwa [hostIn_moved hhost rest hpath]

theorem undoes_mirror {mirror' : MirrorName} {target' : Text}
    (hmirror : mirrorHost mirror = some target) (hmirror' : mirrorHost mirror' = some target')
    (hport : hasPort uri = false) :
    Undoes (replacementPairs family mirror replaceSecurity)
      (replacementPairs family mirror' replaceSecurity) uri := by
  have htarget := mirrorHost_mem mirror target hmirror
  by_cases hknown : ∃ scheme rest path suffix, splitOnce "://".toList uri = some (scheme, rest) ∧
      Known family replaceSecurity rest path suffix
  · obtain ⟨scheme, rest, path, suffix, hsplit, hknown⟩ := hknown
    have hhost := recognized_hosts target htarget
    obtain ⟨r, hr, rfl, -⟩ := hknown.host
    have hpath := head?_path hr suffix
    have hmoved := rewrittenUri_known hmirror hsplit hport hknown
    have hassoc : userinfoOf rest ++ (target ++ r.2) ++ suffix =
        userinfoOf rest ++ target ++ (r.2 ++ suffix) := by
      simp only [List.append_assoc]
    rw [hassoc] at hmoved
    obtain ⟨-, huserinfo, hauthority⟩ := authority_moved hhost rest hpath
    have hsplit' := splitOnce_append hsplit (userinfoOf rest ++ target ++ (r.2 ++ suffix))
    -- the moved URI has the same userinfo, and no port
    have hport' : hasPort (scheme ++ "://".toList ++
        (userinfoOf rest ++ target ++ (r.2 ++ suffix))) = false := by
      rw [hasPort, hsplit', Option.any_some, hauthority,
        hostOf_host (List.all_eq_true.mp hhost)]
      simp
    have hagain := rewrittenUri_known hmirror' hsplit' hport'
      (known_moved htarget hr rest hknown.boundary)
    rw [huserinfo] at hagain
    rw [Undoes, hmoved, hagain, rewrittenUri_known hmirror' hsplit hport hknown]
  · rw [Undoes, rewrittenUri_unknown hmirror]
    intro scheme rest path suffix hsplit hk
    exact hknown ⟨scheme, rest, path, suffix, hsplit, hk⟩

end Known

section Again

variable {family : Family} {replaceSecurity : Bool}

theorem mem_officialPairs {p : Text × Text} (hp : p ∈ officialPairs family) :
    ∃ host ∈ recognizedMirrorHosts, ∃ r ∈ repositories family true, p = (host ++ r.2, r.1) := by
  obtain ⟨host, hhost, hp⟩ := List.mem_flatMap.mp hp
  obtain ⟨r, hr, rfl⟩ := List.mem_map.mp hp
  exact ⟨host, hhost, r, hr, rfl⟩

theorem long_replacementPairs (mirror : MirrorName) :
    ∀ p ∈ replacementPairs family mirror replaceSecurity, 2 ≤ p.1.length := by
  have hlong {host t : Text} (h : host ∈ recognizedMirrorHosts) : 2 ≤ (host ++ t).length := by
    have hhost := long_hosts host h
    rw [List.length_append]
    omega
  intro p hp
  cases hmirror : mirrorHost mirror with
  | none =>
    rw [replacementPairs, hmirror] at hp
    obtain ⟨host, hhost, r, -, rfl⟩ := mem_officialPairs hp
    exact hlong hhost
  | some target =>
    obtain ⟨r, hr, -, hsource | ⟨other, hmem, -, hsource⟩⟩ := (mem_replacementPairs hmirror).mp hp
    · rw [hsource]
      exact (official_path r hr).2.2.2.2
    · rw [hsource]
      exact hlong hmem

theorem hosts_apart (mirror : MirrorName) :
    ∀ p ∈ replacementPairs family mirror replaceSecurity,
      ∀ q ∈ replacementPairs family mirror replaceSecurity,
        p.2.takeWhile (· ≠ '/') ≠ q.1.takeWhile (· ≠ '/') := by
  intro p hp q hq
  cases hmirror : mirrorHost mirror with
  | none =>
    rw [replacementPairs, hmirror] at hp hq
    obtain ⟨host, hhost, r, hr, rfl⟩ := mem_officialPairs hp
    obtain ⟨host', hhost', r', hr', rfl⟩ := mem_officialPairs hq
    obtain ⟨-, -, -, hno, -⟩ := official_path r hr
    obtain ⟨-, hpath, -⟩ := official_path r' hr'
    dsimp only
    rw [(hostPath_append (recognized_hosts host' hhost') hpath).2]
    exact fun he => hno (he ▸ hhost')
  | some target =>
    obtain ⟨r, hr, hnew, -⟩ := (mem_replacementPairs hmirror).mp hp
    obtain ⟨r', hr', -, hsource⟩ := (mem_replacementPairs hmirror).mp hq
    have htarget := mirrorHost_mem mirror target hmirror
    obtain ⟨-, hpath, -⟩ := official_path r hr
    obtain ⟨-, hpath', -, hno, -⟩ := official_path r' hr'
    rw [hnew, (hostPath_append (recognized_hosts target htarget) hpath).2]
    rcases hsource with hsource | ⟨other, hmem, hne, hsource⟩
    · rw [hsource]
      exact fun he => hno (he ▸ htarget)
    · rw [hsource, (hostPath_append (recognized_hosts other hmem) hpath').2]
      exact fun he => hne he.symm

theorem rewriteUri_rewrittenUri (mirror : MirrorName) (uri : Text) :
    rewriteUri (replacementPairs family mirror replaceSecurity)
      (rewrittenUri (replacementPairs family mirror replaceSecurity) uri) = none := by
  have hgood := goodPairs_replacementPairs family mirror replaceSecurity
  rw [rewrittenUri]
  cases hnew : rewriteUri (replacementPairs family mirror replaceSecurity) uri with
  | none => exact hnew
  | some new =>
    rw [Option.getD_some]
    obtain ⟨p, hp, scheme, rest, hsplit, hstart⟩ := rewriteUri_lands hgood hnew
    cases hagain : rewriteUri (replacementPairs family mirror replaceSecurity) new with
    | none => rfl
    | some again =>
      obtain ⟨scheme', rest', suffix, q, hq, hsplit', hcand, hend, -, -⟩ :=
        rewriteUri_spec hgood hagain
      obtain ⟨rfl, rfl⟩ := Prod.mk.inj (Option.some.inj (hsplit.symm.trans hsplit'))
      have hmatch : Matches q rest suffix := (matches_iff (hgood q hq).1).mpr ⟨hcand, hend⟩
      obtain ⟨s, hlands⟩ := (startsAtHost_iff (p := (p.2, p.2)) (hgood p hp).2.1).mp hstart
      exact absurd (hlands.host.symm.trans hmatch.host) (hosts_apart mirror p hp q hq)

theorem undoes_self (mirror : MirrorName) (uri : Text) :
    Undoes (replacementPairs family mirror replaceSecurity)
      (replacementPairs family mirror replaceSecurity) uri := by
  have hkept : rewriteUri (replacementPairs family mirror replaceSecurity)
      (rewrittenUri (replacementPairs family mirror replaceSecurity) uri) = none :=
    rewriteUri_rewrittenUri mirror uri
  rw [Undoes, rewrittenUri.eq_def _ (rewrittenUri _ uri), hkept, Option.getD_none]

end Again

end LandscapeKit.Mirror
