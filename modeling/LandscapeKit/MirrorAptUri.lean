import LandscapeKit.MirrorAptRewrite

/-!
What rewriting does to one URI: the new one is on the target's host and path, differs from the
old one, and is read as the old one was (its first characters and its kind stay).
-/

namespace LandscapeKit.Mirror

open Text

section HostPaths

def isHostChar (c : Char) : Bool := isAsciiAlphanumeric c || c = '.' || c = '-'

def isHostPath (t : Text) : Bool := '/' ∈ t && t.all fun c => isHostChar c || c = '/'

/-- What a pair replaces and what it puts in its place are on different hosts. -/
def GoodPairs (pairs : List (Text × Text)) : Prop :=
  ∀ p ∈ pairs, isHostPath p.1 = true ∧ isHostPath p.2 = true ∧
    p.1.takeWhile (· ≠ '/') ≠ p.2.takeWhile (· ≠ '/')

def isPath (t : Text) : Bool := t.head? = some '/' && t.all fun c => isHostChar c || c = '/'

theorem official_paths (family : Family) :
    ∀ p ∈ aptSecurityPaths family ++ aptPaths family,
      isHostPath p.1 = true ∧ isPath p.2 = true ∧
        p.1.takeWhile (· ≠ '/') ∉ recognizedMirrorHosts := by
  unfold aptSecurityPaths aptPaths recognizedMirrorHosts
  repeat rewrite [String.toList_ofList]
  cases family <;> decide +kernel

theorem recognized_hosts : ∀ host ∈ recognizedMirrorHosts, host.all isHostChar = true := by
  unfold recognizedMirrorHosts
  repeat rewrite [String.toList_ofList]
  decide +kernel

variable {t : Text}

theorem exists_host (h : isHostPath t = true) :
    ∃ host path, t = host ++ '/' :: path ∧ (∀ c ∈ host, isHostChar c = true) := by
  rw [isHostPath, Bool.and_eq_true, decide_eq_true_eq] at h
  obtain ⟨host, path, htext, hhost⟩ := List.eq_append_cons_of_mem h.1
  refine ⟨host, path, htext, ?_⟩
  intro c hc
  have hall := List.all_eq_true.mp h.2 c (by rw [htext]; exact List.mem_append_left _ hc)
  rcases Bool.or_eq_true_iff.mp hall with hchar | hslash
  · exact hchar
  · rw [decide_eq_true_eq] at hslash
    exact absurd (hslash ▸ hc) hhost

theorem isHostChar_ne {c d : Char} (h : isHostChar c = true) (hd : isHostChar d = false) :
    c ≠ d := by
  intro he
  rw [he, hd] at h
  cases h

theorem takeWhile_ne {c : Char} {a b : Text} (h : ∀ d ∈ a, d ≠ c) :
    (a ++ c :: b).takeWhile (· ≠ c) = a ∧ (a ++ c :: b).dropWhile (· ≠ c) = c :: b := by
  have hall : ∀ d ∈ a, decide (d ≠ c) = true := fun d hd => decide_eq_true (h d hd)
  rw [List.takeWhile_append_of_pos hall, List.dropWhile_append_of_pos hall]
  simp

theorem hostPath_append {host path : Text} (h : host.all isHostChar = true)
    (hp : isPath path = true) :
    isHostPath (host ++ path) = true ∧ (host ++ path).takeWhile (· ≠ '/') = host := by
  rw [isPath, Bool.and_eq_true, decide_eq_true_eq] at hp
  obtain ⟨hhead, hall⟩ := hp
  cases path with
  | nil => cases hhead
  | cons c path =>
    rw [List.head?_cons, Option.some_inj] at hhead
    rw [hhead] at hall ⊢
    constructor
    · rw [isHostPath, Bool.and_eq_true, List.all_append, Bool.and_eq_true]
      refine ⟨by simp, ?_, hall⟩
      apply List.all_eq_true.mpr
      intro d hd
      rw [List.all_eq_true.mp h d hd, Bool.true_or]
    · apply (takeWhile_ne _).1
      exact fun d hd => isHostChar_ne (List.all_eq_true.mp h d hd) (by decide)

theorem goodPairs_replacementPairs (family : Family) (mirror : MirrorName)
    (replaceSecurity : Bool) : GoodPairs (replacementPairs family mirror replaceSecurity) := by
  intro p hp
  rw [replacementPairs] at hp
  cases hm : mirrorHost mirror with
  | none =>
    -- back from a known mirror to the official host
    rw [hm] at hp
    obtain ⟨host, hhost, hp⟩ := List.mem_flatMap.mp hp
    obtain ⟨q, hq, rfl⟩ := List.mem_map.mp hp
    obtain ⟨h1, h2, h3⟩ := official_paths family q hq
    obtain ⟨h4, h5⟩ := hostPath_append (recognized_hosts host hhost) h2
    refine ⟨h4, h1, ?_⟩
    intro he
    exact h3 (he.symm.trans h5 ▸ hhost)
  | some target =>
    rw [hm] at hp
    have htarget := mirrorHost_mem mirror target hm
    have hpaths (q : Text × Text)
        (hq : q ∈ (if replaceSecurity then aptSecurityPaths family else []) ++ aptPaths family) :
        q ∈ aptSecurityPaths family ++ aptPaths family := by
      rcases List.mem_append.mp hq with hq | hq
      · split at hq
        · exact List.mem_append_left _ hq
        · cases hq
      · exact List.mem_append_right _ hq
    rcases List.mem_append.mp hp with hp | hp
    · obtain ⟨q, hq, rfl⟩ := List.mem_map.mp hp
      obtain ⟨h1, h2, h3⟩ := official_paths family q (hpaths q hq)
      obtain ⟨h4, h5⟩ := hostPath_append (recognized_hosts target htarget) h2
      refine ⟨h1, h4, ?_⟩
      intro he
      exact h3 (he.trans h5 ▸ htarget)
    · -- from another known mirror to this one
      obtain ⟨other, hother, hp⟩ := List.mem_flatMap.mp hp
      obtain ⟨q, hq, rfl⟩ := List.mem_map.mp hp
      obtain ⟨hmem, hne⟩ := List.mem_filter.mp hother
      obtain ⟨-, h2, -⟩ := official_paths family q (hpaths q hq)
      obtain ⟨h4, h5⟩ := hostPath_append (recognized_hosts target htarget) h2
      obtain ⟨h6, h7⟩ := hostPath_append (recognized_hosts other hmem) h2
      refine ⟨h6, h4, ?_⟩
      intro he
      rw [h5, h7] at he
      simp [he] at hne

theorem hostOf_host {host : Text} (h : ∀ c ∈ host, isHostChar c = true) : hostOf host = host := by
  have hne (d : Char) (hd : isHostChar d = false) : d ∉ host :=
    fun hmem => isHostChar_ne (h d hmem) hd rfl
  rw [hostOf]
  split
  · rfl
  · apply List.takeWhile_eq_self_iff.mpr
    intro c hc
    exact decide_eq_true (isHostChar_ne (h c hc) (by decide))

end HostPaths

section Candidates

/-- The userinfo of a URI behind its scheme, with its `@`. -/
def userinfoOf (rest : Text) : Text :=
  ((splitUserinfo (splitPath rest).1).1.map (· ++ ['@'])).getD []

theorem splitPath_append (rest : Text) : (splitPath rest).1 ++ (splitPath rest).2 = rest :=
  List.takeWhile_append_dropWhile

theorem userinfoOf_subset {rest : Text} {c : Char} (h : c ∈ userinfoOf rest) :
    c ∈ (splitPath rest).1 := by
  rw [userinfoOf, splitUserinfo] at h
  cases hsplit : rsplitOnce '@' (splitPath rest).1 with
  | none => simp [hsplit] at h
  | some found =>
    obtain ⟨userinfo, hostport⟩ := found
    simp only [hsplit, Option.map_some, Option.getD_some, List.mem_append,
      List.mem_singleton] at h
    rw [(rsplitOnce_spec hsplit).1]
    rcases h with h | rfl
    · exact List.mem_append_left _ h
    · exact List.mem_append_right _ (List.mem_cons_self ..)

theorem slash_notMem_authority (rest : Text) : '/' ∉ (splitPath rest).1 := by
  intro h
  have hp := List.mem_takeWhile_imp h
  simp at hp

theorem authority_moved {host : Text} (hhost : host.all isHostChar = true) (rest : Text)
    {path : Text} (hpath : path.head? = some '/') :
    (splitPath (userinfoOf rest ++ host ++ path)).2 = path ∧
      userinfoOf (userinfoOf rest ++ host ++ path) = userinfoOf rest ∧
      (splitUserinfo (splitPath (userinfoOf rest ++ host ++ path)).1).2 = host := by
  rw [List.all_eq_true] at hhost
  obtain ⟨tail, rfl⟩ : ∃ tail, path = '/' :: tail := by
    cases path with
    | nil => cases hpath
    | cons c tail => exact ⟨tail, by rw [Option.some.inj hpath]⟩
  have hslash : ∀ c ∈ userinfoOf rest ++ host, c ≠ '/' := by
    intro c hc he
    rcases List.mem_append.mp hc with hc | hc
    · exact slash_notMem_authority rest (he ▸ userinfoOf_subset hc)
    · exact isHostChar_ne (hhost c hc) (by decide) he
  have hat : '@' ∉ host := fun hmem => isHostChar_ne (hhost _ hmem) (by decide) rfl
  have hsplit : splitUserinfo (userinfoOf rest ++ host) =
      ((splitUserinfo (splitPath rest).1).1, host) := by
    rw [userinfoOf]
    cases (splitUserinfo (splitPath rest).1).1 with
    | none =>
      rw [Option.map_none, Option.getD_none, List.nil_append, splitUserinfo, rsplitOnce_none hat]
    | some userinfo =>
      rw [Option.map_some, Option.getD_some, List.append_assoc, List.singleton_append,
        splitUserinfo, rsplitOnce_append hat]
  obtain ⟨htake, hdrop⟩ := takeWhile_ne hslash
  have hpath : splitPath (userinfoOf rest ++ host ++ '/' :: tail) =
      (userinfoOf rest ++ host, '/' :: tail) := by
    rw [splitPath, htake, hdrop]
  refine ⟨by rw [hpath], ?_, by rw [hpath, hsplit]⟩
  rw [userinfoOf, hpath, hsplit]
  rfl

theorem candidateOf_moved {target : Text} (h : isHostPath target = true) (rest suffix : Text) :
    candidateOf (userinfoOf rest ++ target ++ suffix) = target ++ suffix := by
  obtain ⟨host, path, rfl, hhost⟩ := exists_host h
  have hassoc : userinfoOf rest ++ (host ++ '/' :: path) ++ suffix =
      userinfoOf rest ++ host ++ '/' :: (path ++ suffix) := by simp
  have hslash : ('/' :: (path ++ suffix)).head? = some '/' := rfl
  obtain ⟨hpath, -, hauthority⟩ := authority_moved (List.all_eq_true.mpr hhost) rest hslash
  rw [hassoc, candidateOf, hauthority, hpath, hostOf_host hhost]
  simp

end Candidates

section RewriteUri

variable {pairs : List (Text × Text)} {p : Text × Text} {rest suffix uri new : Text}

theorem rewriteUri_eq (pairs : List (Text × Text)) (uri : Text) :
    rewriteUri pairs uri = (splitOnce "://".toList uri).bind fun s =>
      pairs.findSome? fun p =>
        if startsAtHost p.1 (candidateOf s.2) then
          some (s.1 ++ "://".toList ++ userinfoOf s.2 ++ p.2 ++
            (splitPath s.2).2.drop
              (p.1.length - (hostOf (splitUserinfo (splitPath s.2).1).2).length))
        else none := rfl

/-- The host of a URI behind its scheme, without userinfo and port. -/
def hostIn (rest : Text) : Text := hostOf (splitUserinfo (splitPath rest).1).2

/-- A pair is about a URI: its host, and its path with `suffix` behind it. -/
structure Matches (p : Text × Text) (rest suffix : Text) : Prop where
  host : hostIn rest = p.1.takeWhile (· ≠ '/')
  path : (splitPath rest).2 = p.1.dropWhile (· ≠ '/') ++ suffix
  boundary : endsAtBoundary suffix = true

theorem slash_notMem_host (rest : Text) : '/' ∉ hostIn rest := by
  intro hmem
  apply slash_notMem_authority rest
  have hport : '/' ∈ (splitUserinfo (splitPath rest).1).2 := by
    rw [hostIn, hostOf] at hmem
    split at hmem
    · exact hmem
    · exact (List.takeWhile_prefix _).subset hmem
  rw [splitUserinfo] at hport
  cases hat : rsplitOnce '@' (splitPath rest).1 with
  | none => rwa [hat] at hport
  | some found =>
    rw [hat] at hport
    rw [(rsplitOnce_spec hat).1]
    exact List.mem_append_right _ (List.mem_cons_of_mem _ hport)

theorem matches_iff (hp : isHostPath p.1 = true) :
    Matches p rest suffix ↔ candidateOf rest = p.1 ++ suffix ∧ endsAtBoundary suffix = true := by
  obtain ⟨host, path, hpair, hhost⟩ := exists_host hp
  have hne : ∀ c ∈ host, c ≠ '/' := fun c hc => isHostChar_ne (hhost c hc) rfl
  obtain ⟨htake, hdrop⟩ := takeWhile_ne (b := path) hne
  rw [← hpair] at htake hdrop
  have hrest : ∀ c ∈ hostIn rest, c ≠ '/' := fun c hc he => slash_notMem_host rest (he ▸ hc)
  constructor
  · intro h
    refine ⟨?_, h.boundary⟩
    rw [candidateOf, ← hostIn, h.host, h.path, ← List.append_assoc,
      List.takeWhile_append_dropWhile]
  · rintro ⟨hcand, hend⟩
    rw [candidateOf, ← hostIn, hpair, List.append_assoc, List.cons_append] at hcand
    obtain ⟨ht, hd⟩ := takeWhile_ne (b := path ++ suffix) hne
    rw [← hcand] at ht hd
    -- the path is empty or begins with the `/` the host ends at
    obtain ⟨tail, htail⟩ : ∃ tail, (splitPath rest).2 = '/' :: tail := by
      cases hpath : (splitPath rest).2 with
      | nil =>
        rw [hpath, List.append_nil] at hcand
        exact absurd (hcand ▸ by simp) (slash_notMem_host rest)
      | cons c tail =>
        have hc := List.head?_dropWhile_not (· ≠ '/') rest
        have hsplit : rest.dropWhile (· ≠ '/') = c :: tail := hpath
        rw [hsplit] at hc
        have hslash : c = '/' := by simpa using hc
        exact ⟨tail, by rw [hslash]⟩
    obtain ⟨ht', hd'⟩ := takeWhile_ne (b := tail) hrest
    rw [← htail] at ht' hd'
    refine ⟨?_, ?_, hend⟩
    · rw [htake, ← ht', ht]
    · rw [hdrop, ← hd', hd, List.cons_append]

theorem startsAtHost_iff (hp : isHostPath p.1 = true) :
    startsAtHost p.1 (candidateOf rest) = true ↔ ∃ suffix, Matches p rest suffix := by
  rw [startsAtHost, Bool.and_eq_true, List.isPrefixOf_iff_prefix]
  constructor
  · rintro ⟨⟨suffix, hsuffix⟩, hend⟩
    rw [← hsuffix, List.drop_left] at hend
    exact ⟨suffix, (matches_iff hp).mpr ⟨hsuffix.symm, hend⟩⟩
  · rintro ⟨suffix, h⟩
    obtain ⟨hcand, hend⟩ := (matches_iff hp).mp h
    rw [hcand, List.drop_left]
    exact ⟨List.prefix_append .., hend⟩

theorem Matches.drop (h : Matches p rest suffix) :
    (splitPath rest).2.drop (p.1.length - (hostIn rest).length) = suffix := by
  have hlen : p.1.length - (hostIn rest).length = (p.1.dropWhile (· ≠ '/')).length := by
    have hcut := congrArg List.length
      (List.takeWhile_append_dropWhile (p := fun c => decide (c ≠ '/')) (l := p.1))
    rw [List.length_append] at hcut
    rw [h.host]
    omega
  rw [hlen, h.path, List.drop_left]

theorem rewriteUri_iff (hgood : GoodPairs pairs) :
    rewriteUri pairs uri = some new ↔ ∃ scheme rest before p after suffix,
      splitOnce "://".toList uri = some (scheme, rest) ∧ pairs = before ++ p :: after ∧
      Matches p rest suffix ∧ (∀ q ∈ before, ∀ s, ¬ Matches q rest s) ∧
      new = scheme ++ "://".toList ++ (userinfoOf rest ++ p.2 ++ suffix) := by
  rw [rewriteUri_eq, Option.bind_eq_some_iff]
  constructor
  · rintro ⟨⟨scheme, rest⟩, hsplit, h⟩
    obtain ⟨before, p, after, hpairs, hnew, hbefore⟩ := List.findSome?_eq_some_iff.mp h
    obtain ⟨hstart, hnew⟩ := Option.ite_none_right_eq_some.mp hnew
    have hmem (q : Text × Text) (hq : q ∈ before ++ p :: after) : isHostPath q.1 = true :=
      (hgood q (hpairs ▸ hq)).1
    obtain ⟨suffix, hmatch⟩ := (startsAtHost_iff (hmem p (by simp))).mp hstart
    refine ⟨scheme, rest, before, p, after, suffix, hsplit, hpairs, hmatch, ?_, ?_⟩
    · intro q hq s hs
      have hno := hbefore q hq
      rw [if_pos ((startsAtHost_iff (hmem q (List.mem_append_left _ hq))).mpr ⟨s, hs⟩)] at hno
      cases hno
    · have hdrop := hmatch.drop
      rw [hostIn] at hdrop
      rw [← Option.some.inj hnew, hdrop]
      simp only [List.append_assoc]
  · rintro ⟨scheme, rest, before, p, after, suffix, hsplit, hpairs, hmatch, hbefore, rfl⟩
    refine ⟨(scheme, rest), hsplit, ?_⟩
    have hmem (q : Text × Text) (hq : q ∈ before ++ p :: after) : isHostPath q.1 = true :=
      (hgood q (hpairs ▸ hq)).1
    rw [List.findSome?_eq_some_iff]
    refine ⟨before, p, after, hpairs, ?_, ?_⟩
    · have hdrop := hmatch.drop
      rw [hostIn] at hdrop
      rw [if_pos ((startsAtHost_iff (hmem p (by simp))).mpr ⟨suffix, hmatch⟩), hdrop]
      simp only [List.append_assoc]
    · intro q hq
      rw [if_neg]
      intro hstart
      obtain ⟨s, hs⟩ := (startsAtHost_iff (hmem q (List.mem_append_left _ hq))).mp hstart
      exact hbefore q hq s hs

theorem exists_rewriteUri (hgood : GoodPairs pairs) {scheme : Text}
    (hsplit : splitOnce "://".toList uri = some (scheme, rest)) (hp : p ∈ pairs)
    (h : Matches p rest suffix) : ∃ new, rewriteUri pairs uri = some new := by
  have hstart := (startsAtHost_iff (hgood p hp).1).mpr ⟨suffix, h⟩
  cases hnew : rewriteUri pairs uri with
  | some new => exact ⟨new, rfl⟩
  | none =>
    rw [rewriteUri_eq, hsplit, Option.bind_some, List.findSome?_eq_none_iff] at hnew
    have hno := hnew p hp
    rw [if_pos hstart] at hno
    cases hno

theorem rewriteUri_spec (hgood : GoodPairs pairs) (h : rewriteUri pairs uri = some new) :
    ∃ scheme rest suffix, ∃ p ∈ pairs,
      splitOnce "://".toList uri = some (scheme, rest) ∧
      candidateOf rest = p.1 ++ suffix ∧ endsAtBoundary suffix = true ∧
      (∀ c ∈ suffix, c ∈ rest) ∧
      new = scheme ++ "://".toList ++ (userinfoOf rest ++ p.2 ++ suffix) := by
  obtain ⟨scheme, rest, before, p, after, suffix, hsplit, rfl, hmatch, -, hnew⟩ :=
    (rewriteUri_iff hgood).mp h
  have hp : p ∈ before ++ p :: after := by simp
  obtain ⟨hcand, hend⟩ := (matches_iff (hgood p hp).1).mp hmatch
  refine ⟨scheme, rest, suffix, p, hp, hsplit, hcand, hend, ?_, hnew⟩
  intro c hc
  rw [← splitPath_append rest, hmatch.path]
  exact List.mem_append_right _ (List.mem_append_right _ hc)

theorem rewriteUri_lands (hgood : GoodPairs pairs) (h : rewriteUri pairs uri = some new) :
    ∃ p ∈ pairs, ∃ scheme rest, splitOnce "://".toList new = some (scheme, rest) ∧
      startsAtHost p.2 (candidateOf rest) = true := by
  obtain ⟨scheme, rest, suffix, p, hp, hsplit, -, hend, -, rfl⟩ := rewriteUri_spec hgood h
  refine ⟨p, hp, scheme, _, splitOnce_append hsplit _, ?_⟩
  rw [candidateOf_moved (hgood p hp).2.1, startsAtHost, List.drop_left, hend, Bool.and_true]
  exact List.isPrefixOf_iff_prefix.mpr (List.prefix_append ..)

theorem rewriteUri_ne (hgood : GoodPairs pairs) (h : rewriteUri pairs uri = some new) :
    new ≠ uri := by
  obtain ⟨scheme, rest, suffix, p, hp, hsplit, hcand, -, -, rfl⟩ := rewriteUri_spec hgood h
  obtain ⟨h1, h2, hne⟩ := hgood p hp
  intro he
  have hnew := splitOnce_append hsplit (userinfoOf rest ++ p.2 ++ suffix)
  rw [he, hsplit] at hnew
  have hrest : rest = userinfoOf rest ++ p.2 ++ suffix :=
    congrArg Prod.snd (Option.some.inj hnew)
  have hmoved := candidateOf_moved h2 rest suffix
  rw [← hrest, hcand] at hmoved
  -- both texts begin the same URI, so their hosts are the same
  have hhost (t : Text) (ht : isHostPath t = true) :
      (t ++ suffix).takeWhile (· ≠ '/') = t.takeWhile (· ≠ '/') := by
    obtain ⟨host, path, rfl, hhost⟩ := exists_host ht
    have hslash : ∀ c ∈ host, c ≠ '/' := fun c hc => isHostChar_ne (hhost c hc) (by decide)
    rw [List.append_assoc, List.cons_append, (takeWhile_ne hslash).1, (takeWhile_ne hslash).1]
  apply hne
  rw [← hhost p.1 h1, hmoved, hhost p.2 h2]

theorem isTokenChar_of_hostPath {t : Text} (h : isHostPath t = true) {c : Char} (hc : c ∈ t) :
    isTokenChar c = true := by
  rw [isHostPath, Bool.and_eq_true] at h
  have hall := List.all_eq_true.mp h.2 c hc
  by_contra hno
  have hblank : isAsciiWhitespace c = true ∨ c = '#' := by
    by_contra hboth
    apply hno
    rw [not_or] at hboth
    simp [isTokenChar, hboth.1, hboth.2]
  have hcases : c = ' ' ∨ c = '\t' ∨ c = '\n' ∨ c = '\x0c' ∨ c = '\r' ∨ c = '#' := by
    rcases hblank with hb | hb
    · simpa [isAsciiWhitespace, or_assoc] using Or.inl hb
    · simp [hb]
  obtain rfl | rfl | rfl | rfl | rfl | rfl := hcases <;> revert hall <;> decide

theorem mem_rewrittenUri (hgood : GoodPairs pairs) {c : Char} (h : c ∈ rewrittenUri pairs uri) :
    c ∈ uri ∨ isTokenChar c = true := by
  rw [rewrittenUri] at h
  cases hnew : rewriteUri pairs uri with
  | none =>
    rw [hnew] at h
    exact .inl h
  | some new =>
    obtain ⟨scheme, rest, suffix, p, hp, hsplit, -, -, hsub, rfl⟩ := rewriteUri_spec hgood hnew
    have huri := splitOnce_spec hsplit
    have hrest (d : Char) (hd : d ∈ rest) : d ∈ uri := by
      rw [huri]
      exact List.mem_append_right _ hd
    rw [hnew, Option.getD_some] at h
    simp only [List.mem_append] at h
    rcases h with (h | h) | (h | h) | h
    · left
      rw [huri]
      simp [h]
    · left
      rw [huri]
      exact List.mem_append_left _ (List.mem_append_right _ h)
    · left
      apply hrest
      rw [← splitPath_append rest]
      exact List.mem_append_left _ (userinfoOf_subset h)
    · exact .inr (isTokenChar_of_hostPath (hgood p hp).2.1 h)
    · exact .inl (hrest c (hsub c h))

theorem isTokenChar_rewrittenUri (hgood : GoodPairs pairs)
    (h : ∀ c ∈ uri, isTokenChar c = true) : ∀ c ∈ rewrittenUri pairs uri, isTokenChar c = true :=
  fun c hc => (mem_rewrittenUri hgood hc).elim (h c) id

theorem rewrittenUri_shape (hgood : GoodPairs pairs) (uri : Text) :
    rewrittenUri pairs uri = uri ∨ ∃ scheme rest rest',
      splitOnce "://".toList uri = some (scheme, rest) ∧
      rewrittenUri pairs uri = scheme ++ "://".toList ++ rest' := by
  rw [rewrittenUri]
  cases hnew : rewriteUri pairs uri with
  | none => exact .inl rfl
  | some new =>
    obtain ⟨scheme, rest, suffix, p, -, hsplit, -, -, -, rfl⟩ := rewriteUri_spec hgood hnew
    exact .inr ⟨scheme, rest, _, hsplit, rfl⟩

theorem head?_rewrittenUri (hgood : GoodPairs pairs) (uri : Text) :
    (rewrittenUri pairs uri).head? = uri.head? := by
  rcases rewrittenUri_shape hgood uri with he | ⟨scheme, rest, rest', hsplit, he⟩
  · rw [he]
  · rw [he, splitOnce_spec hsplit]
    cases scheme with
    | nil => rfl
    | cons c scheme => rfl

theorem containsText_rewrittenUri (hgood : GoodPairs pairs) (uri : Text) :
    containsText "://".toList (rewrittenUri pairs uri) = containsText "://".toList uri := by
  rcases rewrittenUri_shape hgood uri with he | ⟨scheme, rest, rest', hsplit, he⟩
  · rw [he]
  · have hcontains {t a b : Text} (h : splitOnce "://".toList t = some (a, b)) :
        containsText "://".toList t = true := by
      obtain ⟨n, hn, -⟩ := Option.map_eq_some_iff.mp h
      rw [containsText, hn, Option.isSome_some]
    rw [he, hcontains hsplit, hcontains (splitOnce_append hsplit rest')]

theorem isCdromUri_scheme (scheme rest : Text) :
    isCdromUri (scheme ++ "://".toList ++ rest) = isCdromUri (scheme ++ "://".toList) := by
  rcases scheme with _ | ⟨a, _ | ⟨b, _ | ⟨c, _ | ⟨d, _ | ⟨e, _ | ⟨f, scheme⟩⟩⟩⟩⟩⟩ <;>
    simp [isCdromUri, List.isPrefixOf]

theorem isCdromUri_rewrittenUri (hgood : GoodPairs pairs) (uri : Text) :
    isCdromUri (rewrittenUri pairs uri) = isCdromUri uri := by
  rcases rewrittenUri_shape hgood uri with he | ⟨scheme, rest, rest', hsplit, he⟩
  · rw [he]
  · rw [he, splitOnce_spec hsplit, isCdromUri_scheme, isCdromUri_scheme scheme rest]

end RewriteUri

end LandscapeKit.Mirror
