import LandscapeKit.MirrorReplace
import LandscapeKit.MirrorAptStanza

/-!
Repository files of dnf: blocks under headers in brackets. A block that holds a `baseurl=` line,
also one behind a `#`, is converted line by line: its URLs become active and go to the mirror, its
mirror lists are commented out.
-/

namespace LandscapeKit.Mirror.Dnf

open Text

/-- The official hosts with their paths, and the path each has on a mirror. -/
def dnfPaths : Family → List (Text × Text)
  | .fedora => [("download.fedoraproject.org/pub/epel".toList, "epel".toList),
      ("download.fedoraproject.org/pub/fedora".toList, "fedora".toList)]
  | .rocky => [("dl.rockylinux.org/$contentdir".toList, "rockylinux".toList)]
  | .alma => [("repo.almalinux.org/almalinux".toList, "almalinux".toList)]
  | _ => []

def onHost (host path : Text) : Text := host ++ ('/' :: path)

def officialPairs (family : Family) : List (Text × Text) :=
  recognizedMirrorHosts.flatMap fun host =>
    (dnfPaths family).map fun entry => (onHost host entry.2, entry.1)

def placeholder : Text := "download.example/pub/fedora".toList

def fedoraPlaceholder (family : Family) (mirror : MirrorName) : List (Text × Text) :=
  if family = .fedora then
    [(placeholder, ((mirrorHost mirror).map fun host => onHost host "fedora".toList).getD
      "download.fedoraproject.org/pub/fedora".toList)]
  else []

def replacementPairs (family : Family) (mirror : MirrorName) : List (Text × Text) :=
  match mirrorHost mirror with
  | none => officialPairs family ++ fedoraPlaceholder family mirror
  | some target =>
    let paths := dnfPaths family
    paths.map (fun entry => (entry.1, onHost target entry.2)) ++
      (recognizedMirrorHosts.filter (· ≠ target)).flatMap
        (fun other => paths.map fun entry => (onHost other entry.2, onHost target entry.2)) ++
      fedoraPlaceholder family mirror

structure Block where
  hasBaseurl : Bool
deriving DecidableEq

/-- `str::strip_prefix('#')`, or the whole text. -/
def withoutMark (text : Text) : Text := (stripLead "#".toList text).getD text

/-- Whether a trimmed line is the header of a block, and whether it is commented out. -/
def isSectionHeader (trimmed : Text) : Option Bool :=
  let body := ((stripLead "#".toList trimmed).map trimStart).getD trimmed
  if body.head? = some '[' ∧ body.getLast? = some ']' then some (trimmed.head? = some '#')
  else none

def isBaseurlLine (line : Text) : Bool :=
  "baseurl=".toList.isPrefixOf (trimStart (withoutMark (trimStart line)))

def isMirrorlistLine (line : Text) : Bool :=
  let trimmed := trimStart line
  "mirrorlist=".toList.isPrefixOf trimmed || "metalink=".toList.isPrefixOf trimmed

def parseFrom (hasBaseurl commentedSection : Bool) : List Text → List Block
  | [] => [⟨hasBaseurl⟩]
  | line :: lines =>
    match isSectionHeader (trim line) with
    | some commented => ⟨hasBaseurl⟩ :: parseFrom false commented lines
    | none =>
      parseFrom (hasBaseurl || (!commentedSection && isBaseurlLine (trim line)))
        commentedSection lines

/-- A line without its end: `\n` or `\r\n`. -/
def lineBody (line : Text) : Text :=
  if line.getLast? = some '\n' then Hostnet.stripCarriageReturn line.dropLast else line

def lines (content : Text) : List Text := (splitInclusive '\n' content).map lineBody

def parseBlocks (content : Text) : List Block := parseFrom false false (lines content)

/-- One line of a block that is converted, and whether this changed it. -/
def transformLine (line : Text) (pairs : List (Text × Text)) : Text × Bool :=
  let trimmed := trimStart line
  if isBaseurlLine trimmed then
    let indent := line.take (line.length - trimmed.length)
    let uncommented := trimStart (trimmed.dropWhile (· = '#'))
    match splitOnce "=".toList uncommented with
    | none => (line, false)
    | some (key, url) =>
      let rewrittenUrl := replaceHosts url pairs
      (indent ++ key ++ "=".toList ++ rewrittenUrl, url ≠ rewrittenUrl)
  else if isMirrorlistLine trimmed then ("#lkit-mirror: ".toList ++ line, true)
  else (line, false)

def rewriteFrom (blocks : List Block) (pairs : List (Text × Text)) :
    (currentBlock : ℕ) → List Text → List (Text × Bool)
  | _, [] => []
  | currentBlock, line :: lines =>
    let current :=
      if (isSectionHeader (trim line)).isSome then currentBlock + 1 else currentBlock
    let next :=
      match blocks[current]? with
      | some block => if block.hasBaseurl then transformLine line pairs else (line, false)
      | none => (line, false)
    next :: rewriteFrom blocks pairs current lines

structure DnfRewrite where
  content : Text
  skippedRepositories : ℕ
deriving DecidableEq

def unlines (lines : List Text) : Text := lines.flatMap fun line => line ++ ['\n']

def rewrite (content : Text) (family : Family) (mirror : MirrorName) : Option DnfRewrite :=
  let blocks := parseBlocks content
  let rewritten := rewriteFrom blocks (replacementPairs family mirror) 0 (lines content)
  if rewritten.any Prod.snd then
    some ⟨unlines (rewritten.map Prod.fst), (blocks.drop 1).countP fun block => !block.hasBaseurl⟩
  else none

section Tables

/-- Everything a URL is known by: the official hosts, the mirrors and the placeholder. -/
def recognizedHosts (family : Family) : List Text :=
  (dnfPaths family).map Prod.fst ++
    recognizedMirrorHosts.flatMap (fun host => (dnfPaths family).map fun e => onHost host e.2) ++
    if family = .fedora then [placeholder] else []

/-- What the hosts are replaced by. -/
def targets (family : Family) (mirror : MirrorName) : List Text :=
  match mirrorHost mirror with
  | none => (dnfPaths family).map Prod.fst
  | some host => (dnfPaths family).map fun entry => onHost host entry.2

theorem separate_recognizedHosts (family : Family) : Separate (recognizedHosts family) := by
  have hcheck : separate "dmr".toList (recognizedHosts family) = true := by
    unfold recognizedHosts recognizedMirrorHosts placeholder dnfPaths
    repeat rewrite [String.toList_ofList]
    cases family <;> decide +kernel
  exact of_separate hcheck

theorem closed_recognizedHosts (family : Family) :
    Closed isBoundary (recognizedHosts family) := by
  unfold recognizedHosts recognizedMirrorHosts placeholder dnfPaths
  repeat rewrite [String.toList_ofList]
  constructor <;> cases family <;> decide +kernel

theorem lineEnd_notMem (family : Family) :
    ∀ host ∈ recognizedHosts family, '\n' ∉ host ∧ '\r' ∉ host := by
  unfold recognizedHosts recognizedMirrorHosts placeholder dnfPaths
  repeat rewrite [String.toList_ofList]
  cases family <;> decide +kernel

theorem perm_recognizedHosts (family : Family) (mirror : MirrorName) :
    (targets family mirror ++ (replacementPairs family mirror).map Prod.fst).Perm
      (recognizedHosts family) := by
  have hplaceholder : (fedoraPlaceholder family mirror).map Prod.fst =
      if family = .fedora then [placeholder] else [] := by
    rw [fedoraPlaceholder]
    split <;> rfl
  rw [targets, replacementPairs, recognizedHosts]
  cases hhost : mirrorHost mirror with
  | none =>
    have hmirrors : (officialPairs family).map Prod.fst = recognizedMirrorHosts.flatMap
        fun host => (dnfPaths family).map fun e => onHost host e.2 := by
      rw [officialPairs, List.map_flatMap]
      simp [Function.comp_def]
    simp only [List.map_append, hplaceholder, hmirrors, List.append_assoc]
    exact List.Perm.refl _
  | some target =>
    have hmem : target ∈ recognizedMirrorHosts := mirrorHost_mem mirror target hhost
    have hnodup : recognizedMirrorHosts.Nodup := by decide +kernel
    have hperm : recognizedMirrorHosts.Perm
        (target :: recognizedMirrorHosts.filter (· ≠ target)) := by
      have herase := List.perm_cons_erase hmem
      rw [hnodup.erase_eq_filter] at herase
      convert herase using 3
      ext x
      by_cases hx : x = target <;> simp [hx]
    have hmirrors := hperm.flatMap_right fun host =>
      (dnfPaths family).map fun e => onHost host e.2
    rw [List.flatMap_cons] at hmirrors
    simp only [List.map_append, List.map_map, List.map_flatMap, hplaceholder, Function.comp_def,
      List.append_assoc]
    apply (List.perm_append_comm_assoc ..).trans
    apply List.Perm.append_left
    rw [← List.append_assoc]
    exact hmirrors.symm.append_right _

theorem replacementPairs_target {family : Family} {mirror : MirrorName} :
    ∀ pair ∈ replacementPairs family mirror, pair.2 ∈ targets family mirror := by
  intro pair hpair
  rw [targets]
  rw [replacementPairs] at hpair
  cases hhost : mirrorHost mirror with
  | none =>
    rw [hhost] at hpair
    rcases List.mem_append.mp hpair with h | h
    · obtain ⟨host, -, h⟩ := List.mem_flatMap.mp h
      obtain ⟨entry, hentry, rfl⟩ := List.mem_map.mp h
      exact List.mem_map_of_mem hentry
    · rw [fedoraPlaceholder, hhost] at h
      split at h
      · rename_i hfedora
        rw [List.mem_singleton.mp h, hfedora]
        decide +kernel
      · cases h
  | some target =>
    rw [hhost] at hpair
    rcases List.mem_append.mp hpair with h | h
    · rcases List.mem_append.mp h with h | h
      · obtain ⟨entry, hentry, rfl⟩ := List.mem_map.mp h
        exact List.mem_map.mpr ⟨entry, hentry, rfl⟩
      · obtain ⟨other, -, h⟩ := List.mem_flatMap.mp h
        obtain ⟨entry, hentry, rfl⟩ := List.mem_map.mp h
        exact List.mem_map.mpr ⟨entry, hentry, rfl⟩
    · rw [fedoraPlaceholder, hhost] at h
      split at h
      · rename_i hfedora
        rw [List.mem_singleton.mp h, hfedora]
        exact List.mem_cons_of_mem _ (List.mem_cons_self ..)
      · cases h

theorem pairTable (family : Family) (mirror : MirrorName) :
    PairTable (recognizedHosts family) (replacementPairs family mirror) := by
  have hperm := perm_recognizedHosts family mirror
  have hnodup := List.nodup_append.mp (hperm.nodup_iff.mpr (separate_recognizedHosts family).nodup)
  have hsource : ∀ pair ∈ replacementPairs family mirror,
      pair.1 ∈ (replacementPairs family mirror).map Prod.fst :=
    fun pair hpair => List.mem_map_of_mem hpair
  refine ⟨separate_recognizedHosts family, closed_recognizedHosts family, ?_, ?_, ?_, ?_⟩
  · intro pair hpair
    exact hperm.subset (List.mem_append_right _ (hsource pair hpair))
  · intro pair hpair
    exact hperm.subset (List.mem_append_left _ (replacementPairs_target pair hpair))
  · exact List.pairwise_map.mp hnodup.2.1
  · intro p hp q hq
    exact hnodup.2.2 _ (replacementPairs_target p hp) _ (hsource q hq)

theorem recognized_cases {family : Family} (mirror : MirrorName) {host : Text}
    (h : host ∈ recognizedHosts family) : host ∈ targets family mirror ∨
      ∃ target ∈ targets family mirror, (host, target) ∈ replacementPairs family mirror := by
  rcases List.mem_append.mp ((perm_recognizedHosts family mirror).mem_iff.mpr h) with h | h
  · exact .inl h
  · obtain ⟨pair, hpair, rfl⟩ := List.mem_map.mp h
    exact .inr ⟨pair.2, replacementPairs_target pair hpair, hpair⟩

end Tables

end LandscapeKit.Mirror.Dnf
