import LandscapeKit.LibSplice
import LandscapeKit.MirrorAptParse

/-!
What lkit does with the text of an apt source file: URIs on known hosts move to the mirror,
entries that became duplicates go, `cdrom:` entries are converted or commented out, and new
entries are made up where nothing else helps.
-/

namespace LandscapeKit.Mirror

open Text Splice

/-- `uname`'s machine decides between the Ubuntu archive and its ports. -/
def isPortsArch (arch : Text) : Bool :=
  "arm".toList.isPrefixOf arch || "aarch64".toList.isPrefixOf arch ||
    "riscv".toList.isPrefixOf arch || "ppc".toList.isPrefixOf arch || "s390".toList.isPrefixOf arch

/-- The official hosts and the paths mirrors have for them; special paths come first. -/
def aptPaths : Family → List (Text × Text)
  | .debian =>
    [("deb.debian.org/debian-backports".toList, "/debian-backports".toList),
      ("deb.debian.org/debian-ports".toList, "/debian-ports".toList),
      ("deb.debian.org/debian".toList, "/debian".toList)]
  | .ubuntu =>
    [("ports.ubuntu.com/ubuntu-ports".toList, "/ubuntu-ports".toList),
      ("archive.ubuntu.com/ubuntu-ports".toList, "/ubuntu-ports".toList),
      ("archive.ubuntu.com/ubuntu".toList, "/ubuntu".toList),
      ("security.ubuntu.com/ubuntu".toList, "/ubuntu".toList)]
  | _ => []

def aptSecurityPaths : Family → List (Text × Text)
  | .debian =>
    [("deb.debian.org/debian-security".toList, "/debian-security".toList),
      ("security.debian.org/debian-security".toList, "/debian-security".toList)]
  | _ => []

/-- Every known mirror, with security, back to the official hosts. -/
def officialPairs (family : Family) : List (Text × Text) :=
  recognizedMirrorHosts.flatMap fun mirror =>
    (aptSecurityPaths family ++ aptPaths family).map fun (official, path) =>
      (mirror ++ path, official)

/-- What is replaced by what, in the order in which it is tried. -/
def replacementPairs (family : Family) (mirror : MirrorName) (replaceSecurity : Bool) :
    List (Text × Text) :=
  match mirrorHost mirror with
  | none => officialPairs family
  | some target =>
    let paths := (if replaceSecurity then aptSecurityPaths family else []) ++ aptPaths family
    paths.map (fun (official, path) => (official, target ++ path)) ++
      (recognizedMirrorHosts.filter (· ≠ target)).flatMap fun other =>
        paths.map fun (_, path) => (other ++ path, target ++ path)

section Uris

/-- The authority, and the path with its leading `/`. -/
def splitPath (rest : Text) : Text × Text :=
  (rest.takeWhile (· ≠ '/'), rest.dropWhile (· ≠ '/'))

def splitUserinfo (authority : Text) : Option Text × Text :=
  match rsplitOnce '@' authority with
  | none => (none, authority)
  | some (userinfo, hostport) => (some userinfo, hostport)

/-- The host without its port; a literal in brackets is left as it is. -/
def hostOf (hostport : Text) : Text :=
  if hostport.head? = some '[' then hostport else hostport.takeWhile (· ≠ ':')

/-- Host and path of a URI behind its scheme, without userinfo and port. -/
def candidateOf (rest : Text) : Text :=
  hostOf (splitUserinfo (splitPath rest).1).2 ++ (splitPath rest).2

/-- A host with a path that `candidate` begins with, up to a boundary. -/
def startsAtHost (host candidate : Text) : Bool :=
  host.isPrefixOf candidate && endsAtBoundary (candidate.drop host.length)

def AptEntry.containsHost (host : Text) (e : AptEntry) : Bool :=
  e.uris.any fun u =>
    (splitOnce "://".toList u.value).any fun (_, rest) => startsAtHost host (candidateOf rest)

/-- Scheme, userinfo and the rest of the path stay; a port goes with the host it belongs to. -/
def rewriteUri (pairs : List (Text × Text)) (uri : Text) : Option Text :=
  (splitOnce "://".toList uri).bind fun (scheme, rest) =>
    let (authority, path) := splitPath rest
    let (userinfo, hostport) := splitUserinfo authority
    let host := hostOf hostport
    pairs.findSome? fun (source, target) =>
      if startsAtHost source (host ++ path) then
        some (scheme ++ "://".toList ++ (userinfo.map (· ++ ['@'])).getD [] ++ target ++
          path.drop (source.length - host.length))
      else none

def rewrittenUri (pairs : List (Text × Text)) (uri : Text) : Text :=
  (rewriteUri pairs uri).getD uri

/-- apt makes no difference between schemes, nor by a `/` at the end. -/
def normalizeTarget (uri : Text) : Text :=
  let rest := ((splitOnce "://".toList uri).map Prod.snd).getD uri
  (rest.reverse.dropWhile (· = '/')).reverse

end Uris

section Duplicates

/-- The text of an entry in front of its first URI. -/
def entryHead (e : AptEntry) : Text :=
  e.raw.take ((e.uris.map Uri.start).min?.getD e.stop - e.start)

structure DedupKey where
  debTypes : List Text
  head : Text
  uris : List Text
  suites : List Text
deriving DecidableEq

def dedupKey (pairs : List (Text × Text)) (e : AptEntry) : DedupKey :=
  ⟨e.debTypes, entryHead e, e.uris.map fun u => normalizeTarget (rewrittenUri pairs u.value),
    e.suites⟩

/-- Only enabled entries with a type and a URI are compared. -/
def isCompared (e : AptEntry) : Bool := e.enabled && e.debTypes ≠ [] && e.uris ≠ []

/-- The entries that are compared and have one key, in file order. -/
def dedupGroup (pairs : List (Text × Text)) (entries : List AptEntry) (e : AptEntry) :
    List AptEntry :=
  entries.filter fun f => isCompared f && dedupKey pairs f = dedupKey pairs e

/-- The first one with the most components. -/
def keeperFrom (keeper : AptEntry) (group : List AptEntry) : AptEntry :=
  group.foldl (fun keeper e =>
    if keeper.components.length < e.components.length then e else keeper) keeper

def keeperOf (pairs : List (Text × Text)) (entries : List AptEntry) (e : AptEntry) : AptEntry :=
  match dedupGroup pairs entries e with
  | [] => e
  | first :: group => keeperFrom first group

def isDuplicate (pairs : List (Text × Text)) (entries : List AptEntry) (e : AptEntry) : Bool :=
  isCompared e && e ≠ keeperOf pairs entries e &&
    e.components.all fun c => (keeperOf pairs entries e).components.contains c

/-- The spans to delete. The groups are gone through in no fixed order, and the edits are sorted
afterwards: here they come in file order. The entries of a file differ in their spans. -/
def duplicateDeletions (pairs : List (Text × Text)) (entries : List AptEntry) : List (ℕ × ℕ) :=
  (entries.filter (isDuplicate pairs entries)).map fun e => (e.start, e.stop)

end Duplicates

section Rewrite

def uriEdits (pairs : List (Text × Text)) (e : AptEntry) : List (Edit Char) :=
  e.uris.filterMap fun u => (rewriteUri pairs u.value).map fun new => ⟨u.start, u.stop, new⟩

/-- An edit inside a deleted span is dropped. -/
def survives (deletions : List (ℕ × ℕ)) (e : Edit Char) : Bool :=
  !deletions.any fun d => d.1 ≤ e.start && e.stop ≤ d.2

def rewriteWith (pairs : List (Text × Text)) (content : Text) : Option Text :=
  let entries := parseSources content
  let deletions := duplicateDeletions pairs entries
  let edits := entries.flatMap (uriEdits pairs)
  if edits = [] ∧ deletions = [] then none
  else
    let kept := edits.filter (survives deletions)
    some (splice content (sortEdits (kept ++ deletions.map fun d => ⟨d.1, d.2, []⟩)))

def rewrite (family : Family) (mirror : MirrorName) (replaceSecurity : Bool) (content : Text) :
    Option Text :=
  rewriteWith (replacementPairs family mirror replaceSecurity) content

end Rewrite

section Target

def targetHosts (family : Family) (mirror : MirrorName) : List Text :=
  let paths := aptPaths family ++ aptSecurityPaths family
  match mirrorHost mirror with
  | none => paths.map Prod.fst
  | some target => paths.map fun (_, path) => target ++ path

def alreadyTarget (family : Family) (mirror : MirrorName) (content : Text) : Bool :=
  (targetHosts family mirror).any fun host =>
    (parseSources content).any fun e => e.containsHost host

end Target

section Cdrom

/-- Host and path of the family's main repository on the mirror. -/
def mainTarget (family : Family) (mirror : MirrorName) (arch : Text) : Option (Text × Text) :=
  match family with
  | .debian => some ((mirrorHost mirror).getD "deb.debian.org".toList, "/debian".toList)
  | .ubuntu =>
    if isPortsArch arch then
      some ((mirrorHost mirror).getD "ports.ubuntu.com".toList, "/ubuntu-ports".toList)
    else some ((mirrorHost mirror).getD "archive.ubuntu.com".toList, "/ubuntu".toList)
  | _ => none

/-- The first enabled `cdrom:` entry gets the mirror for its first URI. -/
def convertCdrom (family : Family) (mirror : MirrorName) (arch content : Text) : Option Text :=
  (mainTarget family mirror arch).bind fun (host, path) =>
    ((parseSources content).find? fun e => e.enabled && e.isCdrom).bind fun e =>
      e.uris.head?.map fun u =>
        splice content [⟨u.start, u.stop, "https://".toList ++ host ++ path⟩]

def commentEdit (e : AptEntry) : Edit Char :=
  let insert := e.start + (e.raw.length - (trimStart e.raw).length)
  ⟨insert, insert, "# ".toList⟩

def isCommentedOut (e : AptEntry) : Bool := e.enabled && e.isCdrom && e.debTypes ≠ []

/-- The text with every enabled `cdrom:` entry commented out, and their number. -/
def commentCdrom (content : Text) : Option (Text × ℕ) :=
  let edits := ((parseSources content).filter isCommentedOut).map commentEdit
  if edits = [] then none else some (splice content edits, edits.length)

end Cdrom

/-- New entries at the end of a file. Only called for the apt families. -/
def synthLines (family : Family) (mirror : MirrorName) (replaceSecurity : Bool)
    (arch codename : Text) : Text :=
  match mainTarget family mirror arch with
  | none => []
  | some (host, path) =>
    let components := if family = .debian then "main contrib non-free".toList
      else "main universe restricted multiverse".toList
    let security := if family = .debian then
        let official := "deb.debian.org".toList
        "deb https://".toList ++
          (if replaceSecurity then (mirrorHost mirror).getD official else official) ++
          "/debian-security ".toList ++ codename ++ "-security main\n".toList
      else
        "deb https://".toList ++ (mirrorHost mirror).getD "security.ubuntu.com".toList ++ path ++
          " ".toList ++ codename ++ "-security ".toList ++ components ++ "\n".toList
    "# Added by lkit set-mirror\n".toList ++ "deb https://".toList ++ host ++ path ++
      " ".toList ++ codename ++ " ".toList ++ components ++ "\n".toList ++ security

end LandscapeKit.Mirror
