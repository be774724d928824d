import LandscapeKit.DeployTransaction
import LandscapeKit.HostnetCollect
import LandscapeKit.LibScan

/-!
Whose process it is. A process is told by the text of its executable's path and by its arguments;
the arguments are read in two-argument spellings only, and the path by how it begins.
-/

namespace LandscapeKit.Service.Identity

open Text Hostnet.Collect

section Records

structure Process where
  exeLink : Text
  exeSha256 : Option Text
  args : List Text

structure CanonicalRoot where
  text : Text
  absolute : text.head? = some '/'

/-- What is read of the state that was stored, after its check. -/
structure InstallState where
  activeVersion : Text
  webserverSha256 : Text
  stable : Deploy.isStableVersion (String.ofList activeVersion) = true

/-- `PathBuf::join` on a name; a doubled slash changes nothing for the components. -/
def join (dir name : Text) : Text := dir ++ '/' :: name

def samePath (p q : Text) : Bool := components p = components q

/-- `Path::starts_with`. -/
def isUnder (path root : Text) : Bool := (components root).isPrefixOf (components path)

end Records

section Arguments

inductive PathOption where
  | configDir
  | web
deriving DecidableEq

/-- An argument whose value is the next one. -/
def separate (arg : Text) : Option PathOption :=
  if arg = "--config-dir".toList ∨ arg = "-c".toList then some .configDir
  else if arg = "--web".toList ∨ arg = "-w".toList then some .web
  else none

structure PathArgs where
  configDir : Option Text
  web : Option Text
deriving DecidableEq

def PathArgs.set (found : PathArgs) (option : PathOption) (value : Text) : PathArgs :=
  match option with
  | .configDir => { found with configDir := some value }
  | .web => { found with web := some value }

def PathArgs.get (found : PathArgs) : PathOption → Option Text
  | .configDir => found.configDir
  | .web => found.web

def pathArgsFrom (found : PathArgs) : List Text → PathArgs
  | [] => found
  | arg :: args =>
    match separate arg with
    | none => pathArgsFrom found args
    | some option =>
      match args with
      | [] => found
      | value :: args => pathArgsFrom (found.set option value) args

/-- The last directory that is given for each option, in two arguments. -/
def pathArgs (args : List Text) : PathArgs := pathArgsFrom ⟨none, none⟩ args

end Arguments

section Judgements

variable (process : Process) (root : CanonicalRoot) (state : InstallState)

/-- `<root>/releases/<version>`. -/
def expectedRelease : Text :=
  join (join root.text "releases".toList) state.activeVersion

def expectedData : Text := join root.text "data".toList

def expectedStatic : Text := join root.text "current/static".toList

def isManagedRelaxed : Bool :=
  if !isUnder process.exeLink root.text ||
      !(expectedRelease root state).isPrefixOf process.exeLink then false
  else
    let found := pathArgs process.args
    if !found.configDir.any fun dir => samePath dir (expectedData root) then false
    else found.web.any fun dir => samePath dir (expectedStatic root)

def isManaged : Bool :=
  match process.exeSha256 with
  | none => false
  | some sha256 =>
    if sha256 ≠ state.webserverSha256 then false
    else isManagedRelaxed process root state

def fileName (path : Text) : Option Text :=
  match (components path).getLast? with
  | some (.normal name) => some name
  | _ => none

def isExternalLandscape (configDir : Text) : Bool :=
  match (pathArgs process.args).configDir with
  | some dir => samePath dir configDir
  | none =>
    isUnder process.exeLink configDir ||
      (fileName process.exeLink).any fun name => containsText "landscape-webserver".toList name

end Judgements

section Given

/-- An argument that is an option and its value at once. -/
def joined (arg : Text) : Option (PathOption × Text) :=
  let withValue (option : PathOption) (value : Text) : Option (PathOption × Text) :=
    if value = [] then none else some (option, value)
  let short (option : PathOption) (value : Text) : Option (PathOption × Text) :=
    withValue option ((stripLead "=".toList value).getD value)
  match stripLead "--config-dir=".toList arg, stripLead "--web=".toList arg,
    stripLead "-c".toList arg, stripLead "-w".toList arg with
  | some value, _, _, _ => withValue .configDir value
  | _, some value, _, _ => withValue .web value
  | _, _, some value, _ => short .configDir value
  | _, _, _, some value => short .web value
  | _, _, _, _ => none

structure Given where
  option : PathOption
  isJoined : Bool
  value : Text
deriving DecidableEq

/-- The directories of a command line, in every spelling. -/
def given : List Text → List Given
  | [] => []
  | arg :: args =>
    match separate arg with
    | none =>
      match joined arg with
      | none => given args
      | some (option, value) => ⟨option, true, value⟩ :: given args
    | some option =>
      match args with
      | [] => []
      | value :: args => ⟨option, false, value⟩ :: given args

def lastGiven (option : PathOption) (args : List Text) : Option Given :=
  ((given args).filter fun g => g.option = option).getLast?

/-- The directory that the program takes. -/
def effective (option : PathOption) (args : List Text) : Option Text :=
  (lastGiven option args).map Given.value

/-- The directory that is given last, where it is given in one argument. -/
def lastJoined (option : PathOption) (args : List Text) : Option Text :=
  ((lastGiven option args).filter Given.isJoined).map Given.value

theorem pathArgsFrom_get (found : PathArgs) (option : PathOption) (args : List Text) :
    (pathArgsFrom found args).get option =
      ((((given args).filter fun g => g.option = option).filter fun g =>
        !g.isJoined).getLast?.map Given.value).or (found.get option) := by
  -- an option without a value ends both scans, and a joined one changes only `given`
  induction args using given.induct generalizing found with
  | case1 => simp [given, pathArgsFrom]
  | case2 arg args hnone hjoined ih =>
    rw [given.eq_def, pathArgsFrom.eq_def]
    dsimp only
    rw [hnone]
    dsimp only
    rw [hjoined]
    exact ih found
  | case3 arg args hnone option' value hjoined ih =>
    rw [given.eq_def, pathArgsFrom.eq_def]
    dsimp only
    rw [hnone]
    dsimp only
    rw [hjoined, ih found]
    dsimp only
    rw [List.filter_cons]
    split
    · rw [List.filter_cons_of_neg (by simp)]
    · rfl
  | case4 arg option' hsome =>
    rw [given.eq_def, pathArgsFrom.eq_def]
    dsimp only
    rw [hsome]
    simp
  | case5 arg option' hsome value args ih =>
    rw [given.eq_def, pathArgsFrom.eq_def]
    dsimp only
    rw [hsome]
    dsimp only
    rw [ih, List.filter_cons]
    by_cases hsame : option' = option
    · subst hsame
      have hset : (found.set option' value).get option' = some value := by cases option' <;> rfl
      rw [if_pos (by simp), List.filter_cons_of_pos (by rfl), List.getLast?_cons, hset]
      cases (((given args).filter fun g => g.option = option').filter
        fun g => !g.isJoined).getLast? <;> rfl
    · have hset : (found.set option' value).get option = found.get option := by
        cases option' <;> cases option <;> first | rfl | exact absurd rfl hsame
      rw [if_neg (by simpa using hsame), hset]

theorem effective_eq (option : PathOption) (args : List Text) :
    effective option args = (lastJoined option args).or ((pathArgs args).get option) := by
  have hempty : PathArgs.get ⟨none, none⟩ option = none := by cases option <;> rfl
  rw [effective, lastJoined, pathArgs, pathArgsFrom_get, hempty, Option.or_none, lastGiven]
  cases hlast : ((given args).filter fun g => g.option = option).getLast? with
  | none =>
    rw [List.getLast?_eq_none_iff.mp hlast]
    rfl
  | some g =>
    obtain ⟨front, hfront⟩ := List.getLast?_eq_some_iff.mp hlast
    cases hjoined : g.isJoined with
    | true =>
      rw [Option.filter_some, hjoined]
      rfl
    | false =>
      have hkept : ((given args).filter fun g => g.option = option).filter
          (fun g => !g.isJoined) = front.filter (fun g => !g.isJoined) ++ [g] := by
        rw [hfront, List.filter_append, List.filter_cons_of_pos (by rw [hjoined]; rfl)]
        rfl
      rw [Option.filter_some, hjoined, hkept, List.getLast?_concat]
      rfl

end Given

section Paths

/-- The names between the slashes. -/
def names (path : Text) : List Component :=
  ((path.splitOn '/').filter fun piece => piece ≠ [] ∧ piece ≠ ".".toList).map fun name =>
    if name = "..".toList then .parentDir else .normal name

theorem components_absolute {path : Text} (h : path.head? = some '/') :
    components path = .rootDir :: names path := by
  rw [components, if_pos h]
  rfl

theorem names_append (a b : Text) : names (a ++ '/' :: b) = names a ++ names b := by
  rw [names, List.splitOn_append_cons_self, List.filter_append, List.map_append, names, names]

theorem names_plain {name : Text} (hslash : '/' ∉ name) (hne : name ≠ [])
    (hdot : name.head? ≠ some '.') : names name = [.normal name] := by
  have hdots {rest : Text} : name ≠ '.' :: rest := fun he => hdot (by rw [he]; rfl)
  rw [names, List.splitOn_eq_singleton hslash, List.filter_cons_of_pos, List.filter_nil,
    List.map_singleton, if_neg (show ¬ name = "..".toList from hdots)]
  · simp only [decide_eq_true_eq]
    exact ⟨hne, fun he => hdots he⟩

theorem splitOn_append {a : Text} (ha : '/' ∉ a) (b : Text) :
    (a ++ b).splitOn '/' = (b.splitOn '/').modifyHead (a ++ ·) := by
  induction a with
  | nil =>
    obtain ⟨p, ps, hp⟩ := List.exists_cons_of_ne_nil (List.splitOn_ne_nil '/' b)
    rw [List.nil_append, hp]
    rfl
  | cons c a ih =>
    have hc : ('/' == c) = false := by
      rw [beq_eq_false_iff_ne]
      exact fun he => ha (he ▸ List.mem_cons_self ..)
    obtain ⟨p, ps, hp⟩ := List.exists_cons_of_ne_nil (List.splitOn_ne_nil '/' b)
    rw [List.cons_append, List.splitOn_cons_eq_if_modifyHead, ih (fun h => ha
      (List.mem_cons_of_mem _ h)), hp]
    rw [BEq.comm] at hc
    rw [hc]
    rfl

theorem head?_names {name tail : Text} {c : Char} (hslash : '/' ∉ name) (hne : name ≠ [])
    (hdot : name.head? ≠ some '.') (hc : c ≠ '/') :
    (names (name ++ c :: tail)).head? ≠ some (.normal name) := by
  obtain ⟨p, ps, hp⟩ := List.exists_cons_of_ne_nil (List.splitOn_ne_nil '/' tail)
  have hsplit : (name ++ c :: tail).splitOn '/' = (name ++ c :: p) :: ps := by
    have hno : (c == '/') = false := beq_eq_false_iff_ne.mpr hc
    rw [splitOn_append hslash, List.splitOn_cons_eq_if_modifyHead, hno, hp]
    rfl
  obtain ⟨d, ds, rfl⟩ := List.exists_cons_of_ne_nil hne
  have hd : d ≠ '.' := fun he => hdot (by rw [he]; rfl)
  have hdots {rest : Text} : d :: ds ++ c :: p ≠ '.' :: rest :=
    fun he => hd (List.cons.inj he).1
  have hkept : ((d :: ds ++ c :: p) :: ps).filter (fun piece => piece ≠ [] ∧ piece ≠ ".".toList) =
      (d :: ds ++ c :: p) :: ps.filter fun piece => piece ≠ [] ∧ piece ≠ ".".toList :=
    List.filter_cons_of_pos (decide_eq_true ⟨List.cons_ne_nil _ _, hdots⟩)
  rw [names, hsplit, hkept, List.map_cons, List.head?_cons,
    if_neg (show ¬ d :: ds ++ c :: p = "..".toList from hdots)]
  intro he
  have hlen := congrArg List.length (Component.normal.inj (Option.some.inj he))
  rw [List.length_append, List.length_cons] at hlen
  simp at hlen

theorem InstallState.version_plain (state : InstallState) : '/' ∉ state.activeVersion ∧
    state.activeVersion ≠ [] ∧ state.activeVersion.head? ≠ some '.' := by
  have hstable := state.stable
  generalize state.activeVersion = version at hstable
  rw [Deploy.isStableVersion, String.toList_ofList] at hstable
  split at hstable
  · rename_i major minor patch hsplit
    have hparts : ∀ part ∈ [major, minor, patch], part ≠ [] ∧ ∀ c ∈ part, c.isDigit = true := by
      intro part hpart
      have hnumber := List.all_eq_true.mp hstable part hpart
      simp only [Deploy.isVersionNumber, Bool.and_eq_true, decide_eq_true_eq] at hnumber
      exact ⟨hnumber.1.1.1, List.all_eq_true.mp hnumber.1.1.2⟩
    have hversion : version = major ++ '.' :: (minor ++ '.' :: patch) := by
      have hjoin : ['.'].intercalate (version.splitOn '.') = version :=
        List.intercalate_splitOn ..
      rw [← hjoin, hsplit]
      simp [List.intercalate_cons_cons]
    obtain ⟨hmajor, hminor, hpatch⟩ : _ ∧ _ ∧ _ :=
      ⟨hparts major (by simp), hparts minor (by simp), hparts patch (by simp)⟩
    obtain ⟨c, cs, rfl⟩ := List.exists_cons_of_ne_nil hmajor.1
    have hdigit := hmajor.2 c (List.mem_cons_self ..)
    refine ⟨?_, ?_, ?_⟩
    · intro hslash
      have hno : ('/').isDigit = true ∨ '/' = '.' := by
        rw [hversion] at hslash
        simp only [List.mem_append, List.mem_cons] at hslash
        rcases hslash with (rfl | h) | h | h | h | h
        · exact .inl hdigit
        · exact .inl (hmajor.2 _ (List.mem_cons_of_mem _ h))
        · exact .inr h
        · exact .inl (hminor.2 _ h)
        · exact .inr h
        · exact .inl (hpatch.2 _ h)
      exact absurd hno (by decide)
    · rw [hversion]
      exact List.cons_ne_nil _ _
    · rw [hversion]
      intro he
      rw [Option.some.inj he] at hdigit
      exact absurd hdigit (by decide)
  · cases hstable

variable (root : CanonicalRoot) (state : InstallState)

theorem components_expectedRelease : components (expectedRelease root state) =
    components root.text ++ [.normal "releases".toList, .normal state.activeVersion] := by
  obtain ⟨hslash, hne, hdot⟩ := state.version_plain
  obtain ⟨rest, hrest⟩ := List.head?_eq_some_iff.mp root.absolute
  have habsolute : (expectedRelease root state).head? = some '/' := by
    rw [expectedRelease, join, join, hrest]
    rfl
  have hreleases : names "releases".toList = [.normal "releases".toList] :=
    names_plain (by decide) (by decide) (by decide)
  rw [components_absolute habsolute, components_absolute root.absolute, expectedRelease, join,
    join, List.append_assoc, List.cons_append, names_append, names_append, hreleases,
    names_plain hslash hne hdot]
  rfl

theorem below_iff {exe rest : Text} (h : exe = expectedRelease root state ++ rest) :
    (∃ c cs, components exe = components (expectedRelease root state) ++ c :: cs) ↔
      ∃ tail, rest = '/' :: tail ∧ names tail ≠ [] := by
  obtain ⟨hslash, hne, hdot⟩ := state.version_plain
  obtain ⟨start, hstart⟩ := List.head?_eq_some_iff.mp root.absolute
  have habsolute (more : Text) : (expectedRelease root state ++ more).head? = some '/' := by
    rw [expectedRelease, join, join, hstart]
    rfl
  have hbare := habsolute []
  rw [List.append_nil] at hbare
  subst h
  cases rest with
  | nil =>
    rw [List.append_nil]
    constructor
    · rintro ⟨c, cs, h⟩
      have hlen := congrArg List.length h
      rw [List.length_append, List.length_cons] at hlen
      omega
    · rintro ⟨tail, h, -⟩
      cases h
  | cons c tail =>
    by_cases hc : c = '/'
    · subst hc
      rw [components_absolute (habsolute _), components_absolute hbare, names_append]
      constructor
      · rintro ⟨d, ds, h⟩
        refine ⟨tail, rfl, fun hnil => ?_⟩
        rw [hnil, List.append_nil, List.cons_append, List.cons.injEq] at h
        have hlen := congrArg List.length h.2
        rw [List.length_append, List.length_cons] at hlen
        omega
      · rintro ⟨_, htail, hnames⟩
        rw [← (List.cons.inj htail).2] at hnames
        obtain ⟨d, ds, hd⟩ := List.exists_cons_of_ne_nil hnames
        exact ⟨d, ds, by rw [hd]; rfl⟩
    · constructor
      · rintro ⟨d, ds, h⟩
        have hlonger : expectedRelease root state ++ c :: tail =
            join root.text "releases".toList ++ '/' :: (state.activeVersion ++ c :: tail) := by
          rw [expectedRelease, join, List.append_assoc]
          rfl
        have hrelease : names (expectedRelease root state) =
            names (join root.text "releases".toList) ++ [.normal state.activeVersion] := by
          rw [expectedRelease, join, names_append, names_plain hslash hne hdot]
        rw [components_absolute (habsolute _), components_absolute hbare, hlonger, names_append,
          hrelease, List.cons_append, List.cons.injEq, List.append_assoc,
          List.append_cancel_left_eq] at h
        have hhead : (names (state.activeVersion ++ c :: tail)).head? ≠
            some (.normal state.activeVersion) := head?_names hslash hne hdot hc
        rw [h.2] at hhead
        exact absurd rfl hhead
      · rintro ⟨_, htail, -⟩
        exact absurd (List.cons.inj htail).1 hc

end Paths

section Identity

variable (process : Process) (root : CanonicalRoot) (state : InstallState) (configDir : Text)

/-- The program is below the directory of the active version, and takes the managed directories. -/
structure RunsManaged : Prop where
  below : ∃ c cs, components process.exeLink = components root.text ++
    [.normal "releases".toList, .normal state.activeVersion] ++ c :: cs
  configDir : ∃ dir ∈ effective .configDir process.args, samePath dir (expectedData root)
  web : ∃ dir ∈ effective .web process.args, samePath dir (expectedStatic root)

/-- What an identity has to mean: the managed process is the managed one, and the external one
serves no other directory. -/
structure IdentityExact : Prop where
  managed : isManaged process root state = true → RunsManaged process root state
  relaxed : isManagedRelaxed process root state = true → RunsManaged process root state
  external : isExternalLandscape process configDir = true →
    ∀ dir ∈ effective .configDir process.args, samePath dir configDir

/-- The path begins like a managed one, and the directories given in two arguments are managed. -/
structure BeginsManaged : Prop where
  under : isUnder process.exeLink root.text = true
  begins : expectedRelease root state <+: process.exeLink
  configDir : ∃ dir ∈ (pathArgs process.args).get .configDir, samePath dir (expectedData root)
  web : ∃ dir ∈ (pathArgs process.args).get .web, samePath dir (expectedStatic root)

/-- The directory given in two arguments is the one asked for, or there is none and the program's
name has to do. -/
def LooksExternal : Prop :=
  match (pathArgs process.args).configDir with
  | some dir => samePath dir configDir
  | none => isUnder process.exeLink configDir = true ∨
    ∃ name ∈ fileName process.exeLink, containsText "landscape-webserver".toList name = true

theorem isManagedRelaxed_iff :
    isManagedRelaxed process root state = true ↔ BeginsManaged process root state := by
  have hconfig : (pathArgs process.args).get .configDir = (pathArgs process.args).configDir := rfl
  have hweb : (pathArgs process.args).get .web = (pathArgs process.args).web := rfl
  rw [isManagedRelaxed]
  constructor
  · intro h
    split at h
    · cases h
    · rename_i hpath
      simp only [Bool.or_eq_true, Bool.not_eq_true', not_or, Bool.not_eq_false] at hpath
      dsimp only at h
      split at h
      · cases h
      · rename_i hdir
        rw [Bool.not_eq_true', Bool.not_eq_false, Option.any_eq_true] at hdir
        rw [Option.any_eq_true] at h
        exact ⟨hpath.1, List.isPrefixOf_iff_prefix.mp hpath.2, hconfig ▸ hdir, hweb ▸ h⟩
  · intro h
    have hconfigDir := (Option.any_eq_true _ _).mpr (hconfig ▸ h.configDir)
    have hbegins := List.isPrefixOf_iff_prefix.mpr h.begins
    rw [h.under, hbegins, if_neg (by decide)]
    dsimp only
    rw [hconfigDir, if_neg (by decide), Option.any_eq_true]
    exact hweb ▸ h.web

theorem isExternalLandscape_iff :
    isExternalLandscape process configDir = true ↔ LooksExternal process configDir := by
  rw [isExternalLandscape, LooksExternal]
  cases (pathArgs process.args).configDir with
  | some dir => rfl
  | none =>
    dsimp only
    rw [Bool.or_eq_true, Option.any_eq_true]
    rfl

section Directories

variable {args : List Text} {option : PathOption} {target : Text}

theorem effective_all (h : ∀ dir ∈ (pathArgs args).get option, samePath dir target) :
    (∀ dir ∈ effective option args, samePath dir target) ↔
      ∀ dir ∈ lastJoined option args, samePath dir target := by
  rw [effective_eq]
  cases lastJoined option args with
  | none => simpa using h
  | some dir => rfl

theorem effective_any (h : ∃ dir ∈ (pathArgs args).get option, samePath dir target) :
    (∃ dir ∈ effective option args, samePath dir target) ↔
      ∀ dir ∈ lastJoined option args, samePath dir target := by
  rw [effective_eq]
  cases lastJoined option args with
  | none => simpa using h
  | some dir => simp

end Directories

/-- The begin of a path and the two spellings tell enough when nothing stands against them. -/
structure Told : Prop where
  managed : BeginsManaged process root state →
    (∃ tail, process.exeLink = expectedRelease root state ++ '/' :: tail ∧ names tail ≠ []) ∧
      (∀ dir ∈ lastJoined .configDir process.args, samePath dir (expectedData root)) ∧
      ∀ dir ∈ lastJoined .web process.args, samePath dir (expectedStatic root)
  external : LooksExternal process configDir →
    ∀ dir ∈ lastJoined .configDir process.args, samePath dir configDir

theorem runsManaged_iff (h : BeginsManaged process root state) :
    RunsManaged process root state ↔
      (∃ tail, process.exeLink = expectedRelease root state ++ '/' :: tail ∧ names tail ≠ []) ∧
        (∀ dir ∈ lastJoined .configDir process.args, samePath dir (expectedData root)) ∧
        ∀ dir ∈ lastJoined .web process.args, samePath dir (expectedStatic root) := by
  obtain ⟨rest, hrest⟩ := h.begins
  have hbelow := below_iff root state hrest.symm
  rw [components_expectedRelease] at hbelow
  have htail : (∃ tail, rest = '/' :: tail ∧ names tail ≠ []) ↔
      ∃ tail, process.exeLink = expectedRelease root state ++ '/' :: tail ∧ names tail ≠ [] := by
    simp only [← hrest, List.append_cancel_left_eq]
  rw [← effective_any h.configDir, ← effective_any h.web, ← htail, ← hbelow]
  exact ⟨fun h => ⟨h.below, h.configDir, h.web⟩, fun ⟨below, hdir, hweb⟩ => ⟨below, hdir, hweb⟩⟩

/-- What the process is taken for is what it is, exactly where the rest of its path and the options
in one argument do not stand against it. -/
theorem identityExact_iff : IdentityExact process root state configDir ↔
    Told process root state configDir := by
  have hexternal : LooksExternal process configDir →
      ((∀ dir ∈ effective .configDir process.args, samePath dir configDir) ↔
        ∀ dir ∈ lastJoined .configDir process.args, samePath dir configDir) := by
    intro hlooks
    apply effective_all
    intro dir hdir
    have hsome : (pathArgs process.args).configDir = some dir := hdir
    rw [LooksExternal, hsome] at hlooks
    exact hlooks
  constructor
  · intro h
    constructor
    · intro hbegins
      exact (runsManaged_iff process root state hbegins).mp
        (h.relaxed ((isManagedRelaxed_iff process root state).mpr hbegins))
    · intro hlooks
      have hpassed := (isExternalLandscape_iff process configDir).mpr hlooks
      exact (hexternal hlooks).mp (h.external hpassed)
  · intro h
    have hrelaxed : isManagedRelaxed process root state = true →
        RunsManaged process root state := by
      intro hmanaged
      have hbegins := (isManagedRelaxed_iff process root state).mp hmanaged
      exact (runsManaged_iff process root state hbegins).mpr (h.managed hbegins)
    constructor
    · intro hmanaged
      -- the digest is one more thing that is asked for
      rw [isManaged] at hmanaged
      split at hmanaged
      · cases hmanaged
      · split at hmanaged
        · cases hmanaged
        · exact hrelaxed hmanaged
    · exact hrelaxed
    · intro hlooks
      have hlooks := (isExternalLandscape_iff process configDir).mp hlooks
      exact (hexternal hlooks).mpr (h.external hlooks)

end Identity

section OtherVersion

def srvRoot : CanonicalRoot := ⟨"/srv/l".toList, rfl⟩

def stateOf123 : InstallState := ⟨"1.2.3".toList, "d1".toList, by decide⟩

/-- The program of a later version, with the managed directories. -/
def laterProcess : Process where
  exeLink := "/srv/l/releases/1.2.30/landscape-webserver".toList
  exeSha256 := some "d1".toList
  args := ["landscape-webserver".toList, "--config-dir".toList, "/srv/l/data".toList,
    "--web".toList, "/srv/l/current/static".toList]

/-- A program that was told to serve another directory. -/
def otherProcess : Process where
  exeLink := "/root/landscape-webserver".toList
  exeSha256 := none
  args := ["landscape-webserver".toList, "--config-dir=/srv/other".toList]

/-- Version 1.2.30 is taken for version 1.2.3, and a program that serves another directory for the
one that is looked for. -/
theorem not_identityExact :
    ¬ IdentityExact laterProcess srvRoot stateOf123 "/root/.landscape-router".toList ∧
      ¬ IdentityExact otherProcess srvRoot stateOf123 "/root/.landscape-router".toList := by
  constructor
  · intro h
    have hmanaged : isManaged laterProcess srvRoot stateOf123 = true := by decide +kernel
    have hnames : components laterProcess.exeLink = [.rootDir, .normal "srv".toList,
        .normal "l".toList, .normal "releases".toList, .normal "1.2.30".toList,
        .normal "landscape-webserver".toList] := by decide +kernel
    have hroot : components srvRoot.text =
        [.rootDir, .normal "srv".toList, .normal "l".toList] := by decide +kernel
    obtain ⟨c, cs, hbelow⟩ := (h.managed hmanaged).below
    rw [hnames, hroot] at hbelow
    simp [stateOf123] at hbelow
  · intro h
    have hexternal : isExternalLandscape otherProcess "/root/.landscape-router".toList = true := by
      decide +kernel
    have hgiven : effective .configDir otherProcess.args = some "/srv/other".toList := by
      decide +kernel
    have hsame := h.external hexternal _ hgiven
    exact absurd hsame (by decide +kernel)

end OtherVersion

end LandscapeKit.Service.Identity
