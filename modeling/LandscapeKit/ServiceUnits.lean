import LandscapeKit.ServiceProcess
import LandscapeKit.MirrorDnf
import Mathlib.Data.Char
import Mathlib.Data.List.Lex

/-!
The unit that serves a directory. A unit tells its directory by the text of its `ExecStart`, a
process by its arguments: the first option counts in the one, the last in the other.
-/

namespace LandscapeKit.Service.Identity

open Text Hostnet.Collect

section Unit

/-- `none` where a line is neither blank, a comment, a header nor an entry. -/
def parseLines : List Text → Option (List (Text × Text))
  | [] => some []
  | raw :: lines =>
    let line := Mirror.trim raw
    if line = [] || line.head? = some '#' || line.head? = some ';' then parseLines lines
    else if line.head? = some '[' && line.getLast? = some ']' then parseLines lines
    else
      match splitOnce "=".toList line with
      | none => none
      | some (key, value) =>
        (parseLines lines).map fun entries => (Mirror.trim key, Mirror.trim value) :: entries

def parseUnit (content : Text) : Option (List (Text × Text)) :=
  parseLines (Mirror.Dnf.lines content)

/-- The first `ExecStart` of a unit. -/
def execStart (content : Text) : Option Text := do
  let entries ← parseUnit content
  let entry ← entries.find? fun entry => entry.1 = "ExecStart".toList
  return entry.2

def execTokensFrom (quoted inToken : Bool) (current : Text) : Text → List Text
  | [] => if inToken then [current] else []
  | ch :: rest =>
    if ch = '\\' then
      match rest with
      | [] => [current]
      | next :: rest => execTokensFrom quoted true (current ++ [next]) rest
    else if ch = '"' then execTokensFrom (!quoted) true current rest
    else if !quoted && Hostnet.isWhitespace ch then
      if inToken then current :: execTokensFrom false false [] rest
      else execTokensFrom false false current rest
    else execTokensFrom quoted true (current ++ [ch]) rest

/-- Double quotes and backslashes; a single quote is a character like any other. -/
def execTokens (value : Text) : List Text := execTokensFrom false false [] value

def configDirOf : List Text → Option Text
  | [] => none
  | token :: tokens =>
    if token = "--config-dir".toList ∨ token = "-c".toList then
      match tokens with
      | [] => none
      | path :: _ => some path
    else
      match stripLead "--config-dir=".toList token with
      | none => configDirOf tokens
      | some path => if path = [] then configDirOf tokens else some path

def execConfigDir (value : Text) : Option Text := configDirOf (execTokens value)

variable (canonicalize : Text → Option Text)

/-- Where a path leads; a path that leads nowhere stays as it is. -/
def resolved (path : Text) : Text := (canonicalize path).getD path

/-- A file of a unit directory, where it could be read. -/
structure UnitFile where
  name : Text
  content : Option Text

def UnitFile.serves (configDir : Text) (file : UnitFile) : Bool :=
  ".service".toList.isSuffixOf file.name &&
    ((file.content.bind execStart).bind execConfigDir).any fun served =>
      samePath (resolved canonicalize served) configDir

/-- The names, once each and in order, whatever directory they are in. -/
def findUnitsServingConfigDir (files : List UnitFile) (configDir : Text) : List Text :=
  (((files.filter (UnitFile.serves canonicalize configDir)).map UnitFile.name).mergeSort
    fun a b => a ≤ b).dedup

theorem mem_findUnits {files : List UnitFile} {configDir name : Text} :
    name ∈ findUnitsServingConfigDir canonicalize files configDir ↔
      ∃ file ∈ files, file.serves canonicalize configDir = true ∧ file.name = name := by
  rw [findUnitsServingConfigDir, List.mem_dedup, List.mem_mergeSort, List.mem_map]
  simp only [List.mem_filter, and_assoc]

end Unit

section Options

/-- The words that give a config directory, as a unit is read. -/
inductive Spelled (dir : Text) : List Text → Prop
  | separate {option : Text} (h : separate option = some .configDir) : Spelled dir [option, dir]
  | joined (h : dir ≠ []) : Spelled dir ["--config-dir=".toList ++ dir]

/-- A word that gives a config directory, by itself or with the next one. -/
def IsConfigWord (word : Text) : Prop :=
  separate word = some .configDir ∨ ∃ dir, dir ≠ [] ∧ word = "--config-dir=".toList ++ dir

def FirstGiven (words : List Text) (dir : Text) : Prop :=
  ∃ before option after, words = before ++ option ++ after ∧ Spelled dir option ∧
    ∀ word ∈ before, ¬ IsConfigWord word

def LastGiven (args : List Text) (dir : Text) : Prop :=
  ∃ before after, given args = before ++ ⟨.configDir, false, dir⟩ :: after ∧
    ∀ g ∈ after, g.option = .configDir → g.isJoined = true

theorem separate_configDir_iff {word : Text} : separate word = some .configDir ↔
    word = "--config-dir".toList ∨ word = "-c".toList := by
  rw [separate]
  split
  · rename_i h
    exact ⟨fun _ => h, fun _ => rfl⟩
  · rename_i h
    constructor
    · intro hsome
      split at hsome <;> cases hsome
    · intro hword
      exact absurd hword h

theorem isConfigWord_iff {word : Text} : IsConfigWord word ↔
    (word = "--config-dir".toList ∨ word = "-c".toList) ∨
      ∃ path, path ≠ [] ∧ stripLead "--config-dir=".toList word = some path := by
  rw [IsConfigWord, separate_configDir_iff]
  refine or_congr_right (exists_congr fun path => and_congr_right fun _ => ?_)
  constructor
  · rintro rfl
    exact stripLead_append _ _
  · exact eq_of_stripLead

theorem FirstGiven.cons {word dir : Text} {words : List Text} (hword : ¬ IsConfigWord word)
    (h : FirstGiven words dir) : FirstGiven (word :: words) dir := by
  obtain ⟨before, option, after, rfl, hoption, hbefore⟩ := h
  have hall : ∀ w ∈ word :: before, ¬ IsConfigWord w :=
    List.forall_mem_cons.mpr ⟨hword, hbefore⟩
  exact ⟨word :: before, option, after, rfl, hoption, hall⟩

theorem configDirOf_cons (token : Text) (tokens : List Text) : configDirOf (token :: tokens) =
    if token = "--config-dir".toList ∨ token = "-c".toList then tokens.head?
    else
      match stripLead "--config-dir=".toList token with
      | none => configDirOf tokens
      | some path => if path = [] then configDirOf tokens else some path := by
  rw [configDirOf.eq_def]
  cases tokens <;> rfl

theorem configDirOf_skip {word : Text} (hword : ¬ IsConfigWord word) (words : List Text) :
    configDirOf (word :: words) = configDirOf words := by
  rw [isConfigWord_iff, not_or] at hword
  rw [configDirOf_cons, if_neg hword.1]
  cases hjoined : stripLead "--config-dir=".toList word with
  | none => rfl
  | some path =>
    have hempty : path = [] := by_contra fun hne => hword.2 ⟨path, hne, hjoined⟩
    exact if_pos hempty

theorem configDirOf_spelled {dir : Text} {option : List Text} (h : Spelled dir option)
    (after : List Text) : configDirOf (option ++ after) = some dir := by
  cases h with
  | separate hword =>
    rw [List.cons_append, configDirOf_cons, if_pos (separate_configDir_iff.mp hword)]
    rfl
  | joined hne =>
    have hno : ¬ ("--config-dir=".toList ++ dir = "--config-dir".toList ∨
        "--config-dir=".toList ++ dir = "-c".toList) := by
      rintro (h | h)
      · have hlen := congrArg List.length h
        rw [List.length_append] at hlen
        simp at hlen
        omega
      · exact absurd (congrArg List.tail (congrArg List.tail h)) (by simp)
    rw [List.cons_append, configDirOf_cons, if_neg hno, stripLead_append]
    exact if_neg hne

theorem configDirOf_iff {words : List Text} {dir : Text} :
    configDirOf words = some dir ↔ FirstGiven words dir := by
  constructor
  · intro h
    induction words with
    | nil => cases h
    | cons word words ih =>
      by_cases hword : IsConfigWord word
      · rcases hword with hsep | ⟨path, hne, rfl⟩
        · rw [configDirOf_cons, if_pos (separate_configDir_iff.mp hsep)] at h
          obtain ⟨after, rfl⟩ := List.head?_eq_some_iff.mp h
          exact ⟨[], [word, dir], after, rfl, .separate hsep, nofun⟩
        · have hpath := configDirOf_spelled (.joined hne) words
          cases (show some path = some dir from hpath.symm.trans h)
          exact ⟨[], _, words, rfl, .joined hne, nofun⟩
      · rw [configDirOf_skip hword] at h
        exact (ih h).cons hword
  · rintro ⟨before, option, after, rfl, hoption, hbefore⟩
    induction before with
    | nil => exact configDirOf_spelled hoption after
    | cons word before ih =>
      obtain ⟨hword, hbefore⟩ := List.forall_mem_cons.mp hbefore
      rw [List.cons_append, List.cons_append, configDirOf_skip hword]
      exact ih hbefore

theorem getLast?_filter_iff {α : Type*} {p : α → Bool} {l : List α} {a : α} :
    (l.filter p).getLast? = some a ↔
      p a = true ∧ ∃ before after, l = before ++ a :: after ∧ ∀ x ∈ after, p x = false := by
  rw [← List.head?_reverse, ← List.filter_reverse, List.head?_filter,
    List.find?_eq_some_iff_append]
  constructor
  · rintro ⟨ha, after, before, hl, hafter⟩
    refine ⟨ha, before.reverse, after.reverse, ?_, ?_⟩
    · have hl := congrArg List.reverse hl
      rw [List.reverse_reverse] at hl
      simpa using hl
    · intro x hx
      simpa using hafter x (List.mem_reverse.mp hx)
  · rintro ⟨ha, before, after, rfl, hafter⟩
    refine ⟨ha, after.reverse, before.reverse, by simp, ?_⟩
    intro x hx
    simpa using hafter x (List.mem_reverse.mp hx)

theorem pathArgs_iff {args : List Text} {dir : Text} :
    (pathArgs args).configDir = some dir ↔ LastGiven args dir := by
  have hget : (pathArgs args).configDir = (pathArgs args).get .configDir := rfl
  have hnone : PathArgs.get ⟨none, none⟩ .configDir = none := rfl
  rw [hget, pathArgs, pathArgsFrom_get, hnone, Option.or_none, List.filter_filter,
    Option.map_eq_some_iff]
  constructor
  · rintro ⟨g, hlast, rfl⟩
    obtain ⟨hg, before, after, hgiven, hafter⟩ := getLast?_filter_iff.mp hlast
    simp only [Bool.and_eq_true, Bool.not_eq_true', decide_eq_true_eq] at hg
    refine ⟨before, after, ?_, ?_⟩
    · rw [hgiven, ← hg.1, ← hg.2]
    · intro g' hmem hoption
      simpa [hoption] using hafter g' hmem
  · rintro ⟨before, after, hgiven, hafter⟩
    refine ⟨_, getLast?_filter_iff.mpr ⟨?_, before, after, hgiven, ?_⟩, rfl⟩
    · rfl
    · intro g hg
      by_cases hoption : g.option = .configDir
      · rw [hafter g hg hoption]
        rfl
      · simp [hoption]

end Options

section Quoting

/-- A word in double quotes, as it may stand in an `ExecStart`. -/
def quoteWord (word : Text) : Text :=
  '"' :: word.flatMap (fun c => if c = '"' ∨ c = '\\' then ['\\', c] else [c]) ++ ['"']

def quoteWords : List Text → Text
  | [] => []
  | [word] => quoteWord word
  | word :: next :: words => quoteWord word ++ ' ' :: quoteWords (next :: words)

theorem execTokensFrom_quote (quoted inToken : Bool) (current rest : Text) :
    execTokensFrom quoted inToken current ('"' :: rest) =
      execTokensFrom (!quoted) true current rest := by
  rw [execTokensFrom.eq_def]
  simp

theorem execTokensFrom_backslash (quoted inToken : Bool) (current rest : Text) (next : Char) :
    execTokensFrom quoted inToken current ('\\' :: next :: rest) =
      execTokensFrom quoted true (current ++ [next]) rest := by
  rw [execTokensFrom.eq_def]
  simp

theorem execTokensFrom_inside (current word rest : Text) :
    execTokensFrom true true current
        (word.flatMap (fun c => if c = '"' ∨ c = '\\' then ['\\', c] else [c]) ++ '"' :: rest) =
      execTokensFrom false true (current ++ word) rest := by
  induction word generalizing current with
  | nil =>
    rw [List.flatMap_nil, List.nil_append, List.append_nil, execTokensFrom_quote]
    rfl
  | cons c word ih =>
    have hcurrent : current ++ c :: word = current ++ [c] ++ word := by
      rw [List.append_assoc]
      rfl
    rw [List.flatMap_cons, List.append_assoc, hcurrent, ← ih]
    by_cases hc : c = '"' ∨ c = '\\'
    · rw [if_pos hc]
      exact execTokensFrom_backslash ..
    · rw [if_neg hc, List.singleton_append, execTokensFrom.eq_def]
      rw [not_or] at hc
      simp [hc.1, hc.2]

theorem execTokens_quoteWords (words : List Text) : execTokens (quoteWords words) = words := by
  have hword (word rest : Text) :
      execTokens (quoteWord word ++ rest) = execTokensFrom false true word rest := by
    have hquoted : quoteWord word ++ rest = '"' :: (word.flatMap
        (fun c => if c = '"' ∨ c = '\\' then ['\\', c] else [c]) ++ '"' :: rest) := by
      simp [quoteWord]
    rw [execTokens, hquoted, execTokensFrom_quote, Bool.not_false, execTokensFrom_inside,
      List.nil_append]
  induction words with
  | nil => rfl
  | cons word words ih =>
    cases words with
    | nil =>
      have h := hword word []
      rw [List.append_nil] at h
      exact h
    | cons next words =>
      rw [quoteWords, hword, execTokensFrom.eq_def]
      simpa [execTokens, Hostnet.isWhitespace] using ih

end Quoting

section Instance

variable (canonicalize : Text → Option Text)

/-- The directory that is migrated: its path is the one that it leads to. -/
structure ConfigSource where
  dir : Text
  fixed : ∀ path, samePath path dir = true → samePath (resolved canonicalize path) dir = true

/-- A service, with the arguments its process is started with, however systemd splits its value. -/
structure ServiceUnit where
  file : UnitFile
  value : Text
  argv : List Text
  isService : ".service".toList.isSuffixOf file.name = true
  starts : file.content.bind execStart = some value

variable (unit : ServiceUnit) (source : ConfigSource canonicalize)

structure SameInstance : Prop where
  dirs : (execConfigDir unit.value).map components =
    (pathArgs unit.argv).configDir.map components
  found : ∀ files : List UnitFile, unit.file ∈ files → (files.map UnitFile.name).Nodup →
    (unit.file.name ∈ findUnitsServingConfigDir canonicalize files source.dir ↔
      ∃ dir ∈ (pathArgs unit.argv).configDir, samePath dir source.dir = true)

/-- The first option of the unit and the last two arguments of the process name one directory, and
spell it without a link when it is the migrated one. -/
def ToldAlike : Prop :=
  (¬ ∃ first, FirstGiven (execTokens unit.value) first) ∧
      (¬ ∃ last, LastGiven unit.argv last) ∨
    ∃ first last, FirstGiven (execTokens unit.value) first ∧ LastGiven unit.argv last ∧
      components first = components last ∧
      (samePath (resolved canonicalize first) source.dir = true →
        samePath last source.dir = true)

theorem serves_iff : unit.file.serves canonicalize source.dir = true ↔
    ∃ first, execConfigDir unit.value = some first ∧
      samePath (resolved canonicalize first) source.dir = true := by
  rw [UnitFile.serves, unit.isService, unit.starts, Bool.true_and, Option.bind_some,
    Option.any_eq_true]

theorem mem_findUnits_iff {files : List UnitFile} (hmem : unit.file ∈ files)
    (hnames : (files.map UnitFile.name).Nodup) :
    unit.file.name ∈ findUnitsServingConfigDir canonicalize files source.dir ↔
      unit.file.serves canonicalize source.dir = true := by
  rw [mem_findUnits]
  constructor
  · rintro ⟨file, hfile, hserves, hname⟩
    rw [← List.inj_on_of_nodup_map hnames hfile hmem hname]
    exact hserves
  · intro hserves
    exact ⟨unit.file, hmem, hserves, rfl⟩

/-- A word that is no option and holds none. -/
def IsPlainWord (word : Text) : Prop := separate word = none ∧ joined word = none

theorem IsPlainWord.not_config {word : Text} (h : IsPlainWord word) : ¬ IsConfigWord word := by
  rintro (hsep | ⟨dir, hne, rfl⟩)
  · rw [h.1] at hsep
    cases hsep
  · have hjoined : joined ("--config-dir=".toList ++ dir) = some (.configDir, dir) := by
      rw [joined, stripLead_append]
      exact if_neg hne
    rw [h.2] at hjoined
    cases hjoined

theorem given_plain {before : List Text} (h : ∀ word ∈ before, IsPlainWord word)
    (args : List Text) : given (before ++ args) = given args := by
  induction before with
  | nil => rfl
  | cons word before ih =>
    obtain ⟨hword, hbefore⟩ := List.forall_mem_cons.mp h
    rw [List.cons_append, given.eq_def]
    dsimp only
    rw [hword.1]
    dsimp only
    rw [hword.2]
    exact ih hbefore

theorem sameInstance_of_quoted {before after : List Text} {option dir : Text}
    (hvalue : unit.value = quoteWords unit.argv)
    (hargv : unit.argv = before ++ [option, dir] ++ after)
    (hoption : separate option = some .configDir)
    (hbefore : ∀ word ∈ before, IsPlainWord word) (hafter : ∀ word ∈ after, IsPlainWord word)
    (hlink : samePath (resolved canonicalize dir) source.dir = true →
      samePath dir source.dir = true) :
    SameInstance canonicalize unit source := by
  have hfirst : execConfigDir unit.value = some dir := by
    apply configDirOf_iff.mpr
    rw [hvalue, execTokens_quoteWords]
    exact ⟨before, [option, dir], after, hargv, .separate hoption,
      fun word hword => (hbefore word hword).not_config⟩
  have hlast : (pathArgs unit.argv).configDir = some dir := by
    have hafter : given after = [] := by
      have h := given_plain hafter []
      rw [List.append_nil] at h
      exact h
    have hgiven : given unit.argv = [⟨.configDir, false, dir⟩] := by
      rw [hargv, List.append_assoc, given_plain hbefore, List.cons_append, given.eq_def]
      dsimp only
      rw [hoption]
      exact congrArg _ hafter
    exact pathArgs_iff.mpr ⟨[], [], hgiven, List.forall_mem_nil _⟩
  refine ⟨by rw [hfirst, hlast], fun files hmem hnames => ?_⟩
  rw [mem_findUnits_iff canonicalize unit source hmem hnames, serves_iff, hfirst, hlast]
  simp only [Option.mem_def, Option.some.injEq, exists_eq_left']
  exact ⟨hlink, source.fixed dir⟩

end Instance

section Spellings

def homeSource : ConfigSource some := ⟨"/root/.landscape-router".toList, fun _ h => h⟩

/-- Every word in double quotes. -/
def wordsUnit : ServiceUnit where
  file := ⟨"l.service".toList, some
    "[Service]\nExecStart=\"/opt/l\" \"-c\" \"/root/.landscape-router\"\n".toList⟩
  value := "\"/opt/l\" \"-c\" \"/root/.landscape-router\"".toList
  argv := ["/opt/l".toList, "-c".toList, "/root/.landscape-router".toList]
  isService := by decide +kernel
  starts := by decide +kernel

theorem sameInstance_words : SameInstance some wordsUnit homeSource := by
  have hargv : wordsUnit.argv =
      ["/opt/l".toList] ++ ["-c".toList, "/root/.landscape-router".toList] ++ [] := rfl
  exact sameInstance_of_quoted some wordsUnit homeSource (by decide +kernel) hargv
    (by decide +kernel) (List.forall_mem_singleton.mpr ⟨by decide +kernel, by decide +kernel⟩)
    (List.forall_mem_nil _) id

/-- The directory in one argument, with an equals sign. -/
def equalsUnit : ServiceUnit where
  file := ⟨"landscape.service".toList, some
    "[Service]\nExecStart=/opt/landscape-webserver --config-dir=/root/.landscape-router\n".toList⟩
  value := "/opt/landscape-webserver --config-dir=/root/.landscape-router".toList
  argv := ["/opt/landscape-webserver".toList, "--config-dir=/root/.landscape-router".toList]
  isService := by decide +kernel
  starts := by decide +kernel

/-- The directory in single quotes. -/
def quotedUnit : ServiceUnit where
  file := ⟨"landscape.service".toList, some
    "[Service]\nExecStart=/opt/landscape-webserver -c '/root/.landscape-router'\n".toList⟩
  value := "/opt/landscape-webserver -c '/root/.landscape-router'".toList
  argv := ["/opt/landscape-webserver".toList, "-c".toList, "/root/.landscape-router".toList]
  isService := by decide +kernel
  starts := by decide +kernel

end Spellings

end LandscapeKit.Service.Identity
