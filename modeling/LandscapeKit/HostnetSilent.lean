import LandscapeKit.HostnetPlan

/-!
What could still bring a managed interface up once its stanza is manual: an `auto` or `allow-*`
statement that selects it by its name, by `name=logical` or by a pattern, and a stanza that
hangs on it (`ifupdown/edit.rs`).
-/

namespace LandscapeKit.Hostnet

variable {M : Type} {env : Env M} {path content : Text} {managed selected : List Text}
  {parsed parsed' : ParsedFile} {ch : Changes}

def isSelecting (keyword : Text) : Bool :=
  keyword = "auto".toList || "allow-".toList.isPrefixOf keyword

def NamesLogical (argument name : Text) : Prop :=
  '=' ∈ argument ∧ argument.takeWhile (· ≠ '=') = name

def Selects (env : Env M) (argument name : Text) : Prop :=
  argument = name ∨ NamesLogical argument name ∨
    argument.head? = some '/' ∧ selectionPatternMatches env argument name = .ok true

def RefersTo (env : Env M) (b : InterfaceBlock) (name : Text) : Prop :=
  b.inherits = some name ∨ ∃ o ∈ b.options, namesInterfaces o.key = true ∧ ∃ value ∈ o.values,
    value = "all".toList ∨ ∃ isMatch, env.glob value = .ok isMatch ∧ isMatch name = true

structure Silent (env : Env M) (selected managed : List Text) (parsed : ParsedFile) : Prop where
  selections : ∀ s ∈ parsed.selections, isSelecting s.keyword = true → ∀ n ∈ s.interfaces,
    ∀ name ∈ managed, ¬ Selects env n name
  stanzas : ∀ b ∈ parsed.blocks, b.iface ∉ selected → ∀ name ∈ managed, ¬ RefersTo env b name

/-- No selecting statement has an argument `name=logical` for a managed interface, unless the
argument as a whole is the name of a managed one. -/
def NoLogical (managed : List Text) (parsed : ParsedFile) : Prop :=
  ∀ s ∈ parsed.selections, isSelecting s.keyword = true → ∀ n ∈ s.interfaces, n ∉ managed →
    ∀ name ∈ managed, ¬ NamesLogical n name

def EndsPlain (managed : List Text) (parsed : ParsedFile) : Prop :=
  ∀ s ∈ parsed.selections, (∃ n ∈ s.interfaces, n ∈ managed) →
    ∀ last, (s.interfaces.filter (· ∉ managed)).getLast? = some last → last.getLast? ≠ some '\\'

/-! ## One file -/

section File

theorem meaning_edited (hparse : parse path content = .ok parsed)
    (hch : planChanges env path managed parsed = .ok ch) (hplain : EndsPlain managed parsed)
    (hparse' : parse path (render (newLines ch parsed.lines) parsed.endsWithNewline) =
      .ok parsed') : parsed'.meaning = parsed.meaning.unmanage managed := by
  obtain ⟨R, hR⟩ := exists_reads hparse
  have hgoal : linesMeaning (editedLines managed R) = some (parsed.meaning.unmanage managed) :=
    (linesMeaning_edited_iff hR).mpr ((names_safe_iff hR).mp hplain)
  rw [newLines_eq hR hch] at hparse'
  have hread := (parse_render_iff (newline_notMem_editedLines hparse hR)).mp
    ⟨parsed', hparse', rfl⟩
  exact Option.some.inj (hread.1.symm.trans hgoal)

theorem exists_selection (hmeaning : parsed'.meaning = parsed.meaning.unmanage managed)
    {s : SelectionLine} (hs : s ∈ parsed'.selections) :
    ∃ s₀ ∈ parsed.selections, s₀.keyword = s.keyword ∧
      s.interfaces = s₀.interfaces.filter (· ∉ managed) := by
  have hselections : parsed'.selections.map (fun s => (s.keyword, s.interfaces)) =
      (parsed.selections.map fun s => (s.keyword, s.interfaces)).filterMap
        (keptSelection managed) := congrArg Meaning.selections hmeaning
  have hmem : (s.keyword, s.interfaces) ∈
      (parsed.selections.map fun s => (s.keyword, s.interfaces)).filterMap
        (keptSelection managed) := by
    rw [← hselections]
    exact List.mem_map_of_mem hs
  obtain ⟨old, hold, hkept⟩ := List.mem_filterMap.mp hmem
  obtain ⟨s₀, hs₀, rfl⟩ := List.mem_map.mp hold
  unfold keptSelection at hkept
  split at hkept
  · cases hkept
  obtain ⟨hkeyword, hnames⟩ := Prod.mk.inj (Option.some.inj hkept)
  exact ⟨s₀, hs₀, hkeyword, hnames.symm⟩

theorem exists_edited (hmeaning : parsed'.meaning = parsed.meaning.unmanage managed)
    {s : SelectionLine} (hs : s ∈ parsed.selections) {n : Text} (hn : n ∈ s.interfaces)
    (hm : n ∉ managed) :
    ∃ s' ∈ parsed'.selections, s'.keyword = s.keyword ∧ n ∈ s'.interfaces := by
  have hselections : parsed'.selections.map (fun s => (s.keyword, s.interfaces)) =
      (parsed.selections.map fun s => (s.keyword, s.interfaces)).filterMap
        (keptSelection managed) := congrArg Meaning.selections hmeaning
  have hkept : n ∈ s.interfaces.filter (· ∉ managed) := by simp [hn, hm]
  have hmem : (s.keyword, s.interfaces.filter (· ∉ managed)) ∈
      parsed'.selections.map fun s => (s.keyword, s.interfaces) := by
    rw [hselections]
    refine List.mem_filterMap.mpr ⟨_, List.mem_map_of_mem hs, ?_⟩
    rw [keptSelection, if_neg (List.ne_nil_of_mem hkept)]
  obtain ⟨s', hs', he⟩ := List.mem_map.mp hmem
  obtain ⟨hkeyword, hnames⟩ := Prod.mk.inj he
  exact ⟨s', hs', hkeyword, hnames ▸ hkept⟩

theorem not_refersTo (hdep : rejectSelectedDependencies env path parsed selected = .ok ())
    {b : InterfaceBlock} (hb : b ∈ parsed.blocks) (hunselected : b.iface ∉ selected) {name : Text}
    (hname : name ∈ selected) : ¬ RefersTo env b name := by
  unfold rejectSelectedDependencies at hdep
  have hblock := rejectBlock_ok_iff.mp (forM_ok_iff.mp hdep b hb)
  obtain ⟨hinherits, hoptions⟩ := hblock.resolve_left hunselected
  rintro (hi | ⟨o, ho, hkey, value, hvalue, hall | ⟨isMatch, hglob, hmatch⟩⟩)
  · rw [hi] at hinherits
    simp [hname] at hinherits
  · obtain ⟨-, -, hne, -⟩ := hoptions o ho hkey value hvalue
    exact hne hall
  · obtain ⟨isMatch', hglob', -, hany⟩ := hoptions o ho hkey value hvalue
    obtain rfl := Except.ok.inj (hglob.symm.trans hglob')
    have hnone := List.any_eq_false.mp hany name hname
    exact hnone hmatch

theorem silent_iff (hsub : ∀ n ∈ managed, n ∈ selected)
    (hmap : rejectAmbiguousMappings env path parsed selected = .ok ())
    (hdep : rejectSelectedDependencies env path parsed selected = .ok ())
    (hch : planChanges env path managed parsed = .ok ch)
    (hmeaning : parsed'.meaning = parsed.meaning.unmanage managed) :
    Silent env selected managed parsed' ↔ NoLogical managed parsed := by
  constructor
  · intro h s hs hkeyword n hn hm name hname hlogical
    obtain ⟨s', hs', hkw, hn'⟩ := exists_edited hmeaning hs hn hm
    exact h.selections s' hs' (hkw ▸ hkeyword) n hn' name hname (.inr (.inl hlogical))
  · intro h
    constructor
    · intro s hs hkeyword n hn name hname hselects
      obtain ⟨s₀, hs₀, hkw, hnames⟩ := exists_selection hmeaning hs
      rw [hnames] at hn
      obtain ⟨hn₀, hm⟩ := List.mem_filter.mp hn
      have hm' : n ∉ managed := of_decide_eq_true hm
      rcases hselects with rfl | hlogical | ⟨hslash, hpattern⟩
      · exact hm' hname
      · exact h s₀ hs₀ (hkw ▸ hkeyword) n hn₀ hm' name hname hlogical
      · have hfalse := patterns_unmatched hch hs₀ hn₀ hm' hslash name hname
        rw [hfalse] at hpattern
        cases hpattern
    · intro b hb hunselected name hname
      obtain ⟨-, hdep'⟩ := checks_unmanage hsub hmeaning hmap hdep
      exact not_refersTo hdep' hb hunselected (hsub name hname)

end File

/-! ## The files of a plan -/

section Plan

variable {files : List Text} {plan : EditPlan M}

/-- An edited file in which no statement goes on in the next line brings no managed interface up,
exactly when the file has no `name=logical` for one. -/
theorem unmanage_silent_iff (h : planUnmanage env selected files = .ok plan) :
    ∀ path ∈ files, ∀ content parsed content' parsed', env.readToString path = some content →
      parse path content = .ok parsed →
      (plan.applied env).readToString path = some content' → parse path content' = .ok parsed' →
      EndsPlain (managedNames env selected files) parsed →
        (Silent env selected (managedNames env selected files) parsed' ↔
          NoLogical (managedNames env selected files) parsed) := by
  obtain ⟨parsedFiles, edits, hfiles, hedits, rfl⟩ := planUnmanage_ok_iff.mp h
  rw [managedNames_eq hfiles]
  intro path hpath content parsed content' parsed' hread hparse hread' hparse' hplain
  obtain ⟨f, -, hf⟩ := exists_of_mem_left hfiles hpath
  obtain ⟨-, hfread, hfparse, hmap, hdep⟩ := readFile_ok_iff.mp hf
  -- the file that was planned on is the one that is read now
  rw [hfread] at hread
  obtain rfl := Option.some.inj hread
  rw [hfparse] at hparse
  obtain rfl := Except.ok.inj hparse
  obtain ⟨ch, hch, hedited⟩ := applied_read hfiles hedits hpath hf
  rw [hedited] at hread'
  obtain rfl := Option.some.inj hread'
  have hmeaning := meaning_edited hfparse hch hplain hparse'
  have hsub : ∀ n ∈ managedOf selected parsedFiles, n ∈ selected := by
    intro n hn
    simpa using (List.mem_filter.mp hn).2
  exact silent_iff hsub hmap hdep hch hmeaning

end Plan

section Samples

def logicalContent : Text :=
  "auto eth0=home lo\niface eth0 inet static\n  address 192.0.2.1\n".toList

def logicalPlan : EditPlan Unit :=
  ⟨[⟨samplePath, logicalContent, "auto eth0=home lo\niface eth0 inet manual\n".toList, ()⟩]⟩

theorem exists_parsed {e : Except HostNetError ParsedFile} (h : e.toOption.isSome = true) :
    ∃ parsed, e = .ok parsed := by
  cases e with
  | error err => cases h
  | ok parsed => exact ⟨parsed, rfl⟩

/-- Behind the edit of the sample file nothing brings the interface up. -/
theorem sample_silent :
    ∃ parsed', parse samplePath "auto lo\niface eth0 inet manual\n".toList = .ok parsed' ∧
      Silent (sampleEnv sampleContent) ["eth0".toList] ["eth0".toList] parsed' := by
  have hread : (samplePlan.applied (sampleEnv sampleContent)).readToString samplePath =
      some "auto lo\niface eth0 inet manual\n".toList := by
    delta samplePlan sampleContent
    repeat rewrite [String.toList_ofList]
    decide +kernel
  have hparses : (parse samplePath "auto lo\niface eth0 inet manual\n".toList).toOption.isSome =
      true := by
    rewrite [String.toList_ofList]
    decide +kernel
  obtain ⟨parsed', hparse'⟩ := exists_parsed hparses
  obtain ⟨parsed, hparse, hnames, -⟩ := sample_parsed
  have hplain : EndsPlain ["eth0".toList] parsed := by
    intro s hs _ last hlast
    rw [hnames] at hs
    obtain rfl := List.mem_singleton.mp hs
    have hlo : (["lo".toList, "eth0".toList].filter (· ∉ ["eth0".toList])).getLast? =
        some "lo".toList := by decide
    obtain rfl := Option.some.inj (hlo.symm.trans hlast)
    decide
  have hlogical : NoLogical ["eth0".toList] parsed := by
    intro s hs _ n hn _ name _ hnamed
    rw [hnames] at hs
    obtain rfl := List.mem_singleton.mp hs
    have hsign : ∀ n ∈ ["lo".toList, "eth0".toList], '=' ∉ n := by decide
    exact hsign n hn hnamed.1
  have hiff := unmanage_silent_iff sample_planned samplePath (List.mem_singleton_self _)
    sampleContent parsed _ parsed' rfl hparse hread hparse'
  rw [sample_managed] at hiff
  exact ⟨parsed', hparse', (hiff hplain).mpr hlogical⟩

/-- The statement names the interface with a logical one, and it stays. -/
theorem logical_not_silent :
    planUnmanage (sampleEnv logicalContent) ["eth0".toList] [samplePath] = .ok logicalPlan ∧
      ∃ parsed', parse samplePath "auto eth0=home lo\niface eth0 inet manual\n".toList =
          .ok parsed' ∧
        ¬ Silent (sampleEnv logicalContent) ["eth0".toList] ["eth0".toList] parsed' := by
  have hplan : planUnmanage (sampleEnv logicalContent) ["eth0".toList] [samplePath] =
      .ok logicalPlan := by
    delta logicalPlan logicalContent
    repeat rewrite [String.toList_ofList]
    decide +kernel
  refine ⟨hplan, ?_⟩
  have hselections : (parse samplePath
      "auto eth0=home lo\niface eth0 inet manual\n".toList).toOption.map (·.selections) =
        some [⟨"auto".toList, ["eth0=home".toList, "lo".toList], ⟨0, []⟩⟩] := by
    repeat rewrite [String.toList_ofList]
    decide +kernel
  cases hp : parse samplePath "auto eth0=home lo\niface eth0 inet manual\n".toList with
  | error e =>
    rw [hp] at hselections
    cases hselections
  | ok parsed' =>
    rw [hp] at hselections
    have hnames : parsed'.selections =
        [⟨"auto".toList, ["eth0=home".toList, "lo".toList], ⟨0, []⟩⟩] :=
      Option.some.inj hselections
    refine ⟨parsed', rfl, fun hsilent => ?_⟩
    apply hsilent.selections ⟨"auto".toList, ["eth0=home".toList, "lo".toList], ⟨0, []⟩⟩
      (by rw [hnames]; exact List.mem_singleton_self _) (by decide) "eth0=home".toList
      (List.mem_cons_self ..) "eth0".toList (List.mem_singleton_self _)
    exact .inr (.inl ⟨by decide, by decide⟩)

end Samples

end LandscapeKit.Hostnet
