import LandscapeKit.ServiceDefinitions

/-!
Definitions that are accepted and start another program. The validators find what they look for
behind an `exec`, or in a section that systemd passes over; where they do not find it in the
rendered definition either, that one is refused.
-/

namespace LandscapeKit.Service.Definition

open Text Identity
open Mirror.Dnf (unlines lines lines_unlines)

section Contains

variable {pattern a b : Text} {c : Char}

theorem containsText_iff {text : Text} : containsText pattern text = true ↔ pattern <:+: text := by
  rw [containsText]
  constructor
  · intro h
    obtain ⟨n, hn⟩ := Option.isSome_iff_exists.mp h
    exact (find_spec hn).1.isInfix.trans (List.drop_suffix n text).isInfix
  · rintro ⟨before, after, rfl⟩
    by_contra hnone
    rw [Bool.not_eq_true, Option.isSome_eq_false_iff, Option.isNone_iff_eq_none] at hnone
    apply not_prefix_of_find hnone before.length
    · simp
    · simp

theorem infix_append_cons (h : pattern <:+: a ++ c :: b) (hc : c ∉ pattern) :
    pattern <:+: a ∨ pattern <:+: b := by
  obtain ⟨before, after, h⟩ := h
  rw [List.append_assoc] at h
  rcases List.append_eq_append_iff.mp h with ⟨rest, rfl, hrest⟩ | ⟨rest, rfl, hrest⟩
  · rcases List.append_eq_append_iff.mp hrest with ⟨more, rfl, -⟩ | ⟨more, hpattern, hmore⟩
    · left
      exact ⟨before, more, by rw [List.append_assoc]⟩
    · -- the pattern goes on with the character, or ends in front of it
      cases more with
      | nil =>
        rw [List.append_nil] at hpattern
        rw [hpattern]
        exact .inl (List.suffix_append before rest).isInfix
      | cons d more =>
        rw [List.cons_append, List.cons.injEq] at hmore
        rw [hpattern, hmore.1] at hc
        exact absurd (List.mem_append_right rest (List.mem_cons_self ..)) hc
  · right
    cases rest with
    | nil =>
      cases pattern with
      | nil => exact List.nil_infix
      | cons d pattern =>
        rw [List.nil_append, List.cons_append, List.cons.injEq] at hrest
        rw [hrest.1] at hc
        exact absurd (List.mem_cons_self ..) hc
    | cons d rest =>
      rw [List.cons_append, List.cons.injEq] at hrest
      rw [hrest.2, ← List.append_assoc]
      exact ⟨rest, after, rfl⟩

end Contains

section Units

theorem trim_eq_self {text : Text} (hhead : ∀ c ∈ text.head?, Hostnet.isWhitespace c = false)
    (hlast : ∀ c ∈ text.getLast?, Hostnet.isWhitespace c = false) : Mirror.trim text = text := by
  have hdrop : ∀ t : Text, (∀ c ∈ t.head?, Hostnet.isWhitespace c = false) →
      t.dropWhile Hostnet.isWhitespace = t := by
    intro t ht
    cases t with
    | nil => rfl
    | cons c t => rw [List.dropWhile_cons_of_neg (by rw [ht c rfl]; exact Bool.false_ne_true)]
  rw [Mirror.trim, Mirror.trimStart, hdrop text hhead, hdrop, List.reverse_reverse]
  rw [List.head?_reverse]
  exact hlast

theorem parseLines_append (a b : List Text) : parseLines (a ++ b) =
    (parseLines a).bind fun x => (parseLines b).map (x ++ ·) := by
  induction a with
  | nil => simp [parseLines]
  | cons raw a ih =>
    rw [List.cons_append, parseLines, parseLines]
    split
    · exact ih
    · split
      · exact ih
      · split
        · rfl
        · rw [ih]
          cases parseLines a <;> cases parseLines b <;> rfl

theorem parseLines_exec {value : Text} (hhead : value.head? = some '/')
    (hlast : ∀ c ∈ value.getLast?, Hostnet.isWhitespace c = false) :
    parseLines ["ExecStart=".toList ++ value] = some [("ExecStart".toList, value)] := by
  have hne : value ≠ [] := by
    rintro rfl
    cases hhead
  have hkept : Mirror.trim ("ExecStart=".toList ++ value) = "ExecStart=".toList ++ value := by
    apply trim_eq_self
    · intro c hc
      cases hc
      decide
    · rw [List.getLast?_append_of_ne_nil _ hne]
      exact hlast
  have hvalue : Mirror.trim value = value := by
    apply trim_eq_self _ hlast
    rw [hhead]
    intro c hc
    cases hc
    decide
  have hkey : Mirror.trim "ExecStart".toList = "ExecStart".toList := by decide
  have hcut : splitOnce "=".toList ("ExecStart=".toList ++ value) =
      some ("ExecStart".toList, value) :=
    splitOnce_char (a := "ExecStart".toList) (c := '=') (by decide)
  rw [parseLines, hkept, hcut]
  dsimp only
  rw [hkey, hvalue]
  rfl

theorem newline_notMem_value {content : Text} {entries : List (Text × Text)}
    (h : parseUnit content = some entries) : ∀ entry ∈ entries, '\n' ∉ entry.2 := by
  have htrim : ∀ t : Text, '\n' ∉ t → '\n' ∉ Mirror.trim t := by
    intro t ht hmem
    rw [Mirror.trim, Mirror.trimStart, List.mem_reverse] at hmem
    have hin := List.mem_reverse.mp ((List.dropWhile_sublist _).subset hmem)
    exact ht ((List.dropWhile_sublist _).subset hin)
  have hlines : ∀ ls : List Text, (∀ line ∈ ls, '\n' ∉ line) → ∀ entries,
      parseLines ls = some entries → ∀ entry ∈ entries, '\n' ∉ entry.2 := by
    intro ls
    induction ls with
    | nil =>
      rintro - entries h
      cases h
      exact List.forall_mem_nil _
    | cons raw ls ih =>
      intro hls entries h
      rw [List.forall_mem_cons] at hls
      rw [parseLines] at h
      split at h
      · exact ih hls.2 entries h
      · split at h
        · exact ih hls.2 entries h
        · split at h
          · cases h
          · rename_i key value hcut
            obtain ⟨others, hothers, rfl⟩ := Option.map_eq_some_iff.mp h
            rw [List.forall_mem_cons]
            refine ⟨?_, ih hls.2 others hothers⟩
            apply htrim
            intro hmem
            apply htrim raw hls.1
            rw [splitOnce_spec hcut]
            exact List.mem_append_right _ hmem
  exact hlines _ (Mirror.Dnf.newline_notMem_lines content) entries h

def otherLines : List Text :=
  ["[Service]".toList, "ExecStart=".toList ++ otherProgram, "User=root".toList,
    "Restart=always".toList, "LimitMEMLOCK=infinity".toList, "[Install]".toList,
    "WantedBy=multi-user.target".toList, "[X-Lkit]".toList]

def otherEntries : List (Text × Text) :=
  [("ExecStart".toList, otherProgram), ("User".toList, "root".toList),
    ("Restart".toList, "always".toList), ("LimitMEMLOCK".toList, "infinity".toList),
    ("WantedBy".toList, "multi-user.target".toList)]

theorem parseLines_otherLines :
    parseLines (otherLines.map Hostnet.stripCarriageReturn) = some otherEntries := by
  unfold otherLines otherEntries
  repeat rewrite [String.toList_ofList]
  decide +kernel

theorem newline_notMem_otherUnit {value : Text} (h : '\n' ∉ value) :
    ∀ line ∈ otherLines ++ ["ExecStart=".toList ++ value], '\n' ∉ line := by
  intro line hline
  rcases List.mem_append.mp hline with hfixed | hexec
  · exact (show ∀ line ∈ otherLines, '\n' ∉ line by decide) line hfixed
  · rw [List.mem_singleton.mp hexec]
    intro hmem
    rcases List.mem_append.mp hmem with hmem | hmem
    · exact absurd hmem (by decide)
    · exact h hmem

theorem parseUnit_otherUnit {value : Text} (hhead : value.head? = some '/')
    (hlast : ∀ c ∈ value.getLast?, Hostnet.isWhitespace c = false) (hline : '\n' ∉ value) :
    parseUnit (otherUnit value) = some (otherEntries ++ [("ExecStart".toList, value)]) := by
  have hne : value ≠ [] := by
    rintro rfl
    cases hhead
  have hstrip : Hostnet.stripCarriageReturn ("ExecStart=".toList ++ value) =
      "ExecStart=".toList ++ value := by
    rw [Hostnet.stripCarriageReturn, if_neg]
    rw [List.getLast?_append_of_ne_nil _ hne]
    intro hreturn
    exact absurd (hlast '\r' hreturn) (by decide)
  have hunit : otherUnit value = unlines (otherLines ++ ["ExecStart=".toList ++ value]) := rfl
  rw [parseUnit, hunit, lines_unlines (newline_notMem_otherUnit hline),
    List.map_append, List.map_singleton, hstrip,
    parseLines_append, parseLines_otherLines, Option.bind_some, parseLines_exec hhead hlast]
  rfl

end Units

section Accepted

variable {root : Text}

theorem lastValue_concat_self (key : String) (entries : List (Text × Text)) (value : Text) :
    lastValue key (entries ++ [(key.toList, value)]) = some value := by
  rw [lastValue, List.filter_append, List.filter_cons_of_pos (by simp), List.filter_nil,
    List.getLast?_concat]
  rfl

theorem lastValue_concat_of_ne {key : String} {other value : Text} (h : other ≠ key.toList)
    (entries : List (Text × Text)) :
    lastValue key (entries ++ [(other, value)]) = lastValue key entries := by
  rw [lastValue, List.filter_append, List.filter_cons_of_neg (by simpa using h), List.filter_nil,
    List.append_nil, lastValue]

theorem mem_of_lastValue {key : String} {entries : List (Text × Text)} {value : Text}
    (h : lastValue key entries = some value) : (key.toList, value) ∈ entries := by
  obtain ⟨⟨key', value'⟩, hlast, rfl⟩ := Option.map_eq_some_iff.mp h
  have hmem := List.mem_filter.mp (List.mem_of_getLast? hlast)
  rw [← of_decide_eq_true hmem.2]
  exact hmem.1

theorem expectedExec_ends : ∀ c ∈ (expectedExec root).getLast?, Hostnet.isWhitespace c = false := by
  rw [expectedExec, List.getLast?_append_of_ne_nil _ (by decide)]
  intro c hc
  cases hc
  decide

theorem validateUnit_otherUnit {content : Text} (habsolute : root.head? = some '/')
    (h : validateUnit content root = .ok ()) :
    '\n' ∉ expectedExec root ∧ validateUnit (otherUnit (expectedExec root)) root = .ok () := by
  unfold validateUnit at h
  split at h
  · cases h
  · rename_i entries hentries
    unfold validateEntries at h
    split at h
    · cases h
    · rename_i hclean
      split at h
      · cases h
      · rename_i hexec
        have hmem := mem_of_lastValue (not_not.mp hexec)
        have hline : '\n' ∉ expectedExec root := newline_notMem_value hentries _ hmem
        have hvalue : isCredential (expectedExec root) = false := by
          rw [Bool.not_eq_true, List.any_eq_false] at hclean
          have hnot := hclean _ hmem
          exact Bool.eq_false_iff.mpr hnot
        have hhead : (expectedExec root).head? = some '/' := by
          obtain ⟨rest, rfl⟩ := List.head?_eq_some_iff.mp habsolute
          rfl
        have hother : (otherEntries.any fun entry => isCredential entry.2) = false := by
          decide +kernel
        have hany : ¬ ((otherEntries ++ [("ExecStart".toList, expectedExec root)]).any
            fun entry => isCredential entry.2) = true := by
          rw [List.any_append, hother, List.any_cons, hvalue]
          exact Bool.false_ne_true
        have huser : lastValue "User" otherEntries = some "root".toList := by decide +kernel
        have hrestart : lastValue "Restart" otherEntries = some "always".toList := by
          decide +kernel
        have hmemlock : lastValue "LimitMEMLOCK" otherEntries = some "infinity".toList := by
          decide +kernel
        have hwanted : lastValue "WantedBy" otherEntries = some "multi-user.target".toList := by
          decide +kernel
        refine ⟨hline, ?_⟩
        rw [validateUnit, parseUnit_otherUnit hhead expectedExec_ends hline]
        dsimp only
        rw [validateEntries, if_neg hany, lastValue_concat_self,
          lastValue_concat_of_ne (by decide), lastValue_concat_of_ne (by decide),
          lastValue_concat_of_ne (by decide), lastValue_concat_of_ne (by decide),
          lastValue_concat_of_ne (by decide), huser, hrestart, hmemlock, hwanted]
        simp

theorem hasPassword_iff {content : Text} : hasPassword content = false ↔
    ¬ "PASSWORD".toList <:+: content ∧ ¬ "password".toList <:+: content := by
  rw [hasPassword, Bool.or_eq_false_iff, ← Bool.not_eq_true, ← Bool.not_eq_true, containsText_iff,
    containsText_iff]

theorem hasPassword_execScript {expected content : Text} (hin : expected <:+: content)
    (h : hasPassword content = false) (more : Text) (hmore : hasPassword more = false) :
    hasPassword (execScript (expected ++ '\n' :: more)) = false := by
  have hfree : ∀ w : Text, '\n' ∉ w → ¬ w <:+: content → ¬ w <:+: more →
      ¬ w <:+: "#!/bin/sh\nexec /usr/bin/other".toList →
      ¬ w <:+: execScript (expected ++ '\n' :: more) := by
    intro w hw hcontent hnot hscript hmem
    have hsplit : execScript (expected ++ '\n' :: more) =
        "#!/bin/sh\nexec /usr/bin/other".toList ++ '\n' :: (expected ++ '\n' :: more) := rfl
    rw [hsplit] at hmem
    rcases infix_append_cons hmem hw with hmem | hmem
    · exact hscript hmem
    · rcases infix_append_cons hmem hw with hmem | hmem
      · exact hcontent (hmem.trans hin)
      · exact hnot hmem
  rw [hasPassword_iff] at h hmore ⊢
  exact ⟨hfree _ (by decide) h.1 hmore.1 (by decide +kernel),
    hfree _ (by decide) h.2 hmore.2 (by decide +kernel)⟩

theorem validateOpenRc_execScript {content : Text} (h : validateOpenRc content root = .ok ()) :
    ∃ rest, validateOpenRc (execScript rest) root = .ok () := by
  let expected :=
    "command=\"".toList ++ shellQuote root ++ "/current/landscape-webserver\"".toList
  let user := "command_user=\"root\"".toList
  refine ⟨expected ++ '\n' :: user, ?_⟩
  unfold validateOpenRc at h
  dsimp only at h
  split at h
  · cases h
  · rename_i hin
    split at h
    · cases h
    · split at h
      · cases h
      · rename_i hpassword
        rw [Bool.not_eq_true, Bool.not_eq_false'] at hin
        have hclean := hasPassword_execScript (containsText_iff.mp hin)
          (Bool.not_eq_true _ |>.mp hpassword) user (by decide +kernel)
        have hexpected : containsText expected (execScript (expected ++ '\n' :: user)) = true :=
          containsText_iff.mpr ⟨execScript [], '\n' :: user, rfl⟩
        have huser : containsText user (execScript (expected ++ '\n' :: user)) = true :=
          containsText_iff.mpr ⟨execScript (expected ++ ['\n']), [], by simp [execScript]⟩
        unfold validateOpenRc
        dsimp only
        rw [hexpected, huser, hclean]
        rfl

theorem validateSysvInit_execScript {content : Text} (h : validateSysvInit content root = .ok ()) :
    ∃ rest, validateSysvInit (execScript rest) root = .ok () := by
  let expected := shellQuote root ++ "/current/landscape-webserver".toList
  refine ⟨expected ++ ['\n'], ?_⟩
  unfold validateSysvInit at h
  dsimp only at h
  split at h
  · cases h
  · rename_i hin
    split at h
    · cases h
    · rename_i hpassword
      rw [Bool.not_eq_true, Bool.not_eq_false'] at hin
      have hclean := hasPassword_execScript (containsText_iff.mp hin)
        (Bool.not_eq_true _ |>.mp hpassword) [] (by decide +kernel)
      have hexpected : containsText expected (execScript (expected ++ ['\n'])) = true :=
        containsText_iff.mpr ⟨execScript [], ['\n'], rfl⟩
      unfold validateSysvInit
      dsimp only
      rw [hexpected, hclean]
      rfl

theorem exists_otherProgram (init : Init) (backend : Backend) {content : Text}
    (habsolute : root.head? = some '/')
    (h : validateDefinition backend content root = .ok ()) :
    ∃ text, validateDefinition backend text root = .ok () ∧
      init.starts backend text = [[otherProgram]] := by
  cases backend with
  | systemd =>
    obtain ⟨hline, hother⟩ := validateUnit_otherUnit habsolute h
    exact ⟨_, hother, init.extension_ignored _ hline⟩
  | openRc =>
    obtain ⟨rest, hrest⟩ := validateOpenRc_execScript h
    exact ⟨_, hrest, init.exec_ends .openRc rest nofun⟩
  | sysvInit =>
    obtain ⟨rest, hrest⟩ := validateSysvInit_execScript h
    exact ⟨_, hrest, init.exec_ends .sysvInit rest nofun⟩

theorem otherProgram_ne (root : Text) : otherProgram ≠ program root := by
  intro h
  have hlength := congrArg List.length h
  have hother : otherProgram.length = 14 := by decide
  have htail : "/current/landscape-webserver".toList.length = 28 := by decide
  rw [hother, program, List.length_append, htail] at hlength
  omega

/-- For no root are the definitions right: either its own is refused, or so is not one that starts
another program. -/
theorem not_definitionsRight (init : Init) (backend : Backend) (root : CanonicalRoot) :
    ¬ DefinitionsRight init backend root.text := by
  intro h
  obtain ⟨text, htext, hstarts⟩ := exists_otherProgram init backend root.absolute h.accepted
  have hprogram := h.only text htext [otherProgram] (by rw [hstarts]; exact List.mem_singleton_self _)
  exact otherProgram_ne root.text (Option.some.inj hprogram)

end Accepted

section Instance

open Lines

def serviceCommands (inService : Bool) : List Text → List (List Text)
  | [] => []
  | line :: rest =>
    if line.head? = some '[' then serviceCommands (line = "[Service]".toList) rest
    else
      match if inService then stripLead "ExecStart=".toList line else none with
      | some value => Hostnet.splitWhitespace value :: serviceCommands inService rest
      | none => serviceCommands inService rest

theorem serviceCommands_otherLines (line : Text) :
    serviceCommands false (otherLines ++ [line]) =
      [otherProgram] :: serviceCommands false [line] := by
  unfold otherLines otherProgram
  repeat rewrite [String.toList_ofList]
  rfl

def assigned (name : Text) (ls : List Text) : Option Text :=
  ls.findSome? fun line => (stripLead (name ++ "=\"".toList) line).map List.dropLast

def scriptCommands : List Text → List (List Text)
  | first :: second :: rest =>
    match stripLead "exec ".toList second with
    | some command => [Hostnet.splitWhitespace command]
    | none =>
      match assigned "command".toList rest, assigned "command_args".toList rest with
      | some command, some args =>
        [Hostnet.splitWhitespace command ++ Hostnet.splitWhitespace args]
      | _, _ => (first :: second :: rest).filterMap fun line =>
          match Hostnet.splitWhitespace line with
          | option :: command :: _ :: args =>
            if option = "--exec".toList then some (command :: args) else none
          | _ => none
  | _ => []

def plainInit : Init where
  starts backend text :=
    match backend with
    | .systemd => serviceCommands false (lines text)
    | _ => scriptCommands (lines text)
  exec_ends := by
    intro backend rest hbackend
    have hlines : lines (execScript rest) =
        "#!/bin/sh".toList :: ("exec ".toList ++ otherProgram) :: lines rest := by
      have hfirst : IsLine '\n' "#!/bin/sh\n".toList := ⟨"#!/bin/sh".toList, by decide, rfl⟩
      have hsecond : IsLine '\n' ("exec ".toList ++ otherProgram ++ ['\n']) :=
        ⟨"exec ".toList ++ otherProgram, by decide, rfl⟩
      have hsplit : execScript rest =
          "#!/bin/sh\n".toList ++ (("exec ".toList ++ otherProgram ++ ['\n']) ++ rest) := rfl
      rw [lines, hsplit, splitInclusive_line hfirst, splitInclusive_line hsecond]
      rfl
    have hcommands : scriptCommands (lines (execScript rest)) = [[otherProgram]] := by
      rw [hlines]
      have hstrip : stripLead "exec ".toList ("exec ".toList ++ otherProgram) =
          some otherProgram := stripLead_append ..
      have hword : Hostnet.splitWhitespace otherProgram = [otherProgram] := by decide
      rw [scriptCommands, hstrip]
      dsimp only
      rw [hword]
    cases backend with
    | systemd => exact absurd rfl hbackend
    | openRc => exact hcommands
    | sysvInit => exact hcommands
  extension_ignored := by
    intro value hline
    have hunit : otherUnit value = unlines (otherLines ++ ["ExecStart=".toList ++ value]) := rfl
    have hfixed : otherLines.map Hostnet.stripCarriageReturn = otherLines := by decide
    have hnone : ∀ line, serviceCommands false [line] = [] := by
      intro line
      rw [serviceCommands]
      split <;> rfl
    dsimp only
    rw [hunit, lines_unlines (newline_notMem_otherUnit hline), List.map_append, hfixed,
      List.map_singleton, serviceCommands_otherLines, hnone]

theorem managed_plain (backend : Backend) :
    validateDefinition backend (renderDefinition srvRoot.text backend) srvRoot.text = .ok () ∧
      plainInit.starts backend (renderDefinition srvRoot.text backend) =
        [managedCommand srvRoot.text] := by
  cases backend with
  | systemd =>
    unfold renderDefinition renderUnit
    repeat rewrite [String.toList_ofList]
    decide +kernel
  | openRc =>
    unfold renderDefinition renderOpenRc
    repeat rewrite [String.toList_ofList]
    decide +kernel
  | sysvInit =>
    unfold renderDefinition renderSysvInit
    repeat rewrite [String.toList_ofList]
    decide +kernel

/-- There the definitions are accepted that start another program. -/
theorem not_definitionsRight_plain : ¬ DefinitionsRight plainInit .systemd srvRoot.text ∧
    ¬ DefinitionsRight plainInit .openRc srvRoot.text ∧
      ¬ DefinitionsRight plainInit .sysvInit srvRoot.text := by
  have hwrong (backend : Backend) : ¬ DefinitionsRight plainInit backend srvRoot.text := by
    intro h
    obtain ⟨text, htext, hstarts⟩ :=
      exists_otherProgram plainInit backend srvRoot.absolute (managed_plain backend).1
    have hprogram := h.only text htext [otherProgram] (by
      rw [hstarts]
      exact List.mem_singleton_self _)
    exact otherProgram_ne srvRoot.text (Option.some.inj hprogram)
  exact ⟨hwrong .systemd, hwrong .openRc, hwrong .sysvInit⟩

end Instance

end LandscapeKit.Service.Definition
