import LandscapeKit.DeployPaths

/-!
The transaction files of one territory, shared by any number of install roots: `begin`,
`mark_phase`, `persist` and `purge_root` (`deployment/transaction/mod.rs`,
`deployment/transaction/file.rs`). Every call holds the deployment lock, so the calls come one
after the other; a write may fail and a directory is read in any order.
-/

namespace LandscapeKit.Deploy

namespace StoredTransaction

def filePath (s : StoredTransaction) : Path :=
  Layout.transactions ++ [s.file.transactionId ++ ".json"]

def log (s : StoredTransaction) : Path := follow [] s.logPath

def withPhase (s : StoredTransaction) (phase : Phase) (now : ℕ) : StoredTransaction :=
  { s with file := { s.file with phase := phase }, updatedAt := now, split := s.split }

end StoredTransaction

namespace Exclusive

/-! ## What the directory holds -/

/-- A JSON value as the scans look at it: three of its fields, and what `serde` makes of the
whole. -/
structure JsonView where
  phase : Option String
  canonicalInstallRoot : Option String
  logPath : Option String
  transaction : Option StoredTransaction
  agrees : ∀ s, transaction = some s → phase = some s.file.phase.key ∧
    canonicalInstallRoot = some s.canonicalInstallRoot ∧ logPath = some s.logPath

namespace JsonView

def of (s : StoredTransaction) : JsonView where
  phase := some s.file.phase.key
  canonicalInstallRoot := some s.canonicalInstallRoot
  logPath := some s.logPath
  transaction := some s
  agrees s' h := by
    cases h
    exact ⟨rfl, rfl, rfl⟩

end JsonView

inductive Content
  | log (lines : List String)
  | json (value : JsonView)
  | notJson
  | unreadable

namespace Content

def terminalKeys : List String := ["committed", "rolled_back", "failed"]

def NonTerminal : Content → Prop
  | .json v => ∀ key, v.phase = some key → key ∉ terminalKeys
  | _ => False

def Foreign (root : String) : Content → Prop
  | .json v => ∃ other, v.canonicalInstallRoot = some other ∧
      StoredTransaction.components other ≠ StoredTransaction.components root
  | _ => False

end Content

abbrev Territory := Path → Option Content

def Territory.Listed (T : Territory) (listing : List (String × Content)) : Prop :=
  ∀ name c, (name, c) ∈ listing ↔ T (Layout.transactions ++ [name]) = some c

/-! ## The scans -/

def hasJsonExtension (name : String) : Bool := ".json".toList <:+ name.toList ∧ name ≠ ".json"

def isForeignTerminalTransaction (root : String) : Content → Bool
  | .json v =>
    match v.phase with
    | none => false
    | some phase =>
      if phase ∈ Content.terminalKeys then
        match v.canonicalInstallRoot with
        | some other => StoredTransaction.components other ≠ StoredTransaction.components root
        | none => false
      else false
  | _ => false

def loadTransactionFile (root : String) : Content → Except InstallError TransactionFile
  | .json v =>
    match v.transaction with
    | none => .error (.corruptedTransaction "is not a valid transaction")
    | some s => s.load root
  | .log _ => .error (.corruptedTransaction "is not a valid transaction")
  | .notJson => .error (.corruptedTransaction "is not a valid transaction")
  | .unreadable => .error (.io "read failed")

def findUnfinished (root : String) :
    List (String × Content) → Except InstallError (Option TransactionFile)
  | [] => .ok none
  | (name, c) :: rest =>
    if !hasJsonExtension name then findUnfinished root rest
    else if isForeignTerminalTransaction root c then findUnfinished root rest
    else match loadTransactionFile root c with
      | .error e => .error e
      | .ok t => if t.phase.isTerminal then findUnfinished root rest else .ok (some t)

/-! ## The calls -/

structure Io where
  makeDirs : Bool
  createLog : Bool
  appendLog : Bool
  writeFile : Bool
  removeFile : Path → Bool

def Io.good : Io := ⟨true, true, true, true, fun _ => true⟩

abbrev Returned := Except InstallError Unit × Territory

def writeTransaction (io : Io) (s : StoredTransaction) (T : Territory) : Returned :=
  match s.validate with
  | some e => (.error e, T)
  | none =>
    if io.makeDirs ∧ io.writeFile ∧ '/' ∉ s.file.transactionId.toList then
      (.ok (), Function.update T s.filePath (some (.json (.of s))))
    else (.error (.io "write failed"), T)

def begin (io : Io) (root : String) (s : StoredTransaction) (listing : List (String × Content))
    (T : Territory) : Returned :=
  match s.validate with
  | some e => (.error e, T)
  | none =>
    match findUnfinished root listing with
    | .error e => (.error e, T)
    | .ok (some _) =>
      (.error (.blockedByTransaction "another unfinished transaction already exists"), T)
    | .ok none =>
      if !io.makeDirs then (.error (.io "create_dir_all failed"), T)
      else if (T s.log).isSome || !io.createLog then
        (.error (.io ("transaction log " ++ s.logPath ++ " already exists")), T)
      else if !io.appendLog then
        (.error (.io "write failed"), Function.update T s.log (some (.log [])))
      else
        writeTransaction io s
          (Function.update T s.log (some (.log ["phase: " ++ s.file.phase.key])))

/-- `append_log` opens the log only if it is there; a line at the end of a JSON file would make
it one no longer. -/
def appendLog (io : Io) (s : StoredTransaction) (line : String) (T : Territory) : Returned :=
  match T s.log with
  | none => (.error (.io "open failed"), T)
  | some c =>
    if io.appendLog then
      (.ok (), Function.update T s.log (some (match c with
        | .log lines => .log (lines ++ [line])
        | _ => .notJson)))
    else (.error (.io "write failed"), T)

def markPhase (io : Io) (s : StoredTransaction) (phase : Phase) (now : ℕ) (T : Territory) :
    Returned :=
  match appendLog io s ("phase: " ++ phase.key) T with
  | (.error e, T) => (.error e, T)
  | (.ok (), T) => writeTransaction io (s.withPhase phase now) T

def persist (io : Io) (s : StoredTransaction) (T : Territory) : Returned :=
  match s.validate with
  | some e => (.error e, T)
  | none => writeTransaction io s T

def removeFile (io : Io) (p : Path) (T : Territory) : Territory :=
  if io.removeFile p then Function.update T p none else T

def purgeEntry (io : Io) (root : String) (T : Territory) (entry : String × Content) : Territory :=
  if !hasJsonExtension entry.1 then T
  else match entry.2 with
  | .json v =>
    match v.canonicalInstallRoot with
    | none => T
    | some other =>
      if StoredTransaction.components other = StoredTransaction.components root then
        let T := match v.logPath with
          | some text => removeFile io (follow [] text) T
          | none => T
        removeFile io (Layout.transactions ++ [entry.1]) T
      else T
  | _ => T

def purgeRoot (io : Io) (root : String) (listing : List (String × Content)) (T : Territory) :
    Territory :=
  listing.foldl (purgeEntry io root) T

/-! ## What a scan finds -/

section Scan

variable {root : String} {c : Content} {listing : List (String × Content)}

theorem key_mem_terminalKeys (phase : Phase) :
    phase.key ∈ Content.terminalKeys ↔ phase.isTerminal = true := by
  cases phase <;> decide

theorem isForeignTerminal_iff :
    isForeignTerminalTransaction root c = true ↔ c.Foreign root ∧ ¬ c.NonTerminal := by
  cases c with
  | json v =>
    simp only [isForeignTerminalTransaction, Content.Foreign, Content.NonTerminal]
    cases hp : v.phase with
    | none => simp
    | some phase =>
      by_cases ht : phase ∈ Content.terminalKeys
      · cases hr : v.canonicalInstallRoot with
        | none => simp [ht]
        | some other => simp [ht]
      · simp [ht]
  | log lines => simp [isForeignTerminalTransaction, Content.Foreign]
  | notJson => simp [isForeignTerminalTransaction, Content.Foreign]
  | unreadable => simp [isForeignTerminalTransaction, Content.Foreign]

theorem load_spec {t : TransactionFile} (h : loadTransactionFile root c = .ok t) :
    ¬ c.Foreign root ∧ (c.NonTerminal ↔ t.phase.isTerminal = false) := by
  cases c with
  | json v =>
    simp only [loadTransactionFile] at h
    cases hs : v.transaction with
    | none =>
      rw [hs] at h
      cases h
    | some s =>
      rw [hs] at h
      obtain ⟨hphase, hroot, -⟩ := v.agrees s hs
      have hsame : StoredTransaction.components s.canonicalInstallRoot =
          StoredTransaction.components root := by
        by_contra hne
        simp only [StoredTransaction.load, hne, ne_eq, not_false_eq_true, if_true] at h
        split at h
        · cases h
        · cases h
      obtain ⟨-, rfl⟩ := StoredTransaction.load_eq_ok h
      constructor
      · rintro ⟨other, ho, hne⟩
        rw [hroot] at ho
        exact hne (Option.some.inj ho ▸ hsame)
      · simp only [Content.NonTerminal, hphase, Option.some.injEq, forall_eq']
        rw [key_mem_terminalKeys, Bool.not_eq_true]
  | log lines => cases h
  | notJson => cases h
  | unreadable => cases h

theorem passes_iff :
    (isForeignTerminalTransaction root c = true ∨
      ∃ t, loadTransactionFile root c = .ok t ∧ t.phase.isTerminal = true) ↔
    (¬ c.Foreign root → ∃ t, loadTransactionFile root c = .ok t) ∧ ¬ c.NonTerminal := by
  constructor
  · rintro (h | ⟨t, h, ht⟩)
    · obtain ⟨hf, hn⟩ := isForeignTerminal_iff.mp h
      exact ⟨fun hnot => absurd hf hnot, hn⟩
    · refine ⟨fun _ => ⟨t, h⟩, fun hn => ?_⟩
      rw [(load_spec h).2.mp hn] at ht
      cases ht
  · rintro ⟨hload, hn⟩
    by_cases hf : c.Foreign root
    · exact .inl (isForeignTerminal_iff.mpr ⟨hf, hn⟩)
    · obtain ⟨t, ht⟩ := hload hf
      refine .inr ⟨t, ht, ?_⟩
      by_contra hterm
      exact hn ((load_spec ht).2.mpr (Bool.eq_false_iff.mpr hterm))

theorem findUnfinished_eq_none_iff :
    findUnfinished root listing = .ok none ↔
      ∀ name c, (name, c) ∈ listing → hasJsonExtension name = true →
        (¬ c.Foreign root → ∃ t, loadTransactionFile root c = .ok t) ∧ ¬ c.NonTerminal := by
  induction listing with
  | nil => simp [findUnfinished]
  | cons entry rest ih =>
    obtain ⟨name, c⟩ := entry
    have hsplit : (∀ name' c', (name', c') ∈ (name, c) :: rest → hasJsonExtension name' = true →
          (¬ c'.Foreign root → ∃ t, loadTransactionFile root c' = .ok t) ∧ ¬ c'.NonTerminal) ↔
        (hasJsonExtension name = true →
          (¬ c.Foreign root → ∃ t, loadTransactionFile root c = .ok t) ∧ ¬ c.NonTerminal) ∧
        ∀ name' c', (name', c') ∈ rest → hasJsonExtension name' = true →
          (¬ c'.Foreign root → ∃ t, loadTransactionFile root c' = .ok t) ∧ ¬ c'.NonTerminal := by
      constructor
      · intro h
        exact ⟨h name c (List.mem_cons_self ..), fun n d hm => h n d (List.mem_cons_of_mem _ hm)⟩
      · rintro ⟨h1, h2⟩ n d hm
        rcases List.mem_cons.mp hm with heq | hm
        · cases heq
          exact h1
        · exact h2 n d hm
    rw [hsplit, ← ih, ← passes_iff]
    by_cases hext : hasJsonExtension name = true
    · by_cases hf : isForeignTerminalTransaction root c = true
      · simp [findUnfinished, hext, hf]
      · cases hl : loadTransactionFile root c with
        | error e => simp [findUnfinished, hext, hf, hl]
        | ok t =>
          by_cases ht : t.phase.isTerminal = true
          · simp [findUnfinished, hext, hf, hl, ht]
          · simp [findUnfinished, hext, hf, hl, ht]
    · simp [findUnfinished, hext]

theorem findUnfinished_filter :
    findUnfinished root
        (listing.filter fun entry => !isForeignTerminalTransaction root entry.2) =
      findUnfinished root listing := by
  induction listing with
  | nil => rfl
  | cons entry rest ih =>
    obtain ⟨name, c⟩ := entry
    by_cases hf : isForeignTerminalTransaction root c = true
    · have hskip : findUnfinished root ((name, c) :: rest) = findUnfinished root rest := by
        simp [findUnfinished, hf]
      rw [hskip, ← ih]
      simp [hf]
    · simp only [List.filter_cons, hf, Bool.not_false, if_true, findUnfinished, ih]

end Scan

/-- With file operations that succeed, `begin` succeeds exactly when the transaction is valid,
its log is new, every file that is not of another root loads, and no file is unfinished. -/
theorem begin_ok_iff {T : Territory} {listing : List (String × Content)} {root : String}
    {s : StoredTransaction} (hid : '/' ∉ s.file.transactionId.toList) :
    (begin .good root s listing T).1 = .ok () ↔
      s.validate = none ∧ T s.log = none ∧
      ∀ name c, (name, c) ∈ listing → hasJsonExtension name = true →
        (¬ c.Foreign root → ∃ t, loadTransactionFile root c = .ok t) ∧ ¬ c.NonTerminal := by
  rw [← findUnfinished_eq_none_iff]
  unfold begin
  cases hv : s.validate with
  | some e => simp
  | none =>
    cases hu : findUnfinished root listing with
    | error e => simp
    | ok found =>
      cases found with
      | some t => simp
      | none =>
        cases hl : T s.log with
        | some c => simp [Io.good]
        | none => simp [Io.good, writeTransaction, hv, hid]

/-! ## Runs -/

/-- What every constructor gives a transaction and no workflow changes: an id that is a file
name (a UUID), and the log named after it. -/
structure Named (s : StoredTransaction) : Prop where
  nonempty : s.file.transactionId ≠ ""
  plain : '/' ∉ s.file.transactionId.toList
  logPath : s.logPath = "logs/" ++ s.file.transactionId ++ ".log"

theorem Named.withPhase {s : StoredTransaction} (h : Named s) (phase : Phase) (now : ℕ) :
    Named (s.withPhase phase now) := ⟨h.nonempty, h.plain, h.logPath⟩

inductive Call
  | begin (io : Io) (root : String) (s : StoredTransaction) (listing : List (String × Content))
  | markPhase (io : Io) (s : StoredTransaction) (phase : Phase) (now : ℕ)
  | persist (io : Io) (s : StoredTransaction)
  | purgeRoot (io : Io) (root : String) (listing : List (String × Content))

def Call.run : Call → Territory → Territory
  | .begin io root s listing, T => (Exclusive.begin io root s listing T).2
  | .markPhase io s phase now, T => (Exclusive.markPhase io s phase now T).2
  | .persist io s, T => (Exclusive.persist io s T).2
  | .purgeRoot io root listing, T => Exclusive.purgeRoot io root listing T

def Unfinished (T : Territory) (s : StoredTransaction) : Prop :=
  ∃ c, T s.filePath = some c ∧ c.NonTerminal

/-- A call as the workflows make it: directories are read as they are, and only a transaction
that is unfinished is taken to another unfinished phase. -/
def Call.Proper (T : Territory) : Call → Prop
  | .begin _ _ s listing => Named s ∧ T.Listed listing
  | .markPhase _ s phase _ => Named s ∧ (phase.isTerminal = true ∨ Unfinished T s)
  | .persist _ s => Named s ∧ (s.file.phase.isTerminal = true ∨ Unfinished T s)
  | .purgeRoot _ _ listing => T.Listed listing

inductive Reachable : Territory → Prop
  | empty : Reachable fun _ => none
  | call {T : Territory} (c : Call) : Reachable T → c.Proper T → Reachable (c.run T)

structure Sound (T : Territory) : Prop where
  written : ∀ name c, T (Layout.transactions ++ [name]) = some c →
    ∃ s, Named s ∧ c = .json (.of s) ∧ name = s.file.transactionId ++ ".json"
  unique : ∀ a b c d, T (Layout.transactions ++ [a]) = some c →
    T (Layout.transactions ++ [b]) = some d → c.NonTerminal → d.NonTerminal → a = b

section Steps

variable {T : Territory} {s : StoredTransaction} {io : Io}

theorem Named.log_eq (h : Named s) : s.log = ["logs", s.file.transactionId ++ ".log"] := by
  have hsuffix : '/' ∉ (s.file.transactionId ++ ".log").toList := by
    rw [String.toList_append, List.mem_append, not_or]
    exact ⟨h.plain, by decide⟩
  have hparts : parts s.logPath = ["logs"] ++ [s.file.transactionId ++ ".log"] := by
    have hcons := parts_cons (show '/' ∉ ("logs" : String).toList by decide)
      (s.file.transactionId ++ ".log")
    rw [parts_of_not_mem hsuffix] at hcons
    rw [h.logPath, show ("logs/" : String) = "logs" ++ "/" from rfl, String.append_assoc]
    exact hcons
  -- the name ends in `.log`, so it is no dot segment
  have hlen : 4 ≤ (s.file.transactionId ++ ".log").toList.length := by
    simp [String.toList_append]
  have hname : IsName (s.file.transactionId ++ ".log") := by
    refine ⟨fun he => ?_, fun he => ?_, fun he => ?_⟩
    all_goals
      rw [he] at hlen
      revert hlen
      decide
  rw [StoredTransaction.log, follow_of_parts hparts (by decide), enter_name hname]
  rfl

theorem log_ne (h : Named s) (name : String) : Layout.transactions ++ [name] ≠ s.log := by
  rw [h.log_eq]
  intro he
  exact absurd (List.cons.inj he).1 (by decide)

theorem hasJsonExtension_of_named (h : Named s) :
    hasJsonExtension (s.file.transactionId ++ ".json") = true := by
  simp only [hasJsonExtension, decide_eq_true_eq]
  refine ⟨by rw [String.toList_append]; exact List.suffix_append .., fun he => h.nonempty ?_⟩
  have hl := congrArg String.toList he
  rw [String.toList_append] at hl
  have hnil : s.file.transactionId.toList = [] := by
    have hlen := congrArg List.length hl
    rw [List.length_append] at hlen
    exact List.length_eq_zero_iff.mp (by simpa using hlen)
  exact String.toList_inj.mp (by simpa using hnil)

theorem Sound.log (h : Sound T) (hs : Named s) (c : Option Content) :
    Sound (Function.update T s.log c) := by
  have hsame (name : String) : Function.update T s.log c (Layout.transactions ++ [name]) =
      T (Layout.transactions ++ [name]) := Function.update_of_ne (log_ne hs name) ..
  refine ⟨fun name d hd => h.written name d (hsame name ▸ hd), fun a b d e hd he => ?_⟩
  exact h.unique a b d e (hsame a ▸ hd) (hsame b ▸ he)

theorem Sound.write (h : Sound T) (hs : Named s)
    (hwrite : s.file.phase.isTerminal = true ∨ ∀ name c,
      T (Layout.transactions ++ [name]) = some c → c.NonTerminal →
        name = s.file.transactionId ++ ".json") :
    Sound (Function.update T s.filePath (some (.json (.of s)))) := by
  have hcases (name : String) (c : Content)
      (hc : Function.update T s.filePath (some (.json (.of s))) (Layout.transactions ++ [name]) =
        some c) :
      (name = s.file.transactionId ++ ".json" ∧ c = .json (.of s)) ∨
        (name ≠ s.file.transactionId ++ ".json" ∧ T (Layout.transactions ++ [name]) = some c) := by
    by_cases hn : name = s.file.transactionId ++ ".json"
    · subst hn
      rw [StoredTransaction.filePath, Function.update_self] at hc
      exact .inl ⟨rfl, (Option.some.inj hc).symm⟩
    · have hne : Layout.transactions ++ [name] ≠ s.filePath := by
        intro he
        exact hn (by simpa [StoredTransaction.filePath] using he)
      rw [Function.update_of_ne hne] at hc
      exact .inr ⟨hn, hc⟩
  have hterminal (hn : (Content.json (.of s)).NonTerminal) : s.file.phase.isTerminal = false := by
    have hkey := hn _ rfl
    rwa [key_mem_terminalKeys, Bool.not_eq_true] at hkey
  refine ⟨fun name c hc => ?_, fun a b c d hc hd hcn hdn => ?_⟩
  · rcases hcases name c hc with ⟨hname, hval⟩ | ⟨-, hold⟩
    · exact ⟨s, hs, hval, hname⟩
    · exact h.written name c hold
  · rcases hcases a c hc with ⟨ha, rfl⟩ | ⟨ha, hold⟩
    · rcases hcases b d hd with ⟨hb, -⟩ | ⟨hb, hold'⟩
      · rw [ha, hb]
      · rcases hwrite with ht | hothers
        · rw [hterminal hcn] at ht
          cases ht
        · exact absurd (hothers b d hold' hdn) hb
    · rcases hcases b d hd with ⟨hb, rfl⟩ | ⟨hb, hold'⟩
      · rcases hwrite with ht | hothers
        · rw [hterminal hdn] at ht
          cases ht
        · exact absurd (hothers a c hold hcn) ha
      · exact h.unique a b c d hold hold' hcn hdn

theorem Sound.writeTransaction (h : Sound T) (hs : Named s)
    (hwrite : s.file.phase.isTerminal = true ∨ ∀ name c,
      T (Layout.transactions ++ [name]) = some c → c.NonTerminal →
        name = s.file.transactionId ++ ".json") :
    Sound (Exclusive.writeTransaction io s T).2 := by
  unfold Exclusive.writeTransaction
  split
  · exact h
  · split
    · exact h.write hs hwrite
    · exact h

theorem Sound.only_unfinished (h : Sound T) (hu : Unfinished T s) (name : String) (c : Content)
    (hc : T (Layout.transactions ++ [name]) = some c) (hn : c.NonTerminal) :
    name = s.file.transactionId ++ ".json" := by
  obtain ⟨d, hd, hdn⟩ := hu
  exact h.unique _ _ c d hc hd hn hdn

theorem Sound.begin (h : Sound T) (hs : Named s) {root : String}
    {listing : List (String × Content)} (hlist : T.Listed listing) :
    Sound (Exclusive.begin io root s listing T).2 := by
  unfold Exclusive.begin
  split
  · exact h
  split
  · exact h
  · exact h
  rename_i hscan
  split
  · exact h
  split
  · exact h
  split
  · exact h.log hs _
  · -- the scan found nothing, so what is written is the only unfinished file
    refine (h.log hs _).writeTransaction hs (.inr fun name c hc hn => ?_)
    rw [Function.update_of_ne (log_ne hs name)] at hc
    obtain ⟨s', hs', -, hname⟩ := h.written name c hc
    have hext : hasJsonExtension name = true := hname ▸ hasJsonExtension_of_named hs'
    exact absurd hn (findUnfinished_eq_none_iff.mp hscan name c ((hlist name c).mpr hc) hext).2

theorem Sound.markPhase (h : Sound T) (hs : Named s) {phase : Phase} {now : ℕ}
    (hp : phase.isTerminal = true ∨ Unfinished T s) :
    Sound (Exclusive.markPhase io s phase now T).2 := by
  unfold Exclusive.markPhase appendLog
  cases hlog : T s.log with
  | none => exact h
  | some c =>
    by_cases hio : io.appendLog = true
    · simp only [hio, if_true]
      refine (h.log hs _).writeTransaction (hs.withPhase phase now) ?_
      rcases hp with ht | hu
      · exact .inl ht
      · refine .inr fun name d hd hn => ?_
        rw [Function.update_of_ne (log_ne hs name)] at hd
        exact h.only_unfinished hu name d hd hn
    · simp only [hio]
      exact h

theorem Sound.persist (h : Sound T) (hs : Named s)
    (hp : s.file.phase.isTerminal = true ∨ Unfinished T s) :
    Sound (Exclusive.persist io s T).2 := by
  unfold Exclusive.persist
  split
  · exact h
  · exact h.writeTransaction hs (hp.imp_right fun hu => h.only_unfinished hu)

theorem removeFile_sub (p q : Path) (c : Content) (h : removeFile io p T q = some c) :
    T q = some c := by
  unfold removeFile at h
  split at h
  · by_cases hq : q = p
    · subst hq
      rw [Function.update_self] at h
      cases h
    · rwa [Function.update_of_ne hq] at h
  · exact h

theorem purgeEntry_sub {root : String} {entry : String × Content} (q : Path) (c : Content)
    (h : purgeEntry io root T entry q = some c) : T q = some c := by
  obtain ⟨name, content⟩ := entry
  unfold purgeEntry at h
  split at h
  · exact h
  cases content with
  | json v =>
    cases hr : v.canonicalInstallRoot with
    | none =>
      simp only [hr] at h
      exact h
    | some other =>
      simp only [hr] at h
      split at h
      · have hfile := removeFile_sub _ _ _ h
        cases hl : v.logPath with
        | none =>
          simp only [hl] at hfile
          exact hfile
        | some text =>
          simp only [hl] at hfile
          exact removeFile_sub _ _ _ hfile
      · exact h
  | log lines => exact h
  | notJson => exact h
  | unreadable => exact h

theorem purgeRoot_sub {root : String} {listing : List (String × Content)} (q : Path) (c : Content)
    (h : Exclusive.purgeRoot io root listing T q = some c) : T q = some c := by
  unfold Exclusive.purgeRoot at h
  induction listing generalizing T with
  | nil => exact h
  | cons entry rest ih => exact purgeEntry_sub q c (ih h)

theorem Sound.purgeRoot (h : Sound T) {root : String} {listing : List (String × Content)} :
    Sound (Exclusive.purgeRoot io root listing T) where
  written name c hc := h.written name c (purgeRoot_sub _ _ hc)
  unique a b c d hc hd := h.unique a b c d (purgeRoot_sub _ _ hc) (purgeRoot_sub _ _ hd)

theorem Reachable.sound (h : Reachable T) : Sound T := by
  induction h with
  | empty =>
    refine ⟨fun name c hc => ?_, fun a b c d hc => ?_⟩
    all_goals simp at hc
  | @call T c _ hc ih =>
    cases c with
    | begin io root s listing => exact ih.begin hc.1 hc.2
    | markPhase io s phase now => exact ih.markPhase hc.1 hc.2
    | persist io s => exact ih.persist hc.1 hc.2
    | purgeRoot io root listing => exact ih.purgeRoot

theorem Sound.purge_keeps (h : Sound T) {root : String} {listing : List (String × Content)}
    (hlist : ∀ entry ∈ listing, T (Layout.transactions ++ [entry.1]) = some entry.2)
    {name : String} {c : Content} (hf : c.Foreign root)
    (hname : T (Layout.transactions ++ [name]) = some c) {U : Territory}
    (hU : U (Layout.transactions ++ [name]) = some c) :
    Exclusive.purgeRoot io root listing U (Layout.transactions ++ [name]) = some c := by
  unfold Exclusive.purgeRoot
  induction listing generalizing U with
  | nil => exact hU
  | cons entry rest ih =>
    refine ih (fun e he => hlist e (List.mem_cons_of_mem _ he)) ?_
    obtain ⟨entryName, entryContent⟩ := entry
    have hentry := hlist _ (List.mem_cons_self ..)
    obtain ⟨s', hs', rfl, -⟩ := h.written _ _ hentry
    have hkeep (p : Path) (hp : Layout.transactions ++ [name] ≠ p) (V : Territory)
        (hV : V (Layout.transactions ++ [name]) = some c) :
        removeFile io p V (Layout.transactions ++ [name]) = some c := by
      unfold removeFile
      split
      · rw [Function.update_of_ne hp]
        exact hV
      · exact hV
    simp only [purgeEntry, JsonView.of]
    split
    · exact hU
    split
    · rename_i hroot
      have hother : Layout.transactions ++ [name] ≠ Layout.transactions ++ [entryName] := by
        intro he
        -- an entry of this root is not the file of another
        rw [he, hentry] at hname
        obtain rfl := Option.some.inj hname
        obtain ⟨other, ho, hne⟩ := hf
        cases ho
        exact hne hroot
      exact hkeep _ hother _ (hkeep _ (log_ne hs' name) _ hU)
    · exact hU

end Steps

/-- One territory, any roots, calls one after the other: at most one transaction file is
unfinished; `begin` succeeds exactly when the transaction is valid, its log is new, every file
not of another root loads and none is unfinished, in whatever order the directory is read;
finished files of other roots make no difference to it; and purging a root leaves the files of
every other root alone. -/
theorem transactions_exclusive :
    (∀ T, Reachable T → ∀ a b c d, T (Layout.transactions ++ [a]) = some c →
      T (Layout.transactions ++ [b]) = some d → c.NonTerminal → d.NonTerminal → a = b) ∧
    (∀ (T : Territory) listing root s, T.Listed listing → '/' ∉ s.file.transactionId.toList →
      ((begin .good root s listing T).1 = .ok () ↔
        s.validate = none ∧ T s.log = none ∧
        (∀ name c, T (Layout.transactions ++ [name]) = some c → hasJsonExtension name = true →
          ¬ c.Foreign root → ∃ t, loadTransactionFile root c = .ok t) ∧
        ∀ name c, T (Layout.transactions ++ [name]) = some c → hasJsonExtension name = true →
          ¬ c.NonTerminal)) ∧
    (∀ io root s listing (T : Territory),
      begin io root s (listing.filter fun e => !isForeignTerminalTransaction root e.2) T =
        begin io root s listing T) ∧
    (∀ T, Reachable T → ∀ io root listing, T.Listed listing → ∀ name c,
      T (Layout.transactions ++ [name]) = some c → c.Foreign root →
        purgeRoot io root listing T (Layout.transactions ++ [name]) = some c) := by
  refine ⟨fun T h => h.sound.unique, ?_, ?_, ?_⟩
  · intro T listing root s hlist hid
    rw [begin_ok_iff hid]
    constructor
    · rintro ⟨hv, hl, h⟩
      exact ⟨hv, hl, fun name c hc hext => (h name c ((hlist name c).mpr hc) hext).1,
        fun name c hc hext => (h name c ((hlist name c).mpr hc) hext).2⟩
    · rintro ⟨hv, hl, h1, h2⟩
      exact ⟨hv, hl, fun name c hc hext => ⟨h1 name c ((hlist name c).mp hc) hext,
        h2 name c ((hlist name c).mp hc) hext⟩⟩
  · intro io root s listing T
    simp only [begin, findUnfinished_filter]
  · intro T h io root listing hlist name c hc hf
    exact h.sound.purge_keeps (fun e he => (hlist e.1 e.2).mp he) hf hc hc

/-! Two installs, of which the first is over when the second begins. -/

section Samples

def storedInstall (id : String) : StoredTransaction where
  file := .newInstall id "1.2.3"
  schemaVersion := 4
  canonicalInstallRoot := "/root/.lkit/landscape"
  logPath := "logs/" ++ id ++ ".log"
  startedAt := 0
  updatedAt := 0
  planValid := true
  split := by
    simp only [TransactionFile.recordedPaths, TransactionFile.newInstall, TransactionFile.blank]
    decide

def first : StoredTransaction := storedInstall "0190a"
def second : StoredTransaction := storedInstall "0190b"

def afterFirst : Territory :=
  (Call.markPhase .good first .committed 1).run
    ((Call.begin .good "/root/.lkit/landscape" first []).run fun _ => none)

def firstListing : List (String × Content) :=
  [("0190a.json", .json (.of (first.withPhase .committed 1)))]

def afterSecond : Territory :=
  (Call.begin .good "/root/.lkit/landscape" second firstListing).run afterFirst

theorem first_named : Named first := ⟨by decide, by decide, rfl⟩
theorem second_named : Named second := ⟨by decide, by decide, rfl⟩

theorem logs_ne : second.log ≠ first.log := by
  rw [first_named.log_eq, second_named.log_eq]
  decide

theorem begin_run {T : Territory} {s : StoredTransaction} {root : String}
    {listing : List (String × Content)} (hs : Named s) (hv : s.validate = none)
    (hscan : findUnfinished root listing = .ok none) (hlog : T s.log = none) :
    (Call.begin .good root s listing).run T =
      Function.update (Function.update T s.log (some (.log ["phase: " ++ s.file.phase.key])))
        s.filePath (some (.json (.of s))) := by
  simp [Call.run, begin, hv, hscan, hlog, Io.good, writeTransaction, hs.plain]

theorem markPhase_run {T : Territory} {s : StoredTransaction} {phase : Phase} {now : ℕ}
    {lines : List String} (hs : Named s) (hv : (s.withPhase phase now).validate = none)
    (hlog : T s.log = some (.log lines)) :
    (Call.markPhase .good s phase now).run T =
      Function.update (Function.update T s.log (some (.log (lines ++ ["phase: " ++ phase.key]))))
        s.filePath (some (.json (.of (s.withPhase phase now)))) := by
  have hplain : '/' ∉ (s.withPhase phase now).file.transactionId.toList := hs.plain
  have hpath : (s.withPhase phase now).filePath = s.filePath := rfl
  simp [Call.run, markPhase, appendLog, hlog, hv, hplain, hpath, Io.good, writeTransaction]

theorem afterFirst_eq :
    afterFirst = Function.update (Function.update (fun _ => none) first.log
      (some (.log ["phase: preparing", "phase: committed"]))) first.filePath
      (some (.json (.of (first.withPhase .committed 1)))) := by
  have hv : first.validate = none := by decide +kernel
  have hv' : (first.withPhase .committed 1).validate = none := by decide +kernel
  have hne : first.log ≠ first.filePath := (log_ne first_named _).symm
  unfold afterFirst
  rw [begin_run first_named hv rfl rfl, markPhase_run first_named hv' (by
    rw [Function.update_of_ne hne, Function.update_self])]
  rw [Function.update_comm hne, Function.update_idem, Function.update_comm hne.symm,
    Function.update_idem]
  rfl

theorem afterFirst_listed : afterFirst.Listed firstListing := by
  intro name c
  have hlog : Layout.transactions ++ [name] ≠ first.log := log_ne first_named name
  by_cases hn : name = "0190a.json"
  · subst hn
    have hpath : Layout.transactions ++ ["0190a.json"] = first.filePath := by decide
    simp only [firstListing, afterFirst_eq, hpath, Function.update_self, List.mem_singleton,
      Prod.mk.injEq, true_and, Option.some.injEq]
    exact eq_comm
  · have hpath : Layout.transactions ++ [name] ≠ first.filePath := by
      have hfirst : first.filePath = Layout.transactions ++ ["0190a.json"] := by decide
      rw [hfirst]
      intro he
      exact hn (List.singleton_inj.mp (List.append_cancel_left he))
    simp [firstListing, afterFirst_eq, hn, Function.update_of_ne hpath, Function.update_of_ne hlog]

theorem afterFirst_free : afterFirst second.log = none := by
  have hfile : second.log ≠ first.filePath := (log_ne second_named _).symm
  rw [afterFirst_eq, Function.update_of_ne hfile, Function.update_of_ne logs_ne]

theorem firstListing_scan : findUnfinished "/root/.lkit/landscape" firstListing = .ok none := by
  have hload : loadTransactionFile "/root/.lkit/landscape"
      (.json (.of (first.withPhase .committed 1))) = .ok (first.withPhase .committed 1).file := by
    have hv : (first.withPhase .committed 1).load "/root/.lkit/landscape" =
        .ok (first.withPhase .committed 1).file := by decide +kernel
    exact hv
  have hext : hasJsonExtension "0190a.json" = true := by decide
  simp only [firstListing, findUnfinished, hext, hload, Bool.not_true, Bool.false_eq_true, if_false]
  split
  · rfl
  · rfl

/-- Calls that nothing refuses: an install begins and is committed, another one begins, and
the first is taken back to `rolling_back`. Both are then unfinished. -/
theorem reopened_not_exclusive :
    ∃ T, T = (Call.markPhase .good first .rollingBack 2).run afterSecond ∧
      afterFirst.Listed firstListing ∧
      ∃ c d, T (Layout.transactions ++ ["0190a.json"]) = some c ∧
        T (Layout.transactions ++ ["0190b.json"]) = some d ∧
        c.NonTerminal ∧ d.NonTerminal ∧ "0190a.json" ≠ "0190b.json" := by
  have hne : first.log ≠ first.filePath := (log_ne first_named _).symm
  have hv : second.validate = none := by decide +kernel
  have hv' : (first.withPhase .rollingBack 2).validate = none := by decide +kernel
  have hfile : first.log ≠ second.filePath := (log_ne first_named _).symm
  have hafter : afterSecond = Function.update (Function.update afterFirst second.log
      (some (.log ["phase: preparing"]))) second.filePath (some (.json (.of second))) :=
    begin_run second_named hv firstListing_scan afterFirst_free
  have hlog : afterSecond first.log = some (.log ["phase: preparing", "phase: committed"]) := by
    rw [hafter, Function.update_of_ne hfile, Function.update_of_ne logs_ne.symm, afterFirst_eq,
      Function.update_of_ne hne, Function.update_self]
  have hfirst : Layout.transactions ++ ["0190a.json"] = first.filePath := by decide
  have hsecond : Layout.transactions ++ ["0190b.json"] = second.filePath := by decide
  have hpaths : second.filePath ≠ first.filePath := by decide
  refine ⟨_, rfl, afterFirst_listed, .json (.of (first.withPhase .rollingBack 2)),
    .json (.of second), ?_, ?_, ?_, ?_, by decide⟩
  · rw [markPhase_run first_named hv' hlog, hfirst, Function.update_self]
  · rw [markPhase_run first_named hv' hlog, hsecond, Function.update_of_ne hpaths,
      Function.update_of_ne hfile.symm, hafter, Function.update_self]
  · intro key hk
    obtain rfl := Option.some.inj hk
    decide
  · intro key hk
    obtain rfl := Option.some.inj hk
    decide

/-- The theorem at this territory: the second install may begin. -/
theorem second_begins :
    (begin .good "/root/.lkit/landscape" second firstListing afterFirst).1 = .ok () := by
  obtain ⟨-, hbegin, -, -⟩ := transactions_exclusive
  have hscan := findUnfinished_eq_none_iff.mp firstListing_scan
  refine (hbegin afterFirst firstListing _ second afterFirst_listed second_named.plain).mpr
    ⟨by decide +kernel, afterFirst_free, fun name c hc hext => ?_, fun name c hc hext => ?_⟩
  · exact (hscan name c ((afterFirst_listed name c).mpr hc) hext).1
  · exact (hscan name c ((afterFirst_listed name c).mpr hc) hext).2

end Samples

end Exclusive

end LandscapeKit.Deploy
