import LandscapeKit.DeployExclusive
import LandscapeKit.DeployRuns

/-!
Whether a transaction file can be closed. `mark_phase` stamps the copy it writes with the wall
clock, and `validate_transaction` compares that stamp with the start of the operation, so a
clock that has been set back refuses every phase (`deployment/transaction/mod.rs`,
`deployment/transaction/validation.rs`).
-/

namespace LandscapeKit.Deploy

namespace TransactionFile

variable {t : TransactionFile}

theorem validate_eq_none_iff : t.validate = none ↔ ∀ check ∈ t.validationErrors, check.1 = false := by
  simp [validate, List.find?_eq_none]

/-- A failed transaction has to record no more than any other: the checks that look at the
phase are those of a missing backup, and a failed one may lack it. -/
theorem validate_failed (h : t.validate = none) : { t with phase := .failed }.validate = none := by
  rw [validate_eq_none_iff] at h ⊢
  simp only [validationErrors, List.forall_mem_append] at h ⊢
  refine ⟨h.1, ?_⟩
  have hop := h.2
  -- one operation after the other: the check of the backup is passed, the others are as before
  cases ho : t.operation <;>
    simp only [operationErrors, ho, List.forall_mem_append, List.forall_mem_cons] at hop ⊢
  case install => exact hop
  case repair => exact ⟨hop.1, hop.2.1, by simp [mayLackBackup], hop.2.2.2⟩
  case switch => exact ⟨hop.1, hop.2.1, hop.2.2.1, by simp [mayLackBackup], hop.2.2.2.2⟩
  case restore => exact ⟨hop.1, hop.2.1, hop.2.2.1, by simp [mayLackBackup], hop.2.2.2.2⟩
  case uninstall => exact ⟨hop.1, hop.2.1, hop.2.2.1, by simp [mayLackBackup], hop.2.2.2.2⟩
  case reinit => exact ⟨hop.1, hop.2.1, by simp [mayLackBackup], hop.2.2.2⟩
  case migrate =>
    obtain ⟨⟨h1, h2, h3, h4, h5, -, hnil⟩, hlegacy⟩ := hop
    exact ⟨⟨h1, h2, h3, h4, h5, by simp [mayLackBackup], hnil⟩, hlegacy⟩

end TransactionFile

namespace StoredTransaction

variable {root : String} {s : StoredTransaction} {t : TransactionFile}

theorem recordErrors_none_iff :
    (s.recordErrors.find? fun check => check.1) = none ↔
      ∀ check ∈ s.recordErrors, check.1 = false := by
  rw [List.find?_eq_none]
  simp

theorem validate_eq_none_iff :
    s.validate = none ↔ (∀ check ∈ s.recordErrors, check.1 = false) ∧ s.file.validate = none := by
  unfold validate
  rw [Option.or_eq_none_iff, Option.map_eq_none_iff, recordErrors_none_iff]

theorem load_eq_ok_iff :
    s.load root = .ok t ↔ s.validate = none ∧
      components s.canonicalInstallRoot = components root ∧ s.file = t := by
  unfold load
  cases hv : s.validate with
  | some e => simp
  | none =>
    by_cases hroot : components s.canonicalInstallRoot = components root
    · simp [hroot]
    · simp [hroot]

theorem validate_withPhase_iff (phase : Phase) (now : ℕ) :
    (s.withPhase phase now).validate = none ↔
      s.startedAt ≤ now ∧ (s.withPhase phase s.startedAt).validate = none := by
  have hclock : (decide (now < s.startedAt) = false) ↔ s.startedAt ≤ now := by
    rw [decide_eq_false_iff_not, not_lt]
  have hstart : decide (s.startedAt < s.startedAt) = false := by simp
  simp only [validate_eq_none_iff, recordErrors, List.forall_mem_cons, withPhase, hclock, hstart]
  constructor
  · rintro ⟨⟨h1, h2, h3, hle, hrest⟩, hfile⟩
    exact ⟨hle, ⟨h1, h2, h3, trivial, hrest⟩, hfile⟩
  · rintro ⟨hle, ⟨h1, h2, h3, -, hrest⟩, hfile⟩
    exact ⟨⟨h1, h2, h3, hle, hrest⟩, hfile⟩

theorem validate_withPhase_failed (h : s.validate = none) (now : ℕ) :
    (s.withPhase .failed now).validate = none ↔ s.startedAt ≤ now := by
  rw [validate_withPhase_iff]
  apply and_iff_left
  obtain ⟨hrecord, hfile⟩ := validate_eq_none_iff.mp h
  have hfailed : { s.file with phase := Phase.failed }.validate = none :=
    TransactionFile.validate_failed hfile
  simp only [recordErrors, List.forall_mem_cons] at hrecord
  obtain ⟨hschema, -, -, -, hlog, hsafe, hplan, hnetwork, -⟩ := hrecord
  rw [validate_eq_none_iff]
  simp only [recordErrors, List.forall_mem_cons]
  -- the two checks that bind a phase to a schema version name other phases
  refine ⟨⟨hschema, ?_, ?_, ?_, hlog, hsafe, hplan, hnetwork, ?_⟩, hfailed⟩
  all_goals simp [withPhase]

end StoredTransaction

namespace Exclusive

variable {root : String} {s : StoredTransaction} {T T' : Territory} {io : Io}

def Content.Loads (c : Content) : Prop :=
  ∃ s : StoredTransaction, c = .json (.of s) ∧
    loadTransactionFile s.canonicalInstallRoot c = .ok s.file

/-- `mark_phase(failed)` passes the checks at this time, it succeeds when the file operations
do, and the file it writes loads. -/
structure Closes (root : String) (s : StoredTransaction) (now : ℕ) : Prop where
  passes : (s.withPhase .failed now).validate = none
  succeeds : ∀ T : Territory, T s.log ≠ none → '/' ∉ s.file.transactionId.toList →
    (markPhase .good s .failed now T).1 = .ok ()
  loads : ∀ io T T', markPhase io s .failed now T = (.ok (), T') →
    ∃ c, T' s.filePath = some c ∧
      loadTransactionFile root c = .ok { s.file with phase := .failed }

theorem loads_of_valid (h : s.validate = none) : Content.Loads (.json (.of s)) :=
  ⟨s, rfl, StoredTransaction.load_eq_ok_iff.mpr ⟨h, rfl, rfl⟩⟩

theorem writeTransaction_ok (h : writeTransaction io s T = (.ok (), T')) :
    s.validate = none ∧ T' = Function.update T s.filePath (some (.json (.of s))) := by
  unfold writeTransaction at h
  cases hv : s.validate with
  | some e => simp [hv] at h
  | none =>
    simp only [hv] at h
    split at h
    · cases h
      exact ⟨rfl, rfl⟩
    · cases h

theorem writeTransaction_at {p : Path} {c : Content}
    (h : (writeTransaction io s T).2 p = some c) : T p = some c ∨ c.Loads := by
  unfold writeTransaction at h
  cases hv : s.validate with
  | some e =>
    rw [hv] at h
    exact .inl h
  | none =>
    simp only [hv] at h
    split at h
    · have hfile : Function.update T s.filePath (some (.json (.of s))) p = some c := h
      by_cases hp : p = s.filePath
      · rw [hp, Function.update_self] at hfile
        exact .inr (Option.some.inj hfile ▸ loads_of_valid hv)
      · rw [Function.update_of_ne hp] at hfile
        exact .inl hfile
    · exact .inl h

theorem markPhase_ok {phase : Phase} {now : ℕ} (h : markPhase io s phase now T = (.ok (), T')) :
    (s.withPhase phase now).validate = none ∧
      T' s.filePath = some (.json (.of (s.withPhase phase now))) := by
  unfold markPhase at h
  split at h
  · cases h
  · obtain ⟨hv, rfl⟩ := writeTransaction_ok h
    exact ⟨hv, Function.update_self ..⟩

theorem markPhase_good {phase : Phase} {now : ℕ} (hlog : T s.log ≠ none)
    (hid : '/' ∉ s.file.transactionId.toList)
    (hv : (s.withPhase phase now).validate = none) :
    (markPhase .good s phase now T).1 = .ok () := by
  have hid' : '/' ∉ (s.withPhase phase now).file.transactionId.toList := hid
  cases hc : T s.log with
  | none => exact absurd hc hlog
  | some c => simp [markPhase, appendLog, hc, Io.good, writeTransaction, hv, hid']

/-! ## Runs -/

section Runs

variable {name : String} {c : Content}

theorem update_log_at (hs : Named s) {d : Option Content}
    (h : Function.update T s.log d (Layout.transactions ++ [name]) = some c) :
    T (Layout.transactions ++ [name]) = some c := by
  rwa [Function.update_of_ne (log_ne hs name)] at h

theorem begin_at (hs : Named s) {listing : List (String × Content)}
    (h : (Exclusive.begin io root s listing T).2 (Layout.transactions ++ [name]) = some c) :
    T (Layout.transactions ++ [name]) = some c ∨ c.Loads := by
  unfold Exclusive.begin at h
  split at h
  · exact .inl h
  split at h
  · exact .inl h
  · exact .inl h
  split at h
  · exact .inl h
  split at h
  · exact .inl h
  split at h
  · exact .inl (update_log_at hs h)
  · exact (writeTransaction_at h).imp_left (update_log_at hs)

theorem markPhase_at (hs : Named s) {phase : Phase} {now : ℕ}
    (h : (markPhase io s phase now T).2 (Layout.transactions ++ [name]) = some c) :
    T (Layout.transactions ++ [name]) = some c ∨ c.Loads := by
  unfold markPhase appendLog at h
  cases hlog : T s.log with
  | none =>
    rw [hlog] at h
    exact .inl h
  | some d =>
    by_cases hio : io.appendLog = true
    · simp only [hlog, hio, if_true] at h
      exact (writeTransaction_at h).imp_left (update_log_at hs)
    · simp only [hlog, hio] at h
      exact .inl h

theorem persist_at (h : (persist io s T).2 (Layout.transactions ++ [name]) = some c) :
    T (Layout.transactions ++ [name]) = some c ∨ c.Loads := by
  unfold persist at h
  split at h
  · exact .inl h
  · exact writeTransaction_at h

theorem Call.run_at {call : Call} (hproper : call.Proper T)
    (h : call.run T (Layout.transactions ++ [name]) = some c) :
    T (Layout.transactions ++ [name]) = some c ∨ c.Loads := by
  cases call with
  | begin io root s listing => exact begin_at hproper.1 h
  | markPhase io s phase now => exact markPhase_at hproper.1 h
  | persist io s => exact persist_at h
  | purgeRoot io root listing => exact .inl (purgeRoot_sub _ _ h)

theorem Reachable.loads (h : Reachable T) : ∀ name c,
    T (Layout.transactions ++ [name]) = some c → c.Loads := by
  induction h with
  | empty =>
    intro name c hc
    simp at hc
  | call call _ hproper ih =>
    intro name c hc
    apply (Call.run_at hproper hc).elim
    · exact ih name c
    · exact id

end Runs

/-- A file that loads can be marked `failed`, and read again, exactly at the times that are not
before its start. What `mark_phase` writes in any phase, and every file that calls of any roots
leave behind, loads. -/
theorem closes_iff (root : String) :
    (∀ v s t now, v.transaction = some s → loadTransactionFile root (.json v) = .ok t →
      (Closes root s now ↔ s.startedAt ≤ now)) ∧
    (∀ io s phase now T T', markPhase io s phase now T = (.ok (), T') →
      ∃ c, T' s.filePath = some c ∧ c.Loads) ∧
    ∀ T, Reachable T → ∀ name c, T (Layout.transactions ++ [name]) = some c → c.Loads := by
  refine ⟨fun v s t now hv hload => ?_, fun io s phase now T T' h => ?_,
    fun T h => h.loads⟩
  · have hs : s.load root = .ok t := by simpa [loadTransactionFile, hv] using hload
    obtain ⟨hvalid, hroot, -⟩ := StoredTransaction.load_eq_ok_iff.mp hs
    have hpasses := StoredTransaction.validate_withPhase_failed hvalid now
    constructor
    · intro h
      exact hpasses.mp h.passes
    · intro hle
      refine ⟨hpasses.mpr hle, fun T hlog hid => markPhase_good hlog hid (hpasses.mpr hle), ?_⟩
      intro io T T' h
      obtain ⟨hv', hfile⟩ := markPhase_ok h
      exact ⟨_, hfile, StoredTransaction.load_eq_ok_iff.mpr ⟨hv', hroot, rfl⟩⟩
  · obtain ⟨hv, hfile⟩ := markPhase_ok h
    exact ⟨_, hfile, loads_of_valid hv⟩

/-! An install that began at ten, on a machine whose clock shows five after a restart. -/

section Samples

def startedAtTen : StoredTransaction :=
  { storedInstall "0190a" with
    startedAt := 10
    updatedAt := 10
    split := (storedInstall "0190a").split }

def atTen : Territory :=
  (Call.begin .good "/root/.lkit/landscape" startedAtTen []).run fun _ => none

theorem startedAtTen_named : Named startedAtTen := ⟨by decide, by decide, rfl⟩

theorem startedAtTen_load :
    startedAtTen.load "/root/.lkit/landscape" = .ok startedAtTen.file := by
  decide +kernel

theorem startedAtTen_closes : Closes "/root/.lkit/landscape" startedAtTen 11 :=
  ((closes_iff "/root/.lkit/landscape").1 (.of startedAtTen) startedAtTen startedAtTen.file 11 rfl
    startedAtTen_load).mpr (by decide)

/-- The file loads, the log is there and every file operation succeeds, but `failed` is refused;
the file stays as it is, so the next `find_unfinished` comes upon it again. -/
theorem clock_set_back_not_closes :
    let marked := markPhase .good startedAtTen .failed 5 atTen
    loadTransactionFile "/root/.lkit/landscape" (.json (.of startedAtTen)) =
        .ok startedAtTen.file ∧
      marked.1 = .error (.corruptedTransaction "started_at must not be after updated_at") ∧
      marked.2 startedAtTen.filePath = some (.json (.of startedAtTen)) ∧
      findUnfinished "/root/.lkit/landscape" [("0190a.json", .json (.of startedAtTen))] =
        .ok (some startedAtTen.file) := by
  have hne : startedAtTen.filePath ≠ startedAtTen.log := log_ne startedAtTen_named _
  have hv : startedAtTen.validate = none := by decide +kernel
  have hback : (startedAtTen.withPhase .failed 5).validate =
      some (.corruptedTransaction "started_at must not be after updated_at") := by decide +kernel
  have hat : atTen = Function.update (Function.update (fun _ => none) startedAtTen.log
      (some (.log ["phase: preparing"]))) startedAtTen.filePath
      (some (.json (.of startedAtTen))) :=
    begin_run startedAtTen_named hv rfl rfl
  have hlog : atTen startedAtTen.log = some (.log ["phase: preparing"]) := by
    rw [hat, Function.update_of_ne hne.symm, Function.update_self]
  have hmarked : markPhase .good startedAtTen .failed 5 atTen =
      (.error (.corruptedTransaction "started_at must not be after updated_at"),
        Function.update atTen startedAtTen.log
          (some (.log ["phase: preparing", "phase: failed"]))) := by
    simp [markPhase, appendLog, hlog, Io.good, writeTransaction, hback, Phase.key]
  have hext : hasJsonExtension "0190a.json" = true := by decide
  have hload : loadTransactionFile "/root/.lkit/landscape" (.json (.of startedAtTen)) =
      .ok startedAtTen.file := startedAtTen_load
  have hforeign : isForeignTerminalTransaction "/root/.lkit/landscape"
      (.json (.of startedAtTen)) = false := by decide +kernel
  refine ⟨hload, ?_, ?_, ?_⟩
  · rw [hmarked]
  · rw [hmarked]
    have hkept (lines : List String) :
        Function.update atTen startedAtTen.log (some (.log lines)) startedAtTen.filePath =
          some (.json (.of startedAtTen)) := by
      rw [Function.update_of_ne hne, hat, Function.update_self]
    exact hkept ["phase: preparing", "phase: failed"]
  · simp only [findUnfinished, hext, hforeign, hload]
    rfl

end Samples

end Exclusive

end LandscapeKit.Deploy
