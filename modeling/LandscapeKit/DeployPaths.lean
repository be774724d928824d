import LandscapeKit.DeployRuns
import LandscapeKit.LibPaths

/-!
Which files the text in a transaction file makes a recovery touch. The paths of a record are
checked by `is_safe_relative`, its id only by way of the log path, and its versions not at
all (`deployment/transaction/validation.rs`, `deployment/transaction/file.rs`); `purge_root`
looks at records nothing has checked.
-/

namespace LandscapeKit.Deploy

open Faults

set_option synthInstance.maxSize 65536

variable {H α : Type}

/-! ## The record -/

/-- A transaction file as it is read from its JSON. The paths of the record are its text,
split at the slashes. -/
structure StoredTransaction where
  file : TransactionFile
  schemaVersion : ℕ
  canonicalInstallRoot : String
  logPath : String
  startedAt : ℕ
  updatedAt : ℕ
  /-- What `plan.validate` says of the network plan that is recorded with a takeover. -/
  planValid : Bool
  split : ∀ p ∈ file.recordedPaths, ∀ part ∈ p, '/' ∉ part.toList

namespace StoredTransaction

def transactionSchemaVersion : ℕ := 4

/-- A path as `Path` compares it: repeated slashes, and dots after the first part, do not
count. -/
def components (text : String) : Bool × List String :=
  (isAbsolute text, (parts text).take 1 |>.filter (fun part => part ≠ "") |>.append
    ((parts text).tail.filter fun part => part ≠ "" && part ≠ "."))

/-- The checks of `validate_transaction` on what a `TransactionFile` leaves out. -/
def recordErrors (s : StoredTransaction) : List (Bool × String) :=
  [(s.schemaVersion < 1 || transactionSchemaVersion < s.schemaVersion,
      "unsupported transaction schema version"),
    (s.schemaVersion = 1 && s.file.phase = .stopping,
      "transaction phase stopping requires schema version 2"),
    (s.schemaVersion < 3 &&
        (s.file.phase = .awaitingNetworkConfirmation || s.file.phase = .finalizing),
      "network confirmation phases require schema version 3"),
    (s.updatedAt < s.startedAt, "started_at must not be after updated_at"),
    (s.logPath ≠ "logs/" ++ s.file.transactionId ++ ".log",
      "log_path must be logs/<transaction-id>.log, got " ++ s.logPath),
    (!TransactionFile.isSafeRelative (parts s.logPath), "unsafe transaction path " ++ s.logPath),
    (s.file.networkTakeover.isSome && !s.planValid, "invalid network plan"),
    (s.file.networkTakeover.isSome && s.schemaVersion < 3,
      if s.file.operation = .reinit then
        "reinit network confirmation requires transaction schema version 3"
      else "network takeover install requires transaction schema version 3")]

def validate (s : StoredTransaction) : Option InstallError :=
  ((s.recordErrors.find? fun check => check.1).map fun check =>
    InstallError.corruptedTransaction check.2).or s.file.validate

/-- `load_transaction_file`, on what `serde` made of the file. -/
def load (root : String) (s : StoredTransaction) : Except InstallError TransactionFile :=
  match s.validate with
  | some e => .error e
  | none =>
    if components s.canonicalInstallRoot ≠ components root then
      .error (.corruptedTransaction ("records canonical_install_root " ++
        s.canonicalInstallRoot ++ " which does not match the real install root " ++ root))
    else .ok s.file

end StoredTransaction

/-! ## What a run touches -/

/-- A host that notes every path it is asked to take away, to move or to overwrite. -/
def Host.recording (host : Host H) : Host (H × List Path) where
  answer act m h :=
    let r := host.answer act m h.1
    (r.1, r.2.1, (r.2.2, h.2 ++ act.touches))

/-- The commands that work on the strength of a transaction file. -/
inductive Command
  | recoverInterrupted
  | cleanupFailedFirstInstall
  | rollbackSwitch (snapshot : InstallState)

def Command.run {K : Type} (host : Host K) (t : TransactionFile) : Command → Flow K Unit
  | .recoverInterrupted => host.recoverTransaction t
  | .cleanupFailedFirstInstall => host.cleanupFailedFirstInstall t
  | .rollbackSwitch snapshot => host.rollbackSwitch t snapshot

/-- The paths a command touches, in the run from this state. -/
def touched (host : Host H) (t : TransactionFile) (c : Command) (w : World H) : List Path :=
  ((c.run host.recording t) { w with host := (w.host, []) }).2.host.2

/-! ## Where it leads -/

namespace TransactionFile

variable (t : TransactionFile)

def removesDirectory : Bool :=
  (t.operation = .repair || t.operation = .restore || t.operation = .reinit) &&
    (t.phase = .preparing || t.phase = .prepared || t.phase = .stopping)

/-- A rollback can note that it began: the record is one of a phase that needs its backup. -/
def rollsBack : Bool := { t with phase := .rollingBack }.validate = none

/-- A recovery that puts the static pages back. -/
def restoresStatic : Bool :=
  t.operation = .repair && t.backup.isNone &&
    (t.phase = .activating || t.phase = .verifying || t.phase = .rollingBack)

/-- What a recovery handles that is named by none of the fields in question: the recovery
binary of a takeover, the unit file a migration moved, and the releases an uninstall
removes. -/
def unrelated : List Path :=
  match t.operation with
  | .install => (t.networkTakeover.map fun n => Layout.root ++ n.recoveryBinary).toList
  | .migrate => t.legacyUnit.elim [] fun u => [u.fileBackup, u.filePath].reduceOption
  | .uninstall => [Layout.releases]
  | _ => []

end TransactionFile

section Contained

variable (territory : Path)

/-- Strictly below a directory of the layout. -/
def LiesBelow (base p : Path) : Prop := Below (locate territory base) (locate territory p)

/-- What the record may make a command do with a path: what is joined to `transactions` or to
`releases` stays strictly below it, and the target of the release and of the static pages are
below `releases`. -/
structure Contained (t : TransactionFile) (p : Path) : Prop where
  transactions : Layout.transactions <+: p → LiesBelow territory Layout.transactions p
  releases : Layout.releases <+: p → LiesBelow territory Layout.releases p
  targetRelease : ∀ target, t.targetRelease = some target → p = Layout.root ++ target →
    LiesBelow territory Layout.releases p
  staticTarget : t.restoresStatic → ∀ b, t.staticBackup = some b → p = Layout.root ++ b.target →
    LiesBelow territory Layout.releases p

/-- The paths of a command that the fields of the record decide. -/
def Decided (t : TransactionFile) (c : Command) (p : Path) : Prop :=
  c = .recoverInterrupted → p ∉ t.unrelated

/-- However the host answers, and whatever it finds, no command of the record touches a path
outside the base it is meant for. -/
def StaysBelow (t : TransactionFile) : Prop :=
  ∀ (c : Command) {H : Type} (host : Host H) (w : World H), ∀ p ∈ touched host t c w,
    Decided t c p → Contained territory t p

/-- The directory of a transaction is not `transactions` itself, nor above it. -/
def IsDeep (id : String) : Prop :=
  id ≠ "" ∧ id ≠ "." ∧ id ≠ ".." ∧ ∀ x, parts id ≠ [x, ".."]

/-- A path of the record that is meant for `releases`. -/
def NamesRelease (p : Path) : Prop := ∃ x xs, p = "releases" :: x :: xs

/-- The text a record has to have for that. -/
structure Harmless (t : TransactionFile) : Prop where
  targetRelease : ∀ p, t.targetRelease = some p → NamesRelease p
  targetVersion : ∀ v, t.targetVersion = some v →
    LiesBelow territory Layout.releases (Layout.releases ++ [".install-" ++ v ++ ".tmp"])
  directory : t.removesDirectory → IsDeep t.transactionId
  rollback : t.rollsBack → t.transactionId ≠ ".."
  fromVersion : t.rollsBack → t.backup.isSome → ∀ v, t.fromVersion = some v →
    LiesBelow territory Layout.releases (Layout.release v)
  staticTarget : t.restoresStatic → ∀ b, t.staticBackup = some b → NamesRelease b.target

end Contained

/-! ## The frame -/

/-- Whatever a program adds to the list of paths has the property. -/
def Notes (G : Path → Prop) (w w' : World (H × List Path)) : Prop :=
  ∀ p ∈ w'.host.2, p ∈ w.host.2 ∨ G p

class Act.Noted (G : Path → Prop) (act : Act α) : Prop where
  noted : ∀ p ∈ act.touches, G p

namespace Notes

variable {G G' : Path → Prop}

instance : Std.Refl (Notes (H := H) G) := ⟨fun _ _ hp => .inl hp⟩

instance : IsTrans (World (H × List Path)) (Notes G) := by
  refine ⟨fun a b c hab hbc p hp => ?_⟩
  rcases hbc p hp with hb | hg
  · exact hab p hb
  · exact .inr hg

variable (host : Host H)

theorem perform_listed (act : Act α) (w : World (H × List Path)) :
    (host.recording.perform act w).2.host.2 = w.host.2 ++ act.touches := by
  unfold Host.perform Host.recording
  dsimp only
  rcases host.answer act w.machine w.host.1 with ⟨_ | _ | _, _, _⟩ <;> rfl

theorem writeTransaction_listed (call : Call) (t : TransactionFile) (w : World (H × List Path)) :
    (host.recording.writeTransaction call t w).2.host.2 = w.host.2 := by
  unfold Host.writeTransaction Host.recording
  dsimp only
  split
  · rfl
  · rcases host.answer .writeTransaction w.machine w.host.1 with ⟨_ | _ | b, _, _⟩
    · simp [Act.touches, Act.area]
    · simp [Act.touches, Act.area]
    · cases b <;> simp [Act.touches, Act.area]

instance perform (act : Act α) [hact : act.Noted G] :
    Within (Notes G) (host.recording.perform act) := by
  refine ⟨fun w p hp => ?_⟩
  rw [perform_listed] at hp
  exact (List.mem_append.mp hp).imp_right (hact.noted p)

instance writeTransaction (call : Call) (t : TransactionFile) :
    Within (Notes G) (host.recording.writeTransaction call t) := by
  refine ⟨fun w p hp => .inl ?_⟩
  rwa [writeTransaction_listed] at hp

instance removeTransaction : Within (Notes G) host.recording.removeTransaction := by
  refine ⟨fun w p hp => .inl ?_⟩
  have hlog : (host.recording.removeTransaction w).2.host.2 = w.host.2 := by
    unfold Host.removeTransaction Host.recording
    dsimp only
    rcases host.answer .removeTransaction w.machine w.host.1 with ⟨_ | _ | b, _, _⟩
    · simp [Act.touches, Act.area]
    · simp [Act.touches, Act.area]
    · cases b <;> simp [Act.touches, Act.area]
  rwa [hlog] at hp

theorem noted_of_nil {act : Act α} (h : act.touches = []) : act.Noted G :=
  ⟨fun p hp => by simp [h] at hp⟩

theorem noted_of_single {act : Act α} {q : Path} (h : act.touches = [q]) (hq : G q) :
    act.Noted G :=
  ⟨fun p hp => by
    rw [h, List.mem_singleton] at hp
    exact hp ▸ hq⟩

theorem noted_rename {p q : Path} (hp : G p) (hq : G q) : (Act.rename p q).Noted G :=
  ⟨fun r hr => by
    rcases List.mem_pair.mp hr with rfl | rfl
    · exact hp
    · exact hq⟩

instance (c : Check) : (Act.check c).Noted G := noted_of_nil rfl
instance (p : Path) : (Act.createDirAll p).Noted G := noted_of_nil rfl
instance (p : Path) : (Act.readFile p).Noted G := noted_of_nil rfl
instance (p : Path) : (Act.hashFile p).Noted G := noted_of_nil rfl
instance (v : Verb) (unit : String) : (Act.systemctl v unit).Noted G := noted_of_nil rfl
instance (unit : String) : (Act.writeUnit unit).Noted G := noted_of_nil rfl
instance (unit : String) : (Act.removeUnit unit).Noted G := noted_of_nil rfl
instance (b : ServiceBefore) : (Act.restoreRegistration b).Noted G := noted_of_nil rfl
instance : Act.mainPid.Noted G := noted_of_nil rfl

instance : ServiceFrame (Notes G) host.recording :=
  ⟨fun c => perform host (.check c), fun _ _ => inferInstance, fun _ => inferInstance,
    fun _ => inferInstance, fun _ => inferInstance, inferInstance⟩

instance markPhase (t : TransactionFile) (phase : Phase) :
    Within (Notes G) (host.recording.markPhase t phase) := by
  unfold Host.markPhase Host.markPhaseAs
  infer_instance

instance readDocument (p : Path) : Within (Notes G) (host.recording.readDocument p) := by
  unfold Host.readDocument
  refine Within.andThen inferInstance fun _ => Within.andThen inferInstance fun m => ?_
  split <;> infer_instance

instance readStateSnapshot (id : String) :
    Within (Notes G) (host.recording.readStateSnapshot id) := by
  unfold Host.readStateSnapshot
  refine Within.andThen inferInstance fun r => ?_
  split <;> infer_instance

instance loadState : Within (Notes G) host.recording.loadState := by
  unfold Host.loadState
  refine Within.andThen inferInstance fun _ => Within.andThen inferInstance fun m => ?_
  split
  · infer_instance
  · split <;> infer_instance
  · infer_instance

instance stateOrNone : Within (Notes G) host.recording.stateOrNone := by
  unfold Host.stateOrNone
  refine Within.andThen inferInstance fun r => ?_
  split <;> infer_instance

end Notes

/-! ## What an accepted record says -/

/-- What `load_transaction_file` makes sure of. Of the id only the last part is unchecked: it
becomes a name when `.log` is added to it. -/
structure Accepted (t : TransactionFile) : Prop where
  valid : t.validate = none
  ident : ∃ init last, parts t.transactionId = init ++ [last] ∧ ∀ part ∈ init, IsName part
  names : ∀ p ∈ t.recordedPaths, ∀ part ∈ p, IsName part ∧ '/' ∉ part.toList

theorem isName_of_isSafePart {part : String} (h : TransactionFile.isSafePart part = true) :
    IsName part := by
  simpa [TransactionFile.isSafePart, IsName, and_assoc] using h

theorem names_of_isSafeRelative {p : Path} (h : TransactionFile.isSafeRelative p = true) :
    ∀ part ∈ p, IsName part := by
  intro part hpart
  have hall : p.all TransactionFile.isSafePart = true := by
    have hand := Bool.and_eq_true_iff.mp h
    exact hand.2
  exact isName_of_isSafePart (List.all_eq_true.mp hall part hpart)

theorem TransactionFile.validationErrors_false {t : TransactionFile} (h : t.validate = none) :
    ∀ check ∈ t.validationErrors, check.1 = false := by
  intro check hc
  have hnone : (t.validationErrors.find? fun check => check.1) = none := by
    simpa [TransactionFile.validate] using h
  have hfalse := List.find?_eq_none.mp hnone check hc
  simpa using hfalse

namespace StoredTransaction

variable {root : String} {s : StoredTransaction} {t : TransactionFile}

theorem load_eq_ok (h : s.load root = .ok t) : s.validate = none ∧ s.file = t := by
  unfold load at h
  split at h
  · cases h
  · rename_i hv
    split at h
    · cases h
    · exact ⟨hv, Except.ok.inj h⟩

theorem recordErrors_false (h : s.validate = none) : ∀ check ∈ s.recordErrors, check.1 = false := by
  intro check hc
  have hnone : (s.recordErrors.find? fun check => check.1) = none := by
    simpa [validate] using (Option.or_eq_none_iff.mp h).1
  have hfalse := List.find?_eq_none.mp hnone check hc
  simpa using hfalse

theorem logPath_checks (h : s.validate = none) :
    s.logPath = "logs/" ++ s.file.transactionId ++ ".log" ∧
      TransactionFile.isSafeRelative (parts s.logPath) = true := by
  have hall := recordErrors_false h
  simp only [recordErrors, List.forall_mem_cons] at hall
  obtain ⟨-, -, -, -, hshape, hsafe, -⟩ := hall
  exact ⟨by simpa using hshape, by simpa using hsafe⟩

theorem logPath_parts (h : s.validate = none) :
    ∃ init last, parts s.file.transactionId = init ++ [last] ∧
      parts s.logPath = "logs" :: (init ++ [last ++ ".log"]) := by
  obtain ⟨init, last, h1, h2⟩ := parts_append s.file.transactionId
    (show '/' ∉ (".log" : String).toList by decide)
  refine ⟨init, last, h1, ?_⟩
  have hlog := parts_cons (show '/' ∉ ("logs" : String).toList by decide)
    (s.file.transactionId ++ ".log")
  rw [(logPath_checks h).1, ← h2, ← hlog, String.append_assoc]
  rfl

theorem accepted (h : s.load root = .ok t) : Accepted t := by
  obtain ⟨hv, rfl⟩ := load_eq_ok h
  have hvalid : s.file.validate = none := (Option.or_eq_none_iff.mp hv).2
  refine ⟨hvalid, ?_, fun p hp part hpart => ⟨?_, s.split p hp part hpart⟩⟩
  · obtain ⟨init, last, h1, h2⟩ := logPath_parts hv
    have hnames := names_of_isSafeRelative (logPath_checks hv).2
    refine ⟨init, last, h1, fun part hpart => hnames part ?_⟩
    rw [h2]
    simp [hpart]
  · have hmem : (!TransactionFile.isSafeRelative p, "unsafe transaction path") ∈
        s.file.validationErrors := by
      simp only [TransactionFile.validationErrors, List.mem_append, List.mem_map]
      exact .inl (.inl ⟨p, hp, rfl⟩)
    have hsafe := TransactionFile.validationErrors_false hvalid _ hmem
    exact names_of_isSafeRelative (by simpa using hsafe) part hpart

end StoredTransaction

end LandscapeKit.Deploy
