import Mathlib.Logic.Relation
import LandscapeKit.HostnetTransaction

/-!
What a turn of the outside process leaves alone, and which files the calls of the transaction
do not touch.
-/

namespace LandscapeKit.Hostnet

open Faults Faults.Prog

def Keeps (p : Text) (s t : Sys) : Prop :=
  (t.files p = s.files p ∧ t.author p = s.author p) ∨ t.author p = (s.author p).meddled

instance (p : Text) : Std.Refl (Keeps p) := ⟨fun _ => .inl ⟨rfl, rfl⟩⟩

instance (p : Text) : IsTrans Sys (Keeps p) := by
  constructor
  intro s t u hst htu
  rcases htu with ⟨hfiles, hauthor⟩ | hforeign
  · rcases hst with ⟨hf, ha⟩ | ha
    · exact .inl ⟨hfiles.trans hf, hauthor.trans ha⟩
    · exact .inr (hauthor.trans ha)
  · right
    rcases hst with ⟨-, ha⟩ | ha
    · rw [hforeign, ha]
    · rw [hforeign, ha, Author.meddled_meddled]

structure Turned (s t : Sys) : Prop where
  schedule : t.schedule = s.schedule.tail
  overwritten : t.overwritten = s.overwritten
  unremoved : t.unremoved = s.unremoved
  keeps : ∀ p, Keeps p s t
  away : ∀ p, (∀ turn ∈ s.schedule, ∀ f ∈ turn.foreign, f.path ≠ p) →
    t.files p = s.files p ∧ t.author p = s.author p

section Turns

theorem meddle_cases (s : Sys) (f : Foreign) :
    s.meddle f = s ∨ ∃ entry, s.meddle f = { s with
      files := Function.update s.files f.path entry
      author := Function.update s.author f.path (s.author f.path).meddled } := by
  cases f with
  | replace path entry => exact .inr ⟨some entry, rfl⟩
  | delete path => exact .inr ⟨none, rfl⟩
  | chmod path metadata =>
    rw [Sys.meddle]
    split
    · rename_i content _ _
      exact .inr ⟨some (.file content metadata), rfl⟩
    · exact .inl rfl

theorem meddle_keeps (s : Sys) (f : Foreign) (p : Text) : Keeps p s (s.meddle f) := by
  rcases meddle_cases s f with h | ⟨entry, h⟩
  · rw [h]
    exact .inl ⟨rfl, rfl⟩
  · rw [h]
    by_cases hp : p = f.path
    · right
      rw [hp]
      exact Function.update_self ..
    · exact .inl ⟨Function.update_of_ne hp .., Function.update_of_ne hp ..⟩

theorem meddle_away (s : Sys) {f : Foreign} {p : Text} (hp : f.path ≠ p) :
    (s.meddle f).files p = s.files p ∧ (s.meddle f).author p = s.author p := by
  rcases meddle_cases s f with h | ⟨entry, h⟩
  · rw [h]
    exact ⟨rfl, rfl⟩
  · rw [h]
    exact ⟨Function.update_of_ne hp.symm .., Function.update_of_ne hp.symm ..⟩

theorem meddle_rest (s : Sys) (f : Foreign) : (s.meddle f).schedule = s.schedule ∧
    (s.meddle f).overwritten = s.overwritten ∧ (s.meddle f).unremoved = s.unremoved := by
  rcases meddle_cases s f with h | ⟨entry, h⟩ <;> rw [h] <;> exact ⟨rfl, rfl, rfl⟩

theorem foldl_meddle_rest (acts : List Foreign) (s : Sys) :
    (acts.foldl Sys.meddle s).schedule = s.schedule ∧
      (acts.foldl Sys.meddle s).overwritten = s.overwritten ∧
      (acts.foldl Sys.meddle s).unremoved = s.unremoved := by
  induction acts generalizing s with
  | nil => exact ⟨rfl, rfl, rfl⟩
  | cons f acts ih =>
    obtain ⟨h1, h2, h3⟩ := ih (s.meddle f)
    obtain ⟨g1, g2, g3⟩ := meddle_rest s f
    exact ⟨h1.trans g1, h2.trans g2, h3.trans g3⟩

theorem foldl_meddle_keeps (acts : List Foreign) (s : Sys) (p : Text) :
    Keeps p s (acts.foldl Sys.meddle s) := by
  induction acts generalizing s with
  | nil => exact .inl ⟨rfl, rfl⟩
  | cons f acts ih => exact IsTrans.trans _ _ _ (meddle_keeps s f p) (ih (s.meddle f))

theorem foldl_meddle_away {acts : List Foreign} {p : Text} (h : ∀ f ∈ acts, f.path ≠ p) (s : Sys) :
    (acts.foldl Sys.meddle s).files p = s.files p ∧
      (acts.foldl Sys.meddle s).author p = s.author p := by
  induction acts generalizing s with
  | nil => exact ⟨rfl, rfl⟩
  | cons f acts ih =>
    obtain ⟨h1, h2⟩ := ih (fun g hg => h g (List.mem_cons_of_mem _ hg)) (s.meddle f)
    obtain ⟨g1, g2⟩ := meddle_away s (h f (List.mem_cons_self ..))
    exact ⟨h1.trans g1, h2.trans g2⟩

theorem advance_turned (s : Sys) (within : Bool) : Turned s (s.advance within) := by
  unfold Sys.advance
  dsimp only
  split
  · exact ⟨rfl, rfl, rfl, fun p => .inl ⟨rfl, rfl⟩, fun p _ => ⟨rfl, rfl⟩⟩
  · obtain ⟨h1, h2, h3⟩ := foldl_meddle_rest (s.schedule.headD {}).foreign
      { s with schedule := s.schedule.tail }
    refine ⟨h1, h2, h3, fun p => foldl_meddle_keeps _ { s with schedule := s.schedule.tail } p, ?_⟩
    intro p hp
    apply foldl_meddle_away
    cases hs : s.schedule with
    | nil => exact fun f hf => absurd hf List.not_mem_nil
    | cons turn turns =>
      rw [hs] at hp
      exact hp turn (List.mem_cons_self ..)

end Turns

def Stable (P : Sys → Prop) : Prop := ∀ s t, Turned s t → P s → P t

theorem Stable.advance {P : Sys → Prop} (h : Stable P) (within : Bool) (s : Sys) (hs : P s) :
    P (s.advance within) :=
  h s _ (advance_turned s within) hs

theorem Stable.and {P Q : Sys → Prop} (hP : Stable P) (hQ : Stable Q) :
    Stable fun s => P s ∧ Q s :=
  fun s t hst hs => ⟨hP s t hst hs.1, hQ s t hst hs.2⟩

abbrev Spec {α : Type} (P : Sys → Prop) (op : Op α) (Q : α → Sys → Prop)
    (E : HostNetError → Sys → Prop) : Prop := Triple P op Q E fun _ => True

def Looking : Sys → Sys → Prop := Relation.ReflTransGen Turned

instance : Std.Refl Looking := ⟨fun _ => Relation.ReflTransGen.refl⟩

instance : IsTrans Sys Looking := ⟨fun _ _ _ => Relation.ReflTransGen.trans⟩

theorem Stable.looking {P : Sys → Prop} (h : Stable P) {s t : Sys} (hst : Looking s t) (hs : P s) :
    P t := by
  induction hst with
  | refl => exact hs
  | tail _ hturn ih => exact h _ _ hturn ih

theorem Looking.keeps {s t : Sys} (h : Looking s t) (p : Text) : Keeps p s t := by
  induction h with
  | refl => exact .inl ⟨rfl, rfl⟩
  | tail _ hturn ih => exact IsTrans.trans _ _ _ ih (hturn.keeps p)

/-- A program that only looks at the files leaves each of them alone. -/
instance keeps_of_looking {α : Type} {op : Op α} {p : Text} [h : Within Looking op] :
    Within (Keeps p) op :=
  h.mono fun _ _ hst => hst.keeps p

section Calls

variable {α : Type} {P : Sys → Prop} {Q : α → Sys → Prop} {E : HostNetError → Sys → Prop}
  {within : Bool} {error : HostNetError} {act : Sys → Option (α × Sys)} {part : Fault → Sys → Sys}
  {ask : Sys → Option α} {p q : Text} {s : Sys}

theorem call_spec (hP : ∀ s, P s → P (s.advance within))
    (hact : ∀ s a t, P s → act s = some (a, t) → Q a t) (hnone : ∀ s, P s → act s = none → E error s)
    (hpart : ∀ s fault, P s → E error (part fault s)) : Spec P (call within error act part) Q E := by
  intro s hs
  unfold call
  have hadv := hP s hs
  cases hfault : s.fault with
  | some fault => exact hpart _ fault hadv
  | none =>
    dsimp only
    cases ha : act (s.advance within) with
    | none => exact hnone _ hadv ha
    | some x => exact hact _ x.1 x.2 hadv ha

theorem query_spec (hP : ∀ s, P s → P (s.advance within)) :
    Spec P (query within error ask) (fun a s => P s ∧ ask s = some a) fun _ => P := by
  apply call_spec hP
  · intro s a t hs ha
    obtain ⟨b, hb, he⟩ := Option.map_eq_some_iff.mp ha
    cases he
    exact ⟨hs, hb⟩
  · exact fun s hs _ => hs
  · exact fun s _ hs => hs

theorem call_keeps (hact : ∀ s a t, act s = some (a, t) → Keeps p s t)
    (hpart : ∀ s fault, Keeps p s (part fault s)) : Within (Keeps p) (call within error act part) := by
  constructor
  intro s
  unfold call
  have hadv := (advance_turned s within).keeps p
  cases hfault : s.fault with
  | some fault => exact IsTrans.trans _ _ _ hadv (hpart _ fault)
  | none =>
    dsimp only
    cases ha : act (s.advance within) with
    | none => exact hadv
    | some x => exact IsTrans.trans _ _ _ hadv (hact _ x.1 x.2 ha)

instance query_looks : Within Looking (query within error ask) := by
  constructor
  intro s
  have hadv : Looking s (s.advance within) :=
    Relation.ReflTransGen.single (advance_turned s within)
  unfold query call
  cases hfault : s.fault with
  | some fault => exact hadv
  | none =>
    dsimp only
    cases ha : ask (s.advance within) <;> exact hadv

theorem looks_spec {op : Op α} (hP : Stable P) [h : Within Looking op] :
    Spec P op (fun _ => P) fun _ => P :=
  (h.triple fun _ _ hst hs => hP.looking hst hs).consequence (fun _ hs => hs) (fun _ _ hs => hs)
    (fun _ _ hs => hs) fun _ _ => trivial

theorem overwriteAll_keeps {touched : Text → Bool} {entry : Text → Option Entry}
    (hp : touched p = false) (s : Sys) : Keeps p s (s.overwriteAll touched entry) := by
  left
  simp [Sys.overwriteAll, hp]

theorem overwrite_keeps {entry : Option Entry} (hp : p ≠ q) (s : Sys) :
    Keeps p s (s.overwrite q entry) :=
  overwriteAll_keeps (by simpa using hp) s

@[simp]
theorem overwrite_files_self (s : Sys) (p : Text) (entry : Option Entry) :
    (s.overwrite p entry).files p = entry := by
  simp [Sys.overwrite, Sys.overwriteAll]

theorem overwrite_files_of_ne (s : Sys) (entry : Option Entry) (h : p ≠ q) :
    (s.overwrite q entry).files p = s.files p := by
  simp [Sys.overwrite, Sys.overwriteAll, h]

@[simp]
theorem overwrite_author_self (s : Sys) (p : Text) (entry : Option Entry) :
    (s.overwrite p entry).author p = .run := by
  simp [Sys.overwrite, Sys.overwriteAll]

theorem overwrite_author_of_ne (s : Sys) (entry : Option Entry) (h : p ≠ q) :
    (s.overwrite q entry).author p = s.author p := by
  simp [Sys.overwrite, Sys.overwriteAll, h]

theorem amend_keeps {f : Entry → Entry} {part : Fault → Entry → Entry} (hp : p ≠ q) :
    Within (Keeps p) (amend error q f part) := by
  apply call_keeps
  · intro s a t ha
    cases ha
    exact overwrite_keeps hp s
  · exact fun s fault => overwrite_keeps hp s

end Calls

section Frames

variable {p tmp dir path dest : Text} {process : Process}

def IsTempName (process : Process) (name : Text) : Prop :=
  tempMark process <:+: name ∧ ".tmp".toList <:+ name

instance {name : Text} : Decidable (IsTempName process name) :=
  inferInstanceAs (Decidable (_ ∧ _))

def IsTemp (process : Process) (p : Text) : Prop := ∃ name, fileName p = some name ∧ IsTempName process name

theorem fileName_eq_some {name : Text} (h : fileName path = some name) :
    '/' ∉ name ∧ name ≠ [] ∧ name ≠ "..".toList := by
  unfold fileName at h
  dsimp only at h
  split at h
  · cases h
  rename_i hname
  obtain rfl := Option.some.inj h
  rw [not_or] at hname
  refine ⟨?_, hname⟩
  intro hmem
  have hne := List.mem_takeWhile_imp (List.mem_reverse.mp hmem)
  simp at hne

theorem join_eq (dir name : Text) : join dir name = join dir [] ++ name := by
  unfold join
  split
  · rw [List.append_nil]
  · rw [List.append_assoc, List.singleton_append]

theorem join_nil_cases (dir : Text) : join dir [] = [] ∨ ∃ front, join dir [] = front ++ ['/'] := by
  unfold join
  split
  · rename_i h
    rcases h with rfl | h
    · exact .inl rfl
    · obtain ⟨front, rfl⟩ := List.getLast?_eq_some_iff.mp h
      exact .inr ⟨front, List.append_nil _⟩
  · exact .inr ⟨dir, rfl⟩

theorem fileName_join {name : Text} (hslash : '/' ∉ name) (hne : name ≠ [])
    (hdots : name ≠ "..".toList) : fileName (join dir name) = some name := by
  have hall : ∀ c ∈ name.reverse, decide (c ≠ '/') = true := by
    intro c hc
    rw [decide_eq_true_eq]
    rintro rfl
    exact hslash (List.mem_reverse.mp hc)
  have htake : (join dir name).reverse.takeWhile (· ≠ '/') = name.reverse := by
    rw [join_eq, List.reverse_append, List.takeWhile_append_of_pos hall]
    rcases join_nil_cases dir with h | ⟨front, h⟩
    · rw [h, List.reverse_nil, List.takeWhile_nil, List.append_nil]
    · rw [h, List.reverse_append, List.reverse_singleton, List.singleton_append,
        List.takeWhile_cons_of_neg (by simp), List.append_nil]
  unfold fileName
  rw [htake, List.reverse_reverse, if_neg (not_or.mpr ⟨hne, hdots⟩)]

theorem slash_not_mem_digits (n : ℕ) : '/' ∉ Nat.toDigits 10 n := by
  intro h
  have hdigit := Nat.isDigit_of_mem_toDigits (by decide) (by decide) h
  exact absurd hdigit (by decide)

theorem isTempName_tempName (process : Process) (name : Text) (sequence : ℕ) :
    IsTempName process (tempName process name sequence) := by
  constructor
  · exact ⟨".".toList ++ name, Nat.toDigits 10 sequence ++ ".tmp".toList, by
      simp only [tempName, List.append_assoc]⟩
  · exact ⟨".".toList ++ name ++ tempMark process ++ Nat.toDigits 10 sequence, rfl⟩

theorem slash_not_mem_tempName {name : Text} (hslash : '/' ∉ name) (sequence : ℕ) :
    '/' ∉ tempName process name sequence := by
  have hpid := slash_not_mem_digits process.pid
  have hseq := slash_not_mem_digits sequence
  have hlead : '/' ∉ ".lkit-hostnet.".toList := by decide +kernel
  have hdot : '/' ∉ ".".toList := by decide +kernel
  have hend : '/' ∉ ".tmp".toList := by decide +kernel
  unfold tempName tempMark
  simp only [List.mem_append, not_or]
  exact ⟨⟨⟨⟨hdot, hslash⟩, ⟨hlead, hpid⟩, hdot⟩, hseq⟩, hend⟩

theorem tempName_length (process : Process) (name : Text) (sequence : ℕ) :
    4 ≤ (tempName process name sequence).length := by
  have hend : ".tmp".toList.length = 4 := by decide +kernel
  unfold tempName
  rw [List.length_append, hend]
  omega

theorem isTemp_join {name : Text} (hslash : '/' ∉ name) (sequence : ℕ) :
    IsTemp process (join dir (tempName process name sequence)) := by
  have hlen := tempName_length process name sequence
  refine ⟨_, fileName_join (slash_not_mem_tempName hslash sequence) ?_ ?_,
    isTempName_tempName process name sequence⟩
  · intro h
    rw [h] at hlen
    exact absurd hlen (by decide)
  · intro h
    rw [h] at hlen
    exact absurd hlen (by decide)

instance captureMetadata_looks : Within Looking (captureMetadata path) := by
  apply Within.andThen query_looks
  intro entry
  cases entry <;> infer_instance

instance read_looks {within : Bool} : Within Looking (read within path) := query_looks

instance verifySnapshot_looks {within : Bool} {content : Content} {metadata : FileMetadata} :
    Within Looking (verifySnapshot within path content metadata) := by
  unfold verifySnapshot
  infer_instance

instance verifyEdit_looks {edit : Edit} : Within Looking (verifyEdit edit) :=
  verifySnapshot_looks

instance rejectSymlinkTarget_looks {within : Bool} :
    Within Looking (rejectSymlinkTarget within path) := by
  apply Within.andThen query_looks
  intro entry
  rcases entry with _ | _ | _ | _ <;> infer_instance

instance syncAll_looks : Within Looking (syncAll path) := query_looks

instance nextSequence_keeps : Within (Keeps p) nextSequence := ⟨fun _ => .inl ⟨rfl, rfl⟩⟩

theorem openNew_keeps (hp : p ≠ path) : Within (Keeps p) (openNew process path) := by
  apply call_keeps
  · intro s a t ha
    split at ha
    · cases ha
      exact Std.Refl.refl s
    · cases ha
      exact overwrite_keeps hp s
  · exact fun s _ => Std.Refl.refl s

theorem createTempFrom_keeps (hp : ¬ IsTemp process p) {name : Text} (hslash : '/' ∉ name)
    (attempts : ℕ) : Within (Keeps p) (createTempFrom process dir name attempts) := by
  induction attempts with
  | zero => exact Within.fail _
  | succ attempts ih =>
    apply Within.andThen nextSequence_keeps
    intro sequence
    have hne : p ≠ join dir (tempName process name sequence) := by
      intro he
      exact hp (he ▸ isTemp_join hslash sequence)
    apply Within.andThen (openNew_keeps hne)
    intro created
    cases created with
    | true => exact Within.pure _
    | false => exact ih

theorem rename_keeps {within : Bool} (htmp : p ≠ tmp) (hpath : p ≠ path) :
    Within (Keeps p) (rename within tmp path) := by
  apply call_keeps
  · intro s a t ha
    split at ha
    · cases ha
    · cases ha
    · cases ha
      exact IsTrans.trans _ _ _ (overwrite_keeps hpath s) (overwrite_keeps htmp _)
  · exact fun s _ => Std.Refl.refl s

theorem removeFile_keeps (hp : p ≠ tmp) : Within (Keeps p) (removeFile tmp) := by
  apply call_keeps
  · intro s a t ha
    split at ha
    · cases ha
    · cases ha
      exact overwrite_keeps hp s
  · exact fun s _ => .inl ⟨rfl, rfl⟩

theorem fill_keeps {bytes : Content} {metadata : Option FileMetadata} (hp : p ≠ tmp) :
    Within (Keeps p) (fill tmp bytes metadata) := by
  have hwrite : Within (Keeps p) (writeAll tmp bytes) := amend_keeps hp
  have hmode (mode : ℕ) : Within (Keeps p) (setPermissions tmp mode) := amend_keeps hp
  unfold fill
  cases metadata with
  | none => infer_instance
  | some metadata =>
    have howner : Within (Keeps p) (fchown tmp metadata) := amend_keeps hp
    infer_instance

theorem checkAndRename_keeps {expected : Option (Content × FileMetadata)} (htmp : p ≠ tmp)
    (hpath : p ≠ path) : Within (Keeps p) (checkAndRename tmp path expected) := by
  have hrename (within : Bool) : Within (Keeps p) (rename within tmp path) :=
    rename_keeps htmp hpath
  unfold checkAndRename
  split <;> infer_instance

theorem createTempFrom_isTemp {name : Text} (hslash : '/' ∉ name) {attempts : ℕ} {s t : Sys}
    (h : createTempFrom process dir name attempts s = (.ok tmp, t)) : IsTemp process tmp := by
  induction attempts generalizing s with
  | zero => cases h
  | succ attempts ih =>
    obtain ⟨sequence, s₁, -, h⟩ := Prog.bind_eq_ok h
    obtain ⟨created, s₂, -, h⟩ := Prog.bind_eq_ok h
    cases created with
    | true =>
      cases h
      exact isTemp_join hslash sequence
    | false => exact ih h

theorem writeAtomicChecked_keeps {bytes : Content} {metadata : Option FileMetadata}
    {expected : Option (Content × FileMetadata)} (hp : ¬ IsTemp process p) (hpath : p ≠ path) :
    Within (Keeps p) (writeAtomicChecked process path bytes metadata expected) := by
  unfold writeAtomicChecked
  split
  · exact Within.fail _
  · exact Within.fail _
  rename_i dir name _ hname
  have hslash := (fileName_eq_some hname).1
  apply Within.andThen inferInstance
  intro _
  apply Within.andThen_ok (createTempFrom_keeps hp hslash 128)
  intro s tmp t hrun
  have htmp : p ≠ tmp := by
    intro he
    exact hp (he ▸ createTempFrom_isTemp hslash hrun)
  have hfill : Within (Keeps p) (fill tmp bytes metadata) := fill_keeps htmp
  have hrename : Within (Keeps p) (checkAndRename tmp path expected) :=
    checkAndRename_keeps htmp hpath
  have hremove : Within (Keeps p) (removeFile tmp) := removeFile_keeps htmp
  have hbody : Within (Keeps p) (fillAndRename dir tmp path bytes metadata expected) := by
    unfold fillAndRename
    infer_instance
  apply Within.andThen inferInstance
  intro result
  cases result <;> infer_instance

end Frames

section BackupFrames

variable {p dest : Text} {outside : Outside}

/-- The paths a run makes use of for itself: names of temporary files, the backup directory with
what is in it, and the directories above it. -/
def Scratch (process : Process) (dest p : Text) : Prop :=
  IsTemp process p ∨ p = dest ∨ isBelow dest p = true ∨
    ∃ dir, parent dest = some dir ∧ p ∈ ancestors dir

theorem isBelow_join (dir name : Text) : isBelow dir (join dir name) = true := by
  rw [isBelow, join_eq dir name]
  exact List.isPrefixOf_iff_prefix.mpr (List.prefix_append ..)

theorem prefix_join (dir name : Text) : dir <+: join dir name := by
  unfold join
  split <;> exact List.prefix_append ..

theorem isBelow_join_of_isBelow {dir : Text} (h : isBelow dest dir = true) (name : Text) :
    isBelow dest (join dir name) = true := by
  rw [isBelow, List.isPrefixOf_iff_prefix] at h ⊢
  exact h.trans (prefix_join dir name)

theorem createDir_keeps {path : Text} (hp : p ≠ path) : Within (Keeps p) (createDir path) := by
  apply call_keeps
  · intro s a t ha
    split at ha
    · cases ha
    · cases ha
      exact overwrite_keeps hp s
  · exact fun s _ => Std.Refl.refl s

theorem ensureDir_keeps {path : Text} (hp : p ≠ path) : Within (Keeps p) (ensureDir path) := by
  apply call_keeps
  · intro s a t ha
    split at ha
    · cases ha
    · cases ha
      exact Std.Refl.refl s
    · cases ha
      exact overwrite_keeps hp s
  · exact fun s _ => Std.Refl.refl s

theorem forEach_keeps {α : Type} {f : α → Op Unit} {l : List α}
    (h : ∀ a ∈ l, Within (Keeps p) (f a)) : Within (Keeps p) (forEach f l) := by
  induction l with
  | nil => exact Within.pure _
  | cons a l ih =>
    apply Within.andThen (h a (List.mem_cons_self ..))
    intro _
    exact ih fun b hb => h b (List.mem_cons_of_mem _ hb)

theorem removeDirAll_keeps (hp : ¬ Scratch outside.process dest p) :
    Within (Keeps p) (removeDirAll dest) := by
  have htouched : (decide (p = dest) || isBelow dest p) = false := by
    rw [Bool.or_eq_false_iff, decide_eq_false_iff_not, Bool.eq_false_iff]
    exact ⟨fun h => hp (.inr (.inl h)), fun h => hp (.inr (.inr (.inl h)))⟩
  apply call_keeps
  · intro s a t ha
    cases ha
    exact overwriteAll_keeps htouched s
  · intro s fault
    apply overwriteAll_keeps
    rw [htouched, Bool.false_and]

instance restrictDir_looks {path : Text} : Within Looking (restrictDir path) := query_looks

theorem ne_of_isBelow {path : Text} (hp : ¬ Scratch outside.process dest p)
    (h : isBelow dest path = true) : p ≠ path := by
  intro he
  exact hp (.inr (.inr (.inl (he ▸ h))))

theorem backupFiles_keeps (hp : ¬ Scratch outside.process dest p) (index : ℕ) (edits : List Edit) :
    Within (Keeps p) (backupFiles outside dest index edits) := by
  induction edits generalizing index with
  | nil => exact Within.pure _
  | cons edit edits ih =>
    rw [backupFiles]
    split
    · exact Within.fail _
    rename_i name _
    have hdir : isBelow dest (join dest (Nat.toDigits 10 index)) = true := isBelow_join ..
    have hpath := isBelow_join_of_isBelow hdir name
    apply Within.andThen (createDir_keeps (ne_of_isBelow hp hdir))
    intro _
    apply Within.andThen inferInstance
    intro _
    apply Within.andThen
      (writeAtomicChecked_keeps (fun h => hp (.inl h)) (ne_of_isBelow hp hpath))
    intro _
    have hrest := ih (index + 1)
    infer_instance

instance verifyOriginal_looks {edit : Edit} : Within Looking (verifyOriginal edit) := by
  unfold verifyOriginal
  infer_instance

instance exists?_looks {path : Text} : Within Looking (exists? path) := by
  apply Within.andThen inferInstance
  intro result
  cases result <;> infer_instance

theorem backup_keeps (hp : ¬ Scratch outside.process dest p) (edits : List Edit) :
    Within (Keeps p) (backup outside edits dest) := by
  have hfiles := backupFiles_keeps hp 0 edits
  have hmanifest : Within (Keeps p) (backupAll outside edits dest) := by
    have hwrite (bytes : Content) : Within (Keeps p)
        (writeAtomic outside.process (join dest "manifest.json".toList) bytes) :=
      writeAtomicChecked_keeps (fun h => hp (.inl h)) (ne_of_isBelow hp (isBelow_join ..))
    unfold backupAll
    infer_instance
  have hremove := removeDirAll_keeps hp
  have hto : Within (Keeps p) (backupTo outside edits dest) := by
    unfold backupTo
    split
    · exact Within.fail _
    rename_i dir hdir
    apply Within.andThen
    · apply forEach_keeps
      intro q hq
      exact ensureDir_keeps fun he => hp (.inr (.inr (.inr ⟨dir, hdir, he ▸ hq⟩)))
    intro _
    apply Within.andThen (createDir_keeps fun he => hp (.inr (.inl he)))
    intro _
    apply Within.andThen inferInstance
    intro _
    apply Within.andThen inferInstance
    intro result
    cases result <;> infer_instance
  unfold backup
  infer_instance

end BackupFrames

section RestoreFrames

variable {p : Text} {outside : Outside}

instance readBackup_looks {file : ManifestFile} : Within Looking (readBackup file) := by
  unfold readBackup
  split
  · exact Within.fail _
  apply Within.andThen query_looks
  intro entry
  cases entry <;> infer_instance

instance readBackupFiles_looks {files : List ManifestFile} :
    Within Looking (readBackupFiles files) := by
  induction files with
  | nil => exact Within.pure _
  | cons file files ih =>
    rw [readBackupFiles]
    infer_instance

instance readBackups_looks {manifest : Manifest} : Within Looking (readBackups manifest) := by
  unfold readBackups
  infer_instance

instance validate_looks {fileSet : FileSet} : Within Looking (validate outside fileSet) := by
  unfold validate
  split
  · exact Within.pure _
  split
  · exact Within.pure _
  apply Within.andThen inferInstance
  intro result
  cases result <;> infer_instance

instance observe_looks {α : Type} {look : Text → Op α} {paths : List Text}
    [∀ path, Within Looking (look path)] : Within Looking (observe look paths) := by
  induction paths with
  | nil => exact Within.pure _
  | cons path paths ih =>
    rw [observe]
    infer_instance

instance readToString_looks {path : Text} : Within Looking (readToString path) := query_looks

end RestoreFrames

section Lives

variable {α : Type} {path dest : Text} {process : Process} {outside : Outside} {within : Bool}

instance call_lives {error : HostNetError} {act : Sys → Option (α × Sys)}
    {part : Fault → Sys → Sys} : Lives (call within error act part) := by
  refine ⟨fun s t h => ?_⟩
  unfold call at h
  split at h
  · cases h
  · split at h <;> cases h

instance query_lives {error : HostNetError} {ask : Sys → Option α} :
    Lives (query within error ask) := call_lives

instance captureMetadata_lives : Lives (captureMetadata path) := by
  apply Lives.andThen query_lives
  intro entry
  cases entry <;> infer_instance

instance read_lives : Lives (read within path) := query_lives

instance verifySnapshot_lives {content : Content} {metadata : FileMetadata} :
    Lives (verifySnapshot within path content metadata) := by
  unfold verifySnapshot
  infer_instance

instance verifyEdit_lives {edit : Edit} : Lives (verifyEdit edit) := verifySnapshot_lives

instance rejectSymlinkTarget_lives : Lives (rejectSymlinkTarget within path) := by
  apply Lives.andThen query_lives
  intro entry
  rcases entry with _ | _ | _ | _ <;> infer_instance

instance createTempFrom_lives {dir name : Text} {attempts : ℕ} :
    Lives (createTempFrom process dir name attempts) := by
  induction attempts with
  | zero => exact Lives.fail _
  | succ attempts ih =>
    have hnext : Lives nextSequence := ⟨fun _ _ h => by cases h⟩
    have hopen (path : Text) : Lives (openNew process path) := call_lives
    rw [createTempFrom]
    infer_instance

instance fill_lives {bytes : Content} {metadata : Option FileMetadata} :
    Lives (fill path bytes metadata) := by
  unfold fill writeAll fchown setPermissions syncAll amend
  cases metadata <;> infer_instance

instance checkAndRename_lives {tmp : Text} {expected : Option (Content × FileMetadata)} :
    Lives (checkAndRename tmp path expected) := by
  unfold checkAndRename rename
  split <;> infer_instance

instance writeAtomicChecked_lives {bytes : Content} {metadata : Option FileMetadata}
    {expected : Option (Content × FileMetadata)} :
    Lives (writeAtomicChecked process path bytes metadata expected) := by
  unfold writeAtomicChecked
  split
  · exact Lives.fail _
  · exact Lives.fail _
  apply Lives.andThen inferInstance
  intro _
  apply Lives.andThen createTempFrom_lives
  intro tmp
  apply Lives.andThen
  · unfold fillAndRename syncAll
    infer_instance
  intro result
  unfold removeFile
  cases result <;> infer_instance

instance backupFiles_lives {index : ℕ} {edits : List Edit} :
    Lives (backupFiles outside dest index edits) := by
  induction edits generalizing index with
  | nil => exact Lives.pure _
  | cons edit edits ih =>
    rw [backupFiles]
    unfold createDir restrictDir writeAtomic
    split <;> infer_instance

instance backup_lives {edits : List Edit} : Lives (backup outside edits dest) := by
  have hto : Lives (backupTo outside edits dest) := by
    unfold backupTo
    split
    · exact Lives.fail _
    unfold createDirAll ensureDir createDir restrictDir
    apply Lives.andThen inferInstance
    intro _
    apply Lives.andThen inferInstance
    intro _
    apply Lives.andThen inferInstance
    intro _
    apply Lives.andThen
    · unfold backupAll writeAtomic
      infer_instance
    intro result
    unfold removeDirAll
    cases result <;> infer_instance
  have hpresent : Lives (exists? dest) := by
    apply Lives.andThen inferInstance
    intro result
    cases result <;> infer_instance
  unfold backup verifyOriginal
  infer_instance

instance apply_lives {edits : List Edit} : Lives (apply process edits) := by
  unfold apply applyEdit
  infer_instance

instance readBackups_lives {manifest : Manifest} : Lives (readBackups manifest) := by
  have hone (file : ManifestFile) : Lives (readBackup file) := by
    unfold readBackup
    split
    · exact Lives.fail _
    apply Lives.andThen inferInstance
    intro entry
    cases entry <;> infer_instance
  have hall (files : List ManifestFile) : Lives (readBackupFiles files) := by
    induction files with
    | nil => exact Lives.pure _
    | cons file files ih =>
      rw [readBackupFiles]
      infer_instance
  unfold readBackups
  infer_instance

instance classify_lives {l : List ((ManifestFile × Content) × Edit)} : Lives (classify l) := by
  induction l with
  | nil => exact Lives.pure _
  | cons y l ih =>
    obtain ⟨⟨file, original⟩, e⟩ := y
    rw [classify]
    infer_instance

instance restoreIfUnchanged_lives {manifest : Manifest} {edits : List Edit} :
    Lives (restoreIfUnchanged process manifest edits) := by
  unfold restoreIfUnchanged putBack
  apply Lives.andThen inferInstance
  intro restoreFiles
  split
  · exact Lives.fail _
  apply Lives.andThen inferInstance
  rintro ⟨pending, conflict⟩
  apply Lives.andThen inferInstance
  intro _
  cases conflict <;> infer_instance

instance restoreAfterFailure_lives {manifest : Manifest} {edits : List Edit}
    {operation : HostNetError} : Lives (restoreAfterFailure outside manifest edits operation) := by
  apply Lives.andThen inferInstance
  intro result
  cases result <;> infer_instance

instance validate_lives {fileSet : FileSet} : Lives (validate outside fileSet) := by
  unfold validate
  split
  · exact Lives.pure _
  split
  · exact Lives.pure _
  apply Lives.andThen inferInstance
  intro result
  cases result <;> infer_instance

instance executePlan_lives {fileSet : FileSet} {edits : List Edit} :
    Lives (executePlan outside fileSet edits dest) := by
  apply Lives.andThen backup_lives
  intro manifest
  apply Lives.andThen inferInstance
  intro applied
  cases applied with
  | error operation => infer_instance
  | ok edited =>
    apply Lives.andThen inferInstance
    intro validated
    rcases validated with operation | (_ | _ | ⟨exit, stderr⟩) <;> infer_instance

instance observe_lives {look : Text → Op α} [∀ path, Lives (look path)] {paths : List Text} :
    Lives (observe look paths) := by
  induction paths with
  | nil => exact Lives.pure _
  | cons path paths ih =>
    rw [observe]
    infer_instance

instance planFiles_lives {selected files : List Text} :
    Lives (planFiles outside selected files) := by
  unfold planFiles readToString
  apply Lives.andThen inferInstance
  intro contents
  apply Lives.andThen inferInstance
  intro metadata
  dsimp only
  split <;> infer_instance

end Lives

end LandscapeKit.Hostnet
