import Mathlib.Data.Fintype.Basic
import Mathlib.Data.List.Basic
import Mathlib.Logic.Function.Basic

/-!
Writers that replace one file through one temporary file. Each reads the file, makes a new text
of it, opens the temporary file (which empties it), writes the text piece by piece and renames
the temporary file to the file. A name leads to an inode; a writer keeps the inode it has opened,
whatever the name comes to mean.
-/

namespace LandscapeKit.Replace

variable {ι β : Type}

structure Disk (β : Type) where
  content : ℕ → List β
  /-- The inode of the file. -/
  file : Option ℕ
  /-- The inode of the temporary file. -/
  tmp : Option ℕ
  /-- The first inode that is not in use. -/
  next : ℕ

namespace Disk

def read (d : Disk β) : Option (List β) := d.file.map d.content

def tmpInode (d : Disk β) : ℕ := d.tmp.getD d.next

def openTmp (d : Disk β) : Disk β where
  content := Function.update d.content d.tmpInode []
  file := d.file
  tmp := some d.tmpInode
  next := if d.tmp.isSome then d.next else d.next + 1

def writeAt [Zero β] (offset : ℕ) (piece old : List β) : List β :=
  old.take offset ++ List.replicate (offset - old.length) 0 ++ piece ++
    old.drop (offset + piece.length)

def write [Zero β] (d : Disk β) (inode offset : ℕ) (piece : List β) : Disk β :=
  { d with content := Function.update d.content inode (writeAt offset piece (d.content inode)) }

def rename (d : Disk β) : Disk β := { d with file := d.tmp, tmp := none }

end Disk

inductive Stage (β : Type)
  | idle
  | edited (base : Option (List β)) (out : List β)
  | writing (base : Option (List β)) (out : List β) (inode offset : ℕ)
  | returned (base : Option (List β)) (out : List β)
  | failed

namespace Stage

def isWriting : Stage β → Bool
  | writing .. => true
  | _ => false

def isReturned : Stage β → Bool
  | returned .. => true
  | _ => false

theorem isReturned_iff {stage : Stage β} :
    stage.isReturned = true ↔ ∃ base out, stage = .returned base out := by
  cases stage <;> simp [isReturned]

def texts : Stage β → Option (Option (List β) × List β)
  | edited base out => some (base, out)
  | writing base out _ _ => some (base, out)
  | returned base out => some (base, out)
  | _ => none

end Stage

structure State (ι β : Type) where
  disk : Disk β
  stage : ι → Stage β
  /-- The writers that have returned, oldest first. -/
  log : List ι

/-- The steps of a writer. `fail` is an error or the end of the process anywhere before the
rename; `remove` says whether the temporary file is removed on the way out. -/
inductive Event (ι : Type)
  | read (p : ι)
  | openTmp (p : ι)
  | write (p : ι) (n : ℕ)
  | rename (p : ι)
  | fail (p : ι) (remove : Bool)

section Step

variable [DecidableEq ι] [Zero β] (edit : ι → Option (List β) → Option (List β))

def State.at (s : State ι β) (p : ι) (stage : Stage β) (disk : Disk β) : State ι β :=
  { s with stage := Function.update s.stage p stage, disk := disk }

def step (s : State ι β) : Event ι → Option (State ι β)
  | .read p =>
    match s.stage p with
    | .idle =>
      match edit p s.disk.read with
      | some out => some (s.at p (.edited s.disk.read out) s.disk)
      | none => some (s.at p .failed s.disk)
    | _ => none
  | .openTmp p =>
    match s.stage p with
    | .edited base out =>
      some (s.at p (.writing base out s.disk.tmpInode 0) s.disk.openTmp)
    | _ => none
  | .write p n =>
    match s.stage p with
    | .writing base out inode offset =>
      let piece := (out.drop offset).take n
      some (s.at p (.writing base out inode (offset + piece.length))
        (s.disk.write inode offset piece))
    | _ => none
  | .rename p =>
    match s.stage p, s.disk.tmp with
    | .writing base out _ offset, some _ =>
      if offset = out.length then
        some { s.at p (.returned base out) s.disk.rename with log := s.log ++ [p] }
      else none
    | _, _ => none
  | .fail p remove =>
    match s.stage p with
    | .returned .. => none
    | .writing .. =>
      some (s.at p .failed (if remove then { s.disk with tmp := none } else s.disk))
    | _ => some (s.at p .failed s.disk)

inductive Reached (allowed : State ι β → Event ι → Prop) (s₀ : State ι β) : State ι β → Prop
  | start : Reached allowed s₀ s₀
  | step {s s' : State ι β} {e : Event ι} (before : Reached allowed s₀ s) (ok : allowed s e)
      (done : step edit s e = some s') : Reached allowed s₀ s'

end Step

section Run

variable [DecidableEq ι] [Zero β] (edit : ι → Option (List β) → Option (List β))
  (allowed : State ι β → Event ι → Prop) [∀ s, DecidablePred (allowed s)]

def run (s : State ι β) (events : List (Event ι)) : Option (State ι β) :=
  events.foldlM (fun s e => if allowed s e then step edit s e else none) s

theorem Reached.run {s₀ s s' : State ι β} (before : Reached edit allowed s₀ s) :
    ∀ events, run edit allowed s events = some s' → Reached edit allowed s₀ s' := by
  intro events
  induction events generalizing s with
  | nil =>
    intro h
    cases h
    exact before
  | cons e events ih =>
    intro h
    rw [Replace.run, List.foldlM_cons] at h
    obtain ⟨s₁, hs₁, h⟩ := Option.bind_eq_some_iff.mp h
    split at hs₁
    · rename_i ok
      exact ih (.step before ok hs₁) h
    · cases hs₁

theorem exists_reached (s₀ : State ι β) (events : List (Event ι)) (P : State ι β → Bool)
    (h : (Replace.run edit allowed s₀ events).any P = true) :
    ∃ s, Reached edit allowed s₀ s ∧ P s = true := by
  obtain ⟨s, hs, hP⟩ := (Option.any_eq_true P _).mp h
  exact ⟨s, Reached.run edit allowed .start events hs, hP⟩

end Run

structure Fresh (s : State ι β) : Prop where
  idle : ∀ p, s.stage p = .idle
  log : s.log = []
  file_old : ∀ j, s.disk.file = some j → j < s.disk.next
  tmp_old : ∀ i, s.disk.tmp = some i → i < s.disk.next
  apart : ∀ i, s.disk.tmp = some i → s.disk.file ≠ some i

def OpensAlone (s : State ι β) : Event ι → Prop
  | .openTmp _ => ∀ q, (s.stage q).isWriting = false
  | _ => True

instance [Fintype ι] (s : State ι β) : DecidablePred (OpensAlone s)
  | .openTmp _ => inferInstanceAs (Decidable (∀ q, (s.stage q).isWriting = false))
  | .read _ | .write .. | .rename _ | .fail .. => isTrue trivial

structure Whole (edit : ι → Option (List β) → Option (List β)) (s₀ s : State ι β) : Prop where
  file_old : ∀ j, s.disk.file = some j → j < s.disk.next
  tmp_old : ∀ i, s.disk.tmp = some i → i < s.disk.next
  apart : ∀ i, s.disk.tmp = some i → s.disk.file ≠ some i
  /-- The writer that has it open has written the beginning of its text. -/
  begun : ∀ p base out inode offset, s.stage p = .writing base out inode offset →
    s.disk.tmp = some inode ∧ offset ≤ out.length ∧ s.disk.content inode = out.take offset
  alone : ∀ p q, (s.stage p).isWriting = true → (s.stage q).isWriting = true → p = q
  made : ∀ p base out, (s.stage p).texts = some (base, out) → edit p base = some out
  /-- The file is the text of the writer that has returned last. -/
  whole : (s.log = [] ∧ s.disk.read = s₀.disk.read) ∨
    ∃ log p base out, s.log = log ++ [p] ∧ s.stage p = .returned base out ∧
      s.disk.read = some out

theorem Fresh.whole {edit : ι → Option (List β) → Option (List β)} {s : State ι β}
    (h : Fresh s) : Whole edit s s where
  file_old := h.file_old
  tmp_old := h.tmp_old
  apart := h.apart
  begun p base out inode offset hp := by
    rw [h.idle p] at hp
    cases hp
  alone p q hp := by
    rw [h.idle p] at hp
    cases hp
  made p base out hp := by
    rw [h.idle p] at hp
    cases hp
  whole := .inl ⟨h.log, rfl⟩

section Disk

variable (d : Disk β)

structure Disk.Sound : Prop where
  file_old : ∀ j, d.file = some j → j < d.next
  tmp_old : ∀ i, d.tmp = some i → i < d.next
  apart : ∀ i, d.tmp = some i → d.file ≠ some i

variable {d} in
theorem Disk.Sound.tmpInode (h : d.Sound) : d.file ≠ some d.tmpInode := by
  cases htmp : d.tmp with
  | none =>
    intro hfile
    have hlt := h.file_old _ hfile
    simp [Disk.tmpInode, htmp] at hlt
  | some i => simpa [Disk.tmpInode, htmp] using h.apart i htmp

variable {d} in
theorem Disk.Sound.openTmp (h : d.Sound) : d.openTmp.Sound := by
  have hle : d.next ≤ d.openTmp.next := by
    simp only [Disk.openTmp]
    split
    · exact Nat.le_refl _
    · exact Nat.le_succ _
  have hinode : d.tmpInode < d.openTmp.next := by
    cases htmp : d.tmp with
    | none => simp [Disk.tmpInode, Disk.openTmp, htmp]
    | some i => simpa [Disk.tmpInode, Disk.openTmp, htmp] using h.tmp_old i htmp
  constructor
  · exact fun j hj => Nat.lt_of_lt_of_le (h.file_old j hj) hle
  · intro i hi
    cases hi
    exact hinode
  · intro i hi
    cases hi
    exact h.tmpInode

variable {d} in
theorem Disk.Sound.write [Zero β] (h : d.Sound) (inode offset : ℕ) (piece : List β) :
    (d.write inode offset piece).Sound :=
  ⟨h.file_old, h.tmp_old, h.apart⟩

variable {d} in
theorem Disk.Sound.rename (h : d.Sound) : d.rename.Sound :=
  ⟨fun j hj => h.tmp_old j hj, nofun, nofun⟩

theorem Disk.read_openTmp (apart : d.file ≠ some d.tmpInode) : d.openTmp.read = d.read := by
  cases hfile : d.file with
  | none => simp [read, openTmp, hfile]
  | some j =>
    have hj : j ≠ d.tmpInode := by
      intro hj
      apply apart
      rw [hfile, hj]
    simp [read, openTmp, hfile, hj]

theorem Disk.read_write [Zero β] {inode : ℕ} (apart : d.file ≠ some inode) (offset : ℕ)
    (piece : List β) : (d.write inode offset piece).read = d.read := by
  cases hfile : d.file with
  | none => simp [read, write, hfile]
  | some j =>
    have hj : j ≠ inode := by
      intro hj
      apply apart
      rw [hfile, hj]
    simp [read, write, hfile, hj]

theorem writeAt_take [Zero β] {out : List β} {offset : ℕ} (h : offset ≤ out.length) (n : ℕ) :
    Disk.writeAt offset ((out.drop offset).take n) (out.take offset) =
      out.take (offset + ((out.drop offset).take n).length) := by
  have hlen : (out.take offset).length = offset := by
    rw [List.length_take]
    omega
  have htake : (out.take offset).take offset = out.take offset := by
    rw [List.take_take, Nat.min_self]
  have hdrop : (out.take offset).drop (offset + ((out.drop offset).take n).length) = [] := by
    apply List.drop_eq_nil_of_le
    omega
  rw [Disk.writeAt, htake, hlen, Nat.sub_self, hdrop, List.replicate_zero, List.append_nil,
    List.append_nil, List.take_add, List.length_take]
  congr 1
  rcases Nat.le_total n (out.drop offset).length with hn | hn
  · rw [Nat.min_eq_left hn]
  · rw [Nat.min_eq_right hn, List.take_length, List.take_of_length_le hn]

end Disk

section Step

variable [DecidableEq ι] [Zero β] {edit : ι → Option (List β) → Option (List β)}
  {s₀ s s' : State ι β} {p : ι}

omit [Zero β] in
theorem State.at_stage_self (stage : Stage β) (d : Disk β) : (s.at p stage d).stage p = stage := by
  simp [State.at]

omit [Zero β] in
theorem State.at_stage_of_ne {q : ι} (h : q ≠ p) (stage : Stage β) (d : Disk β) :
    (s.at p stage d).stage q = s.stage q := by
  simp [State.at, h]

theorem step_read (h : step edit s (.read p) = some s') :
    s.stage p = .idle ∧ ((∃ out, edit p s.disk.read = some out ∧
      s' = s.at p (.edited s.disk.read out) s.disk) ∨ s' = s.at p .failed s.disk) := by
  simp only [step] at h
  split at h
  · rename_i hp
    split at h
    · rename_i out hout
      exact ⟨hp, .inl ⟨out, hout, (Option.some.inj h).symm⟩⟩
    · exact ⟨hp, .inr (Option.some.inj h).symm⟩
  · cases h

theorem step_openTmp (h : step edit s (.openTmp p) = some s') :
    ∃ base out, s.stage p = .edited base out ∧
      s' = s.at p (.writing base out s.disk.tmpInode 0) s.disk.openTmp := by
  simp only [step] at h
  split at h
  · rename_i base out hp
    exact ⟨base, out, hp, (Option.some.inj h).symm⟩
  · cases h

theorem step_write {n : ℕ} (h : step edit s (.write p n) = some s') :
    ∃ base out inode offset, s.stage p = .writing base out inode offset ∧
      s' = s.at p (.writing base out inode (offset + ((out.drop offset).take n).length))
        (s.disk.write inode offset ((out.drop offset).take n)) := by
  simp only [step] at h
  split at h
  · rename_i base out inode offset hp
    exact ⟨base, out, inode, offset, hp, (Option.some.inj h).symm⟩
  · cases h

theorem step_rename (h : step edit s (.rename p) = some s') :
    ∃ base out inode i, s.stage p = .writing base out inode out.length ∧ s.disk.tmp = some i ∧
      s' = { s.at p (.returned base out) s.disk.rename with log := s.log ++ [p] } := by
  simp only [step] at h
  split at h
  · rename_i base out inode offset i hp hi
    split at h
    · rename_i hend
      rw [hend] at hp
      exact ⟨base, out, inode, i, hp, hi, (Option.some.inj h).symm⟩
    · cases h
  · cases h

theorem step_fail {remove : Bool} (h : step edit s (.fail p remove) = some s') :
    (∀ base out, s.stage p ≠ .returned base out) ∧
      (s' = s.at p .failed s.disk ∨ ((s.stage p).isWriting = true ∧
        s' = s.at p .failed { s.disk with tmp := none })) := by
  simp only [step] at h
  split at h
  · cases h
  · rename_i hp
    rw [hp]
    cases remove
    · exact ⟨nofun, .inl (Option.some.inj h).symm⟩
    · exact ⟨nofun, .inr ⟨rfl, (Option.some.inj h).symm⟩⟩
  · rename_i hp _
    exact ⟨hp, .inl (Option.some.inj h).symm⟩

omit [Zero β] in
theorem Whole.quiet (h : Whole edit s₀ s) {stage : Stage β}
    (ready : ∀ base out, s.stage p ≠ .returned base out) (closed : stage.isWriting = false)
    (made : ∀ base out, stage.texts = some (base, out) → edit p base = some out) :
    Whole edit s₀ (s.at p stage s.disk) where
  file_old := h.file_old
  tmp_old := h.tmp_old
  apart := h.apart
  begun q base out inode offset hq := by
    rcases eq_or_ne q p with rfl | hqp
    · rw [State.at_stage_self] at hq
      rw [hq] at closed
      cases closed
    · rw [State.at_stage_of_ne hqp] at hq
      exact h.begun q base out inode offset hq
  alone q r hq hr := by
    have hof : ∀ q, ((s.at p stage s.disk).stage q).isWriting = true →
        (s.stage q).isWriting = true := by
      intro q hq
      rcases eq_or_ne q p with rfl | hqp
      · rw [State.at_stage_self, closed] at hq
        cases hq
      · rwa [State.at_stage_of_ne hqp] at hq
    exact h.alone q r (hof q hq) (hof r hr)
  made q base out hq := by
    rcases eq_or_ne q p with rfl | hqp
    · rw [State.at_stage_self] at hq
      exact made base out hq
    · rw [State.at_stage_of_ne hqp] at hq
      exact h.made q base out hq
  whole := by
    rcases h.whole with hstart | ⟨log, q, base, out, hlog, hq, hread⟩
    · exact .inl hstart
    · have hqp : q ≠ p := by
        intro hqp
        rw [hqp] at hq
        exact ready base out hq
      exact .inr ⟨log, q, base, out, hlog, by rwa [State.at_stage_of_ne hqp], hread⟩

omit [Zero β] in
theorem Whole.busy (h : Whole edit s₀ s) {stage : Stage β} {d : Disk β}
    (ready : ∀ base out, s.stage p ≠ .returned base out)
    (only : ∀ q, q ≠ p → (s.stage q).isWriting = false)
    (file_old : ∀ j, d.file = some j → j < d.next) (tmp_old : ∀ i, d.tmp = some i → i < d.next)
    (apart : ∀ i, d.tmp = some i → d.file ≠ some i) (read : d.read = s.disk.read)
    (begun : ∀ base out inode offset, stage = .writing base out inode offset →
      d.tmp = some inode ∧ offset ≤ out.length ∧ d.content inode = out.take offset)
    (made : ∀ base out, stage.texts = some (base, out) → edit p base = some out) :
    Whole edit s₀ (s.at p stage d) where
  file_old := file_old
  tmp_old := tmp_old
  apart := apart
  begun q base out inode offset hq := by
    rcases eq_or_ne q p with rfl | hqp
    · rw [State.at_stage_self] at hq
      exact begun base out inode offset hq
    · rw [State.at_stage_of_ne hqp] at hq
      have hfalse := only q hqp
      rw [hq] at hfalse
      cases hfalse
  alone q r hq hr := by
    have hof : ∀ q, ((s.at p stage d).stage q).isWriting = true → q = p := by
      intro q hq
      by_contra hqp
      rw [State.at_stage_of_ne hqp, only q hqp] at hq
      cases hq
    rw [hof q hq, hof r hr]
  made q base out hq := by
    rcases eq_or_ne q p with rfl | hqp
    · rw [State.at_stage_self] at hq
      exact made base out hq
    · rw [State.at_stage_of_ne hqp] at hq
      exact h.made q base out hq
  whole := by
    rcases h.whole with ⟨hlog, hread⟩ | ⟨log, q, base, out, hlog, hq, hread⟩
    · exact .inl ⟨hlog, read.trans hread⟩
    · have hqp : q ≠ p := by
        intro hqp
        rw [hqp] at hq
        exact ready base out hq
      exact .inr ⟨log, q, base, out, hlog, by rwa [State.at_stage_of_ne hqp], read.trans hread⟩

omit [DecidableEq ι] [Zero β] in
theorem Whole.only (h : Whole edit s₀ s) (hp : (s.stage p).isWriting = true) {q : ι} (hq : q ≠ p) :
    (s.stage q).isWriting = false := by
  cases hs : (s.stage q).isWriting with
  | false => rfl
  | true => exact absurd (h.alone q p hs hp) hq

theorem Whole.openTmp (h : Whole edit s₀ s) (alone : ∀ q, (s.stage q).isWriting = false)
    {base : Option (List β)} {out : List β} (hp : s.stage p = .edited base out) :
    Whole edit s₀ (s.at p (.writing base out s.disk.tmpInode 0) s.disk.openTmp) := by
  have hsound : s.disk.Sound := ⟨h.file_old, h.tmp_old, h.apart⟩
  apply h.busy
  · rw [hp]
    exact nofun
  · exact fun q _ => alone q
  · exact hsound.openTmp.file_old
  · exact hsound.openTmp.tmp_old
  · exact hsound.openTmp.apart
  · exact s.disk.read_openTmp hsound.tmpInode
  · intro base out inode offset hstage
    cases hstage
    exact ⟨rfl, Nat.zero_le _, by simp [Disk.openTmp]⟩
  · intro base' out' htexts
    cases htexts
    exact h.made p base out (by rw [hp]; rfl)

theorem Whole.write (h : Whole edit s₀ s) {base : Option (List β)} {out : List β}
    {inode offset : ℕ} (hp : s.stage p = .writing base out inode offset) (n : ℕ) :
    Whole edit s₀ (s.at p
      (.writing base out inode (offset + ((out.drop offset).take n).length))
      (s.disk.write inode offset ((out.drop offset).take n))) := by
  obtain ⟨htmp, hoffset, hcontent⟩ := h.begun p base out inode offset hp
  have hwriting : (s.stage p).isWriting = true := by
    rw [hp]
    rfl
  apply h.busy
  · rw [hp]
    exact nofun
  · exact fun q hq => h.only hwriting hq
  · exact h.file_old
  · exact h.tmp_old
  · exact h.apart
  · exact s.disk.read_write (h.apart inode htmp) offset _
  · intro base out inode' offset' hstage
    cases hstage
    refine ⟨htmp, ?_, ?_⟩
    · rw [List.length_take, List.length_drop]
      omega
    · simp only [Disk.write, Function.update_self, hcontent]
      exact writeAt_take hoffset n
  · intro base' out' htexts
    cases htexts
    exact h.made p base out (by rw [hp]; rfl)

omit [Zero β] in
theorem Whole.rename (h : Whole edit s₀ s) {base : Option (List β)} {out : List β} {inode : ℕ}
    (hp : s.stage p = .writing base out inode out.length) :
    edit p base = some out ∧ s.disk.rename.read = some out ∧
      Whole edit s₀ { s.at p (.returned base out) s.disk.rename with log := s.log ++ [p] } := by
  obtain ⟨htmp, -, hcontent⟩ := h.begun p base out inode out.length hp
  have hwriting : (s.stage p).isWriting = true := by
    rw [hp]
    rfl
  have hmade : edit p base = some out := h.made p base out (by rw [hp]; rfl)
  have hread : s.disk.rename.read = some out := by
    simp [Disk.rename, Disk.read, htmp, hcontent]
  refine ⟨hmade, hread, ?_⟩
  exact
    { file_old := fun j hj => h.tmp_old j hj
      tmp_old := nofun
      apart := nofun
      begun := by
        intro q base' out' inode' offset hq
        rcases eq_or_ne q p with rfl | hqp
        · rw [State.at_stage_self] at hq
          cases hq
        · rw [State.at_stage_of_ne hqp] at hq
          have hfalse := h.only hwriting hqp
          rw [hq] at hfalse
          cases hfalse
      alone := by
        intro q r hq hr
        exfalso
        rcases eq_or_ne q p with rfl | hqp
        · rw [State.at_stage_self] at hq
          cases hq
        · rw [State.at_stage_of_ne hqp, h.only hwriting hqp] at hq
          cases hq
      made := by
        intro q base' out' hq
        rcases eq_or_ne q p with rfl | hqp
        · rw [State.at_stage_self] at hq
          cases hq
          exact hmade
        · rw [State.at_stage_of_ne hqp] at hq
          exact h.made q base' out' hq
      whole := .inr ⟨s.log, p, base, out, rfl, State.at_stage_self _ s.disk.rename, hread⟩ }

theorem Whole.step {e : Event ι} (h : Whole edit s₀ s) (alone : OpensAlone s e)
    (done : Replace.step edit s e = some s') : Whole edit s₀ s' := by
  cases e with
  | read p =>
    obtain ⟨hp, ⟨out, hout, rfl⟩ | rfl⟩ := step_read done
    · refine h.quiet (by rw [hp]; exact nofun) rfl ?_
      intro base out' htexts
      cases htexts
      exact hout
    · exact h.quiet (by rw [hp]; exact nofun) rfl nofun
  | openTmp p =>
    obtain ⟨base, out, hp, rfl⟩ := step_openTmp done
    exact h.openTmp alone hp
  | write p n =>
    obtain ⟨base, out, inode, offset, hp, rfl⟩ := step_write done
    exact h.write hp n
  | rename p =>
    obtain ⟨base, out, inode, i, hp, -, rfl⟩ := step_rename done
    exact (h.rename hp).2.2
  | fail p remove =>
    obtain ⟨hp, rfl | ⟨hwriting, rfl⟩⟩ := step_fail done
    · exact h.quiet hp rfl nofun
    · exact h.busy hp (fun q hq => h.only hwriting hq) h.file_old nofun nofun rfl nofun nofun

theorem Reached.whole {allowed : State ι β → Event ι → Prop}
    (careful : ∀ s e, allowed s e → OpensAlone s e) (fresh : Fresh s₀)
    (run : Reached edit allowed s₀ s) : Whole edit s₀ s := by
  induction run with
  | start => exact fresh.whole
  | step _ ok done ih => exact ih.step (careful _ _ ok) done

end Step

/-! The sections of the file. A writer writes one of them and keeps the others as it has read
them. -/

section Sections

variable {κ ω : Type}

/-- `view k` is the section `k` of a text, `key p` the section that `p` writes, and `has p` says
that a section is the one `p` wanted. -/
structure Sectioned (edit : ι → Option (List β) → Option (List β)) (key : ι → κ)
    (view : κ → Option (List β) → ω) (has : ι → ω → Prop) : Prop where
  written : ∀ p base out, edit p base = some out → has p (view (key p) (some out))
  kept : ∀ p base out k, edit p base = some out → k ≠ key p → view k (some out) = view k base

def RenamesCurrent (key : ι → κ) (view : κ → Option (List β) → ω) (s : State ι β) :
    Event ι → Prop
  | .rename p => ∀ base out, (s.stage p).texts = some (base, out) →
    ∀ k, k ≠ key p → view k s.disk.read = view k base
  | _ => True

instance [Fintype κ] [DecidableEq κ] [DecidableEq ω] (key : ι → κ)
    (view : κ → Option (List β) → ω) (s : State ι β) : DecidablePred (RenamesCurrent key view s)
  | .rename p =>
    match h : (s.stage p).texts with
    | none => isTrue (by simp [RenamesCurrent, h])
    | some (base, out) =>
      decidable_of_iff (∀ k, k ≠ key p → view k s.disk.read = view k base)
        (by simp [RenamesCurrent, h])
  | .read _ | .openTmp _ | .write .. | .fail .. => isTrue trivial

def LastWriter (key : ι → κ) (view : κ → Option (List β) → ω) (has : ι → ω → Prop)
    (s₀ s : State ι β) (k : κ) : Prop :=
  (∃ before p after, s.log = before ++ p :: after ∧ key p = k ∧ (∀ q ∈ after, key q ≠ k) ∧
      has p (view k s.disk.read)) ∨
    ((∀ q ∈ s.log, key q ≠ k) ∧ view k s.disk.read = view k s₀.disk.read)

variable {edit : ι → Option (List β) → Option (List β)} {key : ι → κ}
  {view : κ → Option (List β) → ω} {has : ι → ω → Prop} {s₀ s s' : State ι β}

theorem LastWriter.exists_has {k : κ} (h : LastWriter key view has s₀ s k) {q : ι}
    (hq : q ∈ s.log) (hk : key q = k) : ∃ p, key p = k ∧ has p (view k s.disk.read) := by
  rcases h with ⟨before, p, after, -, hp, -, hhas⟩ | ⟨hnone, -⟩
  · exact ⟨p, hp, hhas⟩
  · exact absurd hk (hnone q hq)

theorem LastWriter.rename (laws : Sectioned edit key view has) {p : ι}
    {base : Option (List β)} {out : List β} {k : κ} (hmade : edit p base = some out)
    (current : ∀ k, k ≠ key p → view k s.disk.read = view k base)
    (hlog : s'.log = s.log ++ [p]) (hread : s'.disk.read = some out)
    (h : LastWriter key view has s₀ s k) : LastWriter key view has s₀ s' k := by
  rcases eq_or_ne k (key p) with rfl | hk
  · exact .inl ⟨s.log, p, [], hlog, rfl, nofun, by rw [hread]; exact laws.written p base out hmade⟩
  · have hview : view k s'.disk.read = view k s.disk.read := by
      rw [hread, laws.kept p base out k hmade hk, current k hk]
    rcases h with ⟨before, q, after, hq, hkey, hafter, hhas⟩ | ⟨hnone, hstart⟩
    · refine .inl ⟨before, q, after ++ [p], by rw [hlog, hq]; simp, hkey, ?_, by rwa [hview]⟩
      intro r hr
      rcases List.mem_append.mp hr with hr | hr
      · exact hafter r hr
      · rw [List.mem_singleton.mp hr]
        exact hk.symm
    · refine .inr ⟨?_, hview.trans hstart⟩
      intro r hr
      rw [hlog] at hr
      rcases List.mem_append.mp hr with hr | hr
      · exact hnone r hr
      · rw [List.mem_singleton.mp hr]
        exact hk.symm

variable [DecidableEq ι] [Zero β]

theorem Whole.step_read {e : Event ι} (h : Whole edit s₀ s) (alone : OpensAlone s e)
    (done : Replace.step edit s e = some s') :
    (s'.log = s.log ∧ s'.disk.read = s.disk.read) ∨
      ∃ p base out, e = .rename p ∧ (s.stage p).texts = some (base, out) ∧
        edit p base = some out ∧ s'.log = s.log ++ [p] ∧ s'.disk.read = some out := by
  cases e with
  | read p =>
    obtain ⟨-, ⟨out, -, rfl⟩ | rfl⟩ := Replace.step_read done
    · exact .inl ⟨rfl, rfl⟩
    · exact .inl ⟨rfl, rfl⟩
  | openTmp p =>
    obtain ⟨base, out, hp, rfl⟩ := step_openTmp done
    have hw := h.openTmp alone hp
    exact .inl ⟨rfl, s.disk.read_openTmp (hw.apart _ rfl)⟩
  | write p n =>
    obtain ⟨base, out, inode, offset, hp, rfl⟩ := step_write done
    have htmp := (h.begun p base out inode offset hp).1
    exact .inl ⟨rfl, s.disk.read_write (h.apart inode htmp) offset _⟩
  | rename p =>
    obtain ⟨base, out, inode, i, hp, -, rfl⟩ := step_rename done
    obtain ⟨hmade, hread, -⟩ := h.rename hp
    exact .inr ⟨p, base, out, rfl, by rw [hp]; rfl, hmade, rfl, hread⟩
  | fail p remove =>
    obtain ⟨-, rfl | ⟨-, rfl⟩⟩ := step_fail done
    · exact .inl ⟨rfl, rfl⟩
    · exact .inl ⟨rfl, rfl⟩

theorem Reached.lastWriter {allowed : State ι β → Event ι → Prop}
    (laws : Sectioned edit key view has) (careful : ∀ s e, allowed s e → OpensAlone s e)
    (current : ∀ s e, allowed s e → RenamesCurrent key view s e) (fresh : Fresh s₀)
    (run : Reached edit allowed s₀ s) (k : κ) : LastWriter key view has s₀ s k := by
  induction run with
  | start => exact .inr ⟨by rw [fresh.log]; exact nofun, rfl⟩
  | step before ok done ih =>
    rcases (before.whole careful fresh).step_read (careful _ _ ok) done with
      ⟨hlog, hread⟩ | ⟨p, base, out, rfl, htexts, hmade, hlog, hread⟩
    · rw [LastWriter, hlog, hread]
      exact ih
    · exact ih.rename laws hmade (current _ _ ok base out htexts) hlog hread

end Sections

end LandscapeKit.Replace
