import LandscapeKit.LibLossy
import LandscapeKit.LibProgress
import LandscapeKit.MirrorHosts

/-!
The package manager run with its output captured (`run_captured`, the same in
`software/base.rs` and `software/docker.rs`). The child writes into two pipes of bounded
capacity; the parent polls the cancel flag and the child, and reads the pipes only when the
child has exited.
-/

namespace LandscapeKit.Software

open Text Utf8 Relation

inductive Stream
  | stdout
  | stderr
deriving DecidableEq

inductive ExitStatus
  | exited (code : ℕ)
  | signaled (signal : ℕ)
deriving DecidableEq

namespace ExitStatus

def success : ExitStatus → Bool
  | exited code => code = 0
  | signaled _ => false

def signal : ExitStatus → Option ℕ
  | exited _ => none
  | signaled signal => some signal

end ExitStatus

inductive SoftwareError
  | cancelled
  | exitedWithStatus (program : Text) (signal : ℕ)
  | failed (program stderr : Text)
deriving DecidableEq

/-- What is run: the child's writes in order and the status it exits with. -/
structure Command where
  program : Text
  writes : List (Stream × List UInt8)
  status : ExitStatus
  capacity : Stream → ℕ

/-- The place of the parent in its loop. -/
inductive Parent
  | loading
  | waiting
  | readingStdout (status : ExitStatus)
  | readingStderr (status : ExitStatus) (out : List UInt8)
  | returned (result : Except SoftwareError Unit)

structure State where
  pipe : Stream → List UInt8
  writes : List (Stream × List UInt8)
  child : Option ExitStatus
  cancel : Bool
  parent : Parent

namespace Command

variable (command : Command)

def start : State where
  pipe _ := []
  writes := command.writes
  child := none
  cancel := false
  parent := .loading

/-- What the parent returns when it has read both pipes. -/
def result (status : ExitStatus) (err : List UInt8) : Except SoftwareError Unit :=
  if status.success then .ok ()
  else
    let stderr := Mirror.trim (lossy err)
    if stderr = [] then .error (.exitedWithStatus command.program (status.signal.getD 0))
    else .error (.failed command.program stderr)

/-- One step of the child: a byte goes into the pipe while there is room. -/
inductive ChildStep : State → State → Prop
  | write {s : State} {stream : Stream} {byte : UInt8} {bytes : List UInt8}
      {rest : List (Stream × List UInt8)} (hrun : s.child = none)
      (hwrites : s.writes = (stream, byte :: bytes) :: rest)
      (hroom : (s.pipe stream).length < command.capacity stream) :
      ChildStep s { s with
        pipe := Function.update s.pipe stream (s.pipe stream ++ [byte])
        writes := (stream, bytes) :: rest }
  | next {s : State} {stream : Stream} {rest : List (Stream × List UInt8)}
      (hrun : s.child = none) (hwrites : s.writes = (stream, []) :: rest) :
      ChildStep s { s with writes := rest }
  | exit {s : State} (hrun : s.child = none) (hwrites : s.writes = []) :
      ChildStep s { s with child := some command.status }

/-- The parent takes everything out of a pipe. -/
inductive ReadStep : State → State → Prop
  | stdout {s : State} {status : ExitStatus} (h : s.parent = .readingStdout status) :
      ReadStep s { s with
        pipe := Function.update s.pipe .stdout []
        parent := .readingStderr status (s.pipe .stdout) }
  | stderr {s : State} {status : ExitStatus} {out : List UInt8}
      (h : s.parent = .readingStderr status out) :
      ReadStep s { s with
        pipe := Function.update s.pipe .stderr []
        parent := .returned (command.result status (s.pipe .stderr)) }

/-- One step of the parent's loop: the flag, `kill` and `wait` when it is set, `try_wait`. -/
inductive ParentStep : State → State → Prop
  | load {s : State} (h : s.parent = .loading) (hcancel : s.cancel = false) :
      ParentStep s { s with parent := .waiting }
  | kill {s : State} (h : s.parent = .loading) (hcancel : s.cancel = true) :
      ParentStep s { s with
        child := some (s.child.getD (.signaled 9))
        parent := .returned (.error .cancelled) }
  | sleep {s : State} (h : s.parent = .waiting) (hrun : s.child = none) :
      ParentStep s { s with parent := .loading }
  | exited {s : State} {status : ExitStatus} (h : s.parent = .waiting)
      (hchild : s.child = some status) : ParentStep s { s with parent := .readingStdout status }
  | read {s t : State} (h : command.ReadStep s t) : ParentStep s t

/-- A step while nobody sets the flag. -/
def Step (s t : State) : Prop := command.ChildStep s t ∨ command.ParentStep s t

def AnyStep (s t : State) : Prop := command.Step s t ∨ t = { s with cancel := true }

def Reachable (s : State) : Prop := ReflTransGen command.AnyStep command.start s

end Command

/-- The child waits for room in a pipe. -/
def State.Blocked (command : Command) (s : State) : Prop :=
  s.child = none ∧ ∃ stream byte bytes rest, s.writes = (stream, byte :: bytes) :: rest ∧
    command.capacity stream ≤ (s.pipe stream).length

def State.Returned (s : State) : Prop := ∃ result, s.parent = .returned result

/-- What `run_captured` is to do. -/
structure Captures (command : Command) : Prop where
  /-- No state in which the child is blocked and the parent will never read. -/
  served : ∀ s, command.Reachable s → s.cancel = false →
    ¬ Progress.Starved command.Step (State.Blocked command) command.ReadStep s
  ends : ∀ s, command.Reachable s → s.cancel = false →
    ∃ t, ReflTransGen command.Step s t ∧ t.Returned
  result : ∀ s r, command.Reachable s → s.parent = .returned r → r ≠ .error .cancelled →
    s.child = some command.status ∧ (r = .ok () ↔ command.status.success = true)
  /-- A flag that is seen ends the run, with the child dead. -/
  cancels : ∀ s t, command.Reachable s → s.parent = .loading → s.cancel = true →
    command.ParentStep s t → t.parent = .returned (.error .cancelled) ∧ t.child ≠ none
  cancelled : ∀ s, command.Reachable s → s.parent = .returned (.error .cancelled) →
    s.cancel = true ∧ s.child ≠ none

/-- All that the child writes into a pipe. -/
def output (writes : List (Stream × List UInt8)) (stream : Stream) : List UInt8 :=
  (writes.filter fun write => write.1 = stream).flatMap (·.2)

/-- Each pipe has room for all that goes into it. -/
def Fits (command : Command) : Prop :=
  ∀ stream, (output command.writes stream).length ≤ command.capacity stream

def State.Polling (s : State) : Prop := s.parent = .loading ∨ s.parent = .waiting

/-- What a reachable state keeps to, with the parent at the given place: nothing is lost while it
polls, and it reads and returns only what a child that has exited has left. -/
def At (command : Command) (s : State) : Parent → Prop
  | .loading | .waiting =>
    (∀ stream, s.pipe stream ++ output s.writes stream = output command.writes stream) ∧
      ∀ status, s.child = some status → s.writes = [] ∧ status = command.status
  | .readingStdout status => status = command.status ∧ s.child = some status
  | .readingStderr status _ => status = command.status ∧ s.child = some status
  | .returned r => s.child ≠ none ∧ (r = .error .cancelled ∧ s.cancel = true ∨
      ∃ err, s.child = some command.status ∧ r = command.result command.status err)

structure Inv (command : Command) (s : State) : Prop where
  room : ∀ stream, (s.pipe stream).length ≤ command.capacity stream
  place : At command s s.parent

section Invariant

variable {command : Command} {s t : State}

@[simp] theorem output_nil (stream : Stream) : output [] stream = [] := rfl

theorem output_cons (stream : Stream) (bytes : List UInt8) (rest : List (Stream × List UInt8))
    (other : Stream) : output ((stream, bytes) :: rest) other =
      (if stream = other then bytes else []) ++ output rest other := by
  rw [output, List.filter_cons]
  by_cases h : stream = other
  · rw [if_pos (by simpa using h), List.flatMap_cons, if_pos h]
    rfl
  · rw [if_neg (by simpa using h), if_neg h]
    rfl

theorem result_ok_iff (status : ExitStatus) (err : List UInt8) :
    command.result status err = .ok () ↔ status.success = true := by
  unfold Command.result
  cases status.success with
  | true => simp
  | false =>
    rw [if_neg Bool.false_ne_true]
    dsimp only
    split <;> simp

theorem result_ne_cancelled (status : ExitStatus) (err : List UInt8) :
    command.result status err ≠ .error .cancelled := by
  unfold Command.result
  cases status.success with
  | true => simp
  | false =>
    rw [if_neg Bool.false_ne_true]
    dsimp only
    split <;> simp

theorem inv_start : Inv command command.start where
  room _ := Nat.zero_le _
  place := ⟨fun _ => rfl, fun _ h => by cases h⟩

theorem at_polling (hpolling : s.Polling) : At command t s.parent ↔
    (∀ stream, t.pipe stream ++ output t.writes stream = output command.writes stream) ∧
      ∀ status, t.child = some status → t.writes = [] ∧ status = command.status := by
  rcases hpolling with h | h
  · rw [h]
    rfl
  · rw [h]
    rfl

theorem Inv.polling (h : Inv command s) (hrun : s.child = none) : s.Polling := by
  have hplace := h.place
  cases hparent : s.parent with
  | loading => exact .inl hparent
  | waiting => exact .inr hparent
  | readingStdout status =>
    rw [hparent, At, hrun] at hplace
    cases hplace.2
  | readingStderr status out =>
    rw [hparent, At, hrun] at hplace
    cases hplace.2
  | returned r =>
    rw [hparent, At] at hplace
    exact absurd hrun hplace.1

theorem Inv.child (h : Inv command s) (hstep : command.ChildStep s t) : Inv command t := by
  have hrunning : s.child = none := by
    cases hstep with
    | write hrun _ _ => exact hrun
    | next hrun _ => exact hrun
    | exit hrun _ => exact hrun
  have hpolling := h.polling hrunning
  obtain ⟨hkept, -⟩ := (at_polling hpolling).mp h.place
  have hno (status : ExitStatus) : s.child ≠ some status := by
    rw [hrunning]
    simp
  cases hstep with
  | @write stream byte bytes rest hrun hwrites hroom =>
    refine ⟨fun other => ?_, (at_polling hpolling).mpr ⟨fun other => ?_, fun status hstatus =>
      absurd hstatus (hno status)⟩⟩
    · dsimp only
      by_cases hother : other = stream
      · rw [hother, Function.update_self, List.length_append, List.length_singleton]
        exact hroom
      · rw [Function.update_of_ne hother]
        exact h.room other
    · have hother := hkept other
      rw [hwrites, output_cons] at hother
      rw [← hother, output_cons]
      by_cases heq : stream = other
      · subst heq
        simp
      · simp [heq, Function.update_of_ne (Ne.symm heq)]
  | @next stream rest hrun hwrites =>
    refine ⟨h.room, (at_polling hpolling).mpr ⟨fun other => ?_, fun status hstatus =>
      absurd hstatus (hno status)⟩⟩
    have hother := hkept other
    rw [hwrites, output_cons] at hother
    simpa using hother
  | exit hrun hwrites =>
    exact ⟨h.room, (at_polling hpolling).mpr ⟨hkept, fun status hstatus =>
      ⟨hwrites, (Option.some.inj hstatus).symm⟩⟩⟩

theorem Inv.parent (h : Inv command s) (hstep : command.ParentStep s t) : Inv command t := by
  have hplace := h.place
  -- emptied pipes have room
  have hroom (stream other : Stream) :
      (Function.update s.pipe stream [] other).length ≤ command.capacity other := by
    by_cases hother : other = stream
    · rw [hother, Function.update_self]
      exact Nat.zero_le _
    · rw [Function.update_of_ne hother]
      exact h.room other
  cases hstep with
  | load hloading _ =>
    rw [hloading] at hplace
    exact ⟨h.room, hplace⟩
  | kill hloading hcancel => exact ⟨h.room, by simp, .inl ⟨rfl, hcancel⟩⟩
  | sleep hwaiting _ =>
    rw [hwaiting] at hplace
    exact ⟨h.room, hplace⟩
  | @exited status hwaiting hchild =>
    rw [hwaiting] at hplace
    exact ⟨h.room, (hplace.2 status hchild).2, hchild⟩
  | read hread =>
    cases hread with
    | stdout hreading =>
      rw [hreading] at hplace
      exact ⟨hroom .stdout, hplace⟩
    | @stderr status out hreading =>
      rw [hreading] at hplace
      obtain ⟨hstatus, hchild⟩ := hplace
      rw [hstatus] at hchild ⊢
      exact ⟨hroom .stderr, by simp [hchild], .inr ⟨_, hchild, rfl⟩⟩

theorem Inv.cancelSet (h : Inv command s) : Inv command { s with cancel := true } := by
  refine ⟨h.room, ?_⟩
  have hplace := h.place
  dsimp only
  cases hparent : s.parent with
  | returned r =>
    rw [hparent] at hplace
    exact ⟨hplace.1, hplace.2.imp_left fun hcancelled => ⟨hcancelled.1, rfl⟩⟩
  | _ =>
    rw [hparent] at hplace
    exact hplace

theorem Inv.step (h : Inv command s) (hstep : command.Step s t) : Inv command t :=
  hstep.elim h.child h.parent

theorem cancel_step (hstep : command.Step s t) : t.cancel = s.cancel := by
  rcases hstep with hstep | hstep
  · cases hstep <;> rfl
  · cases hstep with
    | read hread => cases hread <;> rfl
    | _ => rfl

theorem Command.Reachable.inv (h : command.Reachable s) : Inv command s := by
  apply Progress.invariant inv_start _ h
  rintro s t hs (hstep | rfl)
  · exact hs.step hstep
  · exact hs.cancelSet

end Invariant

section Progress

variable {command : Command} {s t : State}

theorem not_blocked (hfits : Fits command) (h : Inv command s) : ¬ s.Blocked command := by
  rintro ⟨hrun, stream, byte, bytes, rest, hwrites, hfull⟩
  have hkept := ((at_polling (h.polling hrun)).mp h.place).1 stream
  have hlength := congrArg List.length hkept
  have hbound := hfits stream
  rw [hwrites, output_cons, if_pos rfl] at hlength
  simp only [List.length_append, List.length_cons] at hlength
  omega

theorem child_goes_on (hrun : s.child = none) (hfree : ¬ s.Blocked command) :
    ∃ t, command.ChildStep s t := by
  cases hwrites : s.writes with
  | nil => exact ⟨_, .exit hrun hwrites⟩
  | cons write rest =>
    obtain ⟨stream, bytes⟩ := write
    cases bytes with
    | nil => exact ⟨_, .next hrun hwrites⟩
    | cons byte bytes =>
      have hroom : (s.pipe stream).length < command.capacity stream := by
        by_contra hfull
        exact hfree ⟨hrun, stream, byte, bytes, rest, hwrites, not_lt.mp hfull⟩
      exact ⟨_, .write hrun hwrites hroom⟩

/-- How much the child still has to do. -/
def work (s : State) : ℕ :=
  match s.child with
  | none => 1 + (s.writes.map fun write => write.2.length + 1).sum
  | some _ => 0

/-- How far the parent is from the end of its loop. -/
def distance : Parent → ℕ
  | .loading => 4
  | .waiting => 3
  | .readingStdout _ => 2
  | .readingStderr _ _ => 1
  | .returned _ => 0

theorem work_child (h : command.ChildStep s t) : work t < work s ∧ t.parent = s.parent := by
  cases h with
  | write hrun hwrites _ =>
    refine ⟨?_, rfl⟩
    simp only [work, hrun, hwrites, List.map_cons, List.sum_cons, List.length_cons]
    omega
  | next hrun hwrites =>
    refine ⟨?_, rfl⟩
    simp only [work, hrun, hwrites, List.map_cons, List.sum_cons, List.length_nil]
    omega
  | exit hrun hwrites =>
    refine ⟨?_, rfl⟩
    simp [work, hrun, hwrites]

theorem parent_goes_on (hcancel : s.cancel = false) {status : ExitStatus}
    (hchild : s.child = some status) (hnot : ¬ s.Returned) : ∃ t, command.ParentStep s t ∧
      t.child = s.child ∧ distance t.parent < distance s.parent := by
  cases hparent : s.parent with
  | loading => exact ⟨_, .load hparent hcancel, rfl, Nat.lt_succ_self 3⟩
  | waiting => exact ⟨_, .exited hparent hchild, rfl, Nat.lt_succ_self 2⟩
  | readingStdout status => exact ⟨_, .read (.stdout hparent), rfl, Nat.lt_succ_self 1⟩
  | readingStderr status out => exact ⟨_, .read (.stderr hparent), rfl, Nat.lt_succ_self 0⟩
  | returned r => exact absurd ⟨r, hparent⟩ hnot

theorem ends_of_fits (hfits : Fits command) (hs : Inv command s) (hcancel : s.cancel = false) :
    ∃ t, ReflTransGen command.Step s t ∧ t.Returned := by
  have hstep (s : State) (h : Inv command s ∧ s.cancel = false) (hnot : ¬ s.Returned) :
      ∃ t, command.Step s t ∧ (Inv command t ∧ t.cancel = false) ∧
        distance t.parent + work t < distance s.parent + work s := by
    cases hchild : s.child with
    | none =>
      obtain ⟨t, ht⟩ := child_goes_on hchild (not_blocked hfits h.1)
      obtain ⟨hwork, hparent⟩ := work_child ht
      refine ⟨t, .inl ht, ⟨h.1.child ht, (cancel_step (.inl ht)).trans h.2⟩, ?_⟩
      rw [hparent]
      omega
    | some status =>
      obtain ⟨t, ht, hsame, hless⟩ := parent_goes_on h.2 hchild hnot
      have hzero : work t = work s := by simp only [work, hsame, hchild]
      refine ⟨t, .inr ht, ⟨h.1.parent ht, (cancel_step (.inr ht)).trans h.2⟩, ?_⟩
      omega
  obtain ⟨t, hst, -, ht⟩ := Progress.reaches _ hstep ⟨hs, hcancel⟩
  exact ⟨t, hst, ht⟩

theorem Inv.of_returned (h : Inv command s) {r : Except SoftwareError Unit}
    (hr : s.parent = .returned r) : s.child ≠ none ∧ (r = .error .cancelled ∧ s.cancel = true ∨
      ∃ err, s.child = some command.status ∧ r = command.result command.status err) := by
  have hplace := h.place
  rwa [hr] at hplace

theorem captures_of_fits (hfits : Fits command) : Captures command where
  served s hs _ hstarved := not_blocked hfits hs.inv hstarved.1
  ends s hs hcancel := ends_of_fits hfits hs.inv hcancel
  result s r hs hr hne := by
    obtain ⟨-, ⟨hcancelled, -⟩ | ⟨err, hchild, rfl⟩⟩ := hs.inv.of_returned hr
    · exact absurd hcancelled hne
    · exact ⟨hchild, result_ok_iff ..⟩
  cancels s t _ hloading hcancel hstep := by
    cases hstep with
    | load _ hnot =>
      rw [hcancel] at hnot
      cases hnot
    | kill _ _ => exact ⟨rfl, by simp⟩
    | sleep hwaiting _ =>
      rw [hloading] at hwaiting
      cases hwaiting
    | exited hwaiting _ =>
      rw [hloading] at hwaiting
      cases hwaiting
    | read hread =>
      cases hread with
      | stdout hreading =>
        rw [hloading] at hreading
        cases hreading
      | stderr hreading =>
        rw [hloading] at hreading
        cases hreading
  cancelled s hs hr := by
    obtain ⟨hchild, ⟨-, hcancel⟩ | ⟨err, -, heq⟩⟩ := hs.inv.of_returned hr
    · exact ⟨hcancel, hchild⟩
    · exact absurd heq.symm (result_ne_cancelled _ _)

theorem blocked_step (hs : Inv command s) (hcancel : s.cancel = false) (h : s.Blocked command)
    (hstep : command.Step s t) : t.Blocked command ∧ ¬ command.ReadStep s t := by
  have hpolling := hs.polling h.1
  have hnoread : ¬ command.ReadStep s t := by
    intro hread
    rcases hpolling with hparent | hparent <;> cases hread with
    | stdout hreading =>
      rw [hparent] at hreading
      cases hreading
    | stderr hreading =>
      rw [hparent] at hreading
      cases hreading
  refine ⟨?_, hnoread⟩
  obtain ⟨hrun, stream, byte, bytes, rest, hwrites, hfull⟩ := h
  rcases hstep with hchild | hparent
  · cases hchild with
    | write _ hwrites' hroom =>
      rw [hwrites] at hwrites'
      cases hwrites'
      omega
    | next _ hwrites' =>
      rw [hwrites] at hwrites'
      cases hwrites'
    | exit _ hwrites' =>
      rw [hwrites] at hwrites'
      cases hwrites'
  · cases hparent with
    | load _ _ => exact ⟨hrun, stream, byte, bytes, rest, hwrites, hfull⟩
    | kill _ hset =>
      rw [hcancel] at hset
      cases hset
    | sleep _ _ => exact ⟨hrun, stream, byte, bytes, rest, hwrites, hfull⟩
    | exited _ hchild =>
      rw [hrun] at hchild
      cases hchild
    | read hread => exact absurd hread hnoread

theorem starved_of_blocked (hs : Inv command s) (hcancel : s.cancel = false)
    (h : s.Blocked command) :
    Progress.Starved command.Step (State.Blocked command) command.ReadStep s := by
  apply Progress.starved_of_invariant
    (fun t => (Inv command t ∧ t.cancel = false) ∧ t.Blocked command) h ⟨⟨hs, hcancel⟩, h⟩
  rintro t u ⟨⟨ht, hnot⟩, hblocked⟩ hstep
  obtain ⟨hstill, hnoread⟩ := blocked_step ht hnot hblocked hstep
  exact ⟨⟨⟨ht.step hstep, (cancel_step hstep).trans hnot⟩, hstill⟩, hnoread⟩

theorem exists_blocked_or_exited (command : Command) : ∃ s, command.Reachable s ∧
    s.cancel = false ∧ s.Polling ∧ (s.Blocked command ∨ s.child ≠ none) := by
  have hstep (s : State) (h : s.cancel = false ∧ s.Polling)
      (hnot : ¬ (s.Blocked command ∨ s.child ≠ none)) : ∃ t, command.ChildStep s t ∧
        (t.cancel = false ∧ t.Polling) ∧ work t < work s := by
    obtain ⟨hfree, hrun⟩ := not_or.mp hnot
    obtain ⟨t, ht⟩ := child_goes_on (not_not.mp hrun) hfree
    obtain ⟨hwork, hparent⟩ := work_child ht
    refine ⟨t, ht, ⟨(cancel_step (.inl ht)).trans h.1, ?_⟩, hwork⟩
    rw [State.Polling, hparent]
    exact h.2
  obtain ⟨s, hs, ⟨hcancel, hpolling⟩, hend⟩ :=
    Progress.reaches work hstep (s := command.start) ⟨rfl, .inl rfl⟩
  have hreach : command.Reachable s :=
    ReflTransGen.mono (fun _ _ h => Or.inl (Or.inl h)) _ _ hs
  exact ⟨s, hreach, hcancel, hpolling, hend⟩

theorem fits_of_captures (h : Captures command) : Fits command := by
  obtain ⟨s, hs, hcancel, hpolling, hblocked | hexited⟩ := exists_blocked_or_exited command
  · exact absurd (starved_of_blocked hs.inv hcancel hblocked) (h.served s hs hcancel)
  · intro stream
    obtain ⟨status, hchild⟩ := Option.ne_none_iff_exists'.mp hexited
    obtain ⟨hkept, hwritten⟩ := (at_polling hpolling).mp hs.inv.place
    rw [← hkept stream, (hwritten status hchild).1, output_nil, List.append_nil]
    exact hs.inv.room stream

/-- The run never hangs, and ends as it should, exactly for a child whose output fits into the
pipes. -/
theorem captures_iff (command : Command) : Captures command ↔ Fits command :=
  ⟨fits_of_captures, captures_of_fits⟩

/-- An update that prints a byte more than the pipe of 64 KiB holds. -/
def longUpdate : Command where
  program := "apt-get".toList
  writes := [(.stdout, List.replicate 65537 10)]
  status := .exited 0
  capacity _ := 65536

theorem not_captures_longUpdate : ¬ Captures longUpdate := by
  intro h
  have hfits : (List.replicate 65537 (10 : UInt8) ++ []).length ≤ 65536 :=
    fits_of_captures h .stdout
  rw [List.append_nil, List.length_replicate] at hfits
  omega

end Progress

end LandscapeKit.Software
