import LandscapeKit.LibLossy
import LandscapeKit.LibReplace
import LandscapeKit.MirrorDnfLines
import LandscapeKit.ReleaseDownload
import Mathlib.Data.UInt

/-!
Daemons and the pidfile. A daemon reads the file, asks whether the number it found is alive, and
writes its own over it through a temporary file whose name all of them share; on its way out it
removes the file. Processes of all kinds come and go in between.
-/

namespace LandscapeKit.Daemon.Pidfile

open Text Utf8 Replace

/-- A process has a positive `pid_t`. -/
abbrev Pid := { n : ℕ // 0 < n ∧ n < 2 ^ 31 }

section Numbers

def parseU32 (text : Text) : Option ℕ := (Download.parseU64 text).filter (· < 2 ^ 32)

def readToString (content : Bytes) : Option Text :=
  if IsUtf8 content then some (lossy content) else none

/-- What a daemon writes. -/
def lineText (p : Pid) : Text := Nat.toDigits 10 p.val ++ ['\n']

def line (p : Pid) : Bytes := bytes (lineText p)

theorem parseU32_digits (p : Pid) : parseU32 (Nat.toDigits 10 p.val) = some p.val := by
  obtain ⟨n, hpos, hn⟩ := p
  have hdigit : ∀ c ∈ Nat.toDigits 10 n, c.isDigit = true :=
    fun c hc => Nat.isDigit_of_mem_toDigits (by decide) (by decide) hc
  have hplus : stripLead ['+'] (Nat.toDigits 10 n) = none := by
    cases hdigits : Nat.toDigits 10 n with
    | nil => rfl
    | cons c digits =>
      have hc := hdigit c (by rw [hdigits]; exact List.mem_cons_self ..)
      rw [stripLead, if_neg]
      intro h
      rw [(List.cons_prefix_cons.mp h).1.symm] at hc
      exact absurd hc (by decide)
  have hdecimal : Network.decimal (Nat.toDigits 10 n) = some n := by
    rw [Network.decimal, if_pos ⟨Nat.toDigits_ne_nil, List.all_eq_true.mpr hdigit⟩,
      Nat.ofDigitChars_ten_toDigits]
  rw [parseU32, Download.parseU64, hplus, Option.getD_none, hdecimal, Option.filter_some,
    if_pos (decide_eq_true (by omega)), Option.filter_some, if_pos (decide_eq_true (by omega))]

theorem read_line (p : Pid) :
    (readToString (line p)).bind (fun text => parseU32 (Mirror.trim text)) = some p.val := by
  have hdigit : ∀ c ∈ Nat.toDigits 10 p.val, c.isDigit = true :=
    fun c hc => Nat.isDigit_of_mem_toDigits (by decide) (by decide) hc
  have hblank : ∀ c, c.isDigit = true → Hostnet.isWhitespace c = false := by
    intro c hc
    have hrange : 48 ≤ c.toNat ∧ c.toNat ≤ 57 := by
      simp only [Char.isDigit, Bool.and_eq_true, decide_eq_true_eq, UInt32.le_iff_toNat_le] at hc
      exact hc
    simp only [Hostnet.isWhitespace, Bool.or_eq_false_iff, Bool.and_eq_false_iff,
      decide_eq_false_iff_not]
    omega
  have hkept : Mirror.trim (Nat.toDigits 10 p.val) = Nat.toDigits 10 p.val := by
    have hdrop : ∀ text : Text, (∀ c ∈ text, c.isDigit = true) →
        text.dropWhile Hostnet.isWhitespace = text := by
      intro text htext
      cases text with
      | nil => rfl
      | cons c text => rw [List.dropWhile_cons_of_neg (by
          rw [hblank c (htext c (List.mem_cons_self ..))]
          exact Bool.false_ne_true)]
    rw [Mirror.trim, Mirror.trimStart, hdrop _ hdigit, hdrop, List.reverse_reverse]
    exact fun c hc => hdigit c (List.mem_reverse.mp hc)
  have hnewline : Hostnet.isWhitespace '\n' = true := by decide
  rw [readToString, line, if_pos (isUtf8_bytes _), lossy_bytes, Option.bind_some, lineText,
    Mirror.Dnf.trim_concat hnewline, hkept, parseU32_digits]

end Numbers

section Processes

/-- How far a daemon is. `checking` has read the pidfile and not yet asked about the number. -/
inductive Phase where
  | starting
  | checking (recorded : Option ℕ)
  | cleared
  | writing (inode offset : ℕ)
  | serving
  | refused (pid : ℕ)
  | failed
  | stopped
deriving DecidableEq

/-- A process with its group; other programs have no phase. -/
structure Proc where
  group : ℕ
  daemon : Option Phase

structure State where
  disk : Replace.Disk UInt8
  procs : Pid → Option Proc

namespace State

variable (s : State)

def phase (p : Pid) : Option Phase := (s.procs p).bind Proc.daemon

def enter (p : Pid) (phase : Phase) (disk : Replace.Disk UInt8) : State where
  disk := disk
  procs := Function.update s.procs p
    ((s.procs p).map fun proc => { proc with daemon := some phase })

def setProc (p : Pid) (proc : Option Proc) : State :=
  { s with procs := Function.update s.procs p proc }

/-- The number that the pidfile has, if it is one. -/
def recorded : Option ℕ :=
  (s.disk.read.bind readToString).bind fun text => parseU32 (Mirror.trim text)

/-- `process_alive`: what `kill` takes the number for once it is a `pid_t`. The caller's own group
for 0, one process up to `2 ^ 31 - 1`, none for `2 ^ 31`, and from there on the groups, but for the
last number: that one is for all processes besides the first one and the caller. -/
def Alive (caller : Pid) (pid : ℕ) : Prop :=
  if pid = 0 then True
  else if pid < 2 ^ 31 then ∃ p : Pid, p.val = pid ∧ (s.procs p).isSome
  else if pid = 2 ^ 31 then False
  else if pid = 2 ^ 32 - 1 then ∃ p : Pid, p ≠ caller ∧ 1 < p.val ∧ (s.procs p).isSome
  else ∃ p proc, s.procs p = some proc ∧ proc.group = 2 ^ 32 - pid

def DaemonIsRunning (caller : Pid) : Prop := ∃ pid, s.recorded = some pid ∧ s.Alive caller pid

end State

/-- What can happen. `fail` is an I/O error, and `vanish` the end of a process of any kind. -/
inductive Event where
  | spawn (p : Pid) (group : ℕ) (isDaemon : Bool)
  | vanish (p : Pid)
  | read (p : Pid)
  | check (p : Pid)
  | openTmp (p : Pid)
  | write (p : Pid) (n : ℕ)
  | rename (p : Pid)
  | fail (p : Pid)
  | terminate (p : Pid)

inductive Step (s : State) : Event → State → Prop
  | spawn {p : Pid} (group : ℕ) (isDaemon : Bool) (free : s.procs p = none) :
      Step s (.spawn p group isDaemon)
        (s.setProc p (some ⟨group, if isDaemon then some .starting else none⟩))
  | vanish {p : Pid} : Step s (.vanish p) (s.setProc p none)
  | read {p : Pid} (now : s.phase p = some .starting) :
      Step s (.read p) (s.enter p (.checking s.recorded) s.disk)
  | refuse {p : Pid} {pid : ℕ} (now : s.phase p = some (.checking (some pid)))
      (alive : s.Alive p pid) : Step s (.check p) (s.enter p (.refused pid) s.disk)
  | clear {p : Pid} {recorded : Option ℕ} (now : s.phase p = some (.checking recorded))
      (dead : ∀ pid ∈ recorded, ¬ s.Alive p pid) : Step s (.check p) (s.enter p .cleared s.disk)
  | openTmp {p : Pid} (now : s.phase p = some .cleared) :
      Step s (.openTmp p) (s.enter p (.writing s.disk.tmpInode 0) s.disk.openTmp)
  | write {p : Pid} {inode offset : ℕ} (n : ℕ) (now : s.phase p = some (.writing inode offset)) :
      Step s (.write p n)
        (s.enter p (.writing inode (offset + (((line p).drop offset).take n).length))
          (s.disk.write inode offset (((line p).drop offset).take n)))
  | rename {p : Pid} {inode i : ℕ} (now : s.phase p = some (.writing inode (line p).length))
      (tmp : s.disk.tmp = some i) : Step s (.rename p) (s.enter p .serving s.disk.rename)
  | fail {p : Pid} (now : s.phase p = some .starting ∨ s.phase p = some .cleared ∨
        ∃ inode offset, s.phase p = some (.writing inode offset)) :
      Step s (.fail p) (s.enter p .failed s.disk)
  | terminate {p : Pid} (now : s.phase p = some .serving) :
      Step s (.terminate p) (s.enter p .stopped { s.disk with file := none })

/-- No daemon has begun; the pidfile, the temporary file and the other processes are as they may
be. -/
structure Start (s : State) : Prop where
  idle : ∀ p phase, s.phase p = some phase → phase = .starting
  sound : s.disk.Sound

/-- The states of the runs whose steps are all allowed. -/
inductive Reached (allowed : State → Event → Prop) (s₀ : State) : State → Prop
  | start : Reached allowed s₀ s₀
  | step {s s' : State} {e : Event} (before : Reached allowed s₀ s) (ok : allowed s e)
      (done : Step s e s') : Reached allowed s₀ s'

end Processes

section Phases

variable {s : State} {p q : Pid} {phase : Phase} {disk : Replace.Disk UInt8}

theorem State.enter_phase_self {before : Phase} (h : s.phase p = some before) :
    (s.enter p phase disk).phase p = some phase := by
  obtain ⟨proc, hproc, -⟩ := Option.bind_eq_some_iff.mp h
  simp only [State.phase, State.enter, Function.update_self, hproc]
  rfl

theorem State.enter_phase_of_ne (h : q ≠ p) : (s.enter p phase disk).phase q = s.phase q := by
  simp only [State.phase, State.enter, Function.update_of_ne h]

theorem State.setProc_phase_of_ne {proc : Option Proc} (h : q ≠ p) :
    (s.setProc p proc).phase q = s.phase q := by
  simp only [State.phase, State.setProc, Function.update_of_ne h]

theorem State.alive_of_phase (h : s.phase q = some phase) (caller : Pid) :
    s.Alive caller q.val := by
  obtain ⟨proc, hproc, -⟩ := Option.bind_eq_some_iff.mp h
  obtain ⟨hpos, hlt⟩ := q.property
  rw [State.Alive, if_neg (by omega), if_pos hlt]
  exact ⟨q, rfl, by rw [hproc]; rfl⟩

theorem State.recorded_of_read (h : s.disk.read = some (line p)) : s.recorded = some p.val := by
  rw [State.recorded, h, Option.bind_some, read_line]

end Phases

end LandscapeKit.Daemon.Pidfile
