import Mathlib.Data.List.Basic
import Mathlib.Order.Lattice
import Mathlib.Data.Int.Order.Basic

/-!
One delegated command between three parties: the front end that runs `delegate`,
the daemon, and the worker process. They share the files of one operation; every
event below is one file operation or one system call of one party, and the
daemon may crash and be restarted at any point.
-/

namespace LandscapeKit.Delegation

/-- The files of an operation, as `cleanup_files` removes them. -/
inductive FileKind where
  | request
  | result
  | stdout
  | stderr
  | presentation
  | cancel
  | credential
  | networkPlan
deriving DecidableEq

/-- What `delegate` returns: the exit code of the worker, a takeover to be confirmed by another
delegation, 130, or an error. -/
inductive Outcome where
  | exit (code : ℤ)
  | takeover
  | cancelled
  | failed
deriving DecidableEq

/-- The caller is told that the command was cancelled or not carried out. -/
def Outcome.told : Outcome → Bool
  | .cancelled | .failed => true
  | .exit _ | .takeover => false

inductive Front where
  | start
  /-- the request is written, the presentation file is not -/
  | present
  /-- before the first look at Ctrl+C -/
  | check
  | waiting (deadPolls : ℕ)
  /-- about to write the cancel file -/
  | cancelling
  | cleaning (rest : List FileKind) (outcome : Outcome)
  | returned (outcome : Outcome)
deriving DecidableEq

inductive DaemonPc where
  | down
  | idle
  /-- the scan has listed the request -/
  | found
  /-- the request is read and parsed, but not claimed -/
  | parsed
  | claimed
  | polling (cancelled : Bool) (gracePolls : ℕ)
  /-- the child has been waited for -/
  | reaped (code : ℤ)
  /-- the result is written -/
  | answered
deriving DecidableEq

inductive Signal where
  | none
  | term
  | kill
deriving DecidableEq

inductive Worker where
  | notStarted
  | running (signal : Signal)
  | ended (code : ℤ)
deriving DecidableEq

/-- `claimed` and `withdrawn` record which of the two parties removed the request file. -/
structure State where
  request : Bool
  cancel : Bool
  result : Option ℤ
  front : Front
  daemon : DaemonPc
  worker : Worker
  executions : ℕ
  claimed : Bool
  withdrawn : Bool
deriving DecidableEq

def State.init : State where
  request := false
  cancel := false
  result := none
  front := .start
  daemon := .idle
  worker := .notStarted
  executions := 0
  claimed := false
  withdrawn := false

/-- What the front end makes of a result file it has seen. -/
inductive Reading where
  | completed
  | takeover
  /-- the file or one of the logs cannot be read -/
  | unreadable
deriving DecidableEq

/-- The calls of `delegate` and `wait_for_result`; `ok` says whether the call succeeds. -/
inductive FrontEvent where
  /-- the daemon is not running, or a file before the request cannot be written -/
  | refuse
  | submit
  | present (ok : Bool)
  | check (interrupted : Bool)
  /-- Ctrl+C or the stop action, while the operation can be cancelled -/
  | stop (waits ok : Bool)
  | waitError
  | pollDaemon
  | seeResult (reading : Reading)
  | writeCancel (ok : Bool)
  | removeNext (ok : Bool)
  | finish (shown : Bool)
deriving DecidableEq

inductive DaemonEvent where
  | scan
  | read (ok : Bool)
  | claim (ok : Bool)
  | spawn (ok : Bool)
  | poll
  | writeResult (ok : Bool)
  | removeCancel (ok : Bool)
  | crash
  | restart
deriving DecidableEq

inductive Event where
  | front (e : FrontEvent)
  | daemon (e : DaemonEvent)
  | workerExits (code : ℤ)
deriving DecidableEq

/-- The files removed when the presentation file cannot be created. -/
def unsubmittedFiles : List FileKind := [.request, .credential, .networkPlan]

/-- The files removed at every other end. -/
def operationFiles : List FileKind :=
  [.request, .result, .stdout, .stderr, .presentation, .cancel, .credential, .networkPlan]

def deadPollLimit : ℕ := 10

def cancelGracePolls : ℕ := 25

/-- `clamp(0, 255)`. -/
def clampCode (code : ℤ) : ℤ := max 0 (min 255 code)

def State.removeFile (s : State) : FileKind → State
  | .request => { s with request := false, withdrawn := s.withdrawn || s.request }
  | .cancel => { s with cancel := false }
  | .result => { s with result := none }
  | _ => s

/-- `kill(-pgid, SIGTERM)` on the first sight of the cancel file. -/
def Worker.terminate : Worker → Worker
  | .running .none => .running .term
  | w => w

def Worker.kill : Worker → Worker
  | .running _ => .running .kill
  | w => w

def frontStep (s : State) : FrontEvent → State
  | .refuse => if s.front = .start then { s with front := .returned .failed } else s
  | .submit => if s.front = .start then { s with request := true, front := .present } else s
  | .present ok =>
    if s.front = .present then
      { s with front := if ok then .check else .cleaning unsubmittedFiles .failed }
    else s
  | .check interrupted =>
    if s.front = .check then { s with front := if interrupted then .cancelling else .waiting 0 }
    else s
  | .stop waits ok =>
    match s.front with
    | .waiting n =>
      -- an operation whose worker rolls back by itself is waited for
      { s with cancel := s.cancel || ok, front := if waits then .waiting n else .cancelling }
    | _ => s
  | .waitError =>
    match s.front with
    | .waiting _ => { s with front := .cleaning operationFiles .failed }
    | _ => s
  | .pollDaemon =>
    match s.front with
    | .waiting n =>
      if s.daemon = .down then
        { s with front := if deadPollLimit ≤ n + 1 then .cleaning operationFiles .failed
            else .waiting (n + 1) }
      else { s with front := .waiting 0 }
    | _ => s
  | .seeResult reading =>
    match s.front, s.result with
    | .waiting _, some code =>
      { s with front := .cleaning operationFiles (match reading with
          | .completed => .exit (clampCode code)
          | .takeover => .takeover
          | .unreadable => .failed) }
    | _, _ => s
  | .writeCancel ok =>
    if s.front = .cancelling then
      { s with cancel := s.cancel || ok, front := .cleaning operationFiles .cancelled }
    else s
  | .removeNext ok =>
    match s.front with
    | .cleaning (file :: rest) outcome =>
      { (if ok then s.removeFile file else s) with front := .cleaning rest outcome }
    | _ => s
  | .finish shown =>
    match s.front with
    | .cleaning [] outcome =>
      { s with front := .returned (if outcome = .cancelled ∧ shown = false then .failed else outcome) }
    | _ => s

def daemonStep (s : State) : DaemonEvent → State
  | .scan => if s.daemon = .idle ∧ s.request then { s with daemon := .found } else s
  | .read ok =>
    if s.daemon = .found then { s with daemon := if s.request && ok then .parsed else .idle } else s
  | .claim ok =>
    if s.daemon = .parsed then
      if s.request && ok then { s with request := false, claimed := true, daemon := .claimed }
      else { s with daemon := .idle }
    else s
  | .spawn ok =>
    -- a failure of a companion file, a log or the call itself leaves no result
    if s.daemon = .claimed then
      if ok then
        { s with worker := .running .none, executions := s.executions + 1,
                 daemon := .polling false 0 }
      else { s with daemon := .idle }
    else s
  | .poll =>
    match s.daemon with
    | .polling cancelled grace =>
      let worker := if !cancelled && s.cancel then s.worker.terminate else s.worker
      let cancelled := cancelled || s.cancel
      match worker with
      | .ended code => { s with worker := worker, daemon := .reaped code }
      | _ =>
        if cancelled then
          { s with worker := if cancelGracePolls ≤ grace + 1 then worker.kill else worker
                   daemon := .polling true (grace + 1) }
        else { s with worker := worker, daemon := .polling false grace }
    | _ => s
  | .writeResult ok =>
    match s.daemon with
    | .reaped code =>
      if ok then { s with result := some code, daemon := .answered } else { s with daemon := .idle }
    | _ => s
  | .removeCancel ok =>
    if s.daemon = .answered then { s with cancel := s.cancel && !ok, daemon := .idle } else s
  | .crash => { s with daemon := .down }
  | .restart => if s.daemon = .down then { s with daemon := .idle } else s

def State.step (s : State) : Event → State
  | .front e => frontStep s e
  | .daemon e => daemonStep s e
  | .workerExits code =>
    match s.worker with
    | .running _ => { s with worker := .ended code }
    | _ => s

def State.run (s : State) (events : List Event) : State := events.foldl State.step s

/-! What holds in every state. -/

/-- The daemon has not taken the request. -/
def DaemonPc.BeforeClaim : DaemonPc → Prop
  | .down | .idle | .found | .parsed => True
  | _ => False

structure Inv (s : State) : Prop where
  once : s.executions = if s.worker = .notStarted then 0 else 1
  unclaimed : s.claimed = false → s.worker = .notStarted ∧ s.daemon.BeforeClaim
  taken : s.claimed = true → s.request = false
  held : s.daemon = .claimed → s.worker = .notStarted
  polled : ∀ cancelled grace, s.daemon = .polling cancelled grace → s.worker ≠ .notStarted
  reaped : ∀ code, s.daemon = .reaped code → s.worker = .ended code
  result : ∀ code, s.result = some code → s.worker = .ended code
  withdrawn : s.withdrawn = true → s.request = false ∧ s.claimed = false
  fresh : s.front = .start → s.request = false ∧ s.claimed = false ∧ s.withdrawn = false
  exit : ∀ code rest, s.front = .cleaning rest (.exit code) ∨ s.front = .returned (.exit code) →
    ∃ c, s.worker = .ended c ∧ code = clampCode c

theorem Inv.init : Inv State.init := by
  constructor <;> simp [State.init, DaemonPc.BeforeClaim]

section Front

variable {s : State} (h : Inv s)

include h

theorem Inv.setFront {front : Front} (hstart : front ≠ .start)
    (hexit : ∀ code rest, front = .cleaning rest (.exit code) ∨ front = .returned (.exit code) →
      ∃ c, s.worker = .ended c ∧ code = clampCode c) : Inv { s with front := front } :=
  { h with
    fresh := fun hf => absurd hf hstart
    exit := hexit }

theorem Inv.setCancel (cancel : Bool) : Inv { s with cancel := cancel } := { h with }

theorem Inv.removeFile (hstart : s.front ≠ .start) (file : FileKind) : Inv (s.removeFile file) := by
  cases file with
  | request =>
    refine { h with taken := fun _ => rfl, withdrawn := ?_, fresh := fun hf => absurd hf hstart }
    intro hw
    refine ⟨rfl, ?_⟩
    -- a request that is still there has not been claimed
    rcases Bool.or_eq_true_iff.mp hw with hw | hr
    · exact (h.withdrawn hw).2
    · change s.claimed = false
      by_contra hc
      have hgone := h.taken (by simpa using hc)
      rw [hr] at hgone
      cases hgone
  | result => exact { h with result := fun _ hr => by cases hr }
  | cancel => exact h.setCancel false
  | stdout | stderr | presentation | credential | networkPlan => exact h

theorem Inv.frontStep (e : FrontEvent) : Inv (frontStep s e) := by
  cases e with
  | refuse =>
    simp only [Delegation.frontStep]
    split
    · exact h.setFront (by simp) (by simp)
    · exact h
  | submit =>
    simp only [Delegation.frontStep]
    split
    · next hf =>
      obtain ⟨-, hc, hw⟩ := h.fresh hf
      refine { h with taken := ?_, withdrawn := ?_, fresh := by simp, exit := by simp }
      · intro hclaimed
        rw [hc] at hclaimed
        cases hclaimed
      · intro hwithdrawn
        rw [hw] at hwithdrawn
        cases hwithdrawn
    · exact h
  | present ok =>
    simp only [Delegation.frontStep]
    split
    · cases ok <;> exact h.setFront (by simp) (by simp)
    · exact h
  | check interrupted =>
    simp only [Delegation.frontStep]
    split
    · cases interrupted <;> exact h.setFront (by simp) (by simp)
    · exact h
  | stop waits ok =>
    simp only [Delegation.frontStep]
    split
    · cases waits <;> apply (h.setCancel (s.cancel || ok)).setFront <;> simp
    · exact h
  | waitError =>
    simp only [Delegation.frontStep]
    split
    · exact h.setFront (by simp) (by simp)
    · exact h
  | pollDaemon =>
    simp only [Delegation.frontStep]
    split
    · split
      · split <;> exact h.setFront (by simp) (by simp)
      · exact h.setFront (by simp) (by simp)
    · exact h
  | seeResult reading =>
    simp only [Delegation.frontStep]
    split
    · next hf hr =>
      cases reading with
      | completed =>
        apply h.setFront (by simp)
        rintro code rest (he | he)
        · obtain ⟨-, rfl⟩ : _ ∧ clampCode _ = code := by simpa using he
          exact ⟨_, h.result _ hr, rfl⟩
        · cases he
      | takeover => exact h.setFront (by simp) (by simp)
      | unreadable => exact h.setFront (by simp) (by simp)
    · exact h
  | writeCancel ok =>
    simp only [Delegation.frontStep]
    split
    · apply (h.setCancel (s.cancel || ok)).setFront <;> simp
    · exact h
  | removeNext ok =>
    simp only [Delegation.frontStep]
    split
    · next file rest outcome hf =>
      have hmid : Inv (if ok then s.removeFile file else s) := by
        split
        · exact h.removeFile (by simp [hf]) file
        · exact h
      apply hmid.setFront (by simp)
      rintro code rest' (he | he)
      · obtain ⟨-, rfl⟩ : rest = rest' ∧ outcome = .exit code := by simpa using he
        obtain ⟨c, hw, hc⟩ := h.exit code (file :: rest) (.inl hf)
        refine ⟨c, ?_, hc⟩
        cases ok
        · exact hw
        · cases file <;> exact hw
      · cases he
    · exact h
  | finish shown =>
    simp only [Delegation.frontStep]
    split
    · next outcome hf =>
      apply h.setFront (by simp)
      rintro code rest (he | he)
      · cases he
      · split at he
        · cases he
        · obtain rfl : outcome = .exit code := by simpa using he
          exact h.exit code [] (.inl hf)
    · exact h

end Front

section Daemon

variable {s : State} (h : Inv s)

include h

theorem Inv.setDaemon {d : DaemonPc} (hd : d.BeforeClaim) : Inv { s with daemon := d } := by
  refine { h with unclaimed := ?_, held := ?_, polled := ?_, reaped := ?_ }
  · exact fun hc => ⟨(h.unclaimed hc).1, hd⟩
  · rintro rfl
    exact hd.elim
  · rintro cancelled grace rfl
    exact hd.elim
  · rintro code rfl
    exact hd.elim

theorem Inv.unclaimed_of_request (hr : s.request = true) : s.claimed = false := by
  by_contra hc
  have hgone := h.taken (by simpa using hc)
  rw [hr] at hgone
  cases hgone

theorem Inv.claimed_of_daemon (hd : ¬ s.daemon.BeforeClaim) : s.claimed = true := by
  by_contra hc
  exact hd (h.unclaimed (by simpa using hc)).2

theorem Inv.claim (hr : s.request = true) :
    Inv { s with request := false, claimed := true, daemon := .claimed } := by
  have hc := h.unclaimed_of_request hr
  refine { h with unclaimed := ?_, taken := fun _ => rfl, held := ?_, polled := ?_, reaped := ?_,
                  withdrawn := ?_, fresh := ?_ }
  · nofun
  · exact fun _ => (h.unclaimed hc).1
  · nofun
  · nofun
  · intro hw
    have hgone := (h.withdrawn hw).1
    rw [hr] at hgone
    cases hgone
  · intro hf
    have hgone := (h.fresh hf).1
    rw [hr] at hgone
    cases hgone

theorem Inv.spawn (hd : s.daemon = .claimed) :
    Inv { s with worker := .running .none, executions := s.executions + 1,
                 daemon := .polling false 0 } := by
  have hw := h.held hd
  have hclaimed := h.claimed_of_daemon (by rw [hd]; exact id)
  have hnotEnded (code : ℤ) : s.worker ≠ .ended code := by simp [hw]
  refine { h with once := ?_, unclaimed := ?_, held := ?_, polled := ?_, reaped := ?_, result := ?_,
                  exit := ?_ }
  · have hnone := h.once
    rw [if_pos hw] at hnone
    simp [hnone]
  · intro hc
    rw [hclaimed] at hc
    cases hc
  · nofun
  · simp
  · nofun
  · exact fun code hr => absurd (h.result code hr) (hnotEnded code)
  · intro code rest he
    obtain ⟨c, hc, -⟩ := h.exit code rest he
    exact absurd hc (hnotEnded c)

theorem Inv.setWorker {cancelled cancelled' : Bool} {grace grace' : ℕ} {w : Worker}
    (hd : s.daemon = .polling cancelled grace) (hstarted : w ≠ .notStarted)
    (hended : ∀ code, s.worker = .ended code → w = .ended code) :
    Inv { s with worker := w, daemon := .polling cancelled' grace' } := by
  have hclaimed := h.claimed_of_daemon (by rw [hd]; exact id)
  refine { h with once := ?_, unclaimed := ?_, held := ?_, polled := ?_, reaped := ?_, result := ?_,
                  exit := ?_ }
  · rw [h.once, if_neg (h.polled _ _ hd), if_neg hstarted]
  · intro hc
    rw [hclaimed] at hc
    cases hc
  · nofun
  · exact fun _ _ _ => hstarted
  · nofun
  · exact fun code hr => hended code (h.result code hr)
  · intro code rest he
    obtain ⟨c, hc, hcode⟩ := h.exit code rest he
    exact ⟨c, hended c hc, hcode⟩

theorem Inv.reap {cancelled : Bool} {grace : ℕ} {code : ℤ}
    (hd : s.daemon = .polling cancelled grace) (hw : s.worker = .ended code) :
    Inv { s with worker := .ended code, daemon := .reaped code } := by
  have hclaimed := h.claimed_of_daemon (by rw [hd]; exact id)
  rw [← hw]
  refine { h with unclaimed := ?_, held := ?_, polled := ?_, reaped := ?_ }
  · intro hc
    rw [hclaimed] at hc
    cases hc
  · nofun
  · nofun
  · intro c hc
    rw [hw]
    simpa using hc

theorem Inv.answer {code : ℤ} (hd : s.daemon = .reaped code) :
    Inv { s with result := some code, daemon := .answered } := by
  have hclaimed := h.claimed_of_daemon (by rw [hd]; exact id)
  refine { h with unclaimed := ?_, held := ?_, polled := ?_, reaped := ?_, result := ?_ }
  · intro hc
    rw [hclaimed] at hc
    cases hc
  · nofun
  · nofun
  · nofun
  · intro c hc
    rw [← Option.some.inj hc]
    exact h.reaped code hd

end Daemon

theorem Worker.terminate_ended {w : Worker} {code : ℤ} : w.terminate = .ended code ↔ w = .ended code := by
  cases w with
  | running signal => cases signal <;> simp [Worker.terminate]
  | notStarted | ended c => simp [Worker.terminate]

theorem Worker.terminate_ne_notStarted {w : Worker} (h : w ≠ .notStarted) :
    w.terminate ≠ .notStarted := by
  cases w with
  | running signal => cases signal <;> simp [Worker.terminate]
  | notStarted => exact absurd rfl h
  | ended c => simp [Worker.terminate]

theorem Worker.kill_ne_notStarted {w : Worker} (h : w ≠ .notStarted) : w.kill ≠ .notStarted := by
  cases w with
  | running signal => simp [Worker.kill]
  | notStarted => exact absurd rfl h
  | ended c => simp [Worker.kill]

theorem Inv.daemonStep {s : State} (h : Inv s) (e : DaemonEvent) : Inv (daemonStep s e) := by
  cases e with
  | scan =>
    simp only [Delegation.daemonStep]
    split
    · exact h.setDaemon trivial
    · exact h
  | read ok =>
    simp only [Delegation.daemonStep]
    split
    · split <;> exact h.setDaemon trivial
    · exact h
  | claim ok =>
    simp only [Delegation.daemonStep]
    split
    · split
      · next hr => exact h.claim (Bool.and_eq_true_iff.mp hr).1
      · exact h.setDaemon trivial
    · exact h
  | spawn ok =>
    simp only [Delegation.daemonStep]
    split
    · next hd =>
      split
      · exact h.spawn hd
      · exact h.setDaemon trivial
    · exact h
  | poll =>
    simp only [Delegation.daemonStep]
    split
    · next cancelled grace hd =>
      have hstarted := h.polled _ _ hd
      -- the worker as the poll leaves it, whether or not it was signalled
      have hw : (if !cancelled && s.cancel then s.worker.terminate else s.worker) ≠ .notStarted := by
        split
        · exact Worker.terminate_ne_notStarted hstarted
        · exact hstarted
      have hend (code : ℤ) : (if !cancelled && s.cancel then s.worker.terminate else s.worker) =
          .ended code ↔ s.worker = .ended code := by
        split
        · exact Worker.terminate_ended
        · exact Iff.rfl
      split
      · next code hcode =>
        rw [hcode]
        exact h.reap hd ((hend code).mp hcode)
      · next hrunning =>
        have hnot (code : ℤ) : s.worker ≠ .ended code := fun hc => hrunning code ((hend code).mpr hc)
        split
        · apply h.setWorker hd
          · split
            · exact Worker.kill_ne_notStarted hw
            · exact hw
          · exact fun code hc => absurd hc (hnot code)
        · exact h.setWorker hd hw (fun code hc => absurd hc (hnot code))
    · exact h
  | writeResult ok =>
    simp only [Delegation.daemonStep]
    split
    · next code hd =>
      split
      · exact h.answer hd
      · exact h.setDaemon trivial
    · exact h
  | removeCancel ok =>
    simp only [Delegation.daemonStep]
    split
    · have hidle : DaemonPc.idle.BeforeClaim := trivial
      exact (h.setCancel (s.cancel && !ok)).setDaemon hidle
    · exact h
  | crash => exact h.setDaemon trivial
  | restart =>
    simp only [Delegation.daemonStep]
    split
    · exact h.setDaemon trivial
    · exact h

theorem Inv.workerExits {s : State} (h : Inv s) (code : ℤ) : Inv (s.step (.workerExits code)) := by
  simp only [State.step]
  split
  · next signal hw =>
    have hnot (c : ℤ) : s.worker ≠ .ended c := by simp [hw]
    refine { h with once := ?_, unclaimed := ?_, held := ?_, polled := ?_, reaped := ?_, result := ?_,
                    exit := ?_ }
    · rw [h.once]
      simp [hw]
    · intro hc
      have hno := (h.unclaimed hc).1
      rw [hw] at hno
      cases hno
    · intro hd
      have hno := h.held hd
      rw [hw] at hno
      cases hno
    · nofun
    · exact fun c hd => absurd (h.reaped c hd) (hnot c)
    · exact fun c hr => absurd (h.result c hr) (hnot c)
    · intro c rest he
      obtain ⟨c', hc', -⟩ := h.exit c rest he
      exact absurd hc' (hnot c')
  · exact h

theorem Inv.step {s : State} (h : Inv s) (e : Event) : Inv (s.step e) := by
  cases e with
  | front e => exact h.frontStep e
  | daemon e => exact h.daemonStep e
  | workerExits code => exact h.workerExits code

theorem Inv.run {s : State} (h : Inv s) (events : List Event) : Inv (s.run events) := by
  induction events generalizing s with
  | nil => exact h
  | cons e events ih => exact ih (h.step e)

end LandscapeKit.Delegation
