import LandscapeKit.DaemonDelegation

/-!
Whether `delegate` reports the truth: a request runs at most once, an exit code
is the worker's own, and a caller that was told of a cancellation or an error
leaves no command behind that still runs on, provided the front end takes its
files away in time.
-/

namespace LandscapeKit.Delegation

structure Quiet (s : State) : Prop where
  request : s.request = false
  daemon : s.daemon ≠ .claimed
  worker : s.worker ≠ .running .none

/-- The daemon is through with the request: it has seen the cancel file, the worker is over, or
it gave up before starting one. -/
def Through (s : State) : Prop :=
  (∃ signal, s.worker = .running signal ∧ signal ≠ .none) ∨ (∃ code, s.worker = .ended code) ∨
    (s.claimed = true ∧ s.worker = .notStarted ∧ s.daemon ≠ .claimed)

/-- What a step of the front end that gives up has to find. The request is still there when it is
withdrawn without a cancel file; otherwise it is gone afterwards, and when the cancel file is
taken away the request had been withdrawn or the daemon is through with it. -/
def InTime (s : State) : Event → Prop
  | .front (.removeNext ok) =>
    match s.front with
    | .cleaning (.request :: rest) outcome => outcome.told = true →
        if .cancel ∈ rest then ok = true ∨ s.request = false else ok = true ∧ s.request = true
    | .cleaning (.cancel :: _) outcome => outcome.told = true → s.withdrawn = true ∨ Through s
    | _ => True
  | _ => True

/-- A caller that was told of a cancellation or an error: the command was never started and
never will be, it had ended, it was signalled, or the daemon will still see the cancel file. -/
def NoRunaway (s : State) : Prop :=
  ∀ outcome, s.front = .returned outcome → outcome.told = true →
    (s.worker = .notStarted ∧ s.request = false ∧ s.daemon ≠ .claimed) ∨
    (∃ code, s.worker = .ended code) ∨
    (∃ signal, s.worker = .running signal ∧ signal ≠ .none) ∨
    (s.cancel = true ∧ ∃ grace, s.daemon = .polling false grace)

def Telling (s : State) : Prop :=
  match s.front with
  | .returned outcome => outcome.told = true → Quiet s
  | .cleaning rest outcome => outcome.told = true →
      (.request ∉ rest → s.request = false) ∧ (.request ∉ rest → .cancel ∉ rest → Quiet s)
  | _ => True

theorem Quiet.noRunaway {s : State} (h : Quiet s) :
    (s.worker = .notStarted ∧ s.request = false ∧ s.daemon ≠ .claimed) ∨
    (∃ code, s.worker = .ended code) ∨
    (∃ signal, s.worker = .running signal ∧ signal ≠ .none) := by
  cases hw : s.worker with
  | notStarted => exact .inl ⟨rfl, h.request, h.daemon⟩
  | ended code => exact .inr (.inl ⟨code, rfl⟩)
  | running signal =>
    refine .inr (.inr ⟨signal, rfl, ?_⟩)
    rintro rfl
    exact h.worker hw

theorem Worker.terminate_ne {w : Worker} (h : w ≠ .running .none) :
    w.terminate ≠ .running .none := by
  cases w with
  | running signal => cases signal <;> simp [Worker.terminate] at h ⊢
  | notStarted | ended c => simp [Worker.terminate]

theorem Worker.kill_ne {w : Worker} (h : w ≠ .running .none) : w.kill ≠ .running .none := by
  cases w with
  | running signal => simp [Worker.kill]
  | notStarted | ended c => simp [Worker.kill]

theorem Quiet.daemonStep {s : State} (h : Quiet s) (e : DaemonEvent) : Quiet (daemonStep s e) := by
  obtain ⟨hr, hd, hw⟩ := h
  cases e with
  | scan =>
    simp only [Delegation.daemonStep]
    split
    · exact ⟨hr, by simp, hw⟩
    · exact ⟨hr, hd, hw⟩
  | read ok =>
    simp only [Delegation.daemonStep]
    split
    · exact ⟨hr, by simp [hr], hw⟩
    · exact ⟨hr, hd, hw⟩
  | claim ok =>
    -- the request is gone, so the claim fails
    have hno : ¬ (s.request && ok) = true := by simp [hr]
    simp only [Delegation.daemonStep]
    split
    · exact ⟨hr, by simp, hw⟩
    · exact ⟨hr, hd, hw⟩
  | spawn ok =>
    simp only [Delegation.daemonStep, hd, if_false]
    exact ⟨hr, hd, hw⟩
  | poll =>
    simp only [Delegation.daemonStep]
    split
    · next cancelled grace hpoll =>
      have hw' : (if !cancelled && s.cancel then s.worker.terminate else s.worker) ≠
          .running .none := by
        split
        · exact Worker.terminate_ne hw
        · exact hw
      split
      · next code hcode => exact ⟨hr, by simp, hw'⟩
      · split
        · refine ⟨hr, by simp, ?_⟩
          change (if cancelGracePolls ≤ grace + 1 then Worker.kill _ else _) ≠ Worker.running .none
          split
          · exact Worker.kill_ne hw'
          · exact hw'
        · exact ⟨hr, by simp, hw'⟩
    · exact ⟨hr, hd, hw⟩
  | writeResult ok =>
    simp only [Delegation.daemonStep]
    split
    · split <;> exact ⟨hr, by simp, hw⟩
    · exact ⟨hr, hd, hw⟩
  | removeCancel ok =>
    simp only [Delegation.daemonStep]
    split
    · exact ⟨hr, by simp, hw⟩
    · exact ⟨hr, hd, hw⟩
  | crash => exact ⟨hr, by simp [Delegation.daemonStep], hw⟩
  | restart =>
    simp only [Delegation.daemonStep]
    split
    · exact ⟨hr, by simp, hw⟩
    · exact ⟨hr, hd, hw⟩

theorem Quiet.workerExits {s : State} (h : Quiet s) (code : ℤ) :
    Quiet (s.step (.workerExits code)) := by
  simp only [State.step]
  split
  · exact ⟨h.request, h.daemon, by simp⟩
  · exact h

@[simp]
theorem front_daemonStep (s : State) (e : DaemonEvent) : (daemonStep s e).front = s.front := by
  cases e <;> simp only [daemonStep] <;> repeat' split
  all_goals rfl

theorem request_daemonStep {s : State} (h : s.request = false) (e : DaemonEvent) :
    (daemonStep s e).request = false := by
  cases e <;> simp only [daemonStep] <;> repeat' split
  all_goals first | exact h | rfl

theorem Telling.others {s s' : State} (ht : Telling s) (hfront : s'.front = s.front)
    (hrequest : s.request = false → s'.request = false) (hquiet : Quiet s → Quiet s') :
    Telling s' := by
  unfold Telling at ht ⊢
  rw [hfront]
  cases hf : s.front with
  | returned outcome =>
    rw [hf] at ht
    exact fun htold => hquiet (ht htold)
  | cleaning rest outcome =>
    rw [hf] at ht
    intro htold
    obtain ⟨hgone, hdone⟩ := ht htold
    exact ⟨fun hr => hrequest (hgone hr), fun hr hc => hquiet (hdone hr hc)⟩
  | start | present | check | waiting n | cancelling => trivial

theorem quiet_of_withdrawn {s : State} (h : Inv s) (hw : s.withdrawn = true) : Quiet s := by
  obtain ⟨hr, hc⟩ := h.withdrawn hw
  obtain ⟨hworker, hdaemon⟩ := h.unclaimed hc
  refine ⟨hr, ?_, by simp [hworker]⟩
  intro hd
  rw [hd] at hdaemon
  exact hdaemon

theorem quiet_of_through {s : State} (h : Inv s) (ht : Through s) : Quiet s := by
  have hclaimed : s.claimed = true := by
    by_contra hc
    have hno := (h.unclaimed (by simpa using hc)).1
    rcases ht with ⟨signal, hw, -⟩ | ⟨code, hw⟩ | ⟨hclaimed, -⟩
    · rw [hno] at hw
      cases hw
    · rw [hno] at hw
      cases hw
    · exact hc (by simpa using hclaimed)
  refine ⟨h.taken hclaimed, ?_, ?_⟩
  · intro hd
    have hno := h.held hd
    rcases ht with ⟨signal, hw, -⟩ | ⟨code, hw⟩ | ⟨-, -, hnot⟩
    · rw [hno] at hw
      cases hw
    · rw [hno] at hw
      cases hw
    · exact hnot hd
  · intro hrun
    rcases ht with ⟨signal, hw, hs⟩ | ⟨code, hw⟩ | ⟨-, hw, -⟩
    · rw [hrun] at hw
      exact hs (by simpa using hw.symm)
    · rw [hrun] at hw
      cases hw
    · rw [hrun] at hw
      cases hw

theorem telling_cleaning_operation (s : State) (outcome : Outcome) :
    Telling { s with front := .cleaning operationFiles outcome } := by
  intro _
  constructor <;> simp [operationFiles]

theorem Telling.removeNext {s : State} (h : Inv s) (ht : Telling s) {ok : Bool}
    {file : FileKind} {rest : List FileKind} {outcome : Outcome}
    (hf : s.front = .cleaning (file :: rest) outcome)
    (hm : InTime s (.front (.removeNext ok))) :
    Telling { (if ok then s.removeFile file else s) with front := .cleaning rest outcome } := by
  intro htold
  simp only [Telling, hf] at ht
  obtain ⟨hgone, hdone⟩ := ht htold
  simp only [InTime, hf] at hm
  cases file with
  | request =>
    have hm := hm htold
    by_cases hcancel : FileKind.cancel ∈ rest
    · -- the cancel file is still to come: the request only has to be gone
      rw [if_pos hcancel] at hm
      refine ⟨fun _ => ?_, fun _ hc => absurd hcancel hc⟩
      rcases hm with rfl | hr
      · rfl
      · cases ok
        · exact hr
        · rfl
    · rw [if_neg hcancel] at hm
      obtain ⟨rfl, hr⟩ := hm
      have hinv : Inv (s.removeFile .request) := h.removeFile (by simp [hf]) .request
      have hquiet := quiet_of_withdrawn hinv (by simp [State.removeFile, hr])
      exact ⟨fun _ => rfl, fun _ _ => ⟨hquiet.request, hquiet.daemon, hquiet.worker⟩⟩
  | cancel =>
    have hquiet : Quiet s := by
      rcases hm htold with hw | hthrough
      · exact quiet_of_withdrawn h hw
      · exact quiet_of_through h hthrough
    cases ok
    · exact ⟨fun _ => hquiet.request, fun _ _ => ⟨hquiet.request, hquiet.daemon, hquiet.worker⟩⟩
    · exact ⟨fun _ => hquiet.request, fun _ _ => ⟨hquiet.request, hquiet.daemon, hquiet.worker⟩⟩
  | result | stdout | stderr | presentation | credential | networkPlan =>
    have hgone' : FileKind.request ∉ rest → s.request = false := fun hr => hgone (by simp [hr])
    have hdone' : FileKind.request ∉ rest → FileKind.cancel ∉ rest → Quiet s :=
      fun hr hc => hdone (by simp [hr]) (by simp [hc])
    cases ok
    · exact ⟨hgone', fun hr hc => ⟨hgone' hr, (hdone' hr hc).daemon, (hdone' hr hc).worker⟩⟩
    · exact ⟨hgone', fun hr hc => ⟨hgone' hr, (hdone' hr hc).daemon, (hdone' hr hc).worker⟩⟩

theorem Telling.frontStep {s : State} (h : Inv s) (ht : Telling s) (e : FrontEvent)
    (hm : InTime s (.front e)) : Telling (frontStep s e) := by
  cases e with
  | refuse =>
    simp only [Delegation.frontStep]
    split
    · next hf =>
      -- nothing was submitted
      obtain ⟨hr, hc, -⟩ := h.fresh hf
      obtain ⟨hworker, hdaemon⟩ := h.unclaimed hc
      intro _
      refine ⟨hr, ?_, by simp [hworker]⟩
      intro hd
      change s.daemon = .claimed at hd
      rw [hd] at hdaemon
      exact hdaemon
    · exact ht
  | submit =>
    simp only [Delegation.frontStep]
    split
    · trivial
    · exact ht
  | present ok =>
    simp only [Delegation.frontStep]
    split
    · cases ok
      · intro _
        constructor <;> simp [unsubmittedFiles]
      · trivial
    · exact ht
  | check interrupted =>
    simp only [Delegation.frontStep]
    split
    · cases interrupted <;> trivial
    · exact ht
  | stop waits ok =>
    simp only [Delegation.frontStep]
    split
    · cases waits <;> trivial
    · exact ht
  | waitError =>
    simp only [Delegation.frontStep]
    split
    · exact telling_cleaning_operation s _
    · exact ht
  | pollDaemon =>
    simp only [Delegation.frontStep]
    split
    · split
      · split
        · exact telling_cleaning_operation s _
        · trivial
      · trivial
    · exact ht
  | seeResult reading =>
    simp only [Delegation.frontStep]
    split
    · exact telling_cleaning_operation s _
    · exact ht
  | writeCancel ok =>
    simp only [Delegation.frontStep]
    split
    · exact telling_cleaning_operation { s with cancel := s.cancel || ok } _
    · exact ht
  | removeNext ok =>
    simp only [Delegation.frontStep]
    split
    · next file rest outcome hf => exact ht.removeNext h hf hm
    · exact ht
  | finish shown =>
    simp only [Delegation.frontStep]
    split
    · next outcome hf =>
      simp only [Telling, hf] at ht
      intro htold
      -- a cancellation whose screen fails is told as an error
      have htold' : outcome.told = true := by
        by_cases hc : outcome = .cancelled ∧ shown = false
        · rw [hc.1]
          rfl
        · rwa [if_neg hc] at htold
      have hquiet := (ht htold').2 (by simp) (by simp)
      exact ⟨hquiet.request, hquiet.daemon, hquiet.worker⟩
    · exact ht

theorem Telling.step {s : State} (h : Inv s) (ht : Telling s) (e : Event) (hm : InTime s e) :
    Telling (s.step e) := by
  cases e with
  | front e => exact ht.frontStep h e hm
  | daemon e =>
    exact ht.others (front_daemonStep s e) (fun hr => request_daemonStep hr e)
      (fun hq => hq.daemonStep e)
  | workerExits code =>
    apply ht.others
    · simp only [State.step]
      split <;> rfl
    · intro hr
      simp only [State.step]
      split <;> exact hr
    · exact fun hq => hq.workerExits code

def RunsInTime (s : State) (events : List Event) : Prop :=
  ∀ earlier e later, events = earlier ++ e :: later → InTime (s.run earlier) e

theorem Telling.run {s : State} (h : Inv s) (ht : Telling s) (events : List Event)
    (hm : RunsInTime s events) : Telling (s.run events) := by
  induction events generalizing s with
  | nil => exact ht
  | cons e events ih =>
    apply ih (h.step e) (ht.step h e (hm [] e events rfl))
    intro earlier e' later he
    exact hm (e :: earlier) e' later (by rw [he]; rfl)

def removals : List Event := List.replicate 8 (.front (.removeNext true))

/-- The daemon has started the worker when Ctrl+C comes; the cancel file is written and removed
before the next poll, 130 is returned, and the worker runs on to its end. -/
def lostCancel : List Event :=
  [.front .submit, .front (.present true), .front (.check false), .daemon .scan,
    .daemon (.read true), .daemon (.claim true), .daemon (.spawn true), .front (.stop false true),
    .front (.writeCancel true)] ++ removals ++ [.front (.finish true), .daemon .poll]

theorem runsInTime_cons {s : State} {e : Event} {events : List Event} (he : InTime s e)
    (h : RunsInTime (s.step e) events) : RunsInTime s (e :: events) := by
  intro earlier e' later hsplit
  cases earlier with
  | nil =>
    obtain ⟨rfl, -⟩ : e = e' ∧ events = later := by simpa using hsplit
    exact he
  | cons e'' earlier =>
    obtain ⟨rfl, hrest⟩ : e = e'' ∧ events = earlier ++ e' :: later := by simpa using hsplit
    exact h earlier e' later hrest

theorem runsInTime_nil (s : State) : RunsInTime s [] := by
  intro earlier e later h
  simp at h

def withdrawnInTime : List Event :=
  [.front .submit, .front (.present true), .front (.check true), .front (.writeCancel true)] ++
    removals ++ [.front (.finish true)]

end LandscapeKit.Delegation
