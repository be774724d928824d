import LandscapeKit.FlareClientBytes

/-!
The budget of failed opens in the client's session loop: what it counts over one window, and
when the loop keeps within it.
-/

namespace LandscapeKit.Flare

def FailBudget.Spent (b : FailBudget) (now : Instant) : Prop :=
  (now - b.windowStart : ℕ) < second ∧ maxFailedOpensPerSec ≤ b.fails

def FailBudget.WindowFrom (b : FailBudget) (w : Instant) : Prop :=
  b.windowStart = w ∨ b.windowStart + second ≤ w

def FailBudget.charged (b : FailBudget) (w : Instant) : ℕ :=
  if b.windowStart = w then b.fails else 0

def FailBudget.Counts (b : FailBudget) (w : Instant) (n : ℕ) : Prop :=
  ((b.windowStart + second : ℕ) ≤ w ∧ n = 0) ∨
    ((w : ℕ) ≤ b.windowStart ∧ (b.windowStart : ℕ) < w + second ∧ b.fails = n)

section Counting

variable {b : FailBudget} {w now n : ℕ}

theorem FailBudget.counts_charged (h : b.WindowFrom w) : b.Counts w (b.charged w) := by
  have hpos : 0 < second := by decide
  by_cases hw : b.windowStart = w
  · have hcharged : b.charged w = b.fails := if_pos hw
    apply Or.inr
    rw [hcharged, hw]
    exact ⟨le_refl w, Nat.lt_add_of_pos_right hpos, rfl⟩
  · have hcharged : b.charged w = 0 := if_neg hw
    apply Or.inl
    exact ⟨h.resolve_left hw, hcharged⟩

theorem FailBudget.Counts.allow (h : b.Counts w n) (hle : w ≤ now) (hlt : now < w + second) :
    (b.allow now).2.Counts w (n + 1) := by
  unfold FailBudget.Counts FailBudget.allow at *
  unfold Instant at *
  apply Or.inr
  obtain ⟨hstale, hn⟩ | ⟨hw, hend, hn⟩ := h
  · -- the window before ended: this failure starts the next one
    have hold : second ≤ now - b.windowStart := Nat.le_sub_of_add_le (by omega)
    rw [if_pos hold]
    dsimp only
    omega
  · have helapsed : now - b.windowStart ≤ now - w := Nat.sub_le_sub_left hw now
    have hrunning : ¬ second ≤ now - b.windowStart :=
      Nat.not_le_of_lt (lt_of_le_of_lt helapsed (Nat.sub_lt_left_of_lt_add hle hlt))
    rw [if_neg hrunning]
    dsimp only
    omega

theorem FailBudget.Counts.spent_iff (h : b.Counts w n) (hle : w ≤ now) (hlt : now < w + second) :
    b.Spent now ↔ maxFailedOpensPerSec ≤ n := by
  have hpos : 0 < maxFailedOpensPerSec := by decide
  unfold FailBudget.Counts at h
  unfold FailBudget.Spent
  unfold Instant at *
  obtain ⟨hstale, hn⟩ | ⟨hw, hend, hn⟩ := h
  · omega
  · omega

end Counting

namespace Client

variable {S Sock : Type} (P : Primitives) (ops : StackOps S Sock) (args : SessionArgs)
  (env : ClientEnv)

def sessionFrame (raw : Bytes) : Option Frame :=
  match decode raw with
  | .error _ => none
  | .ok l =>
    if l.sessionId ≠ args.sid then none
    else if l.msgType = typeTeardown ∨ l.msgType = typeKeepalive ∨ l.msgType = typeData then some l
    else none

def Arrives (c : Client S) : Event → Prop
  | .frame raw => c.ended = none ∧ (sessionFrame args raw).isSome
  | _ => False

def openedBy (c : Client S) : Event → Option (Option Bytes)
  | .frame raw =>
    if c.ended.isSome then none
    else (sessionFrame args raw).map (fun l => (c.openWith P l).1)
  | _ => none

def failedOpens (c : Client S) : List (ClientEnv × Event) → ℕ
  | [] => 0
  | e :: es =>
    (if c.openedBy P args e.2 = some none then 1 else 0) +
      (c.step P ops args e.1 e.2).failedOpens es

/-- What the budget is for: no more failures than the window has left, and once they are
reached nothing is opened. -/
structure BoundsOpens (w : Instant) (c : Client S) (events : List (ClientEnv × Event)) : Prop where
  failures : c.failedOpens P ops args events ≤ maxFailedOpensPerSec - c.failBudget.charged w
  dropped : ∀ seen e rest, events = seen ++ e :: rest →
    maxFailedOpensPerSec - c.failBudget.charged w ≤ c.failedOpens P ops args seen →
    (c.run P ops args seen).openedBy P args e.2 = none

def FindsBudget (c : Client S) (events : List (ClientEnv × Event)) : Prop :=
  ∀ seen e rest, events = seen ++ e :: rest → (c.run P ops args seen).Arrives args e.2 →
    ¬ (c.run P ops args seen).failBudget.Spent e.1.now

section Frames

theorem onFrame_failBudget (c : Client S) (raw : Bytes) :
    (c.onFrame P ops args env raw).1.failBudget =
      match (sessionFrame args raw).map (fun l => (c.openWith P l).1) with
      | some none => (c.failBudget.allow env.now).2
      | _ => c.failBudget := by
  unfold onFrame sessionFrame
  cases hl : decode raw with
  | error err => rfl
  | ok l =>
    dsimp only
    by_cases hsid : l.sessionId ≠ args.sid
    · rw [if_pos hsid, if_pos hsid]
      rfl
    rw [if_neg hsid, if_neg hsid]
    by_cases hteardown : l.msgType = typeTeardown
    · rw [if_pos hteardown, if_pos (Or.inl hteardown), Option.map_some]
      cases (c.openWith P l).1 <;> rfl
    rw [if_neg hteardown]
    by_cases hdata : l.msgType = typeKeepalive ∨ l.msgType = typeData
    · rw [if_pos hdata, if_pos (Or.inr hdata), Option.map_some]
      cases (c.openWith P l).1 with
      | none => rfl
      | some plain =>
        dsimp only
        split <;> rfl
    · have hother : ¬ (l.msgType = typeTeardown ∨ l.msgType = typeKeepalive ∨
          l.msgType = typeData) := by
        intro h
        exact h.elim hteardown hdata
      rw [if_neg hdata, if_neg hother, Option.map_none]

theorem finish_failBudget (c : Client S) (reason : SessionEnd) :
    (c.finish P args env reason).failBudget = c.failBudget := rfl

theorem pump_failBudget (c : Client S) :
    (c.pump P ops args env).failBudget = c.failBudget := by
  simp only [pump]
  split <;> rfl

theorem taskStep_failBudget (c : Client S) (id : ConnId) (t : BridgeTask) (act : BridgeAct) :
    (c.taskStep id t act).failBudget = c.failBudget := by
  unfold taskStep
  split <;> (repeat' split) <;> rfl

theorem branch_failBudget (c : Client S) (due : Bool) (e : Event) (h : ∀ raw, e ≠ .frame raw) :
    (c.branch P ops args env due e).1.failBudget = c.failBudget := by
  cases e with
  | frame raw => exact absurd rfl (h raw)
  | accept forward =>
    dsimp only [branch, onAccept]
    split <;> rfl
  | toRx =>
    dsimp only [branch, onToRx]
    repeat' split
    all_goals rfl
  | command command =>
    dsimp only [branch, onCommand]
    repeat' split
    all_goals rfl
  | keepalive =>
    dsimp only [branch, onKeepalive]
    repeat' split
    all_goals rfl
  | recvFailed => rfl
  | wake => rfl
  | poll => rfl
  | shutdown => rfl
  | task id act => rfl

theorem step_failBudget (c : Client S) (e : Event) :
    (c.step P ops args env e).failBudget =
      match c.openedBy P args e with
      | some none => (c.failBudget.allow env.now).2
      | _ => c.failBudget := by
  by_cases hframe : ∃ raw, e = .frame raw
  · obtain ⟨raw, rfl⟩ := hframe
    unfold step openedBy
    dsimp only
    by_cases hended : c.ended.isSome
    · rw [if_pos hended, if_pos hended]
    rw [if_neg hended, if_neg hended]
    -- the deadline moves the stack only, so the frame is opened as before it
    have hbranch := onFrame_failBudget P ops args env
      { c with flow := { c.flow with stack := (ops.pollDelay env.now c.flow.stack).1 } } raw
    have hopen : ∀ l, (openWith P { c with flow :=
        { c.flow with stack := (ops.pollDelay env.now c.flow.stack).1 } } l).1 =
        (c.openWith P l).1 := fun l => rfl
    simp only [hopen] at hbranch
    split
    · rw [pump_failBudget]
      exact hbranch
    · exact hbranch
    · rw [finish_failBudget]
      exact hbranch
  · have hne : ∀ raw, e ≠ .frame raw := fun raw he => hframe ⟨raw, he⟩
    have hopened : c.openedBy P args e = none := by
      cases e with
      | frame raw => exact absurd rfl (hne raw)
      | _ => rfl
    rw [hopened]
    apply step_induction P ops args env (fun c' => c'.failBudget = c.failBudget) c e rfl
    · intro id act t ht
      exact taskStep_failBudget c id t act
    · rfl
    · intro c' due hc'
      rw [branch_failBudget P ops args env c' due e hne]
      exact hc'
    · intro c' hc'
      rw [pump_failBudget]
      exact hc'
    · intro c' reason hc'
      exact hc'

theorem arrives_iff (c : Client S) (e : Event) :
    c.Arrives args e ↔ c.openedBy P args e ≠ none := by
  cases e with
  | frame raw =>
    simp only [Arrives, openedBy]
    cases c.ended with
    | none => simp [Option.isSome_iff_ne_none]
    | some reason => simp
  | _ => simp [Arrives, openedBy]

end Frames

section Window

variable {c : Client S} {w : Instant} {n : ℕ} {e : ClientEnv × Event}
  {events : List (ClientEnv × Event)}

def Within (w : Instant) (events : List (ClientEnv × Event)) : Prop :=
  ∀ e ∈ events, w ≤ e.1.now ∧ e.1.now < w + second

theorem step_counts (h : c.failBudget.Counts w n) (hle : w ≤ e.1.now) (hlt : e.1.now < w + second) :
    (c.step P ops args e.1 e.2).failBudget.Counts w
      (n + (if c.openedBy P args e.2 = some none then 1 else 0)) := by
  rw [step_failBudget]
  by_cases hfail : c.openedBy P args e.2 = some none
  · rw [if_pos hfail, hfail]
    exact h.allow hle hlt
  · rw [if_neg hfail]
    split
    · rename_i heq
      exact absurd heq hfail
    · exact h

theorem run_counts (h : c.failBudget.Counts w n) (htimes : Within w events) :
    (c.run P ops args events).failBudget.Counts w (n + c.failedOpens P ops args events) := by
  induction events generalizing c n with
  | nil => exact h
  | cons e es ih =>
    obtain ⟨hle, hlt⟩ := htimes e List.mem_cons_self
    have hrest : Within w es := fun e' he' => htimes e' (List.mem_cons_of_mem _ he')
    have hstep := ih (step_counts P ops args h hle hlt) hrest
    rw [failedOpens, ← Nat.add_assoc]
    exact hstep

variable {P ops args} in
theorem FindsBudget.tail (h : FindsBudget P ops args c (e :: events)) :
    FindsBudget P ops args (c.step P ops args e.1 e.2) events := by
  intro seen e' rest hsplit
  apply h (e :: seen) e' rest
  rw [hsplit]
  rfl

variable {P ops args} in
theorem FindsBudget.failedOpens_le (h : FindsBudget P ops args c events)
    (hcounts : c.failBudget.Counts w n) (htimes : Within w events) :
    c.failedOpens P ops args events ≤ maxFailedOpensPerSec - n := by
  induction events generalizing c n with
  | nil => exact Nat.zero_le _
  | cons e es ih =>
    obtain ⟨hle, hlt⟩ := htimes e List.mem_cons_self
    have hrest : Within w es := fun e' he' => htimes e' (List.mem_cons_of_mem _ he')
    have hstep := step_counts P ops args hcounts hle hlt
    have hlater := ih h.tail hstep hrest
    rw [failedOpens]
    by_cases hfail : c.openedBy P args e.2 = some none
    · rw [if_pos hfail] at hlater ⊢
      have harrives : c.Arrives args e.2 := by
        rw [arrives_iff P, hfail]
        exact Option.some_ne_none _
      have hunspent := h [] e es rfl harrives
      rw [show c.run P ops args [] = c from rfl, hcounts.spent_iff hle hlt] at hunspent
      omega
    · rw [if_neg hfail] at hlater ⊢
      omega

theorem spent_run_iff (hw : c.failBudget.WindowFrom w) {seen rest : List (ClientEnv × Event)}
    (htimes : Within w (seen ++ e :: rest)) :
    (c.run P ops args seen).failBudget.Spent e.1.now ↔
      maxFailedOpensPerSec - c.failBudget.charged w ≤ c.failedOpens P ops args seen := by
  have hseen : Within w seen := fun e' he' => htimes e' (List.mem_append_left _ he')
  obtain ⟨hle, hlt⟩ := htimes e (List.mem_append_right _ List.mem_cons_self)
  have hcounts := run_counts P ops args
    (FailBudget.counts_charged hw) hseen
  rw [hcounts.spent_iff hle hlt]
  omega

/-- Over one window the loop keeps to its budget of failed opens, and opens nothing once it is
spent, exactly if no session frame arrives while the budget is spent: what `allow` answers is
looked at only after the open. -/
theorem boundsOpens_iff (P : Primitives) (ops : StackOps S Sock) (args : SessionArgs)
    (c : Client S) (w : Instant) (events : List (ClientEnv × Event))
    (hw : c.failBudget.WindowFrom w) (htimes : Within w events) :
    BoundsOpens P ops args w c events ↔ FindsBudget P ops args c events := by
  constructor
  · intro h seen e rest hsplit harrives hspent
    rw [hsplit] at htimes
    have hdrained := (spent_run_iff P ops args hw htimes).mp hspent
    exact (arrives_iff P args _ e.2).mp harrives (h.dropped seen e rest hsplit hdrained)
  · intro h
    constructor
    · exact h.failedOpens_le (FailBudget.counts_charged hw) htimes
    · intro seen e rest hsplit hdrained
      by_contra hopened
      have harrives := (arrives_iff P args _ e.2).mpr hopened
      rw [hsplit] at htimes
      have hspent := (spent_run_iff P ops args hw htimes).mpr hdrained
      exact h seen e rest hsplit harrives hspent

end Window

end Client

def freshSession : Client TableStack := Client.init tableStackOps sampleArgs 0 0

theorem freshSession_windowFrom : freshSession.failBudget.WindowFrom 0 := Or.inl rfl

/-- The equivalence for two turns of a fresh session. -/
theorem boundsOpens_iff_fresh :
    Client.BoundsOpens (tablePrimitives []) tableStackOps sampleArgs 0 freshSession
        [(sampleClientEnv, .wake), (sampleClientEnv, .keepalive)] ↔
      Client.FindsBudget (tablePrimitives []) tableStackOps sampleArgs freshSession
        [(sampleClientEnv, .wake), (sampleClientEnv, .keepalive)] := by
  apply Client.boundsOpens_iff _ _ _ _ _ _ freshSession_windowFrom
  intro e he
  simp only [List.mem_cons, List.not_mem_nil, or_false] at he
  obtain rfl | rfl := he <;> exact ⟨Nat.le_refl 0, by decide⟩

section Flood

def forgedKeepalive : Bytes := encodeHeader typeKeepalive 1 0 16 ++ List.replicate 16 0

def forgedFlood (n : ℕ) : List (ClientEnv × Client.Event) :=
  List.replicate n (sampleClientEnv, .frame forgedKeepalive)

theorem decode_forgedKeepalive : decode forgedKeepalive =
    .ok ⟨version, typeKeepalive, 1, 0, 16, List.replicate 16 0⟩ := by decide

theorem openSession_forged (c : SessionCrypto) (msgType : UInt8) (sid seq : UInt32) (len : UInt16) :
    c.openSession (tablePrimitives []) msgType sid seq len (List.replicate 16 0) = (none, c) := by
  have htag : ∀ op, tableTag [] op = List.replicate 16 255 := fun op => rfl
  have hopen : c.keys.openWith (tablePrimitives []) c.txDir.rx seq
      (encodeHeader msgType sid seq len) (List.replicate 16 0) = none := by
    simp only [SessionKeys.openWith, tablePrimitives, htag]
    exact if_neg (by decide)
  rw [SessionCrypto.openSession, hopen]

theorem openedBy_forged {c : Client TableStack} (h : c.ended = none) :
    c.openedBy (tablePrimitives []) sampleArgs (.frame forgedKeepalive) = some none := by
  have hframe : Client.sessionFrame sampleArgs forgedKeepalive =
      some ⟨version, typeKeepalive, 1, 0, 16, List.replicate 16 0⟩ := by decide
  have hrunning : ¬ c.ended.isSome := by simp [h]
  rw [Client.openedBy, if_neg hrunning, hframe, Option.map_some, Client.openWith,
    openSession_forged]

theorem onFrame_forged (c : Client TableStack) :
    c.onFrame (tablePrimitives []) tableStackOps sampleArgs sampleClientEnv forgedKeepalive =
      ({ c with failBudget := (c.failBudget.allow 0).2 }, .again) := by
  have hsid : ¬ (1 : UInt32) ≠ sampleArgs.sid := by decide
  have hteardown : ¬ typeKeepalive = typeTeardown := by decide
  rw [Client.onFrame, decode_forgedKeepalive]
  dsimp only
  rw [if_neg hsid, if_neg hteardown, if_pos (Or.inl rfl), Client.openWith, openSession_forged]
  rfl

theorem ended_step_forged {c : Client TableStack} (h : c.ended = none) :
    (c.step (tablePrimitives []) tableStackOps sampleArgs sampleClientEnv
      (.frame forgedKeepalive)).ended = none := by
  have hrunning : ¬ c.ended.isSome := by simp [h]
  simp only [Client.step, if_neg hrunning, Client.branch, onFrame_forged]
  exact h

theorem failedOpens_forgedFlood {c : Client TableStack} (h : c.ended = none) (n : ℕ) :
    c.failedOpens (tablePrimitives []) tableStackOps sampleArgs (forgedFlood n) = n := by
  induction n generalizing c with
  | zero => rfl
  | succ n ih =>
    have hflood : forgedFlood (n + 1) =
        (sampleClientEnv, .frame forgedKeepalive) :: forgedFlood n := rfl
    rw [hflood, Client.failedOpens, openedBy_forged h, if_pos rfl, ih (ended_step_forged h)]
    exact Nat.add_comm 1 n

theorem forgedFlood_within (n : ℕ) : Client.Within 0 (forgedFlood n) := by
  intro e he
  obtain rfl := List.eq_of_mem_replicate he
  exact ⟨Nat.le_refl 0, by decide⟩

/-- 201 forged frames in the first second of a session cost 201 failed opens. -/
theorem forgedFlood_exceeds :
    freshSession.failBudget.WindowFrom 0 ∧ Client.Within 0 (forgedFlood 201) ∧
    freshSession.failedOpens (tablePrimitives []) tableStackOps sampleArgs (forgedFlood 201) = 201 ∧
    ¬ Client.BoundsOpens (tablePrimitives []) tableStackOps sampleArgs 0 freshSession
      (forgedFlood 201) := by
  have hcount := failedOpens_forgedFlood (c := freshSession) rfl 201
  refine ⟨freshSession_windowFrom, forgedFlood_within 201, hcount, ?_⟩
  intro h
  have hle := h.failures
  rw [hcount] at hle
  have hbudget : maxFailedOpensPerSec - freshSession.failBudget.charged 0 ≤ 200 :=
    Nat.sub_le _ _
  omega

end Flood

end LandscapeKit.Flare
