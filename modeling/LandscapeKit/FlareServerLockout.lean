import LandscapeKit.FlareServerSeals

/-!
The lockout of a MAC after repeated authentication failures. The sweep that drops stale
guards looks at the time of the last AUTH_REQ only, and its limit is shorter than the
lockout: the lockout holds for its whole length exactly on the runs in which no sweep
meets a guard that is stale and still locked, or stale with its window still open.
-/

namespace LandscapeKit.Flare

open Bytes

namespace Server

variable {S Sock : Type}

def SweepKeeps (s : Server S) (now : Instant) : Prop :=
  ∀ mac g, s.guards.lookup mac = some g →
    now - g.lastSeen ≤ staleAfter ∨ (g.locked now = false ∧ g.windowOpen now = false)

def failsOf (s : Server S) (mac : Mac) : ℕ := ((s.guards.lookup mac).map AuthGuard.fails).getD 0

def CountsLast (s s' : Server S) (mac : Mac) : Prop :=
  maxAuthFails ≤ s'.failsOf mac ∧ s.failsOf mac < s'.failsOf mac

def LockedUntil (s : Server S) (mac : Mac) (t : Instant) : Prop :=
  (∃ g, s.guards.lookup mac = some g ∧ g.lockedUntil = some t) ∧
    ∀ p, s.peers.lookup mac = some p → p.sess.sessionId = none

theorem locked_of_lockedUntil {g : AuthGuard} {now t : Instant} (h : g.lockedUntil = some t)
    (ht : now < t) : g.locked now = true := by
  simp [AuthGuard.locked, h, ht]

section Steps

variable (P : Primitives) (ops : StackOps S Sock) (cfg : ServerConfig) (master : MasterKey)
  (env : ServerEnv)

theorem guardOf_of_lookup {s : Server S} {mac : Mac} {g : AuthGuard}
    (hg : s.guards.lookup mac = some g) : s.guardOf env mac = g := by
  rw [guardOf, hg, Option.getD_some]

theorem retainFresh_lookup (s : Server S) (mac : Mac) :
    (s.retainFresh env).guards.lookup mac =
      (s.guards.lookup mac).filter (fun g => env.now - g.lastSeen ≤ staleAfter) :=
  Assoc.lookup_retain _ s.guards mac

theorem DiscoverOutcome.sessionId {mac : Mac} {l : Frame} {s s' : Server S}
    (h : DiscoverOutcome P cfg master env mac l s s') (m : Mac)
    (hno : ∀ p, s.peers.lookup m = some p → p.sess.sessionId = none) :
    ∀ p, s'.peers.lookup m = some p → p.sess.sessionId = none := by
  cases h with
  | ignored hp hh hw =>
    rw [hp]
    exact hno
  | answered id name token hopen p p' hp0 hp hsess hcrypto hv hg hn hw =>
    intro q hq
    rw [hp m] at hq
    split at hq
    next hm =>
      obtain rfl := Option.some.inj hq
      have hold : p.sess.sessionId = none := by
        rcases hl : s.peers.lookup mac with _ | p₀
        · rw [hl, Option.getD_none] at hp0
          rw [hp0]
          rfl
        · rw [hl, Option.getD_some] at hp0
          rw [hp0]
          exact hno p₀ (hm ▸ hl)
      rw [hsess]
      exact hold
    next => exact hno q hq

theorem step_locked {s : Server S} {mac : Mac} {t : Instant} (hs : LockedUntil s mac t)
    (ht : env.now < t) (e : Event)
    (hsweep : e = .sweep → s.running = true → s.SweepKeeps env.now) :
    LockedUntil (s.step P ops cfg master env e) mac t ∧
      ((∃ i raw, e = .frame mac i raw) →
        (s.step P ops cfg master env e).verdicts = s.verdicts) := by
  obtain ⟨⟨g, hg, hlu⟩, hno⟩ := hs
  have hlocked := locked_of_lockedUntil hlu ht
  have hguard : s.guardOf env mac = g := guardOf_of_lookup env hg
  have hchecked : (s.checkedGuard env mac).lockedUntil = some t := by
    rw [checkedGuard, hguard]
    exact hlu
  have hmoves : ∀ s' : Server S, SessionMoves s s' →
      LockedUntil s' mac t ∧ s'.verdicts = s.verdicts := by
    intro s' h
    refine ⟨⟨⟨g, ?_, hlu⟩, ?_⟩, verdicts_of_hand h.hand_eq⟩
    · rw [guards_of_hand h.hand_eq]
      exact hg
    · intro p' hp'
      obtain ⟨p, hp, heq⟩ := h.sess_eq mac p' hp'
      rw [heq]
      exact hno p hp
  cases step_outcome P ops cfg master env s e with
  | discover m i raw l hd h =>
    have hsid := h.sessionId P cfg master env mac hno
    cases h with
    | ignored hp hh hw =>
      refine ⟨⟨⟨g, ?_, hlu⟩, hsid⟩, fun _ => verdicts_of_hand hh⟩
      rw [guards_of_hand hh]
      exact hg
    | answered id name token hopen p p' hp0 hp hsess hcrypto hv hg' hn hw =>
      exact ⟨⟨⟨g, hg' ▸ hg, hlu⟩, hsid⟩, fun _ => hv⟩
  | authReq m i raw l hd h =>
    by_cases hm : m = mac
    · subst hm
      cases h with
      | ignored hp hh hw =>
        refine ⟨⟨⟨g, ?_, hlu⟩, hp ▸ hno⟩, fun _ => verdicts_of_hand hh⟩
        rw [guards_of_hand hh]
        exact hg
      | refused p p' reason hl _ hno' hp hsess hcrypto hv hn hg' hw =>
        refine ⟨⟨⟨_, by rw [hg' m, if_pos rfl], hchecked⟩, ?_⟩, fun _ => hv⟩
        intro q hq
        rw [hp m, if_pos rfl] at hq
        obtain rfl := Option.some.inj hq
        rw [hsess]
        exact hno'
      -- The other outcomes need a session that a locked MAC does not have.
      | unauthentic p p' reason hl hpass =>
        exact absurd (hno p hl) (hpass (hguard ▸ hlocked))
      | accepted p p' sid keys proof hkey user hl hpass =>
        exact absurd (hno p hl) (hpass (hguard ▸ hlocked))
      | rejected p o g' reason hkey hl hpass =>
        exact absurd (hno p hl) (hpass (hguard ▸ hlocked))
    · have hother : ∀ s' : Server S, ∀ o g', SetAt m o s s' → GuardAt m g' s s' →
          LockedUntil s' mac t := by
        intro s' o g' hp hg'
        refine ⟨⟨g, by rw [hg' mac, if_neg (Ne.symm hm)]; exact hg, hlu⟩, ?_⟩
        intro p hp'
        rw [hp mac, if_neg (Ne.symm hm)] at hp'
        exact hno p hp'
      have hframe : ¬ ∃ i' raw', Event.frame m i raw = .frame mac i' raw' := by
        rintro ⟨_, _, heq⟩
        injection heq with h1
        exact hm h1
      cases h with
      | ignored hp hh hw =>
        refine ⟨⟨⟨g, ?_, hlu⟩, hp ▸ hno⟩, fun h => absurd h hframe⟩
        rw [guards_of_hand hh]
        exact hg
      | refused p p' reason hl _ hno' hp hsess hcrypto hv hn hg' hw =>
        exact ⟨hother _ _ _ hp hg', fun h => absurd h hframe⟩
      | unauthentic p p' reason hl hpass hres hp hsess hcrypto hv hn hg' hw =>
        exact ⟨hother _ _ _ hp hg', fun h => absurd h hframe⟩
      | accepted p p' sid keys proof hkey user hl hpass hres hp hsess hcrypto hv hn hg' hw =>
        exact ⟨hother _ _ _ hp hg', fun h => absurd h hframe⟩
      | rejected p o g' reason hkey hl hpass hres hp ho hv hn hg' hgc hw =>
        exact ⟨hother _ _ _ hp hg', fun h => absurd h hframe⟩
  | sweep hrun h =>
    have hkept : (s.retainFresh env).guards.lookup mac = some g := by
      rcases hsweep rfl hrun mac g hg with hfresh | ⟨hunlocked, -⟩
      · rw [retainFresh_lookup, hg, Option.filter_some, if_pos (by simpa using hfresh)]
      · rw [hunlocked] at hlocked
        exact absurd hlocked (by simp)
    refine ⟨⟨⟨g, ?_, hlu⟩, ?_⟩, ?_⟩
    · rw [guards_of_hand h.hand_eq]
      exact hkept
    · intro p' hp'
      obtain ⟨p, hp, heq⟩ := h.sess_eq mac p' hp'
      rw [heq]
      exact hno p hp
    · rintro ⟨i, raw, heq⟩
      exact absurd heq (by simp)
  | session e h =>
    obtain ⟨h1, h2⟩ := hmoves _ h
    exact ⟨h1, fun _ => h2⟩

theorem checkedGuard_fails (s : Server S) (mac : Mac) :
    (s.checkedGuard env mac).fails = s.failsOf mac := by
  rw [checkedGuard, failsOf]
  change (s.guardOf env mac).fails = _
  rw [guardOf]
  rcases s.guards.lookup mac with _ | g
  · rfl
  · rfl

theorem recordFailure_locks {g : AuthGuard} {now : Instant}
    (hmore : g.fails < (g.recordFailure now).fails)
    (hmax : maxAuthFails ≤ (g.recordFailure now).fails) :
    (g.recordFailure now).lockedUntil = some (now + authLockout) := by
  have hone : ¬ maxAuthFails ≤ 1 := by decide
  unfold AuthGuard.recordFailure at hmore hmax ⊢
  split
  next hlocked =>
    rw [if_pos hlocked] at hmore
    exact absurd hmore (lt_irrefl _)
  next hlocked =>
    rw [if_neg hlocked] at hmax
    split
    next start hstart =>
      rw [hstart] at hmax
      dsimp only at hmax
      split
      next hwin =>
        rw [if_pos hwin] at hmax
        exact if_pos hmax
      next hwin =>
        rw [if_neg hwin] at hmax
        exact absurd hmax hone
    next hstart =>
      rw [hstart] at hmax
      exact absurd hmax hone

theorem step_countsLast {s : Server S} {mac : Mac} (e : Event)
    (h : CountsLast s (s.step P ops cfg master env e) mac) :
    LockedUntil (s.step P ops cfg master env e) mac (env.now + authLockout) := by
  obtain ⟨hmax, hmore⟩ := h
  have hsame : ∀ s' : Server S, s'.guards.lookup mac = s.guards.lookup mac →
      ¬ s.failsOf mac < s'.failsOf mac := by
    intro s' hs' hlt
    rw [failsOf, failsOf, hs'] at hlt
    exact lt_irrefl _ hlt
  have hset : ∀ (s' : Server S) (m : Mac) (g : AuthGuard), GuardAt m g s s' →
      g.fails ≤ (s.checkedGuard env m).fails → ¬ s.failsOf mac < s'.failsOf mac := by
    intro s' m g hg hle hlt
    by_cases hm : mac = m
    · subst hm
      have hval : s'.failsOf mac = g.fails := by rw [failsOf, hg mac, if_pos rfl]; rfl
      rw [checkedGuard_fails] at hle
      omega
    · exact hsame s' (by rw [hg mac, if_neg hm]) hlt
  cases step_outcome P ops cfg master env s e with
  | discover m i raw l hd h =>
    cases h with
    | ignored hp hh hw => exact absurd hmore (hsame _ (by rw [guards_of_hand hh]))
    | answered id name token hopen p p' hp0 hp hsess hcrypto hv hg hn hw =>
      exact absurd hmore (hsame _ (by rw [hg]))
  | authReq m i raw l hd h =>
    cases h with
    | ignored hp hh hw => exact absurd hmore (hsame _ (by rw [guards_of_hand hh]))
    | refused p p' reason hl _ hno hp hsess hcrypto hv hn hg hw =>
      exact absurd hmore (hset _ m _ hg le_rfl)
    | unauthentic p p' reason hl hpass hres hp hsess hcrypto hv hn hg hw =>
      exact absurd hmore (hset _ m _ hg le_rfl)
    | accepted p p' sid keys proof hkey user hl hpass hres hp hsess hcrypto hv hn hg hw =>
      exact absurd hmore (hset _ m _ hg (Nat.zero_le _))
    | rejected p o g reason hkey hl hpass hres hp ho hv hn hg hgc hw =>
      rcases hgc with rfl | ⟨rfl, -, rfl⟩
      · exact absurd hmore (hset _ m _ hg le_rfl)
      by_cases hm : mac = m
      · subst hm
        have hval : (s.step P ops cfg master env (.frame mac i raw)).failsOf mac =
            ((s.checkedGuard env mac).recordFailure env.now).fails := by
          rw [failsOf, hg mac, if_pos rfl]
          rfl
        rw [hval, ← checkedGuard_fails env] at hmore
        rw [hval] at hmax
        refine ⟨⟨_, by rw [hg mac, if_pos rfl], recordFailure_locks hmore hmax⟩, ?_⟩
        intro q hq
        rw [hp mac, if_pos rfl] at hq
        exact absurd hq (by simp)
      · exact absurd hmore (hsame _ (by rw [hg mac, if_neg hm]))
  | sweep hrun h =>
    have hle : ¬ s.failsOf mac < (s.step P ops cfg master env .sweep).failsOf mac := by
      rw [failsOf, failsOf, guards_of_hand h.hand_eq, retainFresh_lookup]
      rcases s.guards.lookup mac with _ | g
      · exact lt_irrefl _
      · rw [Option.filter_some]
        split
        · exact lt_irrefl _
        · exact Nat.not_lt_zero _
    exact absurd hmore hle
  | session e h => exact absurd hmore (hsame _ (by rw [guards_of_hand h.hand_eq]))

end Steps

section Runs

variable (P : Primitives) (ops : StackOps S Sock) (cfg : ServerConfig) (master : MasterKey)

def stateAt (now : Instant) (events : List (ServerEnv × Event)) (n : ℕ) : Server S :=
  (Server.init now : Server S).run P ops cfg master (events.take n)

theorem stateAt_succ (now : Instant) (events : List (ServerEnv × Event)) (n : ℕ)
    (e : ServerEnv × Event) (he : events[n]? = some e) :
    (stateAt P ops cfg master now events (n + 1) : Server S) =
      (stateAt P ops cfg master now events n).step P ops cfg master e.1 e.2 := by
  rw [stateAt, List.take_add_one, he, Option.toList_some, run, List.foldl_append]
  rfl

def Timed (events : List (ServerEnv × Event)) : Prop :=
  events.Pairwise (fun a b => a.1.now ≤ b.1.now)

/-- After the failure that locks a MAC, none of its AUTH_REQs is verified for the full
lockout. -/
def LockoutHolds (now : Instant) (events : List (ServerEnv × Event)) : Prop :=
  ∀ i j a b mac ifindex raw l, i < j → events[i]? = some a → events[j]? = some b →
    b.2 = .frame mac ifindex raw → decode raw = .ok l → l.msgType = typeAuthReq →
    CountsLast (stateAt P ops cfg master now events i : Server S)
      (stateAt P ops cfg master now events (i + 1)) mac →
    b.1.now < a.1.now + authLockout →
    (stateAt P ops cfg master now events (j + 1) : Server S).verdicts =
      (stateAt P ops cfg master now events j : Server S).verdicts

def RetainSafe (now : Instant) (events : List (ServerEnv × Event)) : Prop :=
  ∀ n e mac g, events[n]? = some e → e.2 = .sweep →
    (stateAt P ops cfg master now events n : Server S).guards.lookup mac = some g →
    (g.locked e.1.now = true ∨ g.windowOpen e.1.now = true) →
    (stateAt P ops cfg master now events (n + 1) : Server S).guards.lookup mac = some g

def SweepsKeep (now : Instant) (events : List (ServerEnv × Event)) : Prop :=
  ∀ n e, events[n]? = some e → e.2 = .sweep →
    (stateAt P ops cfg master now events n : Server S).running = true →
    (stateAt P ops cfg master now events n : Server S).SweepKeeps e.1.now

theorem Timed.le {events : List (ServerEnv × Event)} (ht : Timed events) {i j : ℕ} (hij : i ≤ j)
    {a b : ServerEnv × Event} (ha : events[i]? = some a) (hb : events[j]? = some b) :
    a.1.now ≤ b.1.now := by
  obtain ⟨hi, rfl⟩ := List.getElem?_eq_some_iff.mp ha
  obtain ⟨hj, rfl⟩ := List.getElem?_eq_some_iff.mp hb
  rcases Nat.eq_or_lt_of_le hij with rfl | hlt
  · exact le_rfl
  · exact List.pairwise_iff_getElem.mp ht i j hi hj hlt

theorem stateAt_locked {now : Instant} {events : List (ServerEnv × Event)} (ht : Timed events)
    (hsweeps : SweepsKeep (S := S) P ops cfg master now events) {mac : Mac} {t : Instant} {i j : ℕ}
    (hij : i ≤ j) (hs : LockedUntil (stateAt P ops cfg master now events i : Server S) mac t)
    {b : ServerEnv × Event} (hb : events[j]? = some b) (hbt : b.1.now < t) :
    LockedUntil (stateAt P ops cfg master now events j : Server S) mac t := by
  obtain ⟨k, rfl⟩ := Nat.exists_eq_add_of_le hij
  clear hij
  -- Induction on the number of events in between, each of them before `t`.
  induction k generalizing b with
  | zero => exact hs
  | succ k ih =>
    have hlen : i + k < events.length := by
      obtain ⟨hj, -⟩ := List.getElem?_eq_some_iff.mp hb
      omega
    have hprev : events[i + k]? = some events[i + k] := List.getElem?_eq_getElem hlen
    have hle := ht.le (by omega : i + k ≤ i + (k + 1)) hprev hb
    have hnow : events[i + k].1.now < t := lt_of_le_of_lt hle hbt
    have hmid := ih hnow hprev
    have hstep := (step_locked P ops cfg master events[i + k].1 hmid hnow events[i + k].2
      (fun he hr => hsweeps (i + k) _ hprev he hr)).1
    rw [← stateAt_succ P ops cfg master now events (i + k) _ hprev] at hstep
    exact hstep

theorem lockoutHolds_of_sweepsKeep {now : Instant} {events : List (ServerEnv × Event)}
    (ht : Timed events) (hsweeps : SweepsKeep (S := S) P ops cfg master now events) :
    LockoutHolds (S := S) P ops cfg master now events := by
  intro i j a b mac ifindex raw l hij ha hb hframe _ _ hcount hbt
  have hsucc := stateAt_succ (S := S) P ops cfg master now events i a ha
  rw [hsucc] at hcount
  have hlock := step_countsLast P ops cfg master a.1 a.2 hcount
  rw [← hsucc] at hlock
  have hat := stateAt_locked P ops cfg master ht hsweeps hij hlock hb hbt
  have hstep := (step_locked P ops cfg master b.1 hat hbt b.2
    (fun he hr => hsweeps j b hb he hr)).2 ⟨ifindex, raw, hframe⟩
  rw [stateAt_succ P ops cfg master now events j b hb]
  exact hstep

theorem sweep_lookup {s : Server S} (env : ServerEnv) (mac : Mac) (hrun : s.running = true) :
    (s.step P ops cfg master env .sweep).guards.lookup mac =
      (s.guards.lookup mac).filter (fun g => env.now - g.lastSeen ≤ staleAfter) := by
  have hsweep : s.step P ops cfg master env .sweep = s.onSweep P env := by
    simp only [step, hrun, if_true]
  rw [hsweep, guards_of_hand (onSweep_session P env s).hand_eq, retainFresh_lookup]

theorem retainSafe_iff_sweepsKeep (now : Instant) (events : List (ServerEnv × Event)) :
    RetainSafe (S := S) P ops cfg master now events ↔
      SweepsKeep (S := S) P ops cfg master now events := by
  constructor
  · intro h n e he hsw hrun mac g hg
    by_cases hfresh : e.1.now - g.lastSeen ≤ staleAfter
    · exact Or.inl hfresh
    right
    by_contra hopen
    have hor : g.locked e.1.now = true ∨ g.windowOpen e.1.now = true := by
      rcases hl : g.locked e.1.now with _ | _
      · rcases hw : g.windowOpen e.1.now with _ | _
        · exact absurd ⟨hl, hw⟩ hopen
        · exact Or.inr rfl
      · exact Or.inl rfl
    have hkept := h n e mac g he hsw hg hor
    rw [stateAt_succ P ops cfg master now events n e he, hsw, sweep_lookup P ops cfg master e.1 mac hrun,
      hg, Option.filter_some, if_neg (by simpa using hfresh)] at hkept
    exact absurd hkept (by simp)
  · intro h n e mac g he hsw hg hor
    rw [stateAt_succ P ops cfg master now events n e he, hsw]
    by_cases hrun : (stateAt P ops cfg master now events n : Server S).running = true
    · rw [sweep_lookup P ops cfg master e.1 mac hrun, hg]
      rcases h n e he hsw hrun mac g hg with hfresh | ⟨hl, hw⟩
      · rw [Option.filter_some, if_pos (by simpa using hfresh)]
      · rw [hl, hw] at hor
        exact absurd hor (by simp)
    · have hidle : (stateAt P ops cfg master now events n : Server S).step P ops cfg master e.1 .sweep =
          stateAt P ops cfg master now events n := by
        simp only [step, hrun, if_false, Bool.false_eq_true]
      rw [hidle]
      exact hg

/-- The lockout holds for its whole length, and no sweep forgets a lockout or an open
window, exactly on the runs whose sweeps drop no guard that is still needed. -/
theorem lockout_iff_sweepsKeep (now : Instant) (events : List (ServerEnv × Event))
    (ht : Timed events) :
    (LockoutHolds (S := S) P ops cfg master now events ∧
        RetainSafe (S := S) P ops cfg master now events) ↔
      SweepsKeep (S := S) P ops cfg master now events := by
  rw [retainSafe_iff_sweepsKeep]
  constructor
  · exact fun h => h.2
  · exact fun h => ⟨lockoutHolds_of_sweepsKeep P ops cfg master ht h, h⟩

def sweepsKeep (now : Instant) (events : List (ServerEnv × Event)) : Bool :=
  (List.range events.length).all (fun n =>
    match events[n]? with
    | some (env, .sweep) =>
      (stateAt P ops cfg master now events n : Server S).guards.entries.all (fun e =>
        decide (env.now - e.2.lastSeen ≤ staleAfter) ||
          (!e.2.locked env.now && !e.2.windowOpen env.now))
    | _ => true)

theorem sweepsKeep_sound {now : Instant} {events : List (ServerEnv × Event)}
    (h : sweepsKeep (S := S) P ops cfg master now events = true) :
    SweepsKeep (S := S) P ops cfg master now events := by
  intro n e he hsw _ mac g hg
  obtain ⟨hn, -⟩ := List.getElem?_eq_some_iff.mp he
  have hmem : (⟨mac, g⟩ : Sigma (fun _ : Mac => AuthGuard)) ∈
      (stateAt P ops cfg master now events n : Server S).guards.entries :=
    AList.mem_lookup_iff.mp hg
  have hall := List.all_eq_true.mp h n (List.mem_range.mpr hn)
  obtain ⟨env, ev⟩ := e
  obtain rfl : ev = .sweep := hsw
  rw [he] at hall
  have hone := List.all_eq_true.mp hall _ hmem
  simpa using hone

end Runs

def sampleFailures : List (ServerEnv × Event) :=
  [1, 2, 3, 4, 5].flatMap (fun i : UInt64 =>
    [sampleFrame 0 (10 + i) (sampleDiscover i),
      sampleFrame 0 0 (sampleAuthReq (10 + i) (20 + i) (edgeDigest []))])

def sampleLockout (sweeps time : ℕ) : List (ServerEnv × Event) :=
  sampleFailures ++
  (List.range sweeps).map (fun k => (sampleEnv ((5 * k + 5) * second) 0, .sweep)) ++
  [sampleFrame (time * second) 16 (sampleDiscover 6), sampleFrame (time * second) 0 (sampleLogin 16 26)]

/-- Up to the 45th second the lockout is safe from the sweeps. -/
theorem lockout_sample :
    Timed (sampleLockout 9 46) ∧
      LockoutHolds (S := TableStack) sampleP tableStackOps sampleConfig sampleMaster 0
        (sampleLockout 9 46) := by
  have ht : Timed (sampleLockout 9 46) := by
    unfold Timed
    decide +kernel
  refine ⟨ht, ?_⟩
  apply ((lockout_iff_sweepsKeep sampleP tableStackOps sampleConfig sampleMaster 0
    (sampleLockout 9 46) ht).mpr ?_).1
  apply sweepsKeep_sound
  decide +kernel

/-- The sweep of the 50th second drops the guard, and the login of the 51st is verified
although the lockout runs until the 60th. -/
theorem sampleLockout_forgotten :
    ¬ (LockoutHolds (S := TableStack) sampleP tableStackOps sampleConfig sampleMaster 0
        (sampleLockout 10 51) ∧
      RetainSafe (S := TableStack) sampleP tableStackOps sampleConfig sampleMaster 0
        (sampleLockout 10 51)) := by
  rintro ⟨h, -⟩
  obtain ⟨l, hd, ht⟩ : ∃ l, decode (sampleLogin 16 26) = .ok l ∧ l.msgType = typeAuthReq := by
    have hcheck : (decode (sampleLogin 16 26)).toOption.any (fun l => l.msgType == typeAuthReq) := by
      decide +kernel
    rcases hd : decode (sampleLogin 16 26) with e | l
    · rw [hd] at hcheck
      exact absurd hcheck (by simp [Except.toOption])
    · rw [hd] at hcheck
      exact ⟨l, rfl, by simpa [Except.toOption] using hcheck⟩
  have hsame := h 9 21 (sampleFrame 0 0 (sampleAuthReq 15 25 (edgeDigest [])))
    (sampleFrame (51 * second) 0 (sampleLogin 16 26)) sampleMac 1 (sampleLogin 16 26) l (by decide)
    rfl rfl rfl hd ht (by unfold CountsLast; decide +kernel) (by decide)
  have hlen := congrArg List.length hsame
  exact absurd hlen (by decide +kernel)

end Server

end LandscapeKit.Flare
