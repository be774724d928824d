import LandscapeKit.DaemonPidfile

/-!
At most one daemon serves as long as no two of them are between the reading and the rename at
once: then the pidfile is the line of the one that serves.
-/

namespace LandscapeKit.Daemon.Pidfile

open Text Replace

section Claims

variable (s : State)

def Serves (p : Pid) : Prop := s.phase p = some .serving

def Phase.isBeyond : Phase → Bool
  | .cleared | .writing .. => true
  | _ => false

def Phase.isInside : Phase → Bool
  | .checking _ => true
  | phase => phase.isBeyond

def Inside (p : Pid) : Prop := ∃ phase, s.phase p = some phase ∧ phase.isInside = true

def RefusesRightly (e : Event) (s' : State) : Prop :=
  ∀ p pid, e = .check p → s'.phase p = some (.refused pid) →
    ∃ q, q ≠ p ∧ q.val = pid ∧ Serves s q

def RemovesOwn (e : Event) : Prop :=
  ∀ p content, e = .terminate p → s.disk.read = some content → content = line p

/-- In every run whose steps are allowed one daemon serves at most, a refusal has its reason, and
no daemon removes the file of another one. -/
def DaemonUnique (allowed : State → Event → Prop) : Prop :=
  ∀ s₀ s, Start s₀ → Reached allowed s₀ s →
    (∀ p q, Serves s p → Serves s q → p = q) ∧
      ∀ e s', allowed s e → Step s e s' → RefusesRightly s e s' ∧ RemovesOwn s e

/-- The number that is asked about is not the caller's group, nor another program, nor a daemon
that does not serve, nor a group that exists. -/
def Tells (p : Pid) (pid : ℕ) : Prop :=
  pid ≠ 0 ∧ (∀ q : Pid, q.val = pid → (s.procs q).isSome → Serves s q) ∧
    (2 ^ 31 ≤ pid → ¬ s.Alive p pid)

/-- A daemon reads the pidfile while no other one is at it, and asks about a number that tells
whether one serves. -/
def Orderly : Event → Prop
  | .read p => ∀ q, q ≠ p → ¬ Inside s q
  | .check p => ∀ pid, s.phase p = some (.checking (some pid)) → Tells s p pid
  | _ => True

end Claims

section Invariant

structure Inv (s : State) : Prop where
  sound : s.disk.Sound
  begun : ∀ p inode offset, s.phase p = some (.writing inode offset) →
    s.disk.tmp = some inode ∧ offset ≤ (line p).length ∧
      s.disk.content inode = (line p).take offset
  alone : ∀ p q, Inside s p → Inside s q → p = q
  own : ∀ p, Serves s p → s.disk.read = some (line p)
  /-- A daemon that has read the pidfile while another one serves knows of it. -/
  told : ∀ p q recorded, s.phase p = some (.checking recorded) → Serves s q →
    recorded = some q.val
  vacant : ∀ p q phase, s.phase p = some phase → phase.isBeyond = true → ¬ Serves s q

variable {s s' : State} {p q : Pid}

theorem Start.inv (h : Start s) : Inv s where
  sound := h.sound
  begun p inode offset hp := by cases h.idle p _ hp
  alone p q hp := by
    obtain ⟨phase, hphase, hinside⟩ := hp
    rw [h.idle p _ hphase] at hinside
    cases hinside
  own p hp := by cases h.idle p _ hp
  told p q recorded hp := by cases h.idle p _ hp
  vacant p q phase hp _ hq := by cases h.idle q _ hq

theorem Inv.one (h : Inv s) (hp : Serves s p) (hq : Serves s q) : p = q := by
  have hline : line p = line q := Option.some.inj ((h.own p hp).symm.trans (h.own q hq))
  have hnumber := read_line p
  rw [hline, read_line q] at hnumber
  exact Subtype.ext (Option.some.inj hnumber).symm

theorem Inv.quiet (h : Inv s) (hdisk : s'.disk = s.disk)
    (hphase : ∀ q phase, s'.phase q = some phase →
      s.phase q = some phase ∨ phase.isInside = false ∧ phase ≠ .serving) : Inv s' := by
  have hinside : ∀ q, Inside s' q → Inside s q := by
    rintro q ⟨phase, hq, hin⟩
    rcases hphase q phase hq with hsame | ⟨hout, -⟩
    · exact ⟨phase, hsame, hin⟩
    · rw [hin] at hout
      cases hout
  have hserves : ∀ q, Serves s' q → Serves s q := by
    intro q hq
    rcases hphase q _ hq with hsame | ⟨-, hno⟩
    · exact hsame
    · exact absurd rfl hno
  have hkept : ∀ q phase, s'.phase q = some phase → phase.isInside = true →
      s.phase q = some phase := by
    intro q phase hq hin
    rcases hphase q phase hq with hsame | ⟨hout, -⟩
    · exact hsame
    · rw [hin] at hout
      cases hout
  constructor
  · rw [hdisk]
    exact h.sound
  · intro q inode offset hq
    rw [hdisk]
    exact h.begun q inode offset (hkept q _ hq rfl)
  · intro q r hq hr
    exact h.alone q r (hinside q hq) (hinside r hr)
  · intro q hq
    rw [hdisk]
    exact h.own q (hserves q hq)
  · intro q r recorded hq hr
    exact h.told q r recorded (hkept q _ hq rfl) (hserves r hr)
  · intro q r phase hq hbeyond hr
    have hin : phase.isInside = true := by
      cases phase <;> first | rfl | cases hbeyond
    exact h.vacant q r phase (hkept q phase hq hin) hbeyond (hserves r hr)

theorem Inv.leave (h : Inv s) {before after : Phase} (hp : s.phase p = some before)
    (hout : after.isInside = false) (hno : after ≠ .serving) : Inv (s.enter p after s.disk) := by
  apply h.quiet
  · rfl
  intro q phase hq
  rcases eq_or_ne q p with rfl | hqp
  · rw [State.enter_phase_self hp] at hq
    cases hq
    exact .inr ⟨hout, hno⟩
  · rw [State.enter_phase_of_ne hqp] at hq
    exact .inl hq

theorem Inv.busy (h : Inv s) {before after : Phase} {d : Replace.Disk UInt8}
    (hp : s.phase p = some before) (hin : before.isInside = true) (hafter : after.isBeyond = true)
    (hnobody : ∀ q, ¬ Serves s q) (sound : d.Sound)
    (begun : ∀ inode offset, after = .writing inode offset →
      d.tmp = some inode ∧ offset ≤ (line p).length ∧ d.content inode = (line p).take offset) :
    Inv (s.enter p after d) := by
  have hself : (s.enter p after d).phase p = some after := State.enter_phase_self hp
  have honly : ∀ q phase, (s.enter p after d).phase q = some phase → phase.isInside = true →
      q = p := by
    intro q phase hq hinside
    by_contra hqp
    rw [State.enter_phase_of_ne hqp] at hq
    exact hqp (h.alone q p ⟨phase, hq, hinside⟩ ⟨before, hp, hin⟩)
  have hnone : ∀ q, ¬ Serves (s.enter p after d) q := by
    intro q hq
    rcases eq_or_ne q p with rfl | hqp
    · rw [Serves, hself] at hq
      cases hq
      cases hafter
    · rw [Serves, State.enter_phase_of_ne hqp] at hq
      exact hnobody q hq
  constructor
  · exact sound
  · intro q inode offset hq
    obtain rfl := honly q _ hq rfl
    rw [hself] at hq
    exact begun inode offset (Option.some.inj hq)
  · rintro q r ⟨phase, hq, hqin⟩ ⟨phase', hr, hrin⟩
    rw [honly q phase hq hqin, honly r phase' hr hrin]
  · intro q hq
    exact absurd hq (hnone q)
  · intro q r recorded hq hr
    exact absurd hr (hnone r)
  · intro q r phase hq hbeyond
    exact hnone r

theorem Inv.enters (h : Inv s) (halone : ∀ q, q ≠ p → ¬ Inside s q)
    (hp : s.phase p = some .starting) : Inv (s.enter p (.checking s.recorded) s.disk) := by
  have hself : (s.enter p (.checking s.recorded) s.disk).phase p = some (.checking s.recorded) :=
    State.enter_phase_self hp
  have hserves : ∀ q, Serves (s.enter p (.checking s.recorded) s.disk) q → Serves s q := by
    intro q hq
    rcases eq_or_ne q p with rfl | hqp
    · rw [Serves, hself] at hq
      cases hq
    · rwa [Serves, State.enter_phase_of_ne hqp] at hq
  have honly : ∀ q phase, (s.enter p (.checking s.recorded) s.disk).phase q = some phase →
      phase.isInside = true → q = p := by
    intro q phase hq hin
    by_contra hqp
    rw [State.enter_phase_of_ne hqp] at hq
    exact halone q hqp ⟨phase, hq, hin⟩
  constructor
  · exact h.sound
  · intro q inode offset hq
    obtain rfl := honly q _ hq rfl
    rw [hself] at hq
    cases hq
  · rintro q r ⟨phase, hq, hqin⟩ ⟨phase', hr, hrin⟩
    rw [honly q phase hq hqin, honly r phase' hr hrin]
  · intro q hq
    exact h.own q (hserves q hq)
  · intro q r recorded hq hr
    obtain rfl := honly q _ hq rfl
    rw [hself] at hq
    cases hq
    exact State.recorded_of_read (h.own r (hserves r hr))
  · intro q r phase hq hbeyond
    have hin : phase.isInside = true := by
      cases phase <;> first | rfl | cases hbeyond
    obtain rfl := honly q phase hq hin
    rw [hself] at hq
    cases hq
    cases hbeyond

theorem Inv.serve (h : Inv s) {inode : ℕ}
    (hp : s.phase p = some (.writing inode (line p).length)) :
    Inv (s.enter p .serving s.disk.rename) := by
  obtain ⟨htmp, -, hcontent⟩ := h.begun p inode _ hp
  rw [List.take_length] at hcontent
  have hself : (s.enter p .serving s.disk.rename).phase p = some .serving :=
    State.enter_phase_self hp
  have hnone : ∀ q, ¬ Inside (s.enter p .serving s.disk.rename) q := by
    rintro q ⟨phase, hq, hin⟩
    rcases eq_or_ne q p with rfl | hqp
    · rw [hself] at hq
      cases hq
      cases hin
    · rw [State.enter_phase_of_ne hqp] at hq
      exact hqp (h.alone q p ⟨phase, hq, hin⟩ ⟨_, hp, rfl⟩)
  constructor
  · exact h.sound.rename
  · intro q inode offset hq
    exact absurd ⟨_, hq, rfl⟩ (hnone q)
  · intro q r hq
    exact absurd hq (hnone q)
  · intro q hq
    rcases eq_or_ne q p with rfl | hqp
    · simp [State.enter, Replace.Disk.rename, Replace.Disk.read, htmp, hcontent]
    · rw [Serves, State.enter_phase_of_ne hqp] at hq
      exact absurd hq (h.vacant p q _ hp rfl)
  · intro q r recorded hq
    exact absurd ⟨_, hq, rfl⟩ (hnone q)
  · intro q r phase hq hbeyond
    have hin : phase.isInside = true := by
      cases phase <;> first | rfl | cases hbeyond
    exact absurd ⟨phase, hq, hin⟩ (hnone q)

theorem Inv.remove (h : Inv s) (hp : Serves s p) :
    Inv (s.enter p .stopped { s.disk with file := none }) := by
  have hself : (s.enter p .stopped { s.disk with file := none }).phase p = some .stopped :=
    State.enter_phase_self hp
  have hnobody : ∀ q, ¬ Serves (s.enter p .stopped { s.disk with file := none }) q := by
    intro q hq
    rcases eq_or_ne q p with rfl | hqp
    · rw [Serves, hself] at hq
      cases hq
    · rw [Serves, State.enter_phase_of_ne hqp] at hq
      exact hqp (h.one hq hp)
  have hkept : ∀ q phase, (s.enter p .stopped { s.disk with file := none }).phase q = some phase →
      phase.isInside = true → s.phase q = some phase := by
    intro q phase hq hin
    rcases eq_or_ne q p with rfl | hqp
    · rw [hself] at hq
      cases hq
      cases hin
    · rwa [State.enter_phase_of_ne hqp] at hq
  constructor
  · exact ⟨nofun, h.sound.tmp_old, fun _ _ => nofun⟩
  · intro q inode offset hq
    exact h.begun q inode offset (hkept q _ hq rfl)
  · rintro q r ⟨phase, hq, hqin⟩ ⟨phase', hr, hrin⟩
    exact h.alone q r ⟨phase, hkept q phase hq hqin, hqin⟩ ⟨phase', hkept r phase' hr hrin, hrin⟩
  · intro q hq
    exact absurd hq (hnobody q)
  · intro q r recorded _ hr
    exact absurd hr (hnobody r)
  · intro q r phase _ _
    exact hnobody r

theorem Inv.step (h : Inv s) {e : Event} (ok : Orderly s e) (done : Step s e s') : Inv s' := by
  cases done with
  | @spawn p group isDaemon free =>
    apply h.quiet
    · rfl
    intro q phase hq
    rcases eq_or_ne q p with rfl | hqp
    · -- the new process has not begun
      have hstarting : phase = .starting := by
        simp only [State.phase, State.setProc, Function.update_self, Option.bind_some] at hq
        split at hq
        · exact (Option.some.inj hq).symm
        · cases hq
      rw [hstarting]
      exact .inr ⟨rfl, by rintro ⟨⟩⟩
    · rw [State.setProc_phase_of_ne hqp] at hq
      exact .inl hq
  | @vanish p =>
    apply h.quiet
    · rfl
    intro q phase hq
    rcases eq_or_ne q p with rfl | hqp
    · simp only [State.phase, State.setProc, Function.update_self, Option.bind_none] at hq
      cases hq
    · rw [State.setProc_phase_of_ne hqp] at hq
      exact .inl hq
  | @read p now => exact h.enters ok now
  | @refuse p pid now alive => exact h.leave now rfl (by rintro ⟨⟩)
  | @clear p recorded now dead =>
    have hnobody : ∀ q, ¬ Serves s q := by
      intro q hq
      exact dead q.val (h.told p q recorded now hq) (State.alive_of_phase hq p)
    apply h.busy now rfl rfl hnobody h.sound
    intro inode offset hphase
    cases hphase
  | @openTmp p now =>
    apply h.busy now rfl rfl (fun q => h.vacant p q _ now rfl) h.sound.openTmp
    intro inode offset hphase
    cases hphase
    exact ⟨rfl, Nat.zero_le _, by simp [Replace.Disk.openTmp]⟩
  | @write p inode offset n now =>
    obtain ⟨htmp, hoffset, hcontent⟩ := h.begun p inode offset now
    apply h.busy now rfl rfl (fun q => h.vacant p q _ now rfl) (h.sound.write inode offset _)
    intro inode' offset' hphase
    cases hphase
    refine ⟨htmp, ?_, ?_⟩
    · rw [List.length_take, List.length_drop]
      omega
    · simp only [Replace.Disk.write, Function.update_self, hcontent]
      exact writeAt_take hoffset n
  | @rename p inode i now tmp => exact h.serve now
  | @fail p now =>
    obtain ⟨before, hbefore⟩ : ∃ before, s.phase p = some before := by
      rcases now with hp | hp | ⟨inode, offset, hp⟩
      · exact ⟨_, hp⟩
      · exact ⟨_, hp⟩
      · exact ⟨_, hp⟩
    exact h.leave hbefore rfl (by rintro ⟨⟩)
  | @terminate p now => exact h.remove now

theorem Reached.inv {s₀ : State} (start : Start s₀) (h : Reached Orderly s₀ s) : Inv s := by
  induction h with
  | start => exact start.inv
  | step _ ok done ih => exact ih.step ok done

end Invariant

section Runs

theorem Reached.mono {allowed allowed' : State → Event → Prop} {s₀ : State}
    (hallowed : ∀ s e, allowed s e → allowed' s e) (h : Reached allowed s₀ s) :
    Reached allowed' s₀ s := by
  induction h with
  | start => exact .start
  | step _ ok done ih => exact ih.step (hallowed _ _ ok) done

/-- In orderly runs one daemon serves at most, a refusal names it, and nobody removes its file. -/
theorem daemonUnique_orderly (allowed : State → Event → Prop)
    (hallowed : ∀ s e, allowed s e → Orderly s e) : DaemonUnique allowed := by
  intro s₀ s start reached
  have h := (reached.mono hallowed).inv start
  refine ⟨fun p q hp hq => h.one hp hq, ?_⟩
  intro e s' ok done
  replace ok := hallowed s e ok
  constructor
  · rintro p pid rfl hrefused
    cases done with
    | @refuse _ pid' now alive =>
      rw [State.enter_phase_self now] at hrefused
      cases hrefused
      obtain ⟨hzero, hprocess, hgroup⟩ := ok pid now
      by_cases hpid : pid < 2 ^ 31
      · rw [State.Alive, if_neg hzero, if_pos hpid] at alive
        obtain ⟨q, hq, hsome⟩ := alive
        have hserves := hprocess q hq hsome
        refine ⟨q, ?_, hq, hserves⟩
        rintro rfl
        rw [Serves, now] at hserves
        cases hserves
      · exact absurd alive (hgroup (by omega))
    | @clear _ recorded now dead =>
      rw [State.enter_phase_self now] at hrefused
      cases hrefused
  · rintro p content rfl hread
    cases done with
    | terminate now =>
      rw [h.own p now] at hread
      exact (Option.some.inj hread).symm

theorem daemonIsRunning_of_serves {s₀ s : State} {p : Pid} (start : Start s₀)
    (reached : Reached Orderly s₀ s) (h : Serves s p) (caller : Pid) : s.DaemonIsRunning caller :=
  ⟨p.val, State.recorded_of_read ((reached.inv start).own p h), State.alive_of_phase h caller⟩

end Runs

section Disorder

def ten : Pid := ⟨10, by decide⟩

def eleven : Pid := ⟨11, by decide⟩

def emptyState : State := ⟨⟨fun _ => [], none, none, 0⟩, fun _ => none⟩

def staleState : State := ⟨⟨fun _ => line ten, some 0, none, 1⟩, fun _ => none⟩

theorem exists_serves : ∃ s, Reached Orderly emptyState s ∧ Serves s ten := by
  have h : Reached Orderly emptyState emptyState := .start
  have h := h.step (e := .spawn ten 1 true) trivial (.spawn 1 true rfl)
  have h := h.step (e := .read ten) (fun q hq ⟨phase, hphase, _⟩ => by
    rw [State.setProc_phase_of_ne hq] at hphase
    cases hphase) (.read rfl)
  have h := h.step (e := .check ten) (fun pid hpid => by cases hpid) (.clear rfl nofun)
  have h := h.step (e := .openTmp ten) trivial (.openTmp rfl)
  have h := h.step (e := .write ten 3) trivial (.write 3 rfl)
  have h := h.step (e := .rename ten) trivial (.rename rfl rfl)
  exact ⟨_, h, rfl⟩

theorem start_emptyState : Start emptyState := ⟨nofun, nofun, nofun, nofun⟩

theorem daemonIsRunning_of_serves_ten :
    ∃ s, Reached Orderly emptyState s ∧ s.DaemonIsRunning eleven := by
  obtain ⟨s, reached, serves⟩ := exists_serves
  exact ⟨s, reached, daemonIsRunning_of_serves start_emptyState reached serves eleven⟩

theorem daemonUnique_orderly_ten : ∃ s, Reached Orderly emptyState s ∧ Serves s ten ∧
    ∀ q, Serves s q → q = ten := by
  obtain ⟨s, hreached, hserves⟩ := exists_serves
  have hunique := daemonUnique_orderly Orderly (fun _ _ h => h) emptyState s start_emptyState
    hreached
  exact ⟨s, hreached, hserves, fun q hq => hunique.1 q ten hq hserves⟩

theorem exists_two : ∃ s, Reached (fun _ _ => True) emptyState s ∧ Serves s ten ∧
    Serves s eleven := by
  have h : Reached (fun _ _ => True) emptyState emptyState := .start
  have h := h.step trivial (.spawn (p := ten) 1 true rfl)
  have h := h.step trivial (.spawn (p := eleven) 1 true rfl)
  have h := h.step trivial (.read (p := ten) rfl)
  have h := h.step trivial (.read (p := eleven) rfl)
  have h := h.step trivial (.clear (p := ten) rfl nofun)
  have h := h.step trivial (.clear (p := eleven) rfl nofun)
  have h := h.step trivial (.openTmp (p := ten) rfl)
  have h := h.step trivial (.write (p := ten) 3 rfl)
  have h := h.step trivial (.rename (p := ten) rfl rfl)
  have h := h.step trivial (.openTmp (p := eleven) rfl)
  have h := h.step trivial (.write (p := eleven) 3 rfl)
  have h := h.step trivial (.rename (p := eleven) rfl rfl)
  exact ⟨_, h, rfl, rfl⟩

theorem exists_refused_by_itself : ∃ s s', Reached (fun _ _ => True) staleState s ∧
    Step s (.check ten) s' ∧ s'.phase ten = some (.refused 10) := by
  have h : Reached (fun _ _ => True) staleState staleState := .start
  have h := h.step trivial (.spawn (p := ten) 1 true rfl)
  have hread := State.recorded_of_read (s := staleState) (p := ten) rfl
  have h := h.step trivial (.read (p := ten) rfl)
  have hphase : (((staleState.setProc ten (some ⟨1, some .starting⟩)).enter ten
      (.checking staleState.recorded) staleState.disk)).phase ten =
        some (.checking (some 10)) := by
    rw [hread]
    rfl
  exact ⟨_, _, h, .refuse hphase (State.alive_of_phase hphase ten), rfl⟩

/-- Two daemons that start together both serve, and one that starts with its old number refuses
itself. -/
theorem not_daemonUnique : ¬ DaemonUnique (fun _ _ => True) ∧
    ∃ s s', Reached (fun _ _ => True) staleState s ∧ Step s (.check ten) s' ∧
      ¬ RefusesRightly s (.check ten) s' := by
  constructor
  · intro h
    obtain ⟨s, hreached, hten, heleven⟩ := exists_two
    have hsame := (h emptyState s start_emptyState hreached).1 ten eleven hten heleven
    exact absurd hsame (by decide)
  · obtain ⟨s, s', hreached, hstep, hrefused⟩ := exists_refused_by_itself
    refine ⟨s, s', hreached, hstep, fun h => ?_⟩
    obtain ⟨q, hother, hq, -⟩ := h ten 10 rfl hrefused
    exact hother (Subtype.ext hq)

end Disorder

end LandscapeKit.Daemon.Pidfile
