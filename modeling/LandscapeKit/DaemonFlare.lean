import LandscapeKit.ConfigSecret

/-!
The flare server hosted by the daemon: one task, looked at once in every cycle.
A task that has exited is started again, a changed section restarts it, and a
configuration that cannot be used leaves it alone.
-/

namespace LandscapeKit.Daemon

open Config

structure FlareTask where
  flare : FlareSection
  args : ServeArgs
  finished : Bool
  spawned : spawnFlareFrom flare = some args

def FlareTask.spawn (flare : FlareSection) : Option FlareTask :=
  match h : spawnFlareFrom flare with
  | none => none
  | some args => some ⟨flare, args, false, h⟩

def flareNeedsRestart (running current : FlareSection) : Bool :=
  current.psk.isSome && decide (current ≠ running)

def reloadFlare (d : Deserializer) (running : Option FlareTask) (config : ConfigFile) :
    Option FlareTask :=
  match running with
  -- a daemon that could not start its server at boot never looks again
  | none => none
  | some running =>
    -- a finished task comes back with the section it had, before the file is read
    if running.finished then FlareTask.spawn running.flare
    else
      match loadFlare d config with
      | none => some running
      | some current =>
        if flareNeedsRestart running.flare current then FlareTask.spawn current
        else some running

structure State where
  task : Option FlareTask
  config : ConfigFile

def State.boot (d : Deserializer) (psk : String) (written : Bool) (f : ConfigFile) : State :=
  match effectiveFlareConfig d psk written f with
  | (.ok flare, f') => ⟨FlareTask.spawn flare, f'⟩
  | (.error _, f') => ⟨none, f'⟩

inductive Event where
  | replaced (f : ConfigFile)
  | exited
  | cycle

def State.step (d : Deserializer) (s : State) : Event → State
  | .replaced f => { s with config := f }
  | .exited => { s with task := s.task.map (fun t => { t with finished := true }) }
  | .cycle => { s with task := reloadFlare d s.task s.config }

def State.run (d : Deserializer) (s : State) (events : List Event) : State :=
  events.foldl (State.step d) s

def State.wanted (d : Deserializer) (s : State) : Option FlareSection :=
  (loadFlare d s.config).filter (·.psk.isSome)

def HostsAfter (d : Deserializer) (s : State) (flare : FlareSection) : Prop :=
  ∃ t, (s.step d .cycle).task = some t ∧ t.finished = false ∧ t.flare = flare

def Follows (d : Deserializer) (s : State) : Prop :=
  (∀ flare, s.wanted d = some flare → HostsAfter d s flare) ∧
  (∀ t, s.task = some t → s.wanted d = none → HostsAfter d s t.flare)

/-- The file asks for nothing the early returns of a cycle would miss: there is a task, and it
has not exited unless it already had the wanted section. -/
def InReach (d : Deserializer) (s : State) : Prop :=
  ∀ flare, s.wanted d = some flare →
    ∃ t, s.task = some t ∧ (t.finished = true → t.flare = flare)

theorem FlareTask.spawn_of_psk (flare : FlareSection) (h : flare.psk.isSome) :
    ∃ t, FlareTask.spawn flare = some t ∧ t.finished = false ∧ t.flare = flare := by
  obtain ⟨psk, hpsk⟩ := Option.isSome_iff_exists.mp h
  unfold FlareTask.spawn
  split
  · next hn => simp [spawnFlareFrom, hpsk] at hn
  · exact ⟨_, rfl, rfl, rfl⟩

theorem FlareTask.psk_isSome (t : FlareTask) : t.flare.psk.isSome := by
  have h := t.spawned
  cases hp : t.flare.psk with
  | none => simp [spawnFlareFrom, hp] at h
  | some psk => rfl

theorem wanted_eq_some {d : Deserializer} {s : State} {flare : FlareSection} :
    s.wanted d = some flare ↔ loadFlare d s.config = some flare ∧ flare.psk.isSome := by
  simp [State.wanted, Option.filter_eq_some_iff]

theorem cycle_task (d : Deserializer) (s : State) :
    (s.step d .cycle).task = reloadFlare d s.task s.config := rfl

section Cycle

variable {d : Deserializer} {s : State} {t : FlareTask} (ht : s.task = some t)

include ht

theorem hostsAfter_of_finished (hf : t.finished = true) : HostsAfter d s t.flare := by
  obtain ⟨t', hspawn, hrun, hflare⟩ := FlareTask.spawn_of_psk t.flare t.psk_isSome
  refine ⟨t', ?_, hrun, hflare⟩
  rw [cycle_task, ht]
  simp [reloadFlare, hf, hspawn]

theorem hostsAfter_of_running (hf : t.finished = false) {flare : FlareSection}
    (hw : s.wanted d = some flare) : HostsAfter d s flare := by
  obtain ⟨hload, hpsk⟩ := wanted_eq_some.mp hw
  by_cases hsame : flare = t.flare
  · refine ⟨t, ?_, hf, hsame.symm⟩
    rw [cycle_task, ht]
    simp [reloadFlare, hf, hload, flareNeedsRestart, hsame]
  · obtain ⟨t', hspawn, hrun, hflare⟩ := FlareTask.spawn_of_psk flare hpsk
    refine ⟨t', ?_, hrun, hflare⟩
    rw [cycle_task, ht]
    simp [reloadFlare, hf, hload, flareNeedsRestart, hsame, hpsk, hspawn]

theorem hostsAfter_of_unwanted (hw : s.wanted d = none) : HostsAfter d s t.flare := by
  cases hf : t.finished with
  | true => exact hostsAfter_of_finished ht hf
  | false =>
    refine ⟨t, ?_, hf, rfl⟩
    rw [cycle_task, ht]
    cases hload : loadFlare d s.config with
    | none => simp [reloadFlare, hf, hload]
    | some current =>
      have hpsk : current.psk.isSome = false := by
        simpa [State.wanted, hload, Option.filter] using hw
      simp [reloadFlare, hf, hload, flareNeedsRestart, hpsk]

end Cycle

theorem follows_iff_inReach (d : Deserializer) (s : State) : Follows d s ↔ InReach d s := by
  constructor
  · rintro ⟨hhosts, -⟩ flare hw
    obtain ⟨t', hafter, -, hflare⟩ := hhosts flare hw
    cases ht : s.task with
    | none =>
      -- nothing runs and nothing will
      rw [cycle_task, ht] at hafter
      cases hafter
    | some t =>
      refine ⟨t, rfl, ?_⟩
      intro hf
      obtain ⟨t'', hown, -, hsame⟩ := hostsAfter_of_finished (d := d) ht hf
      rw [hafter] at hown
      rw [← hsame, ← Option.some.inj hown, hflare]
  · intro hreach
    constructor
    · intro flare hw
      obtain ⟨t, ht, hfin⟩ := hreach flare hw
      cases hf : t.finished with
      | true =>
        rw [← hfin hf]
        exact hostsAfter_of_finished ht hf
      | false => exact hostsAfter_of_running ht hf hw
    · intro t ht hw
      exact hostsAfter_of_unwanted ht hw

/-- Over any sequence of events from boot, every cycle follows the configuration exactly when
every cycle finds it in reach. -/
theorem daemon_follows_configuration_iff (d : Deserializer) (psk : String) (written : Bool)
    (f : ConfigFile) (events : List Event) :
    (∀ earlier later, events = earlier ++ .cycle :: later →
      Follows d ((State.boot d psk written f).run d earlier)) ↔
    (∀ earlier later, events = earlier ++ .cycle :: later →
      InReach d ((State.boot d psk written f).run d earlier)) := by
  constructor
  · intro h earlier later he
    apply (follows_iff_inReach d _).mp
    exact h earlier later he
  · intro h earlier later he
    apply (follows_iff_inReach d _).mpr
    exact h earlier later he

def fileWithPsk (psk : String) : ConfigFile :=
  .document (minimalDocument ++ [("flare", .table false [("psk", .string psk)])])

/-- The server exits, its file is corrected, and the next cycle starts it with the old section;
and a daemon that found a broken file at boot hosts nothing once the file is repaired. -/
theorem corrected_file_not_followed :
    ¬ Follows declared
        ((State.boot declared "generated" true (fileWithPsk "first-recovery-secret")).run declared
          [.exited, .replaced (fileWithPsk "second-recovery-secret")]) ∧
      ¬ Follows declared
        ((State.boot declared "generated" true (.notToml "[flare")).run declared
          [.replaced (fileWithPsk "second-recovery-secret")]) := by
  -- a state whose next task does not carry the wanted secret does not follow
  have hstale (s : State) (p : String) (hw : (s.wanted declared).bind (·.psk) = some p)
      (hafter : (s.step declared .cycle).task.bind (·.flare.psk) ≠ some p) :
      ¬ Follows declared s := by
    rintro ⟨hhosts, -⟩
    obtain ⟨flare, hflare, hpsk⟩ := Option.bind_eq_some_iff.mp hw
    obtain ⟨t, ht, -, hsame⟩ := hhosts flare hflare
    apply hafter
    rw [ht, Option.bind_some, hsame, hpsk]
  constructor
  · apply hstale _ "second-recovery-secret" <;> decide +kernel
  · apply hstale _ "second-recovery-secret" <;> decide +kernel

end LandscapeKit.Daemon
