import LandscapeKit.ServiceBackends

/-!
What the workflows rely on whichever init system is behind the service manager: a registration
that belongs to someone else is left alone, `is_enabled` tells whether the service is started at
boot, and `restore_before` undoes a sequence of operations.
-/

namespace LandscapeKit.Services

open Faults Prog

variable {P : Type} [DecidableEq P]

def managerOf (kind : ServiceManagerKind) (host : Host P) (refuses : Command → Bool) :
    ServiceManager P :=
  match kind with
  | .systemd => Systemd.manager host refuses
  | .openrc => Openrc.manager host refuses
  | .sysvinit => Sysvinit.manager host refuses

def ownTarget (kind : ServiceManagerKind) (host : Host P) (origin : P) : P :=
  match kind with
  | .systemd => (host.canonicalize origin).getD origin
  | _ => origin

def SystemRegistration.belongsToOthers (own : P) : SystemRegistration P → Bool
  | .missing => false
  | .symlink target => target ≠ own
  | .conflict _ => true

def Service.startedAtBoot (host : Host P) (s : Service P) : Bool := s.enabled && s.found host

inductive Call
  | register
  | enable
  | disable
  | start
  | stop
  | unregister

def ServiceManager.perform (m : ServiceManager P) (origin : P) : Call → Action P Unit
  | .register => m.register origin
  | .enable => m.enable
  | .disable => m.disable
  | .start => m.start
  | .stop => m.stop
  | .unregister => m.unregister origin

/-- The state after a sequence of calls, each with the commands it sees refused; a call that
fails does not end the sequence. -/
def afterCalls (kind : ServiceManagerKind) (host : Host P) (origin : P)
    (calls : List (Call × (Command → Bool))) (s : Service P) : Service P :=
  calls.foldl (fun s call => ((managerOf kind host call.2).perform origin call.1 s).2) s

def ProtectsOthers (m : ServiceManager P) (origin own : P) (s : Service P) : Prop :=
  s.registration.belongsToOthers own = true →
    (∃ e, m.register origin s = (.err e, s)) ∧ ∃ e, m.unregister origin s = (.err e, s)

def TellsBoot (m : ServiceManager P) (host : Host P) (s : Service P) : Prop :=
  m.isEnabled s = (.ok (s.startedAtBoot host), s)

def SystemRegistration.captured : SystemRegistration P → Option (Registration P)
  | .missing => some ⟨.missing, none⟩
  | .symlink target => some ⟨.symlink, some target⟩
  | .conflict _ => none

structure AsCaptured (before : ServiceBefore P) (s : Service P) : Prop where
  registration : s.registration.captured = some before.registration
  enabled : s.enabled = before.enabled
  active : s.active = before.active

def protects (kind : ServiceManagerKind) (own : P) (s : Service P) : Bool :=
  match kind with
  | .systemd => true
  | _ => !s.registration.belongsToOthers own || s.registration = .conflict .directory

/-- For which services `is_enabled` is right: systemd counts a link that is not enabled, and no
service of a sysvinit host is found. -/
def tellsBoot (kind : ServiceManagerKind) (host : Host P) (s : Service P) : Bool :=
  match kind with
  | .systemd => s.enabled || !s.found host ||
    match s.registration with
    | .symlink _ => false
    | _ => true
  | .openrc => true
  | .sysvinit => !s.startedAtBoot host

/-- For which states before the restore the flags are those at the capture; `s₀` is the service
at the capture and `s` the one before the restore. -/
def restores (kind : ServiceManagerKind) (host : Host P) (s₀ s : Service P) : Bool :=
  match kind with
  | .systemd => s₀.registration ≠ .missing || !s.enabled
  | .openrc => s.enabled == s₀.startedAtBoot host && (s₀.found host || !s.active)
  | .sysvinit => !s.enabled

section Queries

omit [DecidableEq P]

variable (host : Host P) (s : Service P)

theorem Systemd.isEnabledAt_run :
    Systemd.isEnabledAt host s = (.ok (s.found host && (s.enabled || match s.registration with
      | .symlink _ => true
      | _ => false)), s) := by
  rw [Systemd.isEnabledAt, ask_bind, Systemctl.isEnabled]
  cases hfound : s.found host
  · simp
  · cases henabled : s.enabled
    · cases hreg : s.registration with
      | missing => simp
      | symlink target => simp
      | conflict fileType => simp
    · simp

theorem Systemd.isActiveAt_run : Systemd.isActiveAt s = (.ok s.active, s) := by
  rw [Systemd.isActiveAt, ask_bind, Systemctl.isActive]
  cases s.active <;> simp

theorem Openrc.rcUpdateShow_run :
    Openrc.rcUpdateShow host s = (.ok (s.startedAtBoot host), s) := by
  have hshown : (host.name ∈ Openrc.shown host s) ↔ s.startedAtBoot host = true := by
    simp [Openrc.shown, host.others_ne, Service.startedAtBoot]
  rw [Openrc.rcUpdateShow, ask_run]
  cases hboot : s.startedAtBoot host <;> simp [hshown, hboot]

theorem Openrc.isActive_run :
    Openrc.isActive host s = (.ok (s.found host && s.active), s) := by
  rw [Openrc.isActive, ask_bind]
  cases s.found host <;> simp

theorem Sysvinit.isEnabled_run : Sysvinit.isEnabled host s = (.ok false, s) := by
  simp [Sysvinit.isEnabled, Sysvinit.rcDLinkExists, Sysvinit.rcDGlob, host.no_pattern]

end Queries

section Contract

variable (kind : ServiceManagerKind) (host : Host P) (refuses : Command → Bool) (origin : P)
  (s : Service P)

theorem InitD.protectsOthers_iff (m : ServiceManager P) (hregister : m.register = InitD.registerAt)
    (hunregister : m.unregister = InitD.unregisterAt) :
    ProtectsOthers m origin origin s ↔
      s.registration.belongsToOthers origin = false ∨ s.registration = .conflict .directory := by
  rw [ProtectsOthers, hregister, hunregister, InitD.registerAt, InitD.unregisterAt]
  obtain ⟨registration, enabled, active⟩ := s
  cases registration with
  | missing => simp [SystemRegistration.belongsToOthers]
  | symlink target =>
    by_cases htarget : target = origin
    · simp [SystemRegistration.belongsToOthers, htarget]
    · simp [SystemRegistration.belongsToOthers, htarget]
  | conflict fileType =>
    cases fileType <;> simp [SystemRegistration.belongsToOthers]

theorem Systemd.protectsOthers :
    ProtectsOthers (Systemd.manager host refuses) origin (ownTarget .systemd host origin) s := by
  intro hothers
  obtain ⟨registration, enabled, active⟩ := s
  have hregister : ∀ c, host.canonicalize origin = some c → registration ≠ .missing →
      registration ≠ .symlink c → ∃ e, Systemd.registerAt host refuses origin
        ⟨registration, enabled, active⟩ = (.err e, ⟨registration, enabled, active⟩) := by
    intro c hc hmissing hsymlink
    rw [Systemd.registerAt, hc]
    cases registration with
    | missing => exact absurd rfl hmissing
    | symlink target =>
      have htarget : target ≠ c := by
        intro h
        exact hsymlink (by rw [h])
      exact ⟨.ownershipConflict, by simp [htarget]⟩
    | conflict fileType => exact ⟨.ownershipConflict, by simp⟩
  have hunregister : ∃ e, Systemd.unregisterAt host refuses origin
      ⟨registration, enabled, active⟩ = (.err e, ⟨registration, enabled, active⟩) := by
    rw [Systemd.unregisterAt]
    cases registration with
    | missing => cases hothers
    | symlink target =>
      have htarget : target ≠ (host.canonicalize origin).getD origin := of_decide_eq_true hothers
      exact ⟨.ownershipConflict, by simp [htarget]⟩
    | conflict fileType => exact ⟨.ownershipConflict, by simp⟩
  refine ⟨?_, hunregister⟩
  cases hc : host.canonicalize origin with
  | none => exact ⟨.io, by simp [Systemd.manager, Systemd.registerAt, hc]⟩
  | some c =>
    apply hregister c hc
    · rintro rfl
      cases hothers
    · rintro rfl
      simp [SystemRegistration.belongsToOthers, ownTarget, hc] at hothers

theorem protectsOthers_iff :
    ProtectsOthers (managerOf kind host refuses) origin (ownTarget kind host origin) s ↔
      protects kind (ownTarget kind host origin) s = true := by
  cases kind with
  | systemd =>
    simp only [protects, iff_true]
    exact Systemd.protectsOthers host refuses origin s
  | openrc =>
    have h := InitD.protectsOthers_iff origin s (Openrc.manager host refuses) rfl rfl
    simpa [managerOf, ownTarget, protects] using h
  | sysvinit =>
    have h := InitD.protectsOthers_iff origin s (Sysvinit.manager host refuses) rfl rfl
    simpa [managerOf, ownTarget, protects] using h

theorem tellsBoot_iff :
    TellsBoot (managerOf kind host refuses) host s ↔ tellsBoot kind host s = true := by
  cases kind with
  | systemd =>
    have hrun : (managerOf .systemd host refuses).isEnabled s = _ := Systemd.isEnabledAt_run host s
    rw [TellsBoot, hrun, tellsBoot, Service.startedAtBoot]
    cases s.found host <;> cases s.enabled <;> cases s.registration <;> simp
  | openrc =>
    have hrun : (managerOf .openrc host refuses).isEnabled s = _ := Openrc.rcUpdateShow_run host s
    rw [TellsBoot, hrun]
    simp [tellsBoot]
  | sysvinit =>
    have hrun : (managerOf .sysvinit host refuses).isEnabled s = _ := Sysvinit.isEnabled_run host s
    rw [TellsBoot, hrun, tellsBoot]
    cases s.startedAtBoot host <;> simp

def ServiceManagerKind.seesActive (s : Service P) : Bool :=
  match kind with
  | .openrc => s.found host && s.active
  | _ => s.active

def ServiceManagerKind.seesEnabled (s : Service P) : Bool :=
  match kind with
  | .systemd => s.found host && (s.enabled || match s.registration with
    | .symlink _ => true
    | _ => false)
  | .openrc => s.startedAtBoot host
  | .sysvinit => false

theorem isActive_run :
    (managerOf kind host refuses).isActive s = (.ok (kind.seesActive host s), s) := by
  cases kind with
  | systemd => exact Systemd.isActiveAt_run s
  | openrc => exact Openrc.isActive_run host s
  | sysvinit => rfl

theorem isEnabled_run :
    (managerOf kind host refuses).isEnabled s = (.ok (kind.seesEnabled host s), s) := by
  cases kind with
  | systemd => exact Systemd.isEnabledAt_run host s
  | openrc => exact Openrc.rcUpdateShow_run host s
  | sysvinit => exact Sysvinit.isEnabled_run host s

variable {kind host refuses origin s} {t : Service P}

theorem start_ok (h : (managerOf kind host refuses).start s = (.ok (), t)) :
    s.found host = true ∧ t = { s with active := true } := by
  cases kind with
  | systemd =>
    change Systemctl.start host refuses s = _ at h
    rw [Systemctl.start] at h
    have heffect := command_ok h
    split at heffect
    · cases heffect
      exact ⟨‹_›, rfl⟩
    · cases heffect
  | openrc =>
    change Openrc.start host refuses s = _ at h
    rw [Openrc.start] at h
    have heffect := command_ok h
    split at heffect
    · cases heffect
      exact ⟨‹_›, rfl⟩
    · cases heffect
  | sysvinit =>
    change Sysvinit.start host refuses s = _ at h
    rw [Sysvinit.start] at h
    have heffect := command_ok h
    split at heffect
    · rename_i hfound
      cases heffect
      exact ⟨(Bool.and_eq_true_iff.mp hfound).1, rfl⟩
    · cases heffect

theorem stop_ok (h : (managerOf kind host refuses).stop s = (.ok (), t)) :
    t = { s with active := false } := by
  have hstopped : ∀ c : Bool, (if c = true then some { s with active := false } else none) = some t →
      t = { s with active := false } := by
    intro c heffect
    split at heffect
    · exact (Option.some.inj heffect).symm
    · cases heffect
  cases kind with
  | systemd =>
    change Systemctl.stop host refuses s = _ at h
    rw [Systemctl.stop] at h
    exact hstopped _ (command_ok h)
  | openrc =>
    change Openrc.stop host refuses s = _ at h
    rw [Openrc.stop] at h
    exact hstopped _ (command_ok h)
  | sysvinit =>
    change Sysvinit.stop host refuses s = _ at h
    rw [Sysvinit.stop] at h
    exact hstopped _ (command_ok h)

theorem captureBefore_ok {before : ServiceBefore P}
    (h : (managerOf kind host refuses).captureBefore s = (.ok before, t)) :
    s.registration.captured = some before.registration ∧
      before.enabled = kind.seesEnabled host s ∧ before.active = kind.seesActive host s := by
  rw [ServiceManager.captureBefore] at h
  obtain ⟨registration, r, hr, hrest⟩ := bind_eq_ok h
  have hcaptured : s.registration.captured = some registration ∧ r = s := by
    rw [captureRegistration, queryRegistration_bind] at hr
    cases hs : s.registration with
    | missing =>
      rw [hs] at hr
      cases hr
      exact ⟨rfl, rfl⟩
    | symlink target =>
      rw [hs] at hr
      cases hr
      exact ⟨rfl, rfl⟩
    | conflict fileType =>
      rw [hs] at hr
      cases hr
  obtain ⟨hcaptured, rfl⟩ := hcaptured
  rw [bind_of_ok (isEnabled_run kind host refuses r),
    bind_of_ok (isActive_run kind host refuses r)] at hrest
  cases hrest
  exact ⟨hcaptured, rfl, rfl⟩

theorem restoreBefore_ok {before : ServiceBefore P}
    (h : (managerOf kind host refuses).restoreBefore before origin s = (.ok (), t)) :
    ∃ r, (managerOf kind host refuses).restoreRegistration before origin s = (.ok (), r) ∧
      (before.active = true → r.found host = true) ∧
      t = { r with active := before.active || (r.active && !kind.seesActive host r) } := by
  rw [ServiceManager.restoreBefore] at h
  obtain ⟨⟨⟩, r, hr, h⟩ := bind_eq_ok h
  refine ⟨r, hr, ?_⟩
  cases hactive : before.active with
  | true =>
    rw [hactive, if_pos rfl] at h
    obtain ⟨hfound, rfl⟩ := start_ok h
    exact ⟨fun _ => hfound, rfl⟩
  | false =>
    rw [hactive, if_neg Bool.false_ne_true,
      bind_of_ok (orFalse_of_ok (isActive_run kind host refuses r))] at h
    refine ⟨nofun, ?_⟩
    cases hsees : kind.seesActive host r with
    | true =>
      rw [hsees, onlyIf_true] at h
      rw [stop_ok h]
      simp
    | false =>
      rw [hsees, onlyIf_false] at h
      cases h
      simp

theorem InitD.unregisterAt_ok (h : InitD.unregisterAt origin s = (.ok (), t)) :
    t = { s with registration := .missing } := by
  obtain ⟨registration, enabled, active⟩ := s
  rw [InitD.unregisterAt, queryRegistration_bind] at h
  cases registration with
  | missing =>
    cases h
    rfl
  | symlink target =>
    by_cases htarget : target = origin
    · simp only [htarget, if_pos] at h
      cases h
      rfl
    · simp only [htarget, if_false] at h
      cases h
  | conflict fileType => cases h

omit [DecidableEq P] in
theorem InitD.registerAt_ok (h : InitD.registerAt origin s = (.ok (), t)) :
    t = { s with registration := .symlink origin } := by
  obtain ⟨registration, enabled, active⟩ := s
  rw [InitD.registerAt, queryRegistration_bind] at h
  cases registration with
  | missing =>
    cases h
    rfl
  | symlink target =>
    cases h
    rfl
  | conflict fileType =>
    cases fileType with
    | file =>
      cases h
      rfl
    | directory => cases h

theorem InitD.restoreRegistrationAt_ok {before : ServiceBefore P}
    (h : InitD.restoreRegistrationAt before origin s = (.ok (), t)) :
    t = { s with registration := match before.registration.kind with
      | .missing => .missing
      | .symlink => .symlink origin } := by
  cases hkind : before.registration.kind with
  | missing =>
    simp only [InitD.restoreRegistrationAt, hkind] at h
    exact InitD.unregisterAt_ok h
  | symlink =>
    simp only [InitD.restoreRegistrationAt, hkind, queryRegistration_bind] at h
    by_cases hown : s.registration = .symlink origin
    · simp only [ne_eq, hown, not_true_eq_false, decide_false, onlyIf_false] at h
      cases h
      rw [← hown]
    · simp only [ne_eq, hown, not_false_eq_true, decide_true, onlyIf_true] at h
      exact InitD.registerAt_ok h

theorem Systemd.unregisterAt_ok (h : Systemd.unregisterAt host refuses origin s = (.ok (), t)) :
    t = { s with registration := .missing } := by
  obtain ⟨registration, enabled, active⟩ := s
  rw [Systemd.unregisterAt, queryRegistration_bind] at h
  cases registration with
  | missing =>
    cases h
    rfl
  | symlink target =>
    by_cases htarget : target = (host.canonicalize origin).getD origin
    · simp only [htarget, if_pos, setRegistration_bind] at h
      exact (Option.some.inj (command_ok h)).symm
    · simp only [htarget, if_false] at h
      cases h
  | conflict fileType => cases h

theorem Systemd.restoreRegistrationLinkAt_ok {target : P}
    (h : Systemd.restoreRegistrationLinkAt host target s = (.ok (), t)) :
    ∃ c, host.canonicalize target = some c ∧ t = { s with registration := .symlink c } := by
  obtain ⟨registration, enabled, active⟩ := s
  rw [Systemd.restoreRegistrationLinkAt] at h
  cases hc : host.canonicalize target with
  | none =>
    rw [hc] at h
    cases h
  | some c =>
    simp only [hc, queryRegistration_bind] at h
    refine ⟨c, rfl, ?_⟩
    cases registration with
    | missing =>
      cases h
      rfl
    | symlink existing =>
      by_cases hexisting : existing = c
      · simp only [hexisting, if_pos] at h
        cases h
        rfl
      · simp only [hexisting, if_false] at h
        cases h
    | conflict fileType => cases h

theorem Systemd.restoreLink_ok {before : ServiceBefore P}
    (h : Systemd.restoreLink host refuses before origin s = (.ok (), t)) :
    (before.registration.kind = .missing ∧ t = { s with registration := .missing }) ∨
      ∃ target c, before.registration.target = some target ∧ host.canonicalize target = some c ∧
        t = { s with registration := .symlink c } := by
  cases hkind : before.registration.kind with
  | missing =>
    simp only [Systemd.restoreLink, hkind] at h
    exact .inl ⟨rfl, Systemd.unregisterAt_ok h⟩
  | symlink =>
    simp only [Systemd.restoreLink, hkind, queryRegistration_bind] at h
    obtain ⟨⟨⟩, r, hr, hrest⟩ := bind_eq_ok h
    have hr : ∃ registration, r = { s with registration := registration } := by
      rw [Prog.onlyIf] at hr
      split at hr
      · cases hr
        exact ⟨.missing, rfl⟩
      · cases hr
        exact ⟨_, rfl⟩
    obtain ⟨registration, rfl⟩ := hr
    cases htarget : before.registration.target with
    | none =>
      rw [htarget] at hrest
      cases hrest
    | some target =>
      rw [htarget] at hrest
      obtain ⟨c, hc, rfl⟩ := Systemd.restoreRegistrationLinkAt_ok hrest
      exact .inr ⟨target, c, rfl, hc, rfl⟩

/-- systemd enables what counted as enabled; a link that was not there counts as disabled once
it is gone, whatever the wants directory holds. -/
theorem Systemd.restoreRegistrationAt_ok {before : ServiceBefore P}
    (h : Systemd.restoreRegistrationAt host refuses before origin s = (.ok (), t)) :
    ∃ r, Systemd.restoreLink host refuses before origin s = (.ok (), r) ∧
      (before.enabled = true → t = { r with enabled := true }) ∧
      (before.enabled = false → r.registration = .missing → t = r) := by
  rw [Systemd.restoreRegistrationAt] at h
  obtain ⟨⟨⟩, r, hr, hrest⟩ := bind_eq_ok h
  refine ⟨r, hr, ?_, ?_⟩
  · intro henabled
    rw [henabled, if_pos rfl] at hrest
    obtain ⟨⟨⟩, u, hu, hreload⟩ := bind_eq_ok hrest
    rw [← Option.some.inj (command_ok hreload)]
    have heffect := command_ok hu
    split at heffect
    · exact (Option.some.inj heffect).symm
    · cases heffect
  · intro henabled hmissing
    have hunseen : Systemd.isEnabledAt host r = (.ok false, r) := by
      rw [Systemd.isEnabledAt_run, Service.found, hmissing]
      rfl
    rw [henabled, if_neg Bool.false_ne_true, bind_of_ok (orFalse_of_ok hunseen),
      onlyIf_false] at hrest
    exact (Option.some.inj (command_ok hrest)).symm

omit [DecidableEq P] in
theorem Service.found_congr {u v : Service P} (h : u.registration = v.registration) :
    u.found host = v.found host := by
  rw [Service.found, Service.found, h]

omit [DecidableEq P] in
theorem canonicalize_own {c : P}
    (h : host.canonicalize (ownTarget .systemd host origin) = some c) :
    c = ownTarget .systemd host origin := by
  cases hc : host.canonicalize origin with
  | none =>
    rw [ownTarget, hc, Option.getD_none, hc] at h
    cases h
  | some d =>
    rw [ownTarget, hc, Option.getD_some] at h ⊢
    rw [host.canonicalize_idem origin d hc] at h
    exact (Option.some.inj h).symm

section Restore

variable {before : ServiceBefore P} {s₀ : Service P}
  (own : s₀.registration = .missing ∨ s₀.registration = .symlink (ownTarget kind host origin))
  (hregistration : s₀.registration.captured = some before.registration)
  (henabled : before.enabled = kind.seesEnabled host s₀)
  (hactive : before.active = kind.seesActive host s₀)
  (restored : (managerOf kind host refuses).restoreBefore before origin s = (.ok (), t))

include own hregistration henabled hactive restored

theorem Systemd.restores_iff (hkind : kind = .systemd) :
    AsCaptured before t ↔ restores kind host s₀ s = true := by
  subst hkind
  obtain ⟨r, hr, -, rfl⟩ := restoreBefore_ok restored
  obtain ⟨u, hu, hon, hoff⟩ := Systemd.restoreRegistrationAt_ok hr
  have hstays : (before.active || (r.active && !r.active)) = before.active := by simp
  rcases own with hmissing | hlink
  · have hcaptured : before.registration = ⟨.missing, none⟩ := by
      rw [hmissing] at hregistration
      exact (Option.some.inj hregistration).symm
    have hunseen : before.enabled = false := by
      rw [henabled, ServiceManagerKind.seesEnabled, Service.found, hmissing]
      rfl
    rcases Systemd.restoreLink_ok hu with ⟨-, rfl⟩ | ⟨target, c, htarget, -, -⟩
    · rw [hoff hunseen rfl] at hstays ⊢
      have hrestores : restores .systemd host s₀ s = !s.enabled := by
        simp [restores, hmissing]
      rw [hrestores]
      constructor
      · intro h
        have hflag := h.enabled
        rw [hunseen] at hflag
        simpa using hflag
      · intro h
        refine ⟨by rw [hcaptured]; rfl, ?_, hstays⟩
        rw [hunseen]
        simpa using h
    · rw [hcaptured] at htarget
      cases htarget
  · have hcaptured : before.registration = ⟨.symlink, some (ownTarget .systemd host origin)⟩ := by
      rw [hlink] at hregistration
      exact (Option.some.inj hregistration).symm
    have hrestores : restores .systemd host s₀ s = true := by
      simp [restores, hlink]
    rw [hrestores]
    refine iff_of_true ?_ rfl
    rcases Systemd.restoreLink_ok hu with ⟨hkind, -⟩ | ⟨target, c, htarget, hc, rfl⟩
    · rw [hcaptured] at hkind
      cases hkind
    · rw [hcaptured] at htarget
      cases htarget
      have hcount : before.enabled = true := by
        rw [henabled, ServiceManagerKind.seesEnabled, Service.found, hlink]
        simp [hc]
      rw [hon hcount] at hstays ⊢
      refine ⟨?_, hcount.symm, hstays⟩
      rw [hcaptured, ← canonicalize_own hc]
      rfl

theorem InitD.restores_iff (hkind : kind ≠ .systemd) :
    AsCaptured before t ↔ restores kind host s₀ s = true := by
  obtain ⟨r, hr, -, rfl⟩ := restoreBefore_ok restored
  have htarget : ownTarget kind host origin = origin := by
    cases kind with
    | systemd => exact absurd rfl hkind
    | openrc => rfl
    | sysvinit => rfl
  have hr : InitD.restoreRegistrationAt before origin s = (.ok (), r) := by
    cases kind with
    | systemd => exact absurd rfl hkind
    | openrc => exact hr
    | sysvinit => exact hr
  have hsame : r = { s with registration := s₀.registration } := by
    rw [InitD.restoreRegistrationAt_ok hr]
    rcases own with hmissing | hlink
    · rw [hmissing] at hregistration ⊢
      rw [← Option.some.inj hregistration]
    · rw [hlink, htarget] at hregistration ⊢
      rw [← Option.some.inj hregistration]
  have hfound : r.found host = s₀.found host := Service.found_congr (by rw [hsame])
  subst hsame
  have hshape : ∀ active : Bool,
      AsCaptured before { s with registration := s₀.registration, active := active } ↔
        s.enabled = before.enabled ∧ active = before.active := by
    intro active
    exact ⟨fun h => ⟨h.enabled, h.active⟩, fun h => ⟨hregistration, h.1, h.2⟩⟩
  rw [hshape, henabled, hactive]
  cases kind with
  | systemd => exact absurd rfl hkind
  | openrc =>
    simp only [ServiceManagerKind.seesEnabled, ServiceManagerKind.seesActive, hfound, restores]
    cases s₀.found host <;> cases s₀.active <;> cases s.active <;> simp
  | sysvinit =>
    simp [ServiceManagerKind.seesEnabled, ServiceManagerKind.seesActive, restores]

end Restore

end Contract

/-- The three backends, each with the registrations it leaves alone, the services whose boot it
tells, and the states it restores. -/
theorem backends_contract (kind : ServiceManagerKind) (host : Host P) (origin : P) :
    (∀ refuses s, ProtectsOthers (managerOf kind host refuses) origin (ownTarget kind host origin) s ↔
      protects kind (ownTarget kind host origin) s = true) ∧
    (∀ refuses s, TellsBoot (managerOf kind host refuses) host s ↔
      tellsBoot kind host s = true) ∧
    ∀ (refuses refuses' : Command → Bool) (s : Service P) before s' calls t,
      (managerOf kind host refuses).captureBefore s = (.ok before, s') →
      (s.registration = .missing ∨ s.registration = .symlink (ownTarget kind host origin)) →
      (managerOf kind host refuses').restoreBefore before origin
        (afterCalls kind host origin calls s') = (.ok (), t) →
      (AsCaptured before t ↔ restores kind host s (afterCalls kind host origin calls s') = true) := by
  refine ⟨fun refuses s => protectsOthers_iff kind host refuses origin s,
    fun refuses s => tellsBoot_iff kind host refuses s, ?_⟩
  intro refuses refuses' s before s' calls t captured own restored
  obtain ⟨hregistration, henabled, hactive⟩ := captureBefore_ok captured
  by_cases hkind : kind = .systemd
  · exact Systemd.restores_iff own hregistration henabled hactive restored hkind
  · exact InitD.restores_iff own hregistration henabled hactive restored hkind

section Sample

def sampleOrigin : String := "/srv/landscape/service/landscape-router.service"

def sampleHost : Host String where
  canonicalize := some
  canonicalize_idem _ _ _ := rfl
  name := "landscape-router.service"
  others := ["sshd"]
  others_ne := by decide
  readDir enabled path :=
    if path = "/etc/rc2.d" then
      some [⟨(if enabled then "S01" else "K01") ++ "landscape-router.service",
        some "../init.d/landscape-router.service"⟩]
    else none
  no_pattern enabled := by simp

def willing : Command → Bool := fun _ => false

def absent : Service String := ⟨.missing, false, false⟩

def installed : Service String := ⟨.symlink sampleOrigin, true, true⟩

def installing : List (Call × (Command → Bool)) :=
  [(.register, willing), (.enable, willing), (.start, willing)]

def stopped : List (Call × (Command → Bool)) := [(.stop, willing)]

/-- An OpenRC service that was stopped is as it was captured. -/
theorem openrc_restores_stopped :
    AsCaptured ⟨⟨.symlink, some sampleOrigin⟩, true, true⟩ installed := by
  have hcontract := (backends_contract .openrc sampleHost sampleOrigin).2.2 willing willing
    installed ⟨⟨.symlink, some sampleOrigin⟩, true, true⟩ installed stopped installed
    (by decide +kernel) (.inr rfl) (by decide +kernel)
  exact hcontract.mpr (by decide +kernel)

/-- A script of somebody else is replaced; an enabled service of a sysvinit host is not seen, and
a link counts as enabled; an OpenRC service keeps running in the default runlevel after the
restore, and systemd keeps it in the wants directory. -/
theorem backends_differ :
    (Openrc.manager sampleHost willing).register sampleOrigin ⟨.conflict .file, false, false⟩ =
        (.ok (), ⟨.symlink sampleOrigin, false, false⟩) ∧
      ¬ TellsBoot (Sysvinit.manager sampleHost willing) sampleHost installed ∧
      ¬ TellsBoot (Systemd.manager sampleHost willing) sampleHost
        ⟨.symlink sampleOrigin, false, false⟩ ∧
      (Openrc.manager sampleHost willing).captureBefore absent =
        (.ok ⟨⟨.missing, none⟩, false, false⟩, absent) ∧
      (Openrc.manager sampleHost willing).restoreBefore ⟨⟨.missing, none⟩, false, false⟩
          sampleOrigin (afterCalls .openrc sampleHost sampleOrigin installing absent) =
        (.ok (), ⟨.missing, true, true⟩) ∧
      (Systemd.manager sampleHost willing).restoreBefore ⟨⟨.missing, none⟩, false, false⟩
          sampleOrigin (afterCalls .systemd sampleHost sampleOrigin installing absent) =
        (.ok (), ⟨.missing, true, false⟩) := by
  refine ⟨by decide +kernel, ?_, ?_, by decide +kernel, by decide +kernel, by decide +kernel⟩
  · rw [TellsBoot]
    decide +kernel
  · rw [TellsBoot]
    decide +kernel

end Sample

end LandscapeKit.Services
