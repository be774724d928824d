import LandscapeKit.LibFaults
import Mathlib.Data.List.Basic

/-!
The service manager behind the workflows and its three implementations. A service is what the
init system holds of it: what stands at the registration path, whether it is among the services
of the boot, and whether it runs. The commands of the init systems do what their manuals say, or
exit with an error and do nothing.
-/

namespace LandscapeKit.Services

open Faults Prog

inductive ServiceManagerKind
  | systemd
  | openrc
  | sysvinit

inductive FileType
  | file
  | directory
deriving DecidableEq

/-- What stands at the registration path. -/
inductive SystemRegistration (P : Type)
  | missing
  | symlink (target : P)
  | conflict (fileType : FileType)
deriving DecidableEq

structure Service (P : Type) where
  registration : SystemRegistration P
  /-- The link in the wants directory, in the runlevel, or in the rc directories. -/
  enabled : Bool
  active : Bool
deriving DecidableEq

inductive RegistrationKind
  | missing
  | symlink
deriving DecidableEq

structure Registration (P : Type) where
  kind : RegistrationKind
  target : Option P
deriving DecidableEq

structure ServiceBefore (P : Type) where
  registration : Registration P
  enabled : Bool
  active : Bool
deriving DecidableEq

/-- The commands that change something. -/
inductive Command
  | enable
  | disable
  | start
  | stop
  | reload
deriving DecidableEq

inductive InstallError
  | io
  | command (c : Command)
  | unknownState (value : String)
  | ownershipConflict
  | differentOrigin
  | missingTarget
deriving DecidableEq

structure DirEntry where
  name : String
  /-- What `read_link` gives. -/
  target : Option String

/-- The file system and the other services of the host. -/
structure Host (P : Type) where
  canonicalize : P → Option P
  canonicalize_idem : ∀ p q, canonicalize p = some q → canonicalize q = some q
  /-- The name of the service. -/
  name : String
  /-- The other services of the runlevels. -/
  others : List String
  others_ne : name ∉ others
  /-- `read_dir`, with the service enabled or not. -/
  readDir : Bool → String → Option (List DirEntry)
  /-- The runlevel directories are `/etc/rc0.d` and so on. -/
  no_pattern : ∀ enabled, readDir enabled "/etc/rc?.d" = none

variable {P : Type}

abbrev Action (P α : Type) := Prog (Service P) InstallError α

/-- The init system finds a definition at the registration path. -/
def Service.found (host : Host P) (s : Service P) : Bool :=
  match s.registration with
  | .missing => false
  | .symlink target => (host.canonicalize target).isSome
  | .conflict .file => true
  | .conflict .directory => false

def ask {α : Type} (f : Service P → α) : Action P α := fun s => (.ok (f s), s)

/-- A command that is refused, or that the manual gives no effect, exits with an error. -/
def command (refuses : Command → Bool) (c : Command) (effect : Service P → Option (Service P)) :
    Action P Unit := fun s =>
  if refuses c then (.err (.command c), s)
  else match effect s with
    | some s' => (.ok (), s')
    | none => (.err (.command c), s)

def orFalse (p : Action P Bool) : Action P Bool := do
  match ← Prog.attempt p with
  | .ok b => pure b
  | .error _ => pure false

def queryRegistration : Action P (SystemRegistration P) := ask fun s => s.registration

def setRegistration (r : SystemRegistration P) : Action P Unit :=
  Prog.modify fun s => { s with registration := r }

section Actions

variable {α β : Type} (f : Service P → α) (g : α → Action P β) (s t : Service P)

@[simp] theorem pure_run (a : α) : (pure a : Action P α) s = (.ok a, s) := rfl

@[simp] theorem fail_run (e : InstallError) : (Prog.fail e : Action P α) s = (.err e, s) := rfl

@[simp] theorem ask_run : ask f s = (.ok (f s), s) := rfl

@[simp] theorem ask_bind : (ask f >>= g) s = g (f s) s := rfl

@[simp] theorem queryRegistration_bind (g : SystemRegistration P → Action P β) :
    (queryRegistration >>= g) s = g s.registration s := rfl

@[simp] theorem setRegistration_run (r : SystemRegistration P) :
    setRegistration r s = (.ok (), { s with registration := r }) := rfl

@[simp] theorem setRegistration_bind (r : SystemRegistration P) (g : Unit → Action P β) :
    (setRegistration r >>= g) s = g () { s with registration := r } := rfl

variable {s t} {refuses : Command → Bool} {c : Command}
  {effect : Service P → Option (Service P)}

theorem command_ok {u : Unit} (h : command refuses c effect s = (.ok u, t)) :
    effect s = some t := by
  rw [command] at h
  split at h
  · cases h
  · split at h
    · rename_i s' hs'
      cases h
      exact hs'
    · cases h

theorem orFalse_of_ok {p : Action P Bool} {b : Bool} (h : p s = (.ok b, s)) :
    orFalse p s = (.ok b, s) := by
  rw [orFalse, bind_of_ok (attempt_of_ok h)]
  rfl

end Actions

structure ServiceManager (P : Type) where
  register : P → Action P Unit
  unregister : P → Action P Unit
  isEnabled : Action P Bool
  enable : Action P Unit
  disable : Action P Unit
  isActive : Action P Bool
  start : Action P Unit
  stop : Action P Unit
  restoreRegistration : ServiceBefore P → P → Action P Unit

def captureRegistration : Action P (Registration P) := do
  match ← queryRegistration with
  | .missing => pure ⟨.missing, none⟩
  | .symlink target => pure ⟨.symlink, some target⟩
  | .conflict _ => Prog.fail .ownershipConflict

namespace ServiceManager

variable (m : ServiceManager P)

def restoreBefore (before : ServiceBefore P) (origin : P) : Action P Unit := do
  m.restoreRegistration before origin
  if before.active then
    m.start
  else
    Prog.onlyIf (← orFalse m.isActive) m.stop

def captureBefore : Action P (ServiceBefore P) := do
  let registration ← captureRegistration
  let enabled ← m.isEnabled
  let active ← m.isActive
  return ⟨registration, enabled, active⟩

end ServiceManager

section Systemd

variable [DecidableEq P] (host : Host P) (refuses : Command → Bool)

namespace Systemctl

def enable : Action P Unit :=
  command refuses .enable fun s => if s.found host then some { s with enabled := true } else none

/-- `disable` removes every link to the unit, that at the registration path as well. -/
def disable : Action P Unit :=
  command refuses .disable fun s =>
    if s.found host then
      some { s with
        enabled := false
        registration := match s.registration with
          | .symlink _ => .missing
          | r => r }
    else none

def start : Action P Unit :=
  command refuses .start fun s => if s.found host then some { s with active := true } else none

/-- A unit that runs is stopped, whether its definition is still there or not. -/
def stop : Action P Unit :=
  command refuses .stop fun s =>
    if s.active || s.found host then some { s with active := false } else none

def daemonReload : Action P Unit := command refuses .reload some

def isEnabled (s : Service P) : String :=
  if s.found host then
    if s.enabled then "enabled"
    else match s.registration with
      | .symlink _ => "linked"
      | _ => "disabled"
  else "not-found"

def isActive (s : Service P) : String := if s.active then "active" else "inactive"

end Systemctl

namespace Systemd

/-- Put the link in place through a temporary link and a rename. -/
def place (target : P) : Action P Unit := setRegistration (.symlink target)

def registerAt (origin : P) : Action P Unit := do
  match host.canonicalize origin with
  | none => Prog.fail .io
  | some origin =>
    match ← queryRegistration with
    | .symlink target =>
      if target = origin then Systemctl.daemonReload refuses else Prog.fail .ownershipConflict
    | .missing => do
      place origin
      Systemctl.daemonReload refuses
    | .conflict _ => Prog.fail .ownershipConflict

def unregisterAt (origin : P) : Action P Unit := do
  let origin := (host.canonicalize origin).getD origin
  match ← queryRegistration with
  | .symlink target =>
    if target = origin then do
      setRegistration .missing
      Systemctl.daemonReload refuses
    else Prog.fail .ownershipConflict
  | .missing => pure ()
  | .conflict _ => Prog.fail .ownershipConflict

def isEnabledAt : Action P Bool := do
  let state ← ask (Systemctl.isEnabled host)
  if state ∈ ["enabled", "enabled-runtime", "linked", "linked-runtime", "alias"] then pure true
  else if state ∈ ["disabled", "static", "indirect", "masked", "masked-runtime", "generated",
      "transient", "not-found", ""] then pure false
  else Prog.fail (.unknownState state)

def isActiveAt : Action P Bool := do
  let state ← ask Systemctl.isActive
  if state ∈ ["active", "reloading"] then pure true
  else if state ∈ ["inactive", "failed", "activating", "deactivating", "maintenance", "unknown"]
  then pure false
  else Prog.fail (.unknownState state)

def restoreRegistrationLinkAt (target : P) : Action P Unit := do
  match host.canonicalize target with
  | none => Prog.fail .io
  | some target =>
    match ← queryRegistration with
    | .symlink existing => if existing = target then pure () else Prog.fail .ownershipConflict
    | .missing => place target
    | .conflict _ => Prog.fail .ownershipConflict

/-- The registration part of `restore_registration_at`. -/
def restoreLink (before : ServiceBefore P) (origin : P) : Action P Unit :=
  match before.registration.kind with
  | .missing => unregisterAt host refuses origin
  | .symlink => do
    let origin := (host.canonicalize origin).getD origin
    let registration ← queryRegistration
    Prog.onlyIf (registration = .symlink origin) (setRegistration .missing)
    match before.registration.target with
    | none => Prog.fail .missingTarget
    | some target => restoreRegistrationLinkAt host target

def restoreRegistrationAt (before : ServiceBefore P) (origin : P) : Action P Unit := do
  restoreLink host refuses before origin
  if before.enabled then
    Systemctl.enable host refuses
  else
    Prog.onlyIf (← orFalse (isEnabledAt host)) (Systemctl.disable host refuses)
  Systemctl.daemonReload refuses

def manager : ServiceManager P where
  register := registerAt host refuses
  unregister := unregisterAt host refuses
  isEnabled := isEnabledAt host
  enable := Systemctl.enable host refuses
  disable := Systemctl.disable host refuses
  isActive := isActiveAt
  start := Systemctl.start host refuses
  stop := Systemctl.stop host refuses
  restoreRegistration := restoreRegistrationAt host refuses

end Systemd

end Systemd

/-! The two backends with scripts in `/etc/init.d`. -/

namespace InitD

variable [DecidableEq P]

/-- The rename puts the link in the place of anything but a directory. -/
def registerAt (origin : P) : Action P Unit := do
  match ← queryRegistration with
  | .conflict .directory => Prog.fail .io
  | _ => setRegistration (.symlink origin)

def unregisterAt (origin : P) : Action P Unit := do
  match ← queryRegistration with
  | .symlink target =>
    if target = origin then setRegistration .missing else Prog.fail .differentOrigin
  | .missing => pure ()
  | .conflict _ => Prog.fail .io

def restoreRegistrationAt (before : ServiceBefore P) (origin : P) : Action P Unit :=
  match before.registration.kind with
  | .missing => unregisterAt origin
  | .symlink => do
    let registration ← queryRegistration
    Prog.onlyIf (registration ≠ .symlink origin) (registerAt origin)

end InitD

namespace Openrc

variable [DecidableEq P] (host : Host P) (refuses : Command → Bool)

/-- The first words of the lines of `rc-update show`; a service whose script is gone is left
out. -/
def shown (s : Service P) : List String :=
  host.others ++ if s.enabled && s.found host then [host.name] else []

def rcUpdateShow : Action P Bool := ask fun s => host.name ∈ shown host s

def isActive : Action P Bool := do
  let there ← ask fun s => s.found host
  if there then ask fun s => s.active else pure false

/-- `rc-update add name default`. -/
def enable : Action P Unit :=
  command refuses .enable fun s => if s.found host then some { s with enabled := true } else none

/-- `rc-update del name default`. -/
def disable : Action P Unit :=
  command refuses .disable fun s => if s.enabled then some { s with enabled := false } else none

def start : Action P Unit :=
  command refuses .start fun s => if s.found host then some { s with active := true } else none

def stop : Action P Unit :=
  command refuses .stop fun s => if s.found host then some { s with active := false } else none

def manager : ServiceManager P where
  register := InitD.registerAt
  unregister := InitD.unregisterAt
  isEnabled := rcUpdateShow host
  enable := enable host refuses
  disable := disable refuses
  isActive := isActive host
  start := start host refuses
  stop := stop host refuses
  restoreRegistration := InitD.restoreRegistrationAt

end Openrc

namespace Sysvinit

variable [DecidableEq P] (host : Host P) (refuses : Command → Bool)

/-- The pattern is a path of its own; nothing expands it. -/
def rcDGlob : String := "/etc/rc?.d"

def rcDLinkExists (readDir : String → Option (List DirEntry)) (rcDDir name : String) : Bool :=
  match readDir rcDDir with
  | none => false
  | some runlevels => runlevels.any fun runlevel =>
    match readDir (rcDDir ++ "/" ++ runlevel.name) with
    | none => false
    | some links => links.any fun link =>
      match link.target with
      | none => false
      | some target => link.name.startsWith "S" && target.endsWith ("/" ++ name)

def isEnabled : Action P Bool :=
  ask fun s => rcDLinkExists (host.readDir s.enabled) rcDGlob host.name

/-- The scan of `/proc`. -/
def isActive : Action P Bool := ask fun s => s.active

/-- `update-rc.d enable` and `update-rc.d disable`. -/
def updateRcD (c : Command) (enabled : Bool) : Action P Unit :=
  command refuses c fun s => if s.found host then some { s with enabled := enabled } else none

/-- The script with `start`; `start-stop-daemon` exits with an error when there is nothing to
do. -/
def start : Action P Unit :=
  command refuses .start fun s =>
    if s.found host && !s.active then some { s with active := true } else none

def stop : Action P Unit :=
  command refuses .stop fun s =>
    if s.found host && s.active then some { s with active := false } else none

def manager : ServiceManager P where
  register := InitD.registerAt
  unregister := InitD.unregisterAt
  isEnabled := isEnabled host
  enable := updateRcD host refuses .enable true
  disable := updateRcD host refuses .disable false
  isActive := isActive
  start := start host refuses
  stop := stop host refuses
  restoreRegistration := InitD.restoreRegistrationAt

end Sysvinit

end LandscapeKit.Services
