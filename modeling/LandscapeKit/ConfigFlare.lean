import Mathlib.Data.Int.Notation
import Mathlib.Data.Nat.Notation
import LandscapeKit.LibTable

/-!
The user's `config.toml` and its `[flare]` section: the tolerant read, the
write in place, and the start of the daemon that generates a recovery secret
when none is configured.
-/

namespace LandscapeKit.Config

open Table

/-- A TOML value; a table written between braces is `inline`. -/
inductive Toml where
  | string (s : String)
  | integer (n : ℤ)
  | float (billionths : ℤ)
  | boolean (b : Bool)
  | datetime (text : String)
  | array (items : List Toml)
  | table (inline : Bool) (entries : List (String × Toml))

abbrev Entries := List (String × Toml)

structure FlareSection where
  psk : Option String
  deviceName : String
  mac : Option String
  devices : Option String
  ethertype : UInt16
  forwardPorts : String
  token : Option String
deriving DecidableEq

def defaultDeviceName : String := "landscape-router"

def defaultEthertype : UInt16 := 0x88B6

def defaultForwardPorts : String := "22,6443"

def defaultFlareSection : FlareSection where
  psk := none
  deviceName := defaultDeviceName
  mac := none
  devices := none
  ethertype := defaultEthertype
  forwardPorts := defaultForwardPorts
  token := none

/-- An optional string field: `none` when the value has another type. -/
def optionalString (k : String) (t : Entries) : Option (Option String) :=
  match get k t with
  | none => some none
  | some (.string s) => some (some s)
  | some _ => none

def stringOr (k : String) (default : String) (t : Entries) : Option String :=
  match get k t with
  | none => some default
  | some (.string s) => some s
  | some _ => none

def u16Or (k : String) (default : UInt16) (t : Entries) : Option UInt16 :=
  match get k t with
  | none => some default
  | some (.integer n) => if 0 ≤ n ∧ n < 65536 then some (UInt16.ofNat n.toNat) else none
  | some _ => none

/-- The derived deserialisation of `FlareSection`; keys it does not know are ignored. -/
def decodeFlare (t : Entries) : Option FlareSection := do
  let psk ← optionalString "psk" t
  let deviceName ← stringOr "device_name" defaultDeviceName t
  let mac ← optionalString "mac" t
  let devices ← optionalString "devices" t
  let ethertype ← u16Or "ethertype" defaultEthertype t
  let forwardPorts ← stringOr "forward_ports" defaultForwardPorts t
  let token ← optionalString "token" t
  return ⟨psk, deviceName, mac, devices, ethertype, forwardPorts, token⟩

/-- What the deserialiser makes of the parts of the file that have nothing to do with the
recovery channel, and of a `flare` value that is not a table. -/
structure Deserializer where
  /-- The entries other than `flare` are a valid `ConfigFile`: `schema_version`,
  `repository`, `ui` and `frontend` are there where required and well typed. -/
  rest : Entries → Bool
  flareValue : Toml → Option FlareSection

/-- What stands at the path of `config.toml`. -/
inductive ConfigFile where
  | missing
  /-- a read error, such as text that is not UTF-8 -/
  | unreadable
  | notToml (text : String)
  | document (entries : Entries)

def ConfigFile.flareEntries : ConfigFile → Option Entries
  | .document t =>
    match get "flare" t with
    | some (.table _ e) => some e
    | _ => none
  | _ => none

/-- The secret the user wrote down. -/
def ConfigFile.configuredPsk (f : ConfigFile) : Option String :=
  match f.flareEntries.bind (get "psk") with
  | some (.string p) => some p
  | _ => none

def flareField (d : Deserializer) : Toml → Option FlareSection
  | .table _ t => decodeFlare t
  | v => d.flareValue v

/-- Any problem anywhere in the file gives `none`. -/
def loadFlare (d : Deserializer) : ConfigFile → Option FlareSection
  | .document t =>
    if d.rest (remove "flare" t) then (get "flare" t).bind (flareField d) else none
  | _ => none

inductive SaveError where
  | corruptedState
  | read
  | write
deriving DecidableEq

def defaultRepository : String := "ThisSeanZhang/landscape"

/-- The document a missing file is replaced by. -/
def minimalDocument : Entries :=
  [("schema_version", .integer 1),
   ("repository", .table false
     [("kind", .string "github"), ("location", .string defaultRepository)])]

/-- The entries of the `[flare]` table that is edited; anything but a table with a header of
its own gives way to an empty one. -/
def flareTable (t : Entries) : Entries :=
  match get "flare" t with
  | some (.table false e) => e
  | _ => []

/-- Fields that hold their default are not written. -/
def setFlare (flare : FlareSection) (t : Entries) : Entries :=
  let t := setOrRemove "psk" (flare.psk.map .string) t
  let t := setOrRemove "device_name"
    (if flare.deviceName ≠ defaultDeviceName then some (.string flare.deviceName) else none) t
  let t := setOrRemove "mac" (flare.mac.map .string) t
  let t := setOrRemove "devices" (flare.devices.map .string) t
  let t := setOrRemove "ethertype"
    (if flare.ethertype ≠ defaultEthertype then some (.integer flare.ethertype.toNat)
      else none) t
  let t := setOrRemove "forward_ports"
    (if flare.forwardPorts ≠ defaultForwardPorts then some (.string flare.forwardPorts)
      else none) t
  setOrRemove "token" (flare.token.map .string) t

def saveFlareDocument (flare : FlareSection) (t : Entries) : Entries :=
  set "flare" (.table false (setFlare flare (flareTable t))) t

/-- `written` is the outcome of the temporary file and the rename. -/
def saveFlare (written : Bool) (flare : FlareSection) (f : ConfigFile) :
    Except SaveError Unit × ConfigFile :=
  let save (t : Entries) : Except SaveError Unit × ConfigFile :=
    if written then (.ok (), .document (saveFlareDocument flare t)) else (.error .write, f)
  match f with
  | .document t => save t
  | .missing => save minimalDocument
  | .notToml _ => (.error .corruptedState, f)
  | .unreadable => (.error .read, f)

/-- `psk` is what the random generator gives when it is asked. -/
def effectiveFlareConfig (d : Deserializer) (psk : String) (written : Bool) (f : ConfigFile) :
    Except SaveError FlareSection × ConfigFile :=
  let flare := (loadFlare d f).getD defaultFlareSection
  match flare.psk with
  | some _ => (.ok flare, f)
  | none =>
    let flare := { flare with psk := some psk }
    match saveFlare written flare f with
    | (.ok (), f') => (.ok flare, f')
    | (.error e, f') => (.error e, f')

/-- The command line of the server the daemon hosts. -/
structure ServeArgs where
  psk : Option String
  deviceName : String
  mac : Option (List UInt8)
  dev : String
  ethertype : UInt16
  forwardPorts : String
  token : Option String

def hexDigit (c : Char) : Option ℕ :=
  if '0' ≤ c ∧ c ≤ '9' then some (c.toNat - '0'.toNat)
  else if 'a' ≤ c ∧ c ≤ 'f' then some (c.toNat - 'a'.toNat + 10)
  else if 'A' ≤ c ∧ c ≤ 'F' then some (c.toNat - 'A'.toNat + 10)
  else none

/-- `u8::from_str_radix(_, 16)`: an optional plus sign, at least one digit, no overflow. -/
def u8FromHex (cs : List Char) : Option UInt8 := do
  let digits := match cs with
    | '+' :: rest => rest
    | cs => cs
  if digits.isEmpty then none
  let n ← digits.foldlM (fun n c => (hexDigit c).map (n * 16 + ·)) 0
  if n < 256 then some (UInt8.ofNat n) else none

def parseMac (s : String) : Option (List UInt8) :=
  let parts := s.toList.splitOnP (fun c => c == ':' || c == '-')
  if parts.length ≠ 6 then none else parts.mapM u8FromHex

def spawnFlareFrom (flare : FlareSection) : Option ServeArgs :=
  flare.psk.map fun psk =>
    { psk := some psk
      deviceName := flare.deviceName
      mac := flare.mac.bind parseMac
      dev := flare.devices.getD "any"
      ethertype := flare.ethertype
      forwardPorts := flare.forwardPorts
      token := flare.token }

/-- The start of the daemon: the server it hosts and the file it leaves. -/
def initialFlare (d : Deserializer) (psk : String) (written : Bool) (f : ConfigFile) :
    Option ServeArgs × ConfigFile :=
  match effectiveFlareConfig d psk written f with
  | (.ok flare, f') => (spawnFlareFrom flare, f')
  | (.error _, f') => (none, f')

inductive SelfError where
  | parameterUsage
  | nonInteractive
  | credentials
  | service
  | save (e : SaveError)
deriving DecidableEq

def flarePskMinLength : ℕ := 12

def validateFlarePsk (psk : String) : Except SelfError Unit :=
  if psk.utf8ByteSize < flarePskMinLength then .error .parameterUsage else .ok ()

/-- `pskFile` is the file of the command line, as read; `prompt` the answer at the terminal. -/
def resolveFlarePsk (d : Deserializer) (pskFile : Option (Except SelfError String))
    (prompt : Except SelfError String) (f : ConfigFile) : Except SelfError (Option String) :=
  match pskFile with
  | some file => do
    let psk ← file
    validateFlarePsk psk
    return some psk
  | none =>
    if (loadFlare d f).any (·.psk.isSome) then .ok none
    else
      match prompt with
      | .ok psk => do
        validateFlarePsk psk
        return some psk
      | .error .nonInteractive => .ok none
      | .error e => .error e

def writeFlarePsk (d : Deserializer) (psk : String) (written : Bool) (f : ConfigFile) :
    Except SaveError Unit × ConfigFile :=
  saveFlare written { (loadFlare d f).getD defaultFlareSection with psk := some psk } f

/-- `self install` as far as the file goes: `ready` says that the service manager, the binary
and the unit are in order, which is checked before the secret is written. -/
def selfInstall (d : Deserializer) (pskFile : Option (Except SelfError String))
    (prompt : Except SelfError String) (ready written : Bool) (f : ConfigFile) :
    Except SelfError Unit × ConfigFile :=
  match resolveFlarePsk d pskFile prompt f with
  | .error e => (.error e, f)
  | .ok psk =>
    if ready then
      match psk with
      | none => (.ok (), f)
      | some psk =>
        match writeFlarePsk d psk written f with
        | (.ok (), f') => (.ok (), f')
        | (.error e, f') => (.error (.save e), f')
    else (.error .service, f)

section Fields

variable (k l : String) (t : Entries)

theorem optionalString_of_get (v : Option String) (h : get k t = v.map Toml.string) :
    optionalString k t = some v := by
  cases v <;> simp [optionalString, h]

theorem stringOr_of_get (default s : String)
    (h : get k t = if s ≠ default then some (Toml.string s) else none) :
    stringOr k default t = some s := by
  by_cases hs : s = default
  · rw [if_neg (not_not.mpr hs)] at h
    simp [stringOr, h, hs]
  · rw [if_pos hs] at h
    simp [stringOr, h]

theorem u16Or_of_get (default n : UInt16)
    (h : get k t = if n ≠ default then some (Toml.integer n.toNat) else none) :
    u16Or k default t = some n := by
  by_cases hn : n = default
  · rw [if_neg (not_not.mpr hn)] at h
    simp [u16Or, h, hn]
  · rw [if_pos hn] at h
    have hlt : n.toNat < 65536 := n.toNat_lt
    have hbound : (0 : ℤ) ≤ n.toNat ∧ (n.toNat : ℤ) < 65536 := by omega
    simp [u16Or, h, hbound]

end Fields

theorem decodeFlare_setFlare (flare : FlareSection) (t : Entries) :
    decodeFlare (setFlare flare t) = some flare := by
  have hpsk : optionalString "psk" (setFlare flare t) = some flare.psk := by
    apply optionalString_of_get
    simp [setFlare, get_setOrRemove]
  have hname : stringOr "device_name" defaultDeviceName (setFlare flare t) =
      some flare.deviceName := by
    apply stringOr_of_get
    simp [setFlare, get_setOrRemove]
  have hmac : optionalString "mac" (setFlare flare t) = some flare.mac := by
    apply optionalString_of_get
    simp [setFlare, get_setOrRemove]
  have hdevices : optionalString "devices" (setFlare flare t) = some flare.devices := by
    apply optionalString_of_get
    simp [setFlare, get_setOrRemove]
  have hethertype : u16Or "ethertype" defaultEthertype (setFlare flare t) =
      some flare.ethertype := by
    apply u16Or_of_get
    simp [setFlare, get_setOrRemove]
  have hports : stringOr "forward_ports" defaultForwardPorts (setFlare flare t) =
      some flare.forwardPorts := by
    apply stringOr_of_get
    simp [setFlare, get_setOrRemove]
  have htoken : optionalString "token" (setFlare flare t) = some flare.token := by
    apply optionalString_of_get
    simp [setFlare, get_setOrRemove]
  simp [decodeFlare, hpsk, hname, hmac, hdevices, hethertype, hports, htoken]

theorem get_psk_setFlare (flare : FlareSection) (t : Entries) :
    get "psk" (setFlare flare t) = flare.psk.map Toml.string := by
  simp [setFlare, get_setOrRemove]

theorem get_saveFlareDocument (flare : FlareSection) (t : Entries) :
    get "flare" (saveFlareDocument flare t) = some (.table false (setFlare flare (flareTable t))) := by
  simp [saveFlareDocument, get_set]

theorem loadFlare_saveFlareDocument (d : Deserializer) (flare : FlareSection) (t : Entries) :
    loadFlare d (.document (saveFlareDocument flare t)) =
      if d.rest (remove "flare" t) then some flare else none := by
  have hrest : remove "flare" (saveFlareDocument flare t) = remove "flare" t := by
    apply remove_set
  simp [loadFlare, hrest, get_saveFlareDocument, flareField, decodeFlare_setFlare]

theorem configuredPsk_saveFlareDocument (flare : FlareSection) (t : Entries) :
    (ConfigFile.document (saveFlareDocument flare t)).configuredPsk = flare.psk := by
  have he : (ConfigFile.document (saveFlareDocument flare t)).flareEntries =
      some (setFlare flare (flareTable t)) := by
    simp [ConfigFile.flareEntries, get_saveFlareDocument]
  cases hp : flare.psk <;> simp [ConfigFile.configuredPsk, he, get_psk_setFlare, hp]

theorem effectiveFlareConfig_of_loaded (d : Deserializer) (psk p : String) (written : Bool)
    (f : ConfigFile) (flare : FlareSection) (h : loadFlare d f = some flare)
    (hp : flare.psk = some p) : effectiveFlareConfig d psk written f = (.ok flare, f) := by
  simp [effectiveFlareConfig, h, hp]

theorem selfInstall_of_loaded (d : Deserializer) (prompt : Except SelfError String)
    (ready written : Bool) (f : ConfigFile) (flare : FlareSection) (p : String)
    (h : loadFlare d f = some flare) (hp : flare.psk = some p) :
    (selfInstall d none prompt ready written f).2 = f := by
  have hr : resolveFlarePsk d none prompt f = .ok none := by
    simp [resolveFlarePsk, h, hp]
  cases ready <;> simp [selfInstall, hr]

end LandscapeKit.Config
