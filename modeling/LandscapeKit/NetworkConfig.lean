import LandscapeKit.LibBlocks
import LandscapeKit.MirrorHosts

/-!
Network plans: which interface is the WAN, which ones are the LAN, and the addresses they get.
Arithmetic that leaves its type stops the program; every other refusal carries its reason.
-/

namespace LandscapeKit.Network

open Text Blocks

/-- `Ipv4Addr`, as the number it stands for. -/
abbrev Addr := BitVec 32

inductive NetworkError where
  | reason (text : String)
  | invalidInterfaceName (value : Text)
  | invalidMacAddress (value : Text)
deriving DecidableEq

inductive Stop where
  | outOfRange
  | refused (error : NetworkError)
deriving DecidableEq

abbrev Checked := Except Stop

abbrev networkError (text : String) : Stop := .refused (.reason text)

/-- A result of plain arithmetic: none is a panic. -/
def inRange {α : Type} : Option α → Checked α
  | some a => .ok a
  | none => .error .outOfRange

def managementBridge : Text := "br_lan".toList

structure Ipv4Cidr where
  address : Addr
  prefixLen : BitVec 8
deriving DecidableEq

/-- `u32::MAX << (32 - prefix)`: the difference has to be a `u8` and the shift less than 32. -/
def prefixMask (prefixLen : BitVec 8) : Checked Addr := do
  let shift ← inRange (checkedSub 32 prefixLen)
  if shift.toNat < 32 then return highMask 32 shift.toNat else throw .outOfRange

namespace Ipv4Cidr

def network (c : Ipv4Cidr) : Checked Addr := do
  return c.address &&& (← prefixMask c.prefixLen)

def broadcast (c : Ipv4Cidr) : Checked Addr := do
  return (← c.network) ||| ~~~(← prefixMask c.prefixLen)

def containsUsable (c : Ipv4Cidr) (address : Addr) : Checked Bool := do
  return decide ((← c.network) < address) && decide (address < (← c.broadcast))

/-- A hundred addresses into the subnet where there are so many, beside the server. -/
def defaultPool (c : Ipv4Cidr) : Checked (Addr × Addr) := do
  let first ← inRange (checkedAdd (← c.network) 1)
  let last := saturatingSub (← c.broadcast) 1
  let preferred := saturatingAdd (← c.network) 100
  let start :=
    if preferred ≤ last then (if preferred ≤ first then first else preferred) else first
  let server := c.address
  if ¬ (start ≤ server ∧ server ≤ last) then return (start, last)
  else
    let leftSize := saturatingSub server start
    let rightSize := saturatingSub last server
    if leftSize ≤ rightSize ∧ 0 < rightSize then
      return (← inRange (checkedAdd server 1), last)
    else if 0 < leftSize then
      return (start, ← inRange (checkedSub server 1))
    else throw (networkError "management subnet has no DHCP client address")

end Ipv4Cidr

section Parse

/-- A run of decimal digits as a number. -/
def decimal (digits : Text) : Option ℕ :=
  if digits ≠ [] ∧ digits.all Char.isDigit then some (Nat.ofDigitChars 10 digits 0) else none

/-- A part of an address: three digits at most, and no zero in front. -/
def parseOctet (part : Text) : Option (BitVec 8) :=
  (decimal part).bind fun n =>
    if part.length ≤ 3 ∧ (part.head? = some '0' → part.length = 1) ∧ n < 256 then
      some (BitVec.ofNat 8 n)
    else none

/-- `str::parse::<Ipv4Addr>`. -/
def parseAddr (text : Text) : Option Addr :=
  match text.splitOn '.' with
  | [a, b, c, d] => do
    return (← parseOctet a) ++ (← parseOctet b) ++ (← parseOctet c) ++ (← parseOctet d)
  | _ => none

/-- `str::parse::<u8>`: a `+` may stand in front, and zeros. -/
def parseU8 (text : Text) : Option (BitVec 8) :=
  (decimal ((stripLead ['+'] text).getD text)).bind fun n =>
    if n < 256 then some (BitVec.ofNat 8 n) else none

def Ipv4Cidr.fromStr (value : Text) : Checked Ipv4Cidr := do
  match splitOnce ['/'] (Mirror.trim value) with
  | none => throw (networkError "IPv4 address must use address/prefix notation")
  | some (address, prefixLen) =>
    match parseAddr address with
    | none => throw (networkError "invalid IPv4 address")
    | some address =>
      match parseU8 prefixLen with
      | none => throw (networkError "invalid IPv4 prefix")
      | some prefixLen =>
        if ¬ (1 ≤ prefixLen ∧ prefixLen ≤ 30) then
          throw (networkError "IPv4 prefix must be between 1 and 30")
        else
          let cidr : Ipv4Cidr := ⟨address, prefixLen⟩
          if ← cidr.containsUsable address then return cidr
          else throw (networkError "IPv4 address must be a usable host address in its subnet")

end Parse

section Plans

inductive WanIpv4Config where
  | static (address : Ipv4Cidr) (gateway : Addr)
  | dhcp
deriving DecidableEq

inductive NetworkMode where
  | wanOnly (wan : Text) (address : Ipv4Cidr) (gateway : Addr)
  | wanDhcp (wan : Text)
  | routedLan (wan : Text) (wanIpv4 : Option WanIpv4Config) (lan : List Text)
      (management : Ipv4Cidr) (dhcpStart dhcpEnd : Addr)
deriving DecidableEq

structure SelectedInterface where
  name : Text
  mac : Text
deriving DecidableEq

structure NetworkPlan where
  mode : NetworkMode
  selectedMacs : List SelectedInterface
deriving DecidableEq

def NetworkMode.wan : NetworkMode → Text
  | .wanOnly wan .. => wan
  | .wanDhcp wan => wan
  | .routedLan wan .. => wan

def NetworkMode.lan : NetworkMode → List Text
  | .routedLan _ _ lan .. => lan
  | _ => []

def NetworkPlan.wan (plan : NetworkPlan) : Text := plan.mode.wan

def NetworkPlan.lan (plan : NetworkPlan) : List Text := plan.mode.lan

def NetworkPlan.expectedInterfaces (plan : NetworkPlan) : List Text := plan.wan :: plan.lan

end Plans

section Validate

def isNameChar (c : Char) : Bool :=
  Mirror.isAsciiAlphanumeric c || c = '_' || c = '-' || c = '.'

/-- Characters that are not ASCII are refused, so the length is the number of bytes. -/
def isIfaceName (value : Text) : Bool :=
  value ≠ [] && value.length ≤ 15 && value.all isNameChar

def validateIfaceName (value : Text) : Checked Unit :=
  if isIfaceName value then .ok () else .error (.refused (.invalidInterfaceName value))

def isAsciiHexdigit (c : Char) : Bool :=
  ('0' ≤ c && c ≤ '9') || ('a' ≤ c && c ≤ 'f') || ('A' ≤ c && c ≤ 'F')

def isMac (value : Text) : Bool :=
  (value.splitOn ':').length = 6 &&
    (value.splitOn ':').all fun part => part.length = 2 && part.all isAsciiHexdigit

def validateMac (value : Text) : Checked Unit :=
  if isMac value then .ok () else .error (.refused (.invalidMacAddress value))

def validateStaticWan (address : Ipv4Cidr) (gateway : Addr) : Checked Unit := do
  if ← address.containsUsable gateway then
    if address.address = gateway then
      throw (networkError "WAN address and gateway must differ")
    else return ()
  else throw (networkError "default gateway must be in the WAN subnet")

/-- `unique` are the names before. -/
def validateLan (wan : Text) : (unique lan : List Text) → Checked Unit
  | _, [] => .ok ()
  | unique, iface :: lan => do
    validateIfaceName iface
    if iface = wan then throw (networkError "WAN and LAN interfaces must not overlap")
    else if iface ∈ unique then
      throw (networkError "LAN interfaces must not contain duplicates")
    else validateLan wan (iface :: unique) lan

def validateDhcp (management : Ipv4Cidr) (dhcpStart dhcpEnd : Addr) : Checked Unit := do
  if !(← management.containsUsable dhcpStart) || !(← management.containsUsable dhcpEnd) then
    throw (networkError "DHCP range must contain usable addresses in the management subnet")
  else if dhcpEnd < dhcpStart then
    throw (networkError "DHCP range start must not exceed its end")
  else if dhcpStart ≤ management.address ∧ management.address ≤ dhcpEnd then
    throw (networkError "DHCP range must not contain the management address")
  else return ()

def validateWanIpv4 : Option WanIpv4Config → Checked Unit
  | some (.static address gateway) => validateStaticWan address gateway
  | _ => .ok ()

def validateMode : NetworkMode → Checked Unit
  | .wanOnly _ address gateway => validateStaticWan address gateway
  | .wanDhcp _ => .ok ()
  | .routedLan wan wanIpv4 lan management dhcpStart dhcpEnd => do
    validateWanIpv4 wanIpv4
    if lan = [] then throw (networkError "at least one LAN interface is required")
    else
      validateLan wan [] lan
      validateDhcp management dhcpStart dhcpEnd

abbrev macMismatch : Stop :=
  networkError "selected interface MAC records must exactly match the network interfaces"

/-- `names` are the names of the records before. -/
def validateMacs (expected : List Text) : List Text → List SelectedInterface → Checked Unit
  | _, [] => .ok ()
  | names, selected :: rest => do
    validateIfaceName selected.name
    if selected.name ∉ expected ∨ selected.name ∈ names then throw macMismatch
    else
      validateMac selected.mac
      validateMacs expected (selected.name :: names) rest

def NetworkPlan.validate (plan : NetworkPlan) : Checked Unit := do
  validateIfaceName plan.wan
  validateMode plan.mode
  if plan.selectedMacs.length ≠ plan.expectedInterfaces.length then throw macMismatch
  else validateMacs plan.expectedInterfaces [] plan.selectedMacs

end Validate

end LandscapeKit.Network
