import LandscapeKit.LibOptions
import LandscapeKit.NetworkInit

/-!
The other way to the initial configuration: arguments for the program of the release. They are
made up without a check, and say what the configuration made up here says when they are read as
they are meant.
-/

namespace LandscapeKit.Network

open Text Options

section Display

def displayOctet (n : BitVec 8) : Text := Nat.toDigits 10 n.toNat

/-- An `Ipv4Addr` as it is printed. -/
def displayAddr (a : Addr) : Text :=
  ['.'].intercalate [displayOctet (a.extractLsb' 24 8), displayOctet (a.extractLsb' 16 8),
    displayOctet (a.extractLsb' 8 8), displayOctet (a.extractLsb' 0 8)]

def Ipv4Cidr.display (c : Ipv4Cidr) : Text :=
  displayAddr c.address ++ '/' :: displayOctet c.prefixLen

theorem isDigit_displayOctet (n : BitVec 8) : ∀ c ∈ displayOctet n, c.isDigit = true := by
  intro c hc
  exact Nat.isDigit_of_mem_toDigits (by decide) (by decide) hc

theorem parseOctet_digits : ∀ n < 256,
    parseOctet (Nat.toDigits 10 n) = some (BitVec.ofNat 8 n) := by decide +kernel

theorem parseOctet_displayOctet (n : BitVec 8) : parseOctet (displayOctet n) = some n := by
  rw [displayOctet, parseOctet_digits _ n.isLt, BitVec.ofNat_toNat, BitVec.setWidth_eq]

theorem append_octets (a : Addr) : a.extractLsb' 24 8 ++ a.extractLsb' 16 8 ++
    a.extractLsb' 8 8 ++ a.extractLsb' 0 8 = a := by
  apply BitVec.eq_of_getLsbD_eq
  intro i hi
  simp only [BitVec.getLsbD_append, BitVec.getLsbD_extractLsb']
  -- one octet after the other, from the lowest one
  split
  · simp [*]
  · split
    · have hback : 8 + (i - 8) = i := by omega
      simp [*]
    · split
      · have hback : 16 + (i - 8 - 8) = i := by omega
        simp [*]
      · have hback : 24 + (i - 8 - 8 - 8) = i := by omega
        have hlast : i - 8 - 8 - 8 < 8 := by omega
        simp [*]

theorem parseAddr_displayAddr (a : Addr) : parseAddr (displayAddr a) = some a := by
  have hsplit : (displayAddr a).splitOn '.' = [displayOctet (a.extractLsb' 24 8),
      displayOctet (a.extractLsb' 16 8), displayOctet (a.extractLsb' 8 8),
      displayOctet (a.extractLsb' 0 8)] := by
    apply List.splitOn_intercalate '.'
    · intro part hpart hdot
      have hdigit : ('.').isDigit = true := by
        simp only [List.mem_cons, List.not_mem_nil, or_false] at hpart
        rcases hpart with rfl | rfl | rfl | rfl <;> exact isDigit_displayOctet _ _ hdot
      exact absurd hdigit (by decide)
    · simp
  rw [parseAddr, hsplit]
  simp only [parseOctet_displayOctet]
  exact congrArg some (append_octets a)

theorem digits_displayAddr (a : Addr) : ∀ c ∈ displayAddr a, c.isDigit = true ∨ c = '.' := by
  intro c hc
  simp only [displayAddr, List.intercalate_cons_cons, List.intercalate_singleton,
    List.mem_append, List.mem_singleton, or_assoc] at hc
  rcases hc with hc | rfl | hc | rfl | hc | rfl | hc
  all_goals first | exact .inr rfl | exact .inl (isDigit_displayOctet _ _ hc)

theorem notMem_displayAddr {c : Char} (hdigit : c.isDigit = false) (hdot : c ≠ '.') (a : Addr) :
    c ∉ displayAddr a := by
  intro hc
  rcases digits_displayAddr a c hc with h | h
  · rw [hdigit] at h
    cases h
  · exact hdot h

theorem parseU8_displayOctet (n : BitVec 8) : parseU8 (displayOctet n) = some n := by
  have hdigit := isDigit_displayOctet n
  have hplus : stripLead ['+'] (displayOctet n) = none := by
    rw [stripLead, if_neg]
    rintro ⟨rest, hrest⟩
    have hfirst := hdigit '+' (by rw [← hrest]; exact List.mem_cons_self ..)
    exact absurd hfirst (by decide)
  have hdecimal : decimal (displayOctet n) = some n.toNat := by
    rw [decimal, if_pos ⟨Nat.toDigits_ne_nil, List.all_eq_true.mpr hdigit⟩, displayOctet,
      Nat.ofDigitChars_ten_toDigits]
  rw [parseU8, hplus, Option.getD_none, hdecimal, Option.bind_some, if_pos n.isLt,
    BitVec.ofNat_toNat, BitVec.setWidth_eq]

/-- A value `address/prefix`, whatever its host part. -/
def readCidr (value : Text) : Option Ipv4Cidr :=
  (splitOnce ['/'] value).bind fun s => do
    return ⟨← parseAddr s.1, ← parseU8 s.2⟩

def readRange (value : Text) : Option (Addr × Addr) :=
  (splitOnce ['-'] value).bind fun s => do
    return (← parseAddr s.1, ← parseAddr s.2)

def readPorts (value : Text) : Option PortPair :=
  (splitOnce [':'] value).bind fun s => do
    return ⟨← decimal s.1, ← decimal s.2⟩

theorem readCidr_display (c : Ipv4Cidr) : readCidr c.display = some c := by
  have hslash : '/' ∉ displayAddr c.address := notMem_displayAddr (by decide) (by decide) _
  rw [readCidr, Ipv4Cidr.display, splitOnce_char hslash, Option.bind_some,
    parseAddr_displayAddr, parseU8_displayOctet]
  rfl

theorem readRange_display (start stop : Addr) :
    readRange (displayAddr start ++ '-' :: displayAddr stop) = some (start, stop) := by
  have hdash : '-' ∉ displayAddr start := notMem_displayAddr (by decide) (by decide) _
  rw [readRange, splitOnce_char hdash, Option.bind_some, parseAddr_displayAddr,
    parseAddr_displayAddr]
  rfl

theorem isDashed_displayAddr (a : Addr) (rest : Text) : isDashed (displayAddr a ++ rest) = false := by
  rw [isDashed, decide_eq_false_iff_not]
  cases hshown : displayAddr a with
  | nil =>
    have hread := parseAddr_displayAddr a
    rw [hshown] at hread
    cases hread
  | cons c tail =>
    intro hdash
    have hdashed : '-' ∉ displayAddr a := notMem_displayAddr (by decide) (by decide) a
    rw [hshown] at hdashed
    exact hdashed (Option.some.inj hdash ▸ List.mem_cons_self ..)

end Display

section Arguments

structure Credentials where
  adminUser : Text
  password : Text

/-- The port mappings without which nobody gets to a router that has a WAN only. -/
def wanManagementNatPorts : List PortPair := [⟨22, 22⟩, ⟨6443, 6443⟩]

def lanDhcpLeaseSeconds : ℕ := 43200

def wanIfaceArgs (wan : Text) : List Text := ["--wan-iface".toList, wan]

def staticWanArgs (wan : Text) (address : Ipv4Cidr) (gateway : Addr) : List Text :=
  wanIfaceArgs wan ++ ["--wan-mode".toList, "static".toList, "--wan-ip".toList, address.display,
    "--wan-gateway".toList, displayAddr gateway]

def dhcpWanArgs (wan : Text) : List Text :=
  wanIfaceArgs wan ++ ["--wan-mode".toList, "dhcp".toList]

def modeArgs : NetworkMode → List Text
  | .wanOnly wan address gateway =>
    staticWanArgs wan address gateway ++ wanManagementNatPorts.flatMap fun ports =>
      ["--static-nat".toList,
        Nat.toDigits 10 ports.wanPort ++ ':' :: Nat.toDigits 10 ports.lanPort]
  | .wanDhcp wan => dhcpWanArgs wan
  | .routedLan wan wanIpv4 lan management dhcpStart dhcpEnd =>
    (match wanIpv4 with
      | some (.static address gateway) => staticWanArgs wan address gateway
      | some .dhcp => dhcpWanArgs wan
      -- the WAN is registered without an address
      | none => wanIfaceArgs wan ++ ["--wan-mode".toList, "none".toList]) ++
    ["--lan-iface".toList, managementBridge, "--lan-ip".toList, management.display] ++
    lan.flatMap (fun member => ["--lan-member".toList, member]) ++
    ["--lan-dhcp-range".toList, displayAddr dhcpStart ++ '-' :: displayAddr dhcpEnd,
      "--lan-dhcp-lease".toList, Nat.toDigits 10 lanDhcpLeaseSeconds]

/-- Nothing here fails. -/
def configSubcommandArgs (credentials : Credentials) (network : NetworkPlan) :
    Checked (List Text) :=
  .ok (["--admin-user".toList, credentials.adminUser, "--admin-pass".toList,
    credentials.password, "--enable".toList, "firewall".toList, "--disable".toList,
    "nat".toList] ++ modeArgs network.mode ++ ["--stdout".toList])

def isAdminUser (value : Text) : Bool :=
  value ≠ [] && !value.any fun c => c.toNat < 32 || (127 ≤ c.toNat && c.toNat < 160)

def isPassword (password : Text) : Bool :=
  8 ≤ (password.map Char.utf8Size).sum && password.any (fun c => 'a' ≤ c && c ≤ 'z') &&
    password.any (fun c => 'A' ≤ c && c ≤ 'Z') && password.any fun c => '0' ≤ c && c ≤ '9'

end Arguments

section Meaning

structure LanConfig where
  bridge : Text
  members : List Text
  management : Ipv4Cidr
  dhcpStart : Addr
  dhcpEnd : Addr
  lease : ℕ
deriving DecidableEq

/-- What either way says about the router. -/
structure InitialConfig where
  adminUser : Text
  adminPass : Text
  wan : Text
  wanIpv4 : Option WanIpv4Config
  lan : Option LanConfig
  firewall : Bool
  staticNat : List PortPair
deriving DecidableEq

def valueOptions : List Text :=
  ["--admin-user".toList, "--admin-pass".toList, "--enable".toList, "--disable".toList,
    "--wan-iface".toList, "--wan-mode".toList, "--wan-ip".toList, "--wan-gateway".toList,
    "--static-nat".toList, "--lan-iface".toList, "--lan-ip".toList, "--lan-member".toList,
    "--lan-dhcp-range".toList, "--lan-dhcp-lease".toList]

def takesValue (arg : Text) : Option Bool :=
  if arg ∈ valueOptions then some true
  else if arg = "--stdout".toList then some false
  else none

def readWan (os : List Occurrence) : Option (Option WanIpv4Config) :=
  (single "--wan-mode".toList os).bind fun mode =>
    if mode = "static".toList then do
      let address ← (single "--wan-ip".toList os).bind readCidr
      let gateway ← (single "--wan-gateway".toList os).bind parseAddr
      return some (.static address gateway)
    else if mode = "dhcp".toList then some (some .dhcp)
    else if mode = "none".toList then some none
    else none

def readLan (os : List Occurrence) : Option (Option LanConfig) :=
  if values "--lan-iface".toList os = [] then some none
  else do
    let bridge ← single "--lan-iface".toList os
    let management ← (single "--lan-ip".toList os).bind readCidr
    let range ← (single "--lan-dhcp-range".toList os).bind readRange
    let lease ← (single "--lan-dhcp-lease".toList os).bind decimal
    return some ⟨bridge, values "--lan-member".toList os, management, range.1, range.2, lease⟩

/-- What the options are documented to mean. -/
def readOptions (os : List Occurrence) : Option InitialConfig := do
  let adminUser ← single "--admin-user".toList os
  let adminPass ← single "--admin-pass".toList os
  let wan ← single "--wan-iface".toList os
  let wanIpv4 ← readWan os
  let lan ← readLan os
  let staticNat ← (values "--static-nat".toList os).mapM readPorts
  return ⟨adminUser, adminPass, wan, wanIpv4, lan,
    "firewall".toList ∈ values "--enable".toList os ∧
      "firewall".toList ∉ values "--disable".toList os, staticNat⟩

def readArgs (args : List Text) : Option InitialConfig := (parse takesValue args).bind readOptions

def IpService.meaning (s : IpService) : WanIpv4Config :=
  match s.ipModel with
  | .static defaultRouterIp _ ipv4 ipv4Mask _ => .static ⟨ipv4, ipv4Mask⟩ defaultRouterIp
  | .dhcpClient .. => .dhcp

/-- What a configuration says about the interface `wan`. -/
def LandscapeInit.meaningOn (init : LandscapeInit) (wan : Text) : InitialConfig where
  adminUser := init.auth.adminUser
  adminPass := init.auth.adminPass
  wan := wan
  wanIpv4 := (init.ipconfigs.find? fun s => s.ifaceName = wan && s.enable).map IpService.meaning
  lan := (init.ifaces.find? fun i => i.createDevType = .bridge).bind fun bridge =>
    (init.dhcpv4Services.find? fun s => s.ifaceName = bridge.name && s.enable).map fun s =>
      ⟨bridge.name,
        (init.ifaces.filter fun i => i.controllerName = some bridge.name).map IfaceConfig.name,
        ⟨s.config.serverIpAddr, s.config.networkMask⟩, s.config.ipRangeStart,
        s.config.ipRangeEnd, s.config.addressLeaseTime⟩
  firewall := init.firewalls.any fun s => s.ifaceName = wan && s.enable
  staticNat := (init.staticNatMappingsV4.filter fun m => m.wanIfaceName = wan && m.enable).flatMap
    StaticNatV4.mappingPairPorts

/-- The WAN is the interface of that zone. -/
def LandscapeInit.meaning (init : LandscapeInit) : Option InitialConfig :=
  (init.ifaces.find? fun i => i.zoneType = .wan).map fun i => init.meaningOn i.name

end Meaning

section Agree

variable (credentials : Credentials) {plan : NetworkPlan}

/-- The arguments as options, up to the LAN's members. -/
def front (mode : NetworkMode) : List Occurrence :=
  let static (wan : Text) (address : Ipv4Cidr) (gateway : Addr) : List Occurrence :=
    [⟨"--wan-iface".toList, some wan⟩, ⟨"--wan-mode".toList, some "static".toList⟩,
      ⟨"--wan-ip".toList, some address.display⟩,
      ⟨"--wan-gateway".toList, some (displayAddr gateway)⟩]
  let plain (wan mode : Text) : List Occurrence :=
    [⟨"--wan-iface".toList, some wan⟩, ⟨"--wan-mode".toList, some mode⟩]
  [⟨"--admin-user".toList, some credentials.adminUser⟩,
    ⟨"--admin-pass".toList, some credentials.password⟩,
    ⟨"--enable".toList, some "firewall".toList⟩, ⟨"--disable".toList, some "nat".toList⟩] ++
  match mode with
  | .wanOnly wan address gateway =>
    static wan address gateway ++ [⟨"--static-nat".toList, some "22:22".toList⟩,
      ⟨"--static-nat".toList, some "6443:6443".toList⟩]
  | .wanDhcp wan => plain wan "dhcp".toList
  | .routedLan wan wanIpv4 _ management _ _ =>
    (match wanIpv4 with
      | some (.static address gateway) => static wan address gateway
      | some .dhcp => plain wan "dhcp".toList
      | none => plain wan "none".toList) ++
    [⟨"--lan-iface".toList, some managementBridge⟩, ⟨"--lan-ip".toList, some management.display⟩]

def members (mode : NetworkMode) : List Occurrence :=
  mode.lan.map fun member => ⟨"--lan-member".toList, some member⟩

def back : NetworkMode → List Occurrence
  | .routedLan _ _ _ _ dhcpStart dhcpEnd =>
    [⟨"--lan-dhcp-range".toList, some (displayAddr dhcpStart ++ '-' :: displayAddr dhcpEnd)⟩,
      ⟨"--lan-dhcp-lease".toList, some "43200".toList⟩, ⟨"--stdout".toList, none⟩]
  | _ => [⟨"--stdout".toList, none⟩]

def occurrences (mode : NetworkMode) : List Occurrence :=
  front credentials mode ++ members mode ++ back mode

theorem render_occurrences (network : NetworkPlan) : configSubcommandArgs credentials network =
    .ok (render (occurrences credentials network.mode)) := by
  have hmembers (mode : NetworkMode) : render (members mode) =
      mode.lan.flatMap fun member => ["--lan-member".toList, member] := by
    rw [render, members, List.flatMap_map]
    rfl
  have hrender (mode : NetworkMode) : render (occurrences credentials mode) =
      render (front credentials mode) ++ render (members mode) ++ render (back mode) := by
    rw [occurrences, render, List.flatMap_append, List.flatMap_append, render, render, render]
  have hlease : Nat.toDigits 10 lanDhcpLeaseSeconds = "43200".toList := by decide
  rw [configSubcommandArgs, hrender, hmembers]
  congr 1
  obtain ⟨mode, selected⟩ := network
  cases mode with
  | wanOnly wan address gateway => rfl
  | wanDhcp wan => rfl
  | routedLan wan wanIpv4 lan management dhcpStart dhcpEnd =>
    dsimp only [modeArgs, NetworkMode.lan]
    rw [hlease]
    cases wanIpv4 with
    | none => simp [render, front, back, wanIfaceArgs]
    | some config =>
      cases config with
      | dhcp => simp [render, front, back, wanIfaceArgs, dhcpWanArgs]
      | static address gateway => simp [render, front, back, wanIfaceArgs, staticWanArgs]

theorem known_occurrences (mode : NetworkMode) :
    ∀ o ∈ occurrences credentials mode, Known takesValue o := by
  have hall {os : List Occurrence}
      (h : os.all (fun o => takesValue o.name = some o.value.isSome) = true) :
      ∀ o ∈ os, Known takesValue o := by
    intro o ho
    have hknown := List.all_eq_true.mp h o ho
    rwa [decide_eq_true_eq] at hknown
  rw [occurrences, List.forall_mem_append, List.forall_mem_append]
  refine ⟨⟨hall ?_, ?_⟩, hall ?_⟩
  · cases mode with
    | wanOnly wan address gateway => rfl
    | wanDhcp wan => rfl
    | routedLan wan wanIpv4 lan management dhcpStart dhcpEnd =>
      rcases wanIpv4 with _ | ⟨_, _⟩ | _ <;> rfl
  · intro o ho
    obtain ⟨member, -, rfl⟩ := List.mem_map.mp ho
    have hmember : "--lan-member".toList ∈ valueOptions := by decide
    exact if_pos hmember
  · cases mode <;> rfl

theorem isDashed_display (c : Ipv4Cidr) : isDashed c.display = false := isDashed_displayAddr ..

theorem dashed_occurrences (mode : NetworkMode) :
    (∀ o ∈ occurrences credentials mode, ∀ v ∈ o.value, isDashed v = false) ↔
      ∀ v ∈ credentials.adminUser :: credentials.password :: mode.wan :: mode.lan,
        isDashed v = false := by
  have hgateway (a : Addr) : isDashed (displayAddr a) = false := by
    have hshown := isDashed_displayAddr a []
    rwa [List.append_nil] at hshown
  have hbridge : isDashed managementBridge = false := by decide
  have hfront : (∀ o ∈ front credentials mode, ∀ v ∈ o.value, isDashed v = false) ↔
      isDashed credentials.adminUser = false ∧ isDashed credentials.password = false ∧
        isDashed mode.wan = false := by
    cases mode with
    | wanOnly wan address gateway =>
      simp [front, NetworkMode.wan, isDashed_display, hgateway]
    | wanDhcp wan => simp [front, NetworkMode.wan]
    | routedLan wan wanIpv4 lan management dhcpStart dhcpEnd =>
      cases wanIpv4 with
      | none => simp [front, NetworkMode.wan, hbridge, isDashed_display]
      | some config =>
        cases config with
        | dhcp => simp [front, NetworkMode.wan, hbridge, isDashed_display]
        | static address gateway =>
          simp [front, NetworkMode.wan, hbridge, isDashed_display, hgateway]
  have hmembers : (∀ o ∈ members mode, ∀ v ∈ o.value, isDashed v = false) ↔
      ∀ v ∈ mode.lan, isDashed v = false := by
    rw [members, List.forall_mem_map]
    simp
  have hback : ∀ o ∈ back mode, ∀ v ∈ o.value, isDashed v = false := by
    cases mode with
    | wanOnly | wanDhcp => simp [back]
    | routedLan => simp [back, isDashed_displayAddr]
  rw [occurrences, List.forall_mem_append, List.forall_mem_append, hfront, hmembers,
    List.forall_mem_cons, List.forall_mem_cons, List.forall_mem_cons]
  constructor
  · rintro ⟨⟨⟨huser, hpass, hwan⟩, hlan⟩, -⟩
    exact ⟨huser, hpass, hwan, hlan⟩
  · rintro ⟨huser, hpass, hwan, hlan⟩
    exact ⟨⟨⟨huser, hpass, hwan⟩, hlan⟩, hback⟩

theorem values_occurrences (name : Text) (mode : NetworkMode) :
    values name (occurrences credentials mode) = values name (front credentials mode) ++
      (if "--lan-member".toList = name then mode.lan else []) ++ values name (back mode) := by
  have hmembers : values name (members mode) =
      if "--lan-member".toList = name then mode.lan else [] := values_map ..
  rw [occurrences, values_append, values_append, hmembers]

theorem single_occurrences {name value : Text} {mode : NetworkMode}
    (hne : "--lan-member".toList ≠ name)
    (h : values name (front credentials mode) ++ values name (back mode) = [value]) :
    single name (occurrences credentials mode) = some value := by
  rw [single, values_occurrences, if_neg hne, List.append_nil, h]

theorem readWan_occurrences (mode : NetworkMode) : readWan (occurrences credentials mode) =
    some (match mode with
      | .wanOnly _ address gateway => some (.static address gateway)
      | .wanDhcp _ => some .dhcp
      | .routedLan _ wanIpv4 .. => wanIpv4) := by
  have hmode {mode : NetworkMode} {value : Text} (h : values "--wan-mode".toList
      (front credentials mode) ++ values "--wan-mode".toList (back mode) = [value]) :
      single "--wan-mode".toList (occurrences credentials mode) = some value :=
    single_occurrences credentials (by decide) h
  have hip {mode : NetworkMode} {value : Text} (h : values "--wan-ip".toList
      (front credentials mode) ++ values "--wan-ip".toList (back mode) = [value]) :
      single "--wan-ip".toList (occurrences credentials mode) = some value :=
    single_occurrences credentials (by decide) h
  have hgateway {mode : NetworkMode} {value : Text} (h : values "--wan-gateway".toList
      (front credentials mode) ++ values "--wan-gateway".toList (back mode) = [value]) :
      single "--wan-gateway".toList (occurrences credentials mode) = some value :=
    single_occurrences credentials (by decide) h
  cases mode with
  | wanOnly wan address gateway =>
    rw [readWan, hmode rfl, Option.bind_some, if_pos rfl, hip rfl, hgateway rfl, Option.bind_some,
      Option.bind_some, readCidr_display, parseAddr_displayAddr]
    rfl
  | wanDhcp wan =>
    rw [readWan, hmode rfl, Option.bind_some, if_neg (by decide), if_pos rfl]
  | routedLan wan wanIpv4 lan management dhcpStart dhcpEnd =>
    cases wanIpv4 with
    | none =>
      rw [readWan, hmode rfl, Option.bind_some, if_neg (by decide), if_neg (by decide),
        if_pos rfl]
    | some config =>
      cases config with
      | dhcp => rw [readWan, hmode rfl, Option.bind_some, if_neg (by decide), if_pos rfl]
      | static address gateway =>
        rw [readWan, hmode rfl, Option.bind_some, if_pos rfl, hip rfl, hgateway rfl,
          Option.bind_some, Option.bind_some, readCidr_display, parseAddr_displayAddr]
        rfl

theorem readLan_occurrences (mode : NetworkMode) : readLan (occurrences credentials mode) =
    some (match mode with
      | .routedLan _ _ lan management dhcpStart dhcpEnd =>
        some ⟨managementBridge, lan, management, dhcpStart, dhcpEnd, lanDhcpLeaseSeconds⟩
      | _ => none) := by
  have hnone {mode : NetworkMode} (h : values "--lan-iface".toList (front credentials mode) ++
      values "--lan-iface".toList (back mode) = []) :
      values "--lan-iface".toList (occurrences credentials mode) = [] := by
    rw [values_occurrences, if_neg (by decide), List.append_nil, h]
  cases mode with
  | wanOnly wan address gateway => rw [readLan, if_pos (hnone rfl)]
  | wanDhcp wan => rw [readLan, if_pos (hnone rfl)]
  | routedLan wan wanIpv4 lan management dhcpStart dhcpEnd =>
    have hfront {name : Text} {value : Text}
        (h : values name (front credentials (.routedLan wan wanIpv4 lan management dhcpStart
          dhcpEnd)) ++ values name (back (.routedLan wan wanIpv4 lan management dhcpStart
            dhcpEnd)) = [value]) (hne : "--lan-member".toList ≠ name) :
        single name (occurrences credentials (.routedLan wan wanIpv4 lan management dhcpStart
          dhcpEnd)) = some value := single_occurrences credentials hne h
    have hiface : single "--lan-iface".toList (occurrences credentials (.routedLan wan wanIpv4 lan
        management dhcpStart dhcpEnd)) = some managementBridge := by
      apply hfront _ (by decide)
      rcases wanIpv4 with _ | ⟨_, _⟩ | _ <;> rfl
    have hip : single "--lan-ip".toList (occurrences credentials (.routedLan wan wanIpv4 lan
        management dhcpStart dhcpEnd)) = some management.display := by
      apply hfront _ (by decide)
      rcases wanIpv4 with _ | ⟨_, _⟩ | _ <;> rfl
    have hrange : single "--lan-dhcp-range".toList (occurrences credentials (.routedLan wan wanIpv4
        lan management dhcpStart dhcpEnd)) =
          some (displayAddr dhcpStart ++ '-' :: displayAddr dhcpEnd) := by
      apply hfront _ (by decide)
      rcases wanIpv4 with _ | ⟨_, _⟩ | _ <;> rfl
    have hlease : single "--lan-dhcp-lease".toList (occurrences credentials (.routedLan wan wanIpv4
        lan management dhcpStart dhcpEnd)) = some "43200".toList := by
      apply hfront _ (by decide)
      rcases wanIpv4 with _ | ⟨_, _⟩ | _ <;> rfl
    have hmembers : values "--lan-member".toList (occurrences credentials (.routedLan wan wanIpv4
        lan management dhcpStart dhcpEnd)) = lan := by
      have hothers : values "--lan-member".toList (front credentials (.routedLan wan wanIpv4 lan
          management dhcpStart dhcpEnd)) = [] := by
        rcases wanIpv4 with _ | ⟨_, _⟩ | _ <;> rfl
      have hback : values "--lan-member".toList (back (.routedLan wan wanIpv4 lan management
          dhcpStart dhcpEnd)) = [] := rfl
      rw [values_occurrences, hothers, hback, if_pos rfl, List.append_nil, List.nil_append]
      rfl
    have hsome : values "--lan-iface".toList (occurrences credentials (.routedLan wan wanIpv4 lan
        management dhcpStart dhcpEnd)) ≠ [] := by
      intro hnil
      rw [single, hnil] at hiface
      cases hiface
    have hdecimal : decimal "43200".toList = some lanDhcpLeaseSeconds := by decide +kernel
    rw [readLan, if_neg hsome, hiface, hip, hrange, hlease, hmembers, Option.bind_some,
      Option.bind_some, Option.bind_some, readCidr_display, readRange_display, hdecimal]
    rfl

theorem staticNat_occurrences (mode : NetworkMode) :
    (values "--static-nat".toList (occurrences credentials mode)).mapM readPorts =
      some (match mode with
        | .wanOnly .. => wanManagementNatPorts
        | _ => []) := by
  rw [values_occurrences, if_neg (by decide), List.append_nil]
  cases mode with
  | wanOnly wan address gateway =>
    have hports : ["22:22".toList, "6443:6443".toList].mapM readPorts =
        some wanManagementNatPorts := by decide +kernel
    exact hports
  | wanDhcp wan => rfl
  | routedLan wan wanIpv4 lan management dhcpStart dhcpEnd =>
    rcases wanIpv4 with _ | ⟨_, _⟩ | _ <;> rfl

/-- What a plan says about the router. -/
def NetworkMode.intended (mode : NetworkMode) : InitialConfig where
  adminUser := credentials.adminUser
  adminPass := credentials.password
  wan := mode.wan
  wanIpv4 :=
    match mode with
    | .wanOnly _ address gateway => some (.static address gateway)
    | .wanDhcp _ => some .dhcp
    | .routedLan _ wanIpv4 .. => wanIpv4
  lan :=
    match mode with
    | .routedLan _ _ lan management dhcpStart dhcpEnd =>
      some ⟨managementBridge, lan, management, dhcpStart, dhcpEnd, lanDhcpLeaseSeconds⟩
    | _ => none
  firewall := true
  staticNat :=
    match mode with
    | .wanOnly .. => wanManagementNatPorts
    | _ => []

theorem readOptions_occurrences (mode : NetworkMode) :
    readOptions (occurrences credentials mode) = some (mode.intended credentials) := by
  have huser : single "--admin-user".toList (occurrences credentials mode) =
      some credentials.adminUser := by
    apply single_occurrences credentials (by decide)
    cases mode with
    | wanOnly | wanDhcp => rfl
    | routedLan wan wanIpv4 => rcases wanIpv4 with _ | ⟨_, _⟩ | _ <;> rfl
  have hpass : single "--admin-pass".toList (occurrences credentials mode) =
      some credentials.password := by
    apply single_occurrences credentials (by decide)
    cases mode with
    | wanOnly | wanDhcp => rfl
    | routedLan wan wanIpv4 => rcases wanIpv4 with _ | ⟨_, _⟩ | _ <;> rfl
  have hwan : single "--wan-iface".toList (occurrences credentials mode) = some mode.wan := by
    apply single_occurrences credentials (by decide)
    cases mode with
    | wanOnly | wanDhcp => rfl
    | routedLan wan wanIpv4 => rcases wanIpv4 with _ | ⟨_, _⟩ | _ <;> rfl
  have henable : values "--enable".toList (occurrences credentials mode) =
      ["firewall".toList] := by
    rw [values_occurrences, if_neg (by decide), List.append_nil]
    cases mode with
    | wanOnly | wanDhcp => rfl
    | routedLan wan wanIpv4 => rcases wanIpv4 with _ | ⟨_, _⟩ | _ <;> rfl
  have hdisable : values "--disable".toList (occurrences credentials mode) = ["nat".toList] := by
    rw [values_occurrences, if_neg (by decide), List.append_nil]
    cases mode with
    | wanOnly | wanDhcp => rfl
    | routedLan wan wanIpv4 => rcases wanIpv4 with _ | ⟨_, _⟩ | _ <;> rfl
  have hfirewall : decide ("firewall".toList ∈ ["firewall".toList] ∧
      "firewall".toList ∉ ["nat".toList]) = true := by decide
  rw [readOptions, huser, hpass, hwan, readWan_occurrences, readLan_occurrences,
    staticNat_occurrences, henable, hdisable]
  simp only [bind, Option.bind, hfirewall]
  rfl

theorem meaning_ofMode (version id : Text) (mode : NetworkMode) :
    (LandscapeInit.ofMode version credentials.adminUser credentials.password id mode).meaning =
      some (mode.intended credentials) := by
  have hzone : (LandscapeInit.ofMode version credentials.adminUser credentials.password id
      mode).ifaces.find? (fun i => i.zoneType = .wan) = some (physicalIface mode.wan none .wan) := by
    rw [ifaces_ofMode]
    rfl
  rw [LandscapeInit.meaning, hzone, Option.map_some]
  congr 1
  cases mode with
  | wanOnly wan address gateway =>
    simp [LandscapeInit.meaningOn, LandscapeInit.ofMode, NetworkMode.intended, NetworkMode.wan,
      physicalIface, staticIp, wanManagement, IpService.meaning, wanManagementNatPorts]
  | wanDhcp wan =>
    simp [LandscapeInit.meaningOn, LandscapeInit.ofMode, NetworkMode.intended, NetworkMode.wan,
      physicalIface, dhcpClient, IpService.meaning]
  | routedLan wan wanIpv4 lan management dhcpStart dhcpEnd =>
    generalize hinit : LandscapeInit.ofMode version credentials.adminUser credentials.password id
      (.routedLan wan wanIpv4 lan management dhcpStart dhcpEnd) = init
    have hports : (lanPorts lan).filter (fun i => i.controllerName = some managementBridge) =
        lanPorts lan := by
      rw [List.filter_eq_self]
      exact fun i hi => decide_eq_true (mem_lanPorts hi).2.1
    have hmembers : (init.ifaces.filter fun i => i.controllerName = some managementBridge).map
        IfaceConfig.name = lan := by
      have hfilter : init.ifaces.filter (fun i => i.controllerName = some managementBridge) =
          (lanPorts lan).filter fun i => i.controllerName = some managementBridge := by
        rw [← hinit, ifaces_ofMode]
        rfl
      rw [hfilter, hports, names_lanPorts]
    have hlan : (init.meaningOn wan).lan = some ⟨managementBridge, (init.ifaces.filter fun i =>
        i.controllerName = some managementBridge).map IfaceConfig.name, management, dhcpStart,
          dhcpEnd, lanDhcpLeaseSeconds⟩ := by
      rw [← hinit]
      rfl
    have hip : (init.meaningOn wan).wanIpv4 = wanIpv4 := by
      rw [← hinit]
      rcases wanIpv4 with _ | ⟨_, _⟩ | _ <;>
        simp [LandscapeInit.meaningOn, LandscapeInit.ofMode, staticIp, dhcpClient,
          IpService.meaning]
    have hfirewall : (init.meaningOn wan).firewall = true := by
      rw [← hinit]
      simp [LandscapeInit.meaningOn, LandscapeInit.ofMode, NetworkMode.wan]
    have hrest : init.meaningOn wan = ⟨credentials.adminUser, credentials.password, wan,
        (init.meaningOn wan).wanIpv4, (init.meaningOn wan).lan, (init.meaningOn wan).firewall,
          []⟩ := by
      rw [← hinit]
      rfl
    rw [hmembers] at hlan
    rw [hip, hlan, hfirewall] at hrest
    exact hrest

/-- The two ways agree on the plans that are accepted, where no name and no credential looks like
an option. -/
theorem readArgs_iff (version id : Text) (plan : NetworkPlan) :
    (∀ args, configSubcommandArgs credentials plan = .ok args → ∃ init,
      LandscapeInit.new version credentials.adminUser credentials.password id plan = .ok init ∧
        readArgs args ≠ none ∧ readArgs args = init.meaning) ↔
      plan.validate = .ok () ∧
        ∀ v ∈ credentials.adminUser :: credentials.password :: plan.wan :: plan.lan,
          isDashed v = false := by
  have hread : readArgs (render (occurrences credentials plan.mode)) =
      if ∀ v ∈ credentials.adminUser :: credentials.password :: plan.wan :: plan.lan,
          isDashed v = false then some (plan.mode.intended credentials) else none := by
    rw [readArgs, parse_render (known_occurrences credentials plan.mode)]
    simp only [dashed_occurrences]
    split
    · rename_i hall
      rw [Option.bind_some, readOptions_occurrences]
      exact (if_pos hall).symm
    · rename_i hno
      rw [Option.bind_none]
      exact (if_neg hno).symm
  rw [validate_iff]
  constructor
  · intro h
    obtain ⟨init, hnew, hsome, -⟩ := h _ (render_occurrences credentials plan)
    obtain ⟨haccept, -⟩ := new_iff.mp hnew
    refine ⟨haccept, ?_⟩
    by_contra hdashed
    rw [hread, if_neg hdashed] at hsome
    exact hsome rfl
  · rintro ⟨haccept, hplain⟩ args hargs
    rw [render_occurrences, Except.ok.injEq] at hargs
    subst hargs
    refine ⟨_, new_iff.mpr ⟨haccept, rfl⟩, ?_, ?_⟩
    · rw [hread, if_pos hplain]
      exact nofun
    · rw [hread, if_pos hplain, meaning_ofMode]

/-- A user that lkit accepts and the other program takes for an option, and a plan without a LAN
port that is turned into arguments all the same. -/
theorem readArgs_disagree :
    (isAdminUser "-admin".toList = true ∧ isPassword "Secret123".toList = true ∧
      (routedPlan "ens4".toList).validate = .ok () ∧
      ∀ args, configSubcommandArgs ⟨"-admin".toList, "Secret123".toList⟩
        (routedPlan "ens4".toList) = .ok args → readArgs args = none) ∧
    (⟨.routedLan "ens3".toList none [] ⟨0xC0A80A01, 24⟩ 0xC0A80A64 0xC0A80AFE,
        [⟨"ens3".toList, "02:00:00:00:00:03".toList⟩]⟩ : NetworkPlan).validate =
        .error (networkError "at least one LAN interface is required") ∧
      ∃ args, configSubcommandArgs ⟨"admin".toList, "Secret123".toList⟩
        ⟨.routedLan "ens3".toList none [] ⟨0xC0A80A01, 24⟩ 0xC0A80A64 0xC0A80AFE,
          [⟨"ens3".toList, "02:00:00:00:00:03".toList⟩]⟩ = .ok args := by
  refine ⟨⟨by decide +kernel, by decide +kernel, by decide +kernel, fun args hargs => ?_⟩,
    by decide +kernel, _, rfl⟩
  rw [configSubcommandArgs, Except.ok.injEq] at hargs
  subst hargs
  decide +kernel

end Agree

end LandscapeKit.Network
