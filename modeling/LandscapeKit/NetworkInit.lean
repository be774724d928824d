import LandscapeKit.NetworkValidate
import Mathlib.Data.List.Nodup

/-!
The initial configuration that is made up for a plan, and what its entries refer to. The bridge of
the LAN ports has a name of its own, which an interface may have too.
-/

namespace LandscapeKit.Network

open Text

section Records

inductive CreateDevType where
  | bridge
  | noNeedToCreate
deriving DecidableEq

inductive ZoneType where
  | wan
  | lan
  | undefined
deriving DecidableEq

inductive WifiMode where
  | undefined
deriving DecidableEq

structure IfaceConfig where
  name : Text
  createDevType : CreateDevType
  controllerName : Option Text
  zoneType : ZoneType
  enableInBoot : Bool
  wifiMode : WifiMode
deriving DecidableEq

inductive StaticIpModel where
  | static (defaultRouterIp : Addr) (defaultRouter : Bool) (ipv4 : Addr) (ipv4Mask : BitVec 8)
      (ipv6 : Option Text)
  | dhcpClient (defaultRouter : Bool) (hostname : Option Text) (customeOpts : List Text)
deriving DecidableEq

structure IpService where
  ifaceName : Text
  enable : Bool
  ipModel : StaticIpModel
deriving DecidableEq

structure InterfaceService where
  ifaceName : Text
  enable : Bool
deriving DecidableEq

structure LanRoute where
  ifaceName : Text
  enable : Bool
  staticRoutes : Option (List Text)
deriving DecidableEq

structure DhcpConfig where
  ipRangeStart : Addr
  ipRangeEnd : Addr
  serverIpAddr : Addr
  networkMask : BitVec 8
  addressLeaseTime : ℕ
  customOptions : List Text
deriving DecidableEq

structure DhcpService where
  ifaceName : Text
  enable : Bool
  config : DhcpConfig
deriving DecidableEq

structure PortPair where
  wanPort : ℕ
  lanPort : ℕ
deriving DecidableEq

inductive StaticNatTarget where
  | local
deriving DecidableEq

structure StaticNatV4 where
  id : Text
  enable : Bool
  remark : Text
  wanIfaceName : Text
  mappingPairPorts : List PortPair
  lanTarget : StaticNatTarget
  l4Protocols : List ℕ
deriving DecidableEq

structure Auth where
  adminUser : Text
  adminPass : Text
deriving DecidableEq

/-- The times of the last change, all zero, are left out. -/
structure LandscapeInit where
  version : Text
  auth : Auth
  ifaces : List IfaceConfig
  ipconfigs : List IpService
  firewalls : List InterfaceService
  dhcpv4Services : List DhcpService
  routeLans : List LanRoute
  routeWans : List InterfaceService
  staticNatMappingsV4 : List StaticNatV4
deriving DecidableEq

end Records

section New

def physicalIface (name : Text) (controllerName : Option Text) (zoneType : ZoneType) :
    IfaceConfig :=
  ⟨name, .noNeedToCreate, controllerName, zoneType, true, .undefined⟩

def staticIp (ifaceName : Text) (address : Ipv4Cidr) (gateway : Addr) : IpService :=
  ⟨ifaceName, true, .static gateway true address.address address.prefixLen none⟩

def dhcpClient (ifaceName : Text) : IpService := ⟨ifaceName, true, .dhcpClient true none []⟩

def bridgeIface : IfaceConfig := ⟨managementBridge, .bridge, none, .lan, true, .undefined⟩

def wanManagement (id wan : Text) : StaticNatV4 :=
  ⟨id, true, "lkit WAN management".toList, wan, [⟨22, 22⟩, ⟨6443, 6443⟩], .local, [6]⟩

def lanDhcp (management : Ipv4Cidr) (dhcpStart dhcpEnd : Addr) : DhcpService :=
  ⟨managementBridge, true,
    ⟨dhcpStart, dhcpEnd, management.address, management.prefixLen, 43200, []⟩⟩

variable (version adminUser adminPass id : Text)

/-- `id` is what the generator of identifiers returns. -/
def LandscapeInit.ofMode (mode : NetworkMode) : LandscapeInit :=
  let init : LandscapeInit :=
    ⟨version, ⟨adminUser, adminPass⟩, [physicalIface mode.wan none .wan], [],
      [⟨mode.wan, true⟩], [], [], [⟨mode.wan, true⟩], []⟩
  match mode with
  | .wanOnly wan address gateway =>
    { init with
      ipconfigs := [staticIp wan address gateway]
      staticNatMappingsV4 := [wanManagement id wan] }
  | .wanDhcp wan => { init with ipconfigs := [dhcpClient wan] }
  | .routedLan wan wanIpv4 lan management dhcpStart dhcpEnd =>
    { init with
      ifaces := init.ifaces ++ [bridgeIface] ++
        lan.map fun iface => physicalIface iface (some managementBridge) .undefined
      ipconfigs :=
        match wanIpv4 with
        | some (.static address gateway) => [staticIp wan address gateway]
        | some .dhcp => [dhcpClient wan]
        | none => []
      dhcpv4Services := [lanDhcp management dhcpStart dhcpEnd]
      routeLans := [⟨managementBridge, true, none⟩] }

def LandscapeInit.new (network : NetworkPlan) : Checked LandscapeInit := do
  network.validate
  return LandscapeInit.ofMode version adminUser adminPass id network.mode

end New

section References

/-- The names that the services of a configuration and its controllers refer to. -/
def LandscapeInit.references (init : LandscapeInit) : List Text :=
  init.ifaces.filterMap IfaceConfig.controllerName ++ init.ipconfigs.map IpService.ifaceName ++
    init.firewalls.map InterfaceService.ifaceName ++ init.dhcpv4Services.map DhcpService.ifaceName ++
    init.routeLans.map LanRoute.ifaceName ++ init.routeWans.map InterfaceService.ifaceName ++
    init.staticNatMappingsV4.map StaticNatV4.wanIfaceName

/-- The configuration refers to its own interfaces, and every one of them has its name alone. -/
structure Referential (plan : NetworkPlan) (init : LandscapeInit) : Prop where
  nodup : (init.ifaces.map IfaceConfig.name).Nodup
  references : ∀ n ∈ init.references, (init.ifaces.map IfaceConfig.name).count n = 1
  controllers : ∀ i ∈ init.ifaces, ∀ controller ∈ i.controllerName,
    i.name ≠ controller ∧ i.name ≠ plan.wan ∧
      ∃ b ∈ init.ifaces, b.name = controller ∧ b.createDevType = .bridge
  physical : (init.ifaces.filter fun i => i.createDevType = .noNeedToCreate).map
    IfaceConfig.name = plan.expectedInterfaces

variable {version adminUser adminPass id : Text} {plan : NetworkPlan} {init : LandscapeInit}

theorem new_iff : LandscapeInit.new version adminUser adminPass id plan = .ok init ↔
    Acceptable plan ∧ init = LandscapeInit.ofMode version adminUser adminPass id plan.mode := by
  rw [← validate_iff, LandscapeInit.new]
  cases plan.validate with
  | error stop => exact ⟨nofun, fun h => nomatch h.1⟩
  | ok => exact ⟨fun h => ⟨rfl, (Except.ok.inj h).symm⟩, fun h => congrArg Except.ok h.2.symm⟩

/-- The bridge is made for the LAN only. -/
def NetworkMode.bridges (mode : NetworkMode) : List Text :=
  if mode.ranges = [] then [] else [managementBridge]

/-- The physical LAN ports, all below the bridge. -/
def lanPorts (lan : List Text) : List IfaceConfig :=
  lan.map fun iface => physicalIface iface (some managementBridge) .undefined

theorem names_lanPorts (lan : List Text) : (lanPorts lan).map IfaceConfig.name = lan := by
  rw [lanPorts, List.map_map]
  exact List.map_id' lan

theorem mem_lanPorts {lan : List Text} {i : IfaceConfig} (h : i ∈ lanPorts lan) :
    i.name ∈ lan ∧ i.controllerName = some managementBridge ∧
      i.createDevType = .noNeedToCreate := by
  obtain ⟨iface, hiface, rfl⟩ := List.mem_map.mp h
  exact ⟨hiface, rfl, rfl⟩

theorem ifaces_ofMode (mode : NetworkMode) :
    (LandscapeInit.ofMode version adminUser adminPass id mode).ifaces =
      physicalIface mode.wan none .wan ::
        (if mode.ranges = [] then [] else bridgeIface :: lanPorts mode.lan) := by
  cases mode <;> rfl

theorem names_ofMode (mode : NetworkMode) :
    ((LandscapeInit.ofMode version adminUser adminPass id mode).ifaces.map IfaceConfig.name).Perm
      (mode.bridges ++ mode.wan :: mode.lan) := by
  rw [ifaces_ofMode, NetworkMode.bridges]
  cases mode with
  | wanOnly wan address gateway => exact .refl _
  | wanDhcp wan => exact .refl _
  | routedLan wan wanIpv4 lan management dhcpStart dhcpEnd =>
    rw [if_neg (by simp [NetworkMode.ranges]), if_neg (by simp [NetworkMode.ranges]),
      List.map_cons, List.map_cons, names_lanPorts]
    exact List.Perm.swap ..

theorem ipconfigs_ofMode (mode : NetworkMode) :
    ∀ s ∈ (LandscapeInit.ofMode version adminUser adminPass id mode).ipconfigs,
      s.ifaceName = mode.wan := by
  cases mode with
  | wanOnly wan address gateway => exact fun s hs => List.mem_singleton.mp hs ▸ rfl
  | wanDhcp wan => exact fun s hs => List.mem_singleton.mp hs ▸ rfl
  | routedLan wan wanIpv4 lan management dhcpStart dhcpEnd =>
    cases wanIpv4 with
    | none => exact fun s hs => absurd hs List.not_mem_nil
    | some config => cases config <;> exact fun s hs => List.mem_singleton.mp hs ▸ rfl

theorem controllers_ofMode {mode : NetworkMode} {i : IfaceConfig} {controller : Text}
    (hi : i ∈ (LandscapeInit.ofMode version adminUser adminPass id mode).ifaces)
    (hc : i.controllerName = some controller) :
    i.name ∈ mode.lan ∧ controller ∈ mode.bridges ∧ bridgeIface ∈
      (LandscapeInit.ofMode version adminUser adminPass id mode).ifaces := by
  rw [ifaces_ofMode] at hi ⊢
  rw [NetworkMode.bridges]
  rcases List.mem_cons.mp hi with rfl | hi
  · cases hc
  · split at hi
    · cases hi
    · rename_i hranges
      rw [if_neg hranges]
      rcases List.mem_cons.mp hi with rfl | hi
      · cases hc
      · obtain ⟨hname, hbridge, -⟩ := mem_lanPorts hi
        rw [hbridge] at hc
        rw [if_neg hranges, ← Option.some.inj hc]
        exact ⟨hname, List.mem_singleton_self _, by simp⟩

theorem references_ofMode {mode : NetworkMode} {n : Text}
    (h : n ∈ (LandscapeInit.ofMode version adminUser adminPass id mode).references) :
    n ∈ mode.bridges ++ mode.wan :: mode.lan := by
  have hwan : mode.wan ∈ mode.bridges ++ mode.wan :: mode.lan := by simp
  have hbridge (s : Text) (hs : s ∈ mode.bridges) : s ∈ mode.bridges ++ mode.wan :: mode.lan :=
    List.mem_append_left _ hs
  simp only [LandscapeInit.references, List.mem_append, List.mem_map, List.mem_filterMap] at h
  rcases h with (((((⟨i, hi, hn⟩ | ⟨s, hs, rfl⟩) | ⟨s, hs, rfl⟩) | ⟨s, hs, rfl⟩) | ⟨s, hs, rfl⟩) |
    ⟨s, hs, rfl⟩) | ⟨s, hs, rfl⟩
  · exact hbridge n (controllers_ofMode hi hn).2.1
  · rw [ipconfigs_ofMode mode s hs]
    exact hwan
  · cases mode <;> exact (List.mem_singleton.mp hs) ▸ hwan
  · cases mode with
    | routedLan => exact (List.mem_singleton.mp hs) ▸ List.mem_cons_self ..
    | _ => cases hs
  · cases mode with
    | routedLan => exact (List.mem_singleton.mp hs) ▸ List.mem_cons_self ..
    | _ => cases hs
  · cases mode <;> exact (List.mem_singleton.mp hs) ▸ hwan
  · cases mode with
    | wanOnly => exact (List.mem_singleton.mp hs) ▸ hwan
    | _ => cases hs

theorem physical_ofMode (mode : NetworkMode) :
    ((LandscapeInit.ofMode version adminUser adminPass id mode).ifaces.filter fun i =>
      i.createDevType = .noNeedToCreate).map IfaceConfig.name = mode.wan :: mode.lan := by
  rw [ifaces_ofMode]
  cases mode with
  | wanOnly wan address gateway => rfl
  | wanDhcp wan => rfl
  | routedLan wan wanIpv4 lan management dhcpStart dhcpEnd =>
    have hports : (lanPorts lan).filter (fun i => i.createDevType = .noNeedToCreate) =
        lanPorts lan := by
      rw [List.filter_eq_self]
      exact fun i hi => decide_eq_true (mem_lanPorts hi).2.2
    rw [if_neg (by simp [NetworkMode.ranges]), List.filter_cons_of_pos rfl,
      List.filter_cons_of_neg (by decide), List.map_cons, NetworkMode.lan, hports, names_lanPorts]
    rfl

/-- What a plan's configuration refers to is there once, unless an interface is called like the
bridge that is made beside it. -/
theorem referential_iff
    (h : LandscapeInit.new version adminUser adminPass id plan = .ok init) :
    Referential plan init ↔
      (plan.mode.ranges ≠ [] → managementBridge ∉ plan.expectedInterfaces) := by
  obtain ⟨haccept, rfl⟩ := new_iff.mp h
  have hperm : ((LandscapeInit.ofMode version adminUser adminPass id plan.mode).ifaces.map
      IfaceConfig.name).Perm (plan.mode.bridges ++ plan.mode.wan :: plan.mode.lan) :=
    names_ofMode plan.mode
  obtain ⟨hnodup, -⟩ := nodup_of_validateMode haccept.lan haccept.wan
  have hapart : (plan.mode.bridges ++ plan.mode.wan :: plan.mode.lan).Nodup ↔
      (plan.mode.ranges ≠ [] → managementBridge ∉ plan.expectedInterfaces) := by
    rw [NetworkMode.bridges]
    split
    · rename_i hnone
      exact ⟨fun _ hne => absurd hnone hne, fun _ => hnodup⟩
    · rename_i hsome
      rw [List.singleton_append, List.nodup_cons]
      exact ⟨fun hboth _ => hboth.1, fun hno => ⟨hno hsome, hnodup⟩⟩
  constructor
  · intro href
    exact hapart.mp (hperm.nodup_iff.mp href.nodup)
  · intro hno
    have hall := hapart.mpr hno
    refine ⟨hperm.nodup_iff.mpr hall, fun n hn => ?_, fun i hi controller hc => ?_,
      physical_ofMode plan.mode⟩
    · rw [hperm.count_eq]
      exact List.count_eq_one_of_mem hall (references_ofMode hn)
    · obtain ⟨hlan, hbridge, hmem⟩ := controllers_ofMode hi hc
      have hne := (List.nodup_append.mp hall).2.2 controller hbridge i.name
        (List.mem_cons_of_mem _ hlan)
      have hwan : i.name ≠ plan.mode.wan := fun he => (List.nodup_cons.mp hnodup).1 (he ▸ hlan)
      refine ⟨hne.symm, hwan, bridgeIface, hmem, ?_, rfl⟩
      rw [NetworkMode.bridges] at hbridge
      split at hbridge
      · cases hbridge
      · exact (List.mem_singleton.mp hbridge).symm

/-- A plan with a LAN port beside the WAN. -/
def routedPlan (port : Text) : NetworkPlan :=
  ⟨.routedLan "ens3".toList none [port] ⟨0xC0A80A01, 24⟩ 0xC0A80A64 0xC0A80AFE,
    [⟨"ens3".toList, "02:00:00:00:00:03".toList⟩, ⟨port, "02:00:00:00:00:04".toList⟩]⟩

theorem referential_ports : Referential (routedPlan "ens4".toList)
    (LandscapeInit.ofMode "1.2.3".toList "admin".toList "Secret123".toList []
      (routedPlan "ens4".toList).mode) ↔
        ((routedPlan "ens4".toList).mode.ranges ≠ [] →
          managementBridge ∉ (routedPlan "ens4".toList).expectedInterfaces) := by
  have hnew : LandscapeInit.new "1.2.3".toList "admin".toList "Secret123".toList []
      (routedPlan "ens4".toList) = .ok (LandscapeInit.ofMode "1.2.3".toList "admin".toList
        "Secret123".toList [] (routedPlan "ens4".toList).mode) := by decide +kernel
  exact referential_iff hnew

/-- A LAN port that is called like the bridge is accepted. -/
theorem not_referential_bridge :
    LandscapeInit.new "1.2.3".toList "admin".toList "Secret123".toList []
        (routedPlan managementBridge) = .ok (LandscapeInit.ofMode "1.2.3".toList "admin".toList
          "Secret123".toList [] (routedPlan managementBridge).mode) ∧
      ¬ Referential (routedPlan managementBridge) (LandscapeInit.ofMode "1.2.3".toList
        "admin".toList "Secret123".toList [] (routedPlan managementBridge).mode) := by
  refine ⟨by decide +kernel, fun h => ?_⟩
  have hnodup := h.nodup
  revert hnodup
  decide +kernel

end References

end LandscapeKit.Network
