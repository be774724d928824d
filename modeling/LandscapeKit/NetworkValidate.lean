import LandscapeKit.NetworkSubnet
import Mathlib.Data.List.Perm.Subperm

/-!
What a plan has to be for its check to accept it, and when the check itself leaves its types. An
own address that is its subnet's network or broadcast address is not noticed.
-/

namespace LandscapeKit.Network

open Text Blocks

section Parts

/-- The static addresses of the WAN, each with its gateway. -/
def NetworkMode.gateways : NetworkMode → List (Ipv4Cidr × Addr)
  | .wanOnly _ address gateway => [(address, gateway)]
  | .routedLan _ (some (.static address gateway)) .. => [(address, gateway)]
  | _ => []

/-- The management address with the range of its DHCP server. -/
def NetworkMode.ranges : NetworkMode → List (Ipv4Cidr × Addr × Addr)
  | .routedLan _ _ _ management dhcpStart dhcpEnd => [(management, dhcpStart, dhcpEnd)]
  | _ => []

/-- The addresses that the router gets itself. -/
def NetworkPlan.cidrs (plan : NetworkPlan) : List Ipv4Cidr :=
  plan.mode.gateways.map Prod.fst ++ plan.mode.ranges.map Prod.fst

def GatewayFits (g : Ipv4Cidr × Addr) : Prop := g.1.Usable g.2 ∧ g.1.address ≠ g.2

structure LanFits (wan : Text) (lan : List Text) : Prop where
  ne_nil : lan ≠ []
  names : ∀ iface ∈ lan, isIfaceName iface = true
  nodup : (wan :: lan).Nodup

structure MacsFit (expected : List Text) (selected : List SelectedInterface) : Prop where
  names : (selected.map SelectedInterface.name).Perm expected
  macs : ∀ s ∈ selected, isMac s.mac = true

/-- A plan in which everything is in order but the own addresses. -/
structure Acceptable (plan : NetworkPlan) : Prop where
  wan : isIfaceName plan.wan = true
  gateways : ∀ g ∈ plan.mode.gateways, GatewayFits g
  lan : plan.mode.ranges ≠ [] → LanFits plan.wan plan.lan
  ranges : ∀ r ∈ plan.mode.ranges, r.1.IsPool r.2.1 r.2.2
  macs : MacsFit plan.expectedInterfaces plan.selectedMacs

end Parts

section Checks

variable {a b : Checked Unit} {p : Prop} [Decidable p] {e : NetworkError}

theorem seq_ok_iff : (a >>= fun _ => b) = .ok () ↔ a = .ok () ∧ b = .ok () := by
  cases a with
  | error stop => exact ⟨nofun, fun h => nomatch h.1⟩
  | ok => exact ⟨fun h => ⟨rfl, h⟩, fun h => h.2⟩

theorem seq_outOfRange_iff : (a >>= fun _ => b) = .error .outOfRange ↔
    a = .error .outOfRange ∨ (a = .ok () ∧ b = .error .outOfRange) := by
  cases a with
  | error stop => exact ⟨fun h => .inl h, fun h => h.elim id fun h => nomatch h.1⟩
  | ok => exact ⟨fun h => .inr ⟨rfl, h⟩, fun h => h.elim (nofun) fun h => h.2⟩

theorem refuse_ok_iff :
    (if p then throw (.refused e) else b : Checked Unit) = .ok () ↔ ¬ p ∧ b = .ok () := by
  split
  · rename_i hp
    exact ⟨nofun, fun h => absurd hp h.1⟩
  · rename_i hp
    exact ⟨fun h => ⟨hp, h⟩, fun h => h.2⟩

theorem refuse_outOfRange_iff :
    (if p then throw (.refused e) else b : Checked Unit) = .error .outOfRange ↔
      ¬ p ∧ b = .error .outOfRange := by
  split
  · rename_i hp
    exact ⟨nofun, fun h => absurd hp h.1⟩
  · rename_i hp
    exact ⟨fun h => ⟨hp, h⟩, fun h => h.2⟩

end Checks

section Names

variable {wan value : Text} {expected : List Text}

theorem validateIfaceName_iff : validateIfaceName value = .ok () ↔ isIfaceName value = true := by
  rw [validateIfaceName]
  split
  · rename_i h
    exact ⟨fun _ => h, fun _ => rfl⟩
  · rename_i h
    exact ⟨nofun, fun hname => absurd hname h⟩

theorem validateIfaceName_inRange : validateIfaceName value ≠ .error .outOfRange := by
  rw [validateIfaceName]
  split <;> exact nofun

theorem validateMac_iff : validateMac value = .ok () ↔ isMac value = true := by
  rw [validateMac]
  split
  · rename_i h
    exact ⟨fun _ => h, fun _ => rfl⟩
  · rename_i h
    exact ⟨nofun, fun hmac => absurd hmac h⟩

theorem validateMac_inRange : validateMac value ≠ .error .outOfRange := by
  rw [validateMac]
  split <;> exact nofun

theorem validateLan_iff {unique lan : List Text} : validateLan wan unique lan = .ok () ↔
    (∀ iface ∈ lan, isIfaceName iface = true ∧ iface ≠ wan ∧ iface ∉ unique) ∧ lan.Nodup := by
  induction lan generalizing unique with
  | nil => exact ⟨fun _ => ⟨by simp, List.nodup_nil⟩, fun _ => rfl⟩
  | cons iface lan ih =>
    rw [validateLan, seq_ok_iff, refuse_ok_iff, refuse_ok_iff, validateIfaceName_iff, ih,
      List.forall_mem_cons, List.nodup_cons]
    constructor
    · rintro ⟨hname, hwan, hunique, hrest, hnodup⟩
      refine ⟨⟨⟨hname, hwan, hunique⟩, fun i hi => ?_⟩, fun hmem => ?_, hnodup⟩
      · obtain ⟨hi, hne, hout⟩ := hrest i hi
        exact ⟨hi, hne, fun hmem => hout (List.mem_cons_of_mem _ hmem)⟩
      · exact (hrest iface hmem).2.2 (List.mem_cons_self ..)
    · rintro ⟨⟨⟨hname, hwan, hunique⟩, hrest⟩, hnot, hnodup⟩
      refine ⟨hname, hwan, hunique, fun i hi => ?_, hnodup⟩
      obtain ⟨hiname, hne, hout⟩ := hrest i hi
      refine ⟨hiname, hne, fun hmem => ?_⟩
      rcases List.mem_cons.mp hmem with rfl | hmem
      · exact hnot hi
      · exact hout hmem

theorem validateLan_inRange {unique lan : List Text} :
    validateLan wan unique lan ≠ .error .outOfRange := by
  induction lan generalizing unique with
  | nil => exact nofun
  | cons iface lan ih =>
    rw [validateLan, Ne, seq_outOfRange_iff, refuse_outOfRange_iff, refuse_outOfRange_iff]
    rintro (h | ⟨-, -, -, h⟩)
    · exact validateIfaceName_inRange h
    · exact ih h

theorem lanFits_iff {lan : List Text} (hne : lan ≠ []) :
    validateLan wan [] lan = .ok () ↔ LanFits wan lan := by
  rw [validateLan_iff]
  constructor
  · rintro ⟨hall, hnodup⟩
    exact ⟨hne, fun i hi => (hall i hi).1,
      List.nodup_cons.mpr ⟨fun hmem => (hall wan hmem).2.1 rfl, hnodup⟩⟩
  · rintro ⟨-, hnames, hnodup⟩
    obtain ⟨hnot, hnodup⟩ := List.nodup_cons.mp hnodup
    exact ⟨fun i hi => ⟨hnames i hi, fun he => hnot (he ▸ hi), List.not_mem_nil⟩, hnodup⟩

theorem validateMacs_iff {names : List Text} {selected : List SelectedInterface}
    (hexpected : ∀ n ∈ expected, isIfaceName n = true) :
    validateMacs expected names selected = .ok () ↔
      (∀ s ∈ selected, s.name ∈ expected ∧ s.name ∉ names ∧ isMac s.mac = true) ∧
        (selected.map SelectedInterface.name).Nodup := by
  induction selected generalizing names with
  | nil => exact ⟨fun _ => ⟨by simp, List.nodup_nil⟩, fun _ => rfl⟩
  | cons s selected ih =>
    rw [validateMacs, seq_ok_iff, refuse_ok_iff, seq_ok_iff, validateIfaceName_iff,
      validateMac_iff, ih, List.forall_mem_cons, List.map_cons, List.nodup_cons, not_or, not_not]
    constructor
    · rintro ⟨-, ⟨hmem, hnew⟩, hmac, hrest, hnodup⟩
      refine ⟨⟨⟨hmem, hnew, hmac⟩, fun t ht => ?_⟩, fun hagain => ?_, hnodup⟩
      · obtain ⟨htmem, htnew, htmac⟩ := hrest t ht
        exact ⟨htmem, fun h => htnew (List.mem_cons_of_mem _ h), htmac⟩
      · obtain ⟨t, ht, hname⟩ := List.mem_map.mp hagain
        exact (hrest t ht).2.1 (hname ▸ List.mem_cons_self ..)
    · rintro ⟨⟨⟨hmem, hnew, hmac⟩, hrest⟩, hnot, hnodup⟩
      refine ⟨hexpected _ hmem, ⟨hmem, hnew⟩, hmac, fun t ht => ?_, hnodup⟩
      obtain ⟨htmem, htnew, htmac⟩ := hrest t ht
      refine ⟨htmem, fun h => ?_, htmac⟩
      rcases List.mem_cons.mp h with h | h
      · exact hnot (h ▸ List.mem_map_of_mem ht)
      · exact htnew h

theorem validateMacs_inRange {names : List Text} {selected : List SelectedInterface} :
    validateMacs expected names selected ≠ .error .outOfRange := by
  induction selected generalizing names with
  | nil => exact nofun
  | cons s selected ih =>
    rw [validateMacs, Ne, seq_outOfRange_iff, refuse_outOfRange_iff, seq_outOfRange_iff]
    rintro (h | ⟨-, -, h | ⟨-, h⟩⟩)
    · exact validateIfaceName_inRange h
    · exact validateMac_inRange h
    · exact ih h

theorem macsFit_iff {selected : List SelectedInterface} (hnodup : expected.Nodup)
    (hexpected : ∀ n ∈ expected, isIfaceName n = true) :
    selected.length = expected.length ∧ validateMacs expected [] selected = .ok () ↔
      MacsFit expected selected := by
  rw [validateMacs_iff hexpected]
  constructor
  · rintro ⟨hlen, hall, hnames⟩
    have hsub : (selected.map SelectedInterface.name).Subperm expected := by
      apply hnames.subperm
      intro n hn
      obtain ⟨s, hs, rfl⟩ := List.mem_map.mp hn
      exact (hall s hs).1
    refine ⟨hsub.perm_of_length_le ?_, fun s hs => (hall s hs).2.2⟩
    rw [List.length_map, hlen]
  · rintro ⟨hperm, hmacs⟩
    have hlen := hperm.length_eq
    rw [List.length_map] at hlen
    refine ⟨hlen, fun s hs => ⟨?_, List.not_mem_nil, hmacs s hs⟩, hperm.nodup_iff.mpr hnodup⟩
    exact hperm.mem_iff.mp (List.mem_map_of_mem hs)

end Names

section Addresses

variable {address management : Ipv4Cidr} {gateway dhcpStart dhcpEnd : Addr}

theorem validateStaticWan_iff :
    validateStaticWan address gateway = .ok () ↔ GatewayFits (address, gateway) := by
  rw [GatewayFits, ← Ipv4Cidr.containsUsable_iff, validateStaticWan]
  cases address.containsUsable gateway with
  | error stop => exact ⟨nofun, fun h => nomatch h.1⟩
  | ok usable =>
    cases usable with
    | false => exact ⟨nofun, fun h => nomatch h.1⟩
    | true => exact refuse_ok_iff.trans ⟨fun h => ⟨rfl, h.1⟩, fun h => ⟨h.2, rfl⟩⟩

theorem validateStaticWan_outOfRange_iff :
    validateStaticWan address gateway = .error .outOfRange ↔ ¬ address.InRange := by
  rw [validateStaticWan]
  by_cases hrange : address.InRange
  · rw [Ipv4Cidr.containsUsable_ok hrange]
    refine ⟨fun h => ?_, fun h => absurd hrange h⟩
    cases husable : decide (address.lower < gateway) && decide (gateway < address.upper) with
    | false =>
      rw [husable] at h
      cases h
    | true =>
      rw [husable] at h
      have hno := (refuse_outOfRange_iff.mp h).2
      cases hno
  · rw [Ipv4Cidr.containsUsable_outOfRange hrange]
    exact ⟨fun _ => hrange, fun _ => rfl⟩

theorem validateDhcp_outOfRange_iff :
    validateDhcp management dhcpStart dhcpEnd = .error .outOfRange ↔ ¬ management.InRange := by
  rw [validateDhcp]
  by_cases hrange : management.InRange
  · rw [Ipv4Cidr.containsUsable_ok hrange, Ipv4Cidr.containsUsable_ok hrange]
    refine ⟨fun h => ?_, fun h => absurd hrange h⟩
    have hno := (refuse_outOfRange_iff.mp
      (refuse_outOfRange_iff.mp (refuse_outOfRange_iff.mp h).2).2).2
    cases hno
  · rw [Ipv4Cidr.containsUsable_outOfRange hrange]
    exact ⟨fun _ => hrange, fun _ => rfl⟩

end Addresses

section Plan

variable {plan : NetworkPlan} {mode : NetworkMode}

theorem validateMode_iff : validateMode mode = .ok () ↔ (∀ g ∈ mode.gateways, GatewayFits g) ∧
    (mode.ranges ≠ [] → LanFits mode.wan mode.lan) ∧
      ∀ r ∈ mode.ranges, r.1.IsPool r.2.1 r.2.2 := by
  cases mode with
  | wanOnly wan address gateway =>
    simp [validateMode, NetworkMode.gateways, NetworkMode.ranges, validateStaticWan_iff]
  | wanDhcp wan => simp [validateMode, NetworkMode.gateways, NetworkMode.ranges]
  | routedLan wan wanIpv4 lan management dhcpStart dhcpEnd =>
    have hwan : validateWanIpv4 wanIpv4 = .ok () ↔ ∀ g ∈ (NetworkMode.routedLan wan wanIpv4 lan
        management dhcpStart dhcpEnd).gateways, GatewayFits g := by
      cases wanIpv4 with
      | none => simp [validateWanIpv4, NetworkMode.gateways]
      | some config =>
        cases config with
        | dhcp => simp [validateWanIpv4, NetworkMode.gateways]
        | static address gateway =>
          simp [validateWanIpv4, NetworkMode.gateways, validateStaticWan_iff]
    rw [validateMode, seq_ok_iff, refuse_ok_iff, seq_ok_iff, hwan, validateDhcp_iff]
    constructor
    · rintro ⟨hgateways, hne, hlan, hpool⟩
      exact ⟨hgateways, fun _ => (lanFits_iff hne).mp hlan, by simpa [NetworkMode.ranges]⟩
    · rintro ⟨hgateways, hlan, hpool⟩
      have hfits := hlan (by simp [NetworkMode.ranges])
      exact ⟨hgateways, hfits.ne_nil, (lanFits_iff hfits.ne_nil).mpr hfits,
        hpool _ (List.mem_singleton_self _)⟩

theorem nodup_of_validateMode (h : mode.ranges ≠ [] → LanFits mode.wan mode.lan)
    (hwan : isIfaceName mode.wan = true) : (mode.wan :: mode.lan).Nodup ∧
      ∀ n ∈ mode.wan :: mode.lan, isIfaceName n = true := by
  cases mode with
  | wanOnly wan address gateway => simpa [NetworkMode.lan] using hwan
  | wanDhcp wan => simpa [NetworkMode.lan] using hwan
  | routedLan wan wanIpv4 lan management dhcpStart dhcpEnd =>
    have hfits := h (by simp [NetworkMode.ranges])
    exact ⟨hfits.nodup, List.forall_mem_cons.mpr ⟨hwan, hfits.names⟩⟩

theorem validate_iff : plan.validate = .ok () ↔ Acceptable plan := by
  rw [NetworkPlan.validate, seq_ok_iff, seq_ok_iff, refuse_ok_iff, validateIfaceName_iff,
    validateMode_iff, not_not]
  constructor
  · rintro ⟨hwan, ⟨hgateways, hlan, hranges⟩, hlen, hmacs⟩
    obtain ⟨hnodup, hnames⟩ := nodup_of_validateMode hlan hwan
    exact ⟨hwan, hgateways, hlan, hranges, (macsFit_iff hnodup hnames).mp ⟨hlen, hmacs⟩⟩
  · rintro ⟨hwan, hgateways, hlan, hranges, hmacs⟩
    obtain ⟨hnodup, hnames⟩ := nodup_of_validateMode hlan hwan
    exact ⟨hwan, ⟨hgateways, hlan, hranges⟩, (macsFit_iff hnodup hnames).mpr hmacs⟩

/-- Where the check comes to the WAN's address, its prefix is one for which there is a mask, and
where it comes to the management address, so is that one's. -/
structure PrefixesMask (plan : NetworkPlan) : Prop where
  wan : isIfaceName plan.wan = true → ∀ g ∈ plan.mode.gateways, g.1.InRange
  management : isIfaceName plan.wan = true → (∀ g ∈ plan.mode.gateways, GatewayFits g) →
    LanFits plan.wan plan.lan → ∀ r ∈ plan.mode.ranges, r.1.InRange

theorem validateMode_inRange_iff : validateMode mode ≠ .error .outOfRange ↔
    (∀ g ∈ mode.gateways, g.1.InRange) ∧ ((∀ g ∈ mode.gateways, GatewayFits g) →
      LanFits mode.wan mode.lan → ∀ r ∈ mode.ranges, r.1.InRange) := by
  cases mode with
  | wanOnly wan address gateway =>
    rw [validateMode, Ne, validateStaticWan_outOfRange_iff, not_not]
    simp [NetworkMode.gateways, NetworkMode.ranges]
  | wanDhcp wan => simp [validateMode, NetworkMode.gateways, NetworkMode.ranges]
  | routedLan wan wanIpv4 lan management dhcpStart dhcpEnd =>
    have hranges : (NetworkMode.routedLan wan wanIpv4 lan management dhcpStart dhcpEnd).ranges =
      [(management, dhcpStart, dhcpEnd)] := rfl
    rw [validateMode, Ne, seq_outOfRange_iff, refuse_outOfRange_iff, seq_outOfRange_iff,
      validateDhcp_outOfRange_iff, hranges]
    have hlan : ¬ validateLan wan [] lan = .error .outOfRange := validateLan_inRange
    have hwan : (validateWanIpv4 wanIpv4 = .ok () ↔ ∀ g ∈ (NetworkMode.routedLan wan wanIpv4 lan
        management dhcpStart dhcpEnd).gateways, GatewayFits g) ∧
        (validateWanIpv4 wanIpv4 = .error .outOfRange ↔ ¬ ∀ g ∈ (NetworkMode.routedLan wan wanIpv4
          lan management dhcpStart dhcpEnd).gateways, g.1.InRange) := by
      cases wanIpv4 with
      | none => simp [validateWanIpv4, NetworkMode.gateways]
      | some config =>
        cases config with
        | dhcp => simp [validateWanIpv4, NetworkMode.gateways]
        | static address gateway =>
          rw [validateWanIpv4, validateStaticWan_iff, validateStaticWan_outOfRange_iff]
          simp [NetworkMode.gateways]
    rw [hwan.1, hwan.2]
    have hfits : ¬ lan = [] ∧ validateLan wan [] lan = .ok () ↔ LanFits wan lan := by
      constructor
      · rintro ⟨hne, hok⟩
        exact (lanFits_iff hne).mp hok
      · exact fun h => ⟨h.ne_nil, (lanFits_iff h.ne_nil).mpr h⟩
    simp only [NetworkMode.wan, NetworkMode.lan, ← hfits, List.mem_singleton, forall_eq, hlan,
      false_or]
    tauto

theorem validate_inRange_iff : plan.validate ≠ .error .outOfRange ↔ PrefixesMask plan := by
  rw [NetworkPlan.validate, Ne, seq_outOfRange_iff, seq_outOfRange_iff, refuse_outOfRange_iff,
    validateIfaceName_iff]
  have hname : ¬ validateIfaceName plan.wan = .error .outOfRange := validateIfaceName_inRange
  have hmacs : ¬ validateMacs plan.expectedInterfaces [] plan.selectedMacs = .error .outOfRange :=
    validateMacs_inRange
  have hmode : validateMode plan.mode ≠ .error .outOfRange ↔ _ := validateMode_inRange_iff
  have hparts : PrefixesMask plan ↔ (isIfaceName plan.wan = true →
      (∀ g ∈ plan.mode.gateways, g.1.InRange) ∧ ((∀ g ∈ plan.mode.gateways, GatewayFits g) →
        LanFits plan.mode.wan plan.mode.lan → ∀ r ∈ plan.mode.ranges, r.1.InRange)) :=
    ⟨fun h hwan => ⟨h.wan hwan, h.management hwan⟩, fun h => ⟨fun hwan => (h hwan).1,
      fun hwan => (h hwan).2⟩⟩
  rw [hparts, ← hmode]
  tauto

end Plan

section Sufficient

variable {plan : NetworkPlan} {c : Ipv4Cidr}

/-- What is relied on once a plan has passed: its own addresses are hosts of their subnets too. -/
structure Sound (plan : NetworkPlan) : Prop where
  hosts : ∀ c ∈ plan.cidrs, c.Usable c.address
  gateways : ∀ g ∈ plan.mode.gateways, g.1.Usable g.2 ∧ g.2 ≠ g.1.address
  ranges : ∀ r ∈ plan.mode.ranges, r.2.1 ≤ r.2.2 ∧
    ∀ a, r.2.1 ≤ a → a ≤ r.2.2 → r.1.Usable a ∧ a ≠ r.1.address
  names : ∀ n ∈ plan.expectedInterfaces, isIfaceName n = true
  nodup : plan.expectedInterfaces.Nodup
  macs : (plan.selectedMacs.map SelectedInterface.name).Perm plan.expectedInterfaces

theorem Acceptable.prefixes (h : Acceptable plan) (hc : c ∈ plan.cidrs) :
    1 ≤ c.prefixLen.toNat ∧ c.prefixLen.toNat ≤ 30 := by
  rcases List.mem_append.mp hc with hc | hc
  · obtain ⟨g, hg, rfl⟩ := List.mem_map.mp hc
    have husable := (h.gateways g hg).1
    exact ⟨husable.pos, husable.le⟩
  · obtain ⟨r, hr, rfl⟩ := List.mem_map.mp hc
    have husable := (h.ranges r hr).usable_start
    exact ⟨husable.pos, husable.le⟩

theorem Ipv4Cidr.usable_address_iff (hpos : 1 ≤ c.prefixLen.toNat) (hle : c.prefixLen.toNat ≤ 30) :
    c.Usable c.address ↔ c.address ≠ c.lower ∧ c.address ≠ c.upper := by
  have hend := c.toNat_upper
  have hlower : c.lower.toNat = c.address.toNat / 2 ^ c.hostBits * 2 ^ c.hostBits :=
    toNat_and_highMask ..
  have hdown : c.address.toNat / 2 ^ c.hostBits * 2 ^ c.hostBits ≤ c.address.toNat :=
    Nat.div_mul_le_self ..
  have hup : c.address.toNat < (c.address.toNat / 2 ^ c.hostBits + 1) * 2 ^ c.hostBits :=
    Nat.lt_mul_of_div_lt (Nat.lt_succ_self _) (Nat.two_pow_pos _)
  rw [Nat.add_mul, one_mul] at hup
  constructor
  · intro h
    constructor
    · exact fun he => h.lower_lt.ne' (congrArg BitVec.toNat he)
    · exact fun he => h.lt_upper.ne (congrArg BitVec.toNat he)
  · rintro ⟨hne, hne'⟩
    have hne : c.address.toNat ≠ c.lower.toNat := fun he => hne (BitVec.eq_of_toNat_eq he)
    have hne' : c.address.toNat ≠ c.upper.toNat := fun he => hne' (BitVec.eq_of_toNat_eq he)
    exact ⟨hpos, hle, by omega, by omega⟩

theorem Acceptable.sound_iff (h : Acceptable plan) :
    Sound plan ↔ ∀ c ∈ plan.cidrs, c.address ≠ c.lower ∧ c.address ≠ c.upper := by
  constructor
  · intro hsound c hc
    obtain ⟨hpos, hle⟩ := h.prefixes hc
    exact (Ipv4Cidr.usable_address_iff hpos hle).mp (hsound.hosts c hc)
  · intro hends
    obtain ⟨hnodup, hnames⟩ := nodup_of_validateMode h.lan h.wan
    refine ⟨fun c hc => ?_, fun g hg => ?_, fun r hr => ?_, hnames, hnodup, h.macs.names⟩
    · obtain ⟨hpos, hle⟩ := h.prefixes hc
      exact (Ipv4Cidr.usable_address_iff hpos hle).mpr (hends c hc)
    · obtain ⟨husable, hne⟩ := h.gateways g hg
      exact ⟨husable, hne.symm⟩
    · obtain ⟨hle, hstart, hstop, hserver⟩ := h.ranges r hr
      refine ⟨BitVec.le_def.mpr hle, fun a hfrom hto => ⟨⟨hstart.pos, hstart.le, ?_, ?_⟩, ?_⟩⟩
      · exact hstart.lower_lt.trans_le (BitVec.le_def.mp hfrom)
      · exact (BitVec.le_def.mp hto).trans_lt hstop.lt_upper
      · rintro rfl
        rw [BitVec.le_def] at hfrom hto
        omega

/-- The check is enough for plans whose prefixes have masks and whose own addresses are not at an
end of their subnet. -/
theorem validate_sufficient_iff (plan : NetworkPlan) :
    plan.validate ≠ .error .outOfRange ∧ (plan.validate = .ok () → Sound plan) ↔
      PrefixesMask plan ∧
        (Acceptable plan → ∀ c ∈ plan.cidrs, c.address ≠ c.lower ∧ c.address ≠ c.upper) := by
  rw [validate_inRange_iff, validate_iff]
  exact and_congr_right fun _ => forall_congr' fun h => h.sound_iff

/-- The WAN gets its subnet's network address. -/
def networkAddressPlan : NetworkPlan :=
  ⟨.wanOnly "ens3".toList ⟨0xC6336400, 24⟩ 0xC6336401, [⟨"ens3".toList, "02:00:00:00:00:03".toList⟩]⟩

/-- A prefix that no mask belongs to. -/
def zeroPrefixPlan : NetworkPlan :=
  ⟨.wanOnly "ens3".toList ⟨0xC633640A, 0⟩ 0xC6336401, [⟨"ens3".toList, "02:00:00:00:00:03".toList⟩]⟩

theorem validate_insufficient :
    (networkAddressPlan.validate = .ok () ∧ ¬ Sound networkAddressPlan) ∧
      zeroPrefixPlan.validate = .error .outOfRange := by
  have hok : networkAddressPlan.validate = .ok () := by decide +kernel
  refine ⟨⟨hok, fun h => ?_⟩, by decide +kernel⟩
  have hends := (validate_iff.mp hok).sound_iff.mp h _ (List.mem_cons_self ..)
  exact hends.1 (by decide +kernel)

end Sufficient

end LandscapeKit.Network
