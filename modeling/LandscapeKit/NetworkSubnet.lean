import LandscapeKit.NetworkConfig

/-!
Subnets: which addresses a prefix admits, and the pool that DHCP gets when nobody chooses one.
-/

namespace LandscapeKit.Network

open Text Blocks

namespace Ipv4Cidr

variable {c : Ipv4Cidr} {a : Addr}

/-- A prefix for which the mask is computed without leaving the types. -/
def InRange (c : Ipv4Cidr) : Prop := 1 ≤ c.prefixLen.toNat ∧ c.prefixLen.toNat ≤ 32

instance (c : Ipv4Cidr) : Decidable c.InRange := inferInstanceAs (Decidable (_ ∧ _))

def hostBits (c : Ipv4Cidr) : ℕ := 32 - c.prefixLen.toNat

def lower (c : Ipv4Cidr) : Addr := c.address &&& highMask 32 c.hostBits

def upper (c : Ipv4Cidr) : Addr := c.lower ||| ~~~highMask 32 c.hostBits

/-- A host of the subnet: neither its network nor its broadcast address. -/
structure Usable (c : Ipv4Cidr) (a : Addr) : Prop where
  pos : 1 ≤ c.prefixLen.toNat
  le : c.prefixLen.toNat ≤ 30
  lower_lt : c.lower.toNat < a.toNat
  lt_upper : a.toNat < c.upper.toNat

theorem toNat_upper (c : Ipv4Cidr) : c.upper.toNat = c.lower.toNat + (2 ^ c.hostBits - 1) := by
  have hbits : c.hostBits ≤ 32 := Nat.sub_le ..
  rw [upper, lower, toNat_or_not_highMask _ hbits, toNat_and_highMask]

theorem prefixMask_ok (h : c.InRange) : prefixMask c.prefixLen = .ok (highMask 32 c.hostBits) := by
  obtain ⟨hpos, hle⟩ := h
  obtain ⟨shift, hshift, hdiff⟩ : ∃ shift, checkedSub 32 c.prefixLen = some shift ∧
      shift.toNat = (32 : BitVec 8).toNat - c.prefixLen.toNat := checkedSub_eq hle
  have hbits : shift.toNat = c.hostBits := hdiff
  have hlt : c.hostBits < 32 := by
    rw [hostBits]
    omega
  rw [prefixMask, hshift, ← hbits]
  rw [← hbits] at hlt
  exact if_pos hlt

theorem prefixMask_outOfRange (h : ¬ c.InRange) :
    prefixMask c.prefixLen = .error .outOfRange := by
  rw [prefixMask]
  by_cases hle : c.prefixLen.toNat ≤ 32
  · obtain ⟨shift, hshift, hdiff⟩ : ∃ shift, checkedSub 32 c.prefixLen = some shift ∧
        shift.toNat = (32 : BitVec 8).toNat - c.prefixLen.toNat := checkedSub_eq hle
    have hbits : shift.toNat = 32 - c.prefixLen.toNat := hdiff
    have hzero : ¬ shift.toNat < 32 := by
      intro hlt
      exact h ⟨by omega, hle⟩
    rw [hshift]
    exact if_neg hzero
  · have hnone : checkedSub 32 c.prefixLen = none := if_neg hle
    rw [hnone]
    rfl

theorem network_ok (h : c.InRange) : c.network = .ok c.lower := by
  rw [network, prefixMask_ok h]
  rfl

theorem broadcast_ok (h : c.InRange) : c.broadcast = .ok c.upper := by
  rw [broadcast, network_ok h, prefixMask_ok h]
  rfl

theorem containsUsable_ok (h : c.InRange) (a : Addr) :
    c.containsUsable a = .ok (decide (c.lower < a) && decide (a < c.upper)) := by
  rw [containsUsable, network_ok h, broadcast_ok h]
  rfl

theorem containsUsable_outOfRange (h : ¬ c.InRange) (a : Addr) :
    c.containsUsable a = .error .outOfRange := by
  rw [containsUsable, network, prefixMask_outOfRange h]
  rfl

theorem containsUsable_iff : c.containsUsable a = .ok true ↔ c.Usable a := by
  constructor
  · intro h
    by_cases hrange : c.InRange
    · rw [containsUsable_ok hrange, Except.ok.injEq, Bool.and_eq_true, decide_eq_true_eq,
        decide_eq_true_eq, BitVec.lt_def, BitVec.lt_def] at h
      refine ⟨hrange.1, ?_, h.1, h.2⟩
      have hupper := c.toNat_upper
      by_contra hlong
      -- a block of one or two addresses
      have hbits : c.hostBits = 0 ∨ c.hostBits = 1 := by
        have hle := hrange.2
        rw [hostBits]
        omega
      rcases hbits with hbits | hbits <;> rw [hbits] at hupper <;> omega
    · rw [containsUsable_outOfRange hrange] at h
      cases h
  · intro h
    have hrange : c.InRange := ⟨h.pos, h.le.trans (by decide)⟩
    have hlower : c.lower < a := BitVec.lt_def.mpr h.lower_lt
    have hupper : a < c.upper := BitVec.lt_def.mpr h.lt_upper
    rw [containsUsable_ok hrange, decide_eq_true hlower, decide_eq_true hupper]
    rfl

theorem usable_of_fromStr {text : Text} (h : fromStr text = .ok c) : c.Usable c.address := by
  rw [fromStr] at h
  split at h
  · cases h
  · split at h
    · cases h
    · split at h
      · cases h
      · rename_i address _ _ bits _
        dsimp only at h
        split at h
        · cases h
        · cases husable : containsUsable ⟨address, bits⟩ address with
          | error e =>
            rw [husable] at h
            cases h
          | ok usable =>
            rw [husable] at h
            cases usable with
            | false => cases h
            | true =>
              obtain rfl : (⟨address, bits⟩ : Ipv4Cidr) = c := Except.ok.inj h
              exact containsUsable_iff.mp husable

/-- A pool for clients: addresses of the subnet in order, without the server's. -/
structure IsPool (c : Ipv4Cidr) (start stop : Addr) : Prop where
  le : start.toNat ≤ stop.toNat
  usable_start : c.Usable start
  usable_stop : c.Usable stop
  server : c.address.toNat < start.toNat ∨ stop.toNat < c.address.toNat

theorem size_cases (h : c.prefixLen.toNat ≤ 30) :
    (4 ≤ 2 ^ c.hostBits ∧ 2 ^ c.hostBits ≤ 64) ∨ 128 ≤ 2 ^ c.hostBits := by
  have hbits : 2 ≤ c.hostBits := by
    rw [hostBits]
    omega
  by_cases hsmall : c.hostBits ≤ 6
  · left
    constructor
    · calc 4 = 2 ^ 2 := rfl
        _ ≤ 2 ^ c.hostBits := Nat.pow_le_pow_right (by decide) hbits
    · calc 2 ^ c.hostBits ≤ 2 ^ 6 := Nat.pow_le_pow_right (by decide) hsmall
        _ = 64 := rfl
  · right
    calc 128 = 2 ^ 7 := rfl
      _ ≤ 2 ^ c.hostBits := Nat.pow_le_pow_right (by decide) (by omega)

/-- The preferred start, a hundred addresses into the subnet, or the first host. It is not the
last one: the subnet would have 3 or 102 addresses. -/
theorem exists_start (h : c.Usable c.address) : ∃ first start : Addr,
    checkedAdd c.lower 1 = some first ∧
    (if saturatingAdd c.lower 100 ≤ saturatingSub c.upper 1 then
      (if saturatingAdd c.lower 100 ≤ first then first else saturatingAdd c.lower 100)
    else first) = start ∧
    c.lower.toNat < start.toNat ∧ start.toNat + 1 < c.upper.toNat := by
  have hsize := size_cases h.le
  have hend := c.toNat_upper
  have hbound := c.upper.isLt
  have hlower := h.lower_lt
  have hupper := h.lt_upper
  have hone : (1 : Addr).toNat = 1 := rfl
  have hhundred : (100 : Addr).toNat = 100 := rfl
  obtain ⟨first, hfirst, hsum⟩ : ∃ first, checkedAdd c.lower 1 = some first ∧
      first.toNat = c.lower.toNat + (1 : Addr).toNat := checkedAdd_eq (by omega)
  refine ⟨first, _, hfirst, rfl, ?_⟩
  have hlast := toNat_saturatingSub c.upper 1
  have hpreferred := toNat_saturatingAdd c.lower 100
  rw [hone] at hsum hlast
  rw [hhundred] at hpreferred
  simp only [BitVec.le_def]
  generalize 2 ^ c.hostBits = size at hsize hend
  split
  · split <;> omega
  · omega

theorem defaultPool_ok (h : c.Usable c.address) :
    ∃ start stop, c.defaultPool = .ok (start, stop) ∧ c.IsPool start stop := by
  have hrange : c.InRange := ⟨h.pos, h.le.trans (by decide)⟩
  have hbound := c.upper.isLt
  have hlower := h.lower_lt
  have hupper := h.lt_upper
  have hone : (1 : Addr).toNat = 1 := rfl
  have hzero : (0 : Addr).toNat = 0 := rfl
  obtain ⟨first, start, hfirst, hstart, hfront, hback⟩ := exists_start h
  have hlast := toNat_saturatingSub c.upper 1
  have hleft := toNat_saturatingSub c.address start
  have hright := toNat_saturatingSub (saturatingSub c.upper 1) c.address
  have husable {a : Addr} (hlo : c.lower.toNat < a.toNat) (hhi : a.toNat < c.upper.toNat) :
      c.Usable a := ⟨h.pos, h.le, hlo, hhi⟩
  have hbody : c.defaultPool =
      if ¬ (start ≤ c.address ∧ c.address ≤ saturatingSub c.upper 1) then
        .ok (start, saturatingSub c.upper 1)
      else if saturatingSub c.address start ≤ saturatingSub (saturatingSub c.upper 1) c.address ∧
          0 < saturatingSub (saturatingSub c.upper 1) c.address then
        (inRange (checkedAdd c.address 1)).map fun next => (next, saturatingSub c.upper 1)
      else if 0 < saturatingSub c.address start then
        (inRange (checkedSub c.address 1)).map fun before => (start, before)
      else .error (networkError "management subnet has no DHCP client address") := by
    rw [defaultPool, network_ok hrange, broadcast_ok hrange, ← hstart]
    simp only [bind, Except.bind, hfirst, inRange]
    rfl
  rw [hbody]
  simp only [BitVec.le_def, BitVec.lt_def]
  split
  · exact ⟨start, _, rfl, by omega, husable hfront (by omega), husable (by omega) (by omega), by omega⟩
  · split
    · obtain ⟨next, hnext, hsum⟩ : ∃ next, checkedAdd c.address 1 = some next ∧
          next.toNat = c.address.toNat + (1 : Addr).toNat := checkedAdd_eq (by omega)
      rw [hnext]
      exact ⟨next, _, rfl, by omega, husable (by omega) (by omega), husable (by omega) (by omega),
        by omega⟩
    · split
      · obtain ⟨before, hbefore, hdiff⟩ : ∃ before, checkedSub c.address 1 = some before ∧
            before.toNat = c.address.toNat - (1 : Addr).toNat := checkedSub_eq (by omega)
        rw [hbefore]
        exact ⟨start, before, rfl, by omega, husable hfront (by omega), husable (by omega) (by omega),
          by omega⟩
      · -- the start would be the server and the last host
        exfalso
        omega

end Ipv4Cidr

section Dhcp

variable {management : Ipv4Cidr} {dhcpStart dhcpEnd : Addr}

theorem validateDhcp_iff :
    validateDhcp management dhcpStart dhcpEnd = .ok () ↔ management.IsPool dhcpStart dhcpEnd := by
  by_cases hrange : management.InRange
  · have hok (a : Addr) : ∃ usable, management.containsUsable a = .ok usable :=
      ⟨_, Ipv4Cidr.containsUsable_ok hrange a⟩
    obtain ⟨usable, hstart⟩ := hok dhcpStart
    obtain ⟨usable', hend⟩ := hok dhcpEnd
    have hbody : validateDhcp management dhcpStart dhcpEnd =
        if (!usable || !usable') = true then .error (networkError
          "DHCP range must contain usable addresses in the management subnet")
        else if dhcpEnd < dhcpStart then
          .error (networkError "DHCP range start must not exceed its end")
        else if dhcpStart ≤ management.address ∧ management.address ≤ dhcpEnd then
          .error (networkError "DHCP range must not contain the management address")
        else .ok () := by
      rw [validateDhcp, hstart, hend]
      rfl
    rw [hbody]
    simp only [BitVec.le_def, BitVec.lt_def]
    constructor
    · intro h
      split at h
      · cases h
      · rename_i husable
        simp only [Bool.or_eq_true, Bool.not_eq_true', not_or, Bool.not_eq_false] at husable
        obtain ⟨rfl, rfl⟩ := husable
        split at h
        · cases h
        · split at h
          · cases h
          · exact ⟨by omega, Ipv4Cidr.containsUsable_iff.mp hstart,
              Ipv4Cidr.containsUsable_iff.mp hend, by omega⟩
    · rintro ⟨hle, hfirst, hlast, hserver⟩
      rw [Ipv4Cidr.containsUsable_iff.mpr hfirst, Except.ok.injEq] at hstart
      rw [Ipv4Cidr.containsUsable_iff.mpr hlast, Except.ok.injEq] at hend
      subst hstart hend
      rw [if_neg (by decide), if_neg (by omega), if_neg (by omega)]
  · constructor
    · intro h
      rw [validateDhcp, Ipv4Cidr.containsUsable_outOfRange hrange] at h
      cases h
    · intro h
      exact absurd ⟨h.usable_start.pos, h.usable_start.le.trans (by decide)⟩ hrange

/-- What is read as an address with a prefix has a pool that passes the checks of a plan. -/
theorem defaultPool_passes {text : Text} {c : Ipv4Cidr} (h : Ipv4Cidr.fromStr text = .ok c) :
    ∃ start stop, c.defaultPool = .ok (start, stop) ∧ start ≤ stop ∧
      c.containsUsable start = .ok true ∧ c.containsUsable stop = .ok true ∧
      ¬ (start ≤ c.address ∧ c.address ≤ stop) ∧ validateDhcp c start stop = .ok () := by
  obtain ⟨start, stop, hpool, hgood⟩ := Ipv4Cidr.defaultPool_ok (Ipv4Cidr.usable_of_fromStr h)
  refine ⟨start, stop, hpool, BitVec.le_def.mpr hgood.le,
    Ipv4Cidr.containsUsable_iff.mpr hgood.usable_start,
    Ipv4Cidr.containsUsable_iff.mpr hgood.usable_stop, ?_, validateDhcp_iff.mpr hgood⟩
  have hserver := hgood.server
  rw [BitVec.le_def, BitVec.le_def]
  omega

/-- The default management address. -/
theorem defaultPool_passes_default : ∃ start stop,
    (⟨0xC0A80A01, 24⟩ : Ipv4Cidr).defaultPool = .ok (start, stop) ∧ start ≤ stop ∧
      (⟨0xC0A80A01, 24⟩ : Ipv4Cidr).containsUsable start = .ok true ∧
      (⟨0xC0A80A01, 24⟩ : Ipv4Cidr).containsUsable stop = .ok true ∧
      ¬ (start ≤ 0xC0A80A01 ∧ 0xC0A80A01 ≤ stop) ∧
      validateDhcp ⟨0xC0A80A01, 24⟩ start stop = .ok () := by
  have hread : Ipv4Cidr.fromStr "192.168.10.1/24".toList = .ok ⟨0xC0A80A01, 24⟩ := by
    decide +kernel
  exact defaultPool_passes hread

end Dhcp

end LandscapeKit.Network
