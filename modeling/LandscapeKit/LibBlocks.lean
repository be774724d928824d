import Mathlib.Data.Nat.Bits
import Mathlib.Tactic.Ring

/-!
Aligned blocks of machine words. A mask with ones above the lowest `h` bits takes a word to the
first one of its block, and with its complement to the last one. Words are added and subtracted
where the result is a word.
-/

namespace LandscapeKit.Blocks

variable {w : ℕ}

def highMask (w h : ℕ) : BitVec w := BitVec.allOnes w <<< h

theorem and_highMask (a : BitVec w) (h : ℕ) : a &&& highMask w h = a >>> h <<< h := by
  apply BitVec.eq_of_getLsbD_eq
  intro i hi
  rw [highMask, BitVec.getLsbD_and, BitVec.getLsbD_shiftLeft, BitVec.getLsbD_shiftLeft,
    BitVec.getLsbD_ushiftRight, BitVec.getLsbD_allOnes]
  by_cases hlow : i < h
  · simp [hlow]
  · have hback : h + (i - h) = i := by omega
    have hbound : i - h < w := by omega
    simp [hlow, hi, hback, hbound]

theorem toNat_and_highMask (a : BitVec w) (h : ℕ) :
    (a &&& highMask w h).toNat = a.toNat / 2 ^ h * 2 ^ h := by
  have hle : a.toNat / 2 ^ h * 2 ^ h ≤ a.toNat := Nat.div_mul_le_self ..
  have hlt := a.isLt
  rw [and_highMask, BitVec.toNat_shiftLeft, BitVec.toNat_ushiftRight, Nat.shiftRight_eq_div_pow,
    Nat.shiftLeft_eq, Nat.mod_eq_of_lt (by omega)]

theorem toNat_not_highMask {h : ℕ} (hh : h ≤ w) : (~~~highMask w h).toNat = 2 ^ h - 1 := by
  have hpow : 2 ^ h ≤ 2 ^ w := Nat.pow_le_pow_right (by decide) hh
  have hpos : 0 < 2 ^ h := Nat.two_pow_pos h
  have hdvd : 2 ^ h ∣ 2 ^ w := Nat.pow_dvd_pow 2 hh
  obtain ⟨k, hk⟩ := hdvd
  have hmask : (highMask w h).toNat = 2 ^ w - 2 ^ h := by
    have hall : BitVec.allOnes w &&& highMask w h = highMask w h := BitVec.allOnes_and
    have hdiv : (2 ^ w - 1) / 2 ^ h = k - 1 := by
      have hkpos : 0 < k := by
        apply Nat.pos_of_ne_zero
        rintro rfl
        omega
      rw [hk]
      apply Nat.div_eq_of_lt_le
      · calc (k - 1) * 2 ^ h = 2 ^ h * k - 2 ^ h := by rw [Nat.sub_mul, one_mul, mul_comm]
          _ ≤ 2 ^ h * k - 1 := by omega
      · have hback : k - 1 + 1 = k := by omega
        rw [hback, mul_comm k]
        have hprod : 0 < 2 ^ h * k := Nat.mul_pos hpos hkpos
        omega
    rw [← hall, toNat_and_highMask, BitVec.toNat_allOnes, hdiv, Nat.sub_mul, one_mul, mul_comm k,
      ← hk]
  rw [BitVec.toNat_not, hmask]
  omega

theorem toNat_or_not_highMask (a : BitVec w) {h : ℕ} (hh : h ≤ w) :
    ((a &&& highMask w h) ||| ~~~highMask w h).toNat = a.toNat / 2 ^ h * 2 ^ h + (2 ^ h - 1) := by
  have hapart : (a &&& highMask w h) &&& ~~~highMask w h = 0#w := by
    rw [BitVec.and_assoc, BitVec.and_not_self]
    exact BitVec.and_zero
  have hpos : 0 < 2 ^ h := Nat.two_pow_pos h
  have hsum : (a &&& highMask w h).toNat + (~~~highMask w h).toNat < 2 ^ w := by
    obtain ⟨k, hk⟩ := Nat.pow_dvd_pow 2 hh
    have hdiv : a.toNat / 2 ^ h < k := by
      rw [Nat.div_lt_iff_lt_mul hpos, mul_comm, ← hk]
      exact a.isLt
    have hstep : (a.toNat / 2 ^ h + 1) * 2 ^ h ≤ k * 2 ^ h := Nat.mul_le_mul_right _ hdiv
    rw [toNat_and_highMask, toNat_not_highMask hh, hk, mul_comm _ k]
    rw [Nat.add_mul, one_mul] at hstep
    omega
  rw [← BitVec.add_eq_or_of_and_eq_zero _ _ hapart, BitVec.toNat_add, Nat.mod_eq_of_lt hsum,
    toNat_and_highMask, toNat_not_highMask hh]

section Checked

def checkedAdd (a b : BitVec w) : Option (BitVec w) :=
  if a.toNat + b.toNat < 2 ^ w then some (a + b) else none

def checkedSub (a b : BitVec w) : Option (BitVec w) :=
  if b.toNat ≤ a.toNat then some (a - b) else none

def saturatingAdd (a b : BitVec w) : BitVec w := (checkedAdd a b).getD (BitVec.allOnes w)

def saturatingSub (a b : BitVec w) : BitVec w := (checkedSub a b).getD 0

variable {a b : BitVec w}

theorem checkedAdd_eq (h : a.toNat + b.toNat < 2 ^ w) :
    ∃ c, checkedAdd a b = some c ∧ c.toNat = a.toNat + b.toNat := by
  refine ⟨a + b, if_pos h, ?_⟩
  rw [BitVec.toNat_add, Nat.mod_eq_of_lt h]

theorem checkedSub_eq (h : b.toNat ≤ a.toNat) :
    ∃ c, checkedSub a b = some c ∧ c.toNat = a.toNat - b.toNat :=
  ⟨a - b, if_pos h, BitVec.toNat_sub_of_le h⟩

theorem toNat_saturatingAdd (a b : BitVec w) :
    (saturatingAdd a b).toNat = min (a.toNat + b.toNat) (2 ^ w - 1) := by
  by_cases h : a.toNat + b.toNat < 2 ^ w
  · obtain ⟨c, hc, hsum⟩ := checkedAdd_eq h
    rw [saturatingAdd, hc, Option.getD_some, hsum]
    omega
  · rw [saturatingAdd, checkedAdd, if_neg h, Option.getD_none, BitVec.toNat_allOnes]
    omega

theorem toNat_saturatingSub (a b : BitVec w) : (saturatingSub a b).toNat = a.toNat - b.toNat := by
  by_cases h : b.toNat ≤ a.toNat
  · obtain ⟨c, hc, hdiff⟩ := checkedSub_eq h
    rw [saturatingSub, hc, Option.getD_some, hdiff]
  · rw [saturatingSub, checkedSub, if_neg h, Option.getD_none, BitVec.ofNat_eq_ofNat,
      BitVec.toNat_zero]
    omega

end Checked

end LandscapeKit.Blocks
