import Mathlib.Data.Nat.ModEq
import Mathlib.Tactic.Linarith

/-!
Serial-number arithmetic. Positions in an unbounded sequence are sent as `w`-bit
words; a word counts as newer than another when the wrapping difference is
positive as a signed number.
-/

namespace LandscapeKit.Serial

def Newer {w : ℕ} (last seq : BitVec w) : Prop := 0 < (seq - last).toInt

theorem newer_iff {w : ℕ} (last seq : BitVec w) :
    Newer last seq ↔ 0 < (seq - last).toNat ∧ 2 * (seq - last).toNat < 2^w := by
  rw [Newer, BitVec.toInt_eq_toNat_cond]
  have hlt := (seq - last).isLt
  split <;> omega

theorem toNat_sub_ofNat (w m n : ℕ) (hmn : m ≤ n) :
    (BitVec.ofNat w n - BitVec.ofNat w m).toNat = (n-m) % 2^w := by
  have hadd : BitVec.ofNat w n = BitVec.ofNat w (n-m) + BitVec.ofNat w m := by
    rw [← BitVec.ofNat_add, Nat.sub_add_cancel hmn]
  rw [hadd, BitVec.add_sub_cancel, BitVec.toNat_ofNat]

theorem newer_of_lt (w m n : ℕ) (hmn : m < n) (hgap : 2*(n-m) < 2^w) :
    Newer (BitVec.ofNat w m) (BitVec.ofNat w n) := by
  have hd : (n-m) % 2^w = n-m := Nat.mod_eq_of_lt (by omega)
  rw [newer_iff, toNat_sub_ofNat w m n hmn.le, hd]
  omega

theorem not_newer_of_le (w m n : ℕ) (hnm : n ≤ m) (hgap : 2*(m-n) ≤ 2^w) :
    ¬ Newer (BitVec.ofNat w m) (BitVec.ofNat w n) := by
  rw [newer_iff]
  rintro ⟨hpos, hhalf⟩
  have hneg : (BitVec.ofNat w m - BitVec.ofNat w n).toNat = (m-n) % 2^w :=
    toNat_sub_ofNat w n m hnm
  have hswap : BitVec.ofNat w n - BitVec.ofNat w m = -(BitVec.ofNat w m - BitVec.ofNat w n) := by
    rw [BitVec.neg_sub, BitVec.sub_eq_add_neg, BitVec.add_comm]
  rw [hswap, BitVec.toNat_neg, hneg] at hpos hhalf
  have h2 : 0 < 2^w := Nat.two_pow_pos w
  have hd : (m-n) % 2^w = m-n := Nat.mod_eq_of_lt (by omega)
  rw [hd] at hpos hhalf
  by_cases hz : m-n = 0
  · rw [hz, Nat.sub_zero, Nat.mod_self] at hpos
    omega
  · rw [Nat.mod_eq_of_lt (by omega)] at hhalf
    omega

end LandscapeKit.Serial
