import Mathlib.Data.List.Basic
import Mathlib.Data.Nat.Basic
import Mathlib.Tactic.Ring

/-!
Big-endian numerals over byte lists, and UTF-8 text as byte lists. Nothing here
depends on a particular wire format.
-/

namespace LandscapeKit

abbrev Bytes := List UInt8

namespace Bytes

def beNat (bs : Bytes) : ℕ := bs.foldl (fun acc b => acc*256 + b.toNat) 0

def beBytes : ℕ → ℕ → Bytes
  | 0, _ => []
  | w+1, n => beBytes w (n/256) ++ [UInt8.ofNat n]

@[simp]
theorem beBytes_length (w n : ℕ) : (beBytes w n).length = w := by
  induction w generalizing n with
  | zero => rfl
  | succ w ih => simp [beBytes, ih]

theorem beNat_append_singleton (bs : Bytes) (b : UInt8) :
    beNat (bs ++ [b]) = beNat bs * 256 + b.toNat := by
  simp [beNat, List.foldl_append]

theorem beNat_beBytes_mod (w n : ℕ) : beNat (beBytes w n) = n % 256^w := by
  induction w generalizing n with
  | zero => simp [beBytes, beNat, Nat.mod_one]
  | succ w ih =>
    have hlow : (UInt8.ofNat n).toNat = n % 256 := UInt8.toNat_ofNat'
    have hsplit : n % 256^(w+1) = n % 256 + 256 * (n/256 % 256^w) := by
      rw [pow_succ', Nat.mod_mul]
    rw [beBytes, beNat_append_singleton, ih, hlow, hsplit]
    omega

theorem beNat_beBytes (w n : ℕ) (hn : n < 256^w) : beNat (beBytes w n) = n := by
  rw [beNat_beBytes_mod, Nat.mod_eq_of_lt hn]

def ofU16 (v : UInt16) : Bytes := beBytes 2 v.toNat
def ofU32 (v : UInt32) : Bytes := beBytes 4 v.toNat
def ofU64 (v : UInt64) : Bytes := beBytes 8 v.toNat
def toU16 (bs : Bytes) : UInt16 := UInt16.ofNat (beNat bs)
def toU32 (bs : Bytes) : UInt32 := UInt32.ofNat (beNat bs)
def toU64 (bs : Bytes) : UInt64 := UInt64.ofNat (beNat bs)

@[simp] theorem ofU16_length (v : UInt16) : (ofU16 v).length = 2 := beBytes_length 2 _
@[simp] theorem ofU32_length (v : UInt32) : (ofU32 v).length = 4 := beBytes_length 4 _
@[simp] theorem ofU64_length (v : UInt64) : (ofU64 v).length = 8 := beBytes_length 8 _

@[simp]
theorem toU16_ofU16 (v : UInt16) : toU16 (ofU16 v) = v := by
  have hv : v.toNat < 256^2 := v.toNat_lt
  rw [toU16, ofU16, beNat_beBytes 2 _ hv, UInt16.ofNat_toNat]

@[simp]
theorem toU32_ofU32 (v : UInt32) : toU32 (ofU32 v) = v := by
  have hv : v.toNat < 256^4 := v.toNat_lt
  rw [toU32, ofU32, beNat_beBytes 4 _ hv, UInt32.ofNat_toNat]

@[simp]
theorem toU64_ofU64 (v : UInt64) : toU64 (ofU64 v) = v := by
  have hv : v.toNat < 256^8 := v.toNat_lt
  rw [toU64, ofU64, beNat_beBytes 8 _ hv, UInt64.ofNat_toNat]

theorem ofU32_injective {u v : UInt32} (h : ofU32 u = ofU32 v) : u = v := by
  rw [← toU32_ofU32 u, ← toU32_ofU32 v, h]

theorem ofU64_injective {u v : UInt64} (h : ofU64 u = ofU64 v) : u = v := by
  rw [← toU64_ofU64 u, ← toU64_ofU64 v, h]

def leBytes (w n : ℕ) : Bytes := (beBytes w n).reverse

def leNat (bs : Bytes) : ℕ := beNat bs.reverse

@[simp]
theorem leBytes_length (w n : ℕ) : (leBytes w n).length = w := by
  rw [leBytes, List.length_reverse, beBytes_length]

theorem leNat_leBytes (w n : ℕ) (hn : n < 256^w) : leNat (leBytes w n) = n := by
  rw [leNat, leBytes, List.reverse_reverse, beNat_beBytes w n hn]

def slice (bs : Bytes) (off len : ℕ) : Bytes := (bs.drop off).take len

theorem slice_length {bs : Bytes} {off len : ℕ} (h : off+len ≤ bs.length) :
    (slice bs off len).length = len := by
  simp only [slice, List.length_take, List.length_drop]
  omega

theorem slice_middle (as bs cs : Bytes) (off len : ℕ) (ha : as.length = off)
    (hb : bs.length = len) : slice (as ++ (bs ++ cs)) off len = bs := by
  subst ha hb
  simp [slice]

def ofString (s : String) : Bytes := s.toByteArray.data.toList

def toString? (bs : Bytes) : Option String := String.fromUTF8? ⟨bs.toArray⟩

@[simp]
theorem toString?_ofString (s : String) : toString? (ofString s) = some s := by
  have hb : (⟨(ofString s).toArray⟩ : ByteArray) = s.toByteArray := by
    simp [ofString]
  rw [toString?, hb, String.fromUTF8?, dif_pos s.isValidUTF8]
  rfl

end Bytes

end LandscapeKit
