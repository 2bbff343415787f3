import Mathlib.Data.UInt

/-!
# Signed and unsigned 32-bit numbers

C converts between `uint32_t` and `int` by reinterpreting the 32 bits.  A signed number is modelled
by an integer.
-/

namespace MlibDevel.Lib

/-- A `uint32_t` assigned to an `int`. -/
def toInt32 (u : UInt32) : Int := if u.toNat < 2 ^ 31 then u.toNat else u.toNat - 2 ^ 32

/-- An `int` assigned to a `uint32_t`. -/
def ofInt32 (n : Int) : UInt32 := UInt32.ofNat (n % 2 ^ 32).toNat

/-- The value an `int` holds after an operation with the exact result `n`. -/
def wrap32 (n : Int) : Int := toInt32 (ofInt32 n)

theorem toInt32_of_lt {u : UInt32} (h : u.toNat < 2 ^ 31) : toInt32 u = u.toNat := if_pos h

theorem toInt32_of_le {u : UInt32} (h : 2 ^ 31 ≤ u.toNat) : toInt32 u = u.toNat - 2 ^ 32 :=
  if_neg (not_lt.mpr h)

theorem toNat_ofInt32 (n : Int) : ((ofInt32 n).toNat : Int) = n % 2 ^ 32 := by
  rw [ofInt32, UInt32.toNat_ofNat']
  omega

theorem toInt32_neg_iff (u : UInt32) : toInt32 u < 0 ↔ 2 ^ 31 ≤ u.toNat := by
  have := u.toNat_lt
  unfold toInt32
  split <;> omega

theorem toInt32_emod (u : UInt32) : toInt32 u % 2 ^ 32 = u.toNat := by
  have := u.toNat_lt
  unfold toInt32
  split <;> omega

theorem ofInt32_toInt32 (u : UInt32) : ofInt32 (toInt32 u) = u := by
  apply UInt32.toNat_inj.mp
  have hof := toNat_ofInt32 (toInt32 u)
  rw [toInt32_emod] at hof
  omega

theorem toNat_ofInt32_of_mem {n : Int} (h₀ : 0 ≤ n) (h₁ : n < 2 ^ 32) :
    ((ofInt32 n).toNat : Int) = n := by
  rw [toNat_ofInt32]
  omega

/-- A result that is not negative and fits an `int`. -/
theorem wrap32_of_mem {n : Int} (h₀ : 0 ≤ n) (h₁ : n < 2 ^ 31) : wrap32 n = n := by
  have hof := toNat_ofInt32_of_mem h₀ (by omega)
  rw [wrap32, toInt32_of_lt (by omega), hof]

/-- Counting down an `int` is counting down the 32-bit number it stands for. -/
theorem wrap32_toInt32_sub (u : UInt32) (n : Nat) :
    wrap32 (toInt32 u - n) = toInt32 (u - UInt32.ofNat n) := by
  have h : ofInt32 (toInt32 u - n) = u - UInt32.ofNat n := by
    apply UInt32.toNat_inj.mp
    have hof := toNat_ofInt32 (toInt32 u - n)
    have hu := toInt32_emod u
    rw [UInt32.toNat_sub, UInt32.toNat_ofNat']
    omega
  rw [wrap32, h]

/-- Shifting in the bits of a number that has room for them. -/
theorem shiftLeft_or (v d : UInt32) {k : Nat} (hk : k < 32) (hd : d.toNat < 2 ^ k) :
    (v <<< UInt32.ofNat k) ||| d = UInt32.ofNat (2 ^ k * v.toNat + d.toNat) := by
  have hp : 2 ^ 32 = 2 ^ k * 2 ^ (32 - k) := by
    rw [← Nat.pow_add]
    congr 1
    omega
  have hshift : (v <<< UInt32.ofNat k).toNat = (v.toNat % 2 ^ (32 - k)) <<< k := by
    rw [UInt32.toNat_shiftLeft, Nat.shiftLeft_eq, Nat.shiftLeft_eq, UInt32.toNat_ofNat',
      Nat.mod_eq_of_lt (show k < 2 ^ 32 by omega), Nat.mod_eq_of_lt hk, hp, Nat.mul_comm,
      Nat.mul_mod_mul_left, Nat.mul_comm]
  have hdiv : (2 ^ k * v.toNat + d.toNat) / 2 ^ k = v.toNat := by
    rw [Nat.mul_add_div (Nat.two_pow_pos k), Nat.div_eq_of_lt hd, Nat.add_zero]
  apply UInt32.toNat_inj.mp
  rw [UInt32.toNat_or, hshift, ← Nat.shiftLeft_add_eq_or_of_lt hd, Nat.shiftLeft_eq,
    UInt32.toNat_ofNat', hp, Nat.mod_mul, hdiv, Nat.mul_add_mod, Nat.mod_eq_of_lt hd]
  rw [Nat.mul_comm, Nat.add_comm]

/-- Shifting in a byte. -/
theorem shift_or_byte (v : UInt32) (b : UInt8) :
    (v <<< 8) ||| b.toUInt32 = UInt32.ofNat (256 * v.toNat + b.toNat) :=
  shiftLeft_or v b.toUInt32 (by decide) (by simpa using b.toNat_lt)

/-- Four bytes shifted in push out whatever was there. -/
theorem shift_four_bytes (w : UInt32) (a b c d : UInt8) :
    (((w <<< 8 ||| a.toUInt32) <<< 8 ||| b.toUInt32) <<< 8 ||| c.toUInt32) <<< 8 ||| d.toUInt32
      = a.toUInt32 <<< 24 ||| b.toUInt32 <<< 16 ||| c.toUInt32 <<< 8 ||| d.toUInt32 := by
  apply UInt32.toBitVec_inj.mp
  apply BitVec.eq_of_getLsbD_eq
  intro i hi
  simp
  grind

end MlibDevel.Lib
