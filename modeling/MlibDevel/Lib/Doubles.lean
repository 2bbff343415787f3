import Mathlib.Algebra.Group.Nat.Defs
import Mathlib.Data.Nat.Size

/-!
# Whole numbers in double precision

A double has 53 bits of mantissa, so it holds the whole numbers up to `2 ^ 53`, and beyond that
those that are a shorter number times a power of two.  Any other number is rounded to the nearest of
these, to the even mantissa if there are two, and to infinity if it is too large.
-/

namespace MlibDevel.Lib

/-- The number of bits of a mantissa -/
def mantissaBits : Nat := 53

/-- From this power of two on a number is too large. -/
def maxExponent : Nat := 1024

/-- The whole number is a double. -/
def IsDouble (x : Nat) : Prop := x < 2 ^ maxExponent ∧ ∃ m e, m < 2 ^ mantissaBits ∧ x = m * 2 ^ e

/-- The mantissa of a number, when `e` bits behind it are rounded off -/
def roundedMantissa (x e : Nat) : Nat :=
  let q := x / 2 ^ e
  let r := 2 * (x % 2 ^ e)
  if 2 ^ e < r ∨ r = 2 ^ e ∧ q % 2 = 1 then q + 1 else q

/-- What a whole number is rounded to -/
inductive Rounded where
  | whole (x : Nat)
  | infinity
  deriving DecidableEq

/-- The double next to a whole number -/
def roundDouble (x : Nat) : Rounded :=
  let e := x.size - mantissaBits
  let y := roundedMantissa x e * 2 ^ e
  if y < 2 ^ maxExponent then .whole y else .infinity

/-- Without bits to round off the number is kept. -/
theorem roundedMantissa_of_dvd {x e : Nat} (h : 2 ^ e ∣ x) : roundedMantissa x e = x / 2 ^ e := by
  have hr : x % 2 ^ e = 0 := Nat.mod_eq_zero_of_dvd h
  have hpos := Nat.two_pow_pos e
  rw [roundedMantissa, hr, if_neg (by omega)]

/-- **A double is rounded to itself.** -/
theorem roundDouble_of_isDouble {x : Nat} (h : IsDouble x) : roundDouble x = .whole x := by
  obtain ⟨hfin, m, k, hm, rfl⟩ := h
  -- the bits that are rounded off are zero
  have hdvd : 2 ^ ((m * 2 ^ k).size - mantissaBits) ∣ m * 2 ^ k := by
    refine Nat.dvd_mul_left_of_dvd (Nat.pow_dvd_pow 2 ?_) m
    have hlt : m * 2 ^ k < 2 ^ (mantissaBits + k) := by
      rw [Nat.pow_add]
      exact Nat.mul_lt_mul_of_pos_right hm (Nat.two_pow_pos k)
    have hsize := Nat.size_le.mpr hlt
    omega
  rw [roundDouble, roundedMantissa_of_dvd hdvd, Nat.div_mul_cancel hdvd, if_pos hfin]

/-- The numbers up to `2 ^ 53` are doubles. -/
theorem isDouble_of_le {x : Nat} (h : x ≤ 2 ^ mantissaBits) : IsDouble x := by
  have hfin : 2 ^ mantissaBits < 2 ^ maxExponent := Nat.pow_lt_pow_right Nat.one_lt_two (by decide)
  refine ⟨Nat.lt_of_le_of_lt h hfin, ?_⟩
  rcases Nat.lt_or_eq_of_le h with hlt | rfl
  · exact ⟨x, 0, hlt, (Nat.mul_one x).symm⟩
  · exact ⟨1, mantissaBits, by decide, (Nat.one_mul _).symm⟩

/-- **What a number is rounded to is a double.** -/
theorem isDouble_of_roundDouble {x y : Nat} (h : roundDouble x = .whole y) : IsDouble y := by
  have hlt : x / 2 ^ (x.size - mantissaBits) < 2 ^ mantissaBits := by
    refine Nat.div_lt_of_lt_mul ?_
    rw [← Nat.pow_add]
    exact Nat.lt_of_lt_of_le (Nat.lt_size_self x) (Nat.pow_le_pow_right (by decide) (by omega))
  rw [roundDouble] at h
  split at h
  · next hfin =>
    obtain rfl := Rounded.whole.inj h
    refine ⟨hfin, ?_⟩
    generalize x.size - mantissaBits = e at hlt ⊢
    have hle : roundedMantissa x e ≤ 2 ^ mantissaBits := by
      rw [roundedMantissa]
      split <;> omega
    rcases Nat.lt_or_eq_of_le hle with hm | hm
    · exact ⟨_, e, hm, rfl⟩
    · exact ⟨1, mantissaBits + e, by decide, by rw [hm, Nat.pow_add, Nat.one_mul]⟩
  · cases h

/-- The odd divisors of a double are short. -/
theorem IsDouble.odd_dvd_lt {x d : Nat} (h : IsDouble x) (hx : x ≠ 0) (hdvd : d ∣ x)
    (hodd : Nat.Coprime d 2) : d < 2 ^ mantissaBits := by
  obtain ⟨-, m, e, hm, rfl⟩ := h
  have hdm : d ∣ m := (hodd.pow_right e).dvd_of_dvd_mul_right hdvd
  have hpos : 0 < m := by
    rcases Nat.eq_zero_or_pos m with rfl | hpos
    · exact absurd (Nat.zero_mul _) hx
    · exact hpos
  exact Nat.lt_of_le_of_lt (Nat.le_of_dvd hpos hdm) hm

end MlibDevel.Lib
