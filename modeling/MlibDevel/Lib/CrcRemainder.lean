import Mathlib.Algebra.Polynomial.Div
import Mathlib.Algebra.CharP.Two
import Mathlib.Algebra.Field.ZMod
import Mathlib.Tactic.LinearCombination
import MlibDevel.Lib.Crc

/-!
# The check as a remainder

Bits are the coefficients of a polynomial over the field with two elements.  The register holds the
remainder of the message, multiplied by a power of `X`, by the generator (`polyOf_checkBits`).
-/

namespace MlibDevel.Lib

open Polynomial

/-- The polynomial with these coefficients, the lowest one first -/
noncomputable def polyOf : List Bool → (ZMod 2)[X]
  | [] => 0
  | b :: bits => C (if b then 1 else 0) + X * polyOf bits

/-- The generator: below its leading term it has the coefficients `poly`. -/
noncomputable def generator (poly : List Bool) : (ZMod 2)[X] := X ^ poly.length + polyOf poly

theorem polyOf_concat (b : Bool) : ∀ bits : List Bool,
    polyOf (bits ++ [b]) = polyOf bits + C (if b then 1 else 0) * X ^ bits.length
  | [] => by simp [polyOf]
  | c :: bits => by
    rw [List.cons_append, polyOf, polyOf, polyOf_concat b bits, List.length_cons]
    ring

theorem degree_polyOf_lt : ∀ bits : List Bool, (polyOf bits).degree < bits.length
  | [] => by simp [polyOf]
  | b :: bits => by
    have ih := degree_polyOf_lt bits
    rw [polyOf, List.length_cons]
    refine lt_of_le_of_lt (degree_add_le _ _) (max_lt ?_ ?_)
    · exact lt_of_le_of_lt degree_C_le (by exact_mod_cast Nat.succ_pos _)
    · rw [degree_mul, degree_X, add_comm, Nat.cast_succ]
      exact WithBot.add_lt_add_right (by simp) ih

theorem generator_monic (poly : List Bool) : (generator poly).Monic :=
  monic_X_pow_add (degree_polyOf_lt poly)

theorem degree_generator (poly : List Bool) : (generator poly).degree = poly.length := by
  rw [generator,
    degree_add_eq_left_of_degree_lt (by rw [degree_X_pow]; exact degree_polyOf_lt poly),
    degree_X_pow]

/-- The feedback adds the generator below its leading term. -/
theorem polyOf_zipWith (fb : Bool) : ∀ poly bits : List Bool, bits.length = poly.length →
    polyOf (List.zipWith (fun p x => if p then x ^^ fb else x) poly bits)
      = polyOf bits + C (if fb then 1 else 0) * polyOf poly
  | [], [], _ => by simp [polyOf]
  | p :: poly, b :: bits, h => by
    have htwo : (1 : ZMod 2) + 1 = 0 := by decide
    rw [List.zipWith_cons_cons, polyOf, polyOf, polyOf, polyOf_zipWith fb poly bits
      (Nat.succ.inj h)]
    have hfirst : (C (if (if p then b ^^ fb else b) then 1 else 0) : (ZMod 2)[X])
        = C (if b then 1 else 0) + C (if fb then 1 else 0) * C (if p then 1 else 0) := by
      rw [← C_mul, ← C_add]
      congr 1
      cases p <;> cases b <;> cases fb <;> simp [htwo]
    rw [hfirst]
    ring

/-- A bit is taken. -/
theorem polyOf_crcStep {poly r : List Bool} (b : Bool) (hr : r.length = poly.length)
    (hne : poly ≠ []) :
    polyOf (crcStep Bool.xor false poly r b) = X * polyOf r + C
      (if b then 1 else 0) * X ^ poly.length
      + C (if r.getLastD false ^^ b then 1 else 0) * generator poly := by
  have hrne : r ≠ [] := fun h => hne (List.length_eq_zero_iff.mp (by rw [← hr, h]; rfl))
  have hsplit : r = r.dropLast ++ [r.getLastD false] := by
    rw [List.getLastD_eq_getLast?, List.getLast?_eq_some_getLast hrne]
    exact (List.dropLast_concat_getLast hrne).symm
  have hlen : (false :: r.dropLast).length = poly.length := by
    have hpos := List.length_pos_of_ne_nil hrne
    rw [List.length_cons, List.length_dropLast]
    omega
  have hpoly : polyOf r = polyOf r.dropLast + C
    (if r.getLastD false then 1 else 0) * X ^ r.dropLast.length := by
    conv_lhs => rw [hsplit]
    exact polyOf_concat _ _
  have hpow : (X : (ZMod 2)[X]) * X ^ r.dropLast.length = X ^ poly.length := by
    rw [← pow_succ', ← hlen]
    rfl
  have htwo : ∀ q : (ZMod 2)[X], q + q = 0 := CharTwo.add_self_eq_zero
  rw [crcStep, polyOf_zipWith _ _ _ hlen, polyOf, hpoly, generator]
  have hfb : (C (if r.getLastD false ^^ b then 1 else 0) : (ZMod 2)[X])
      = C (if r.getLastD false then 1 else 0) + C (if b then 1 else 0) := by
    rw [← C_add]
    congr 1
    cases r.getLastD false <;> cases b <;> decide
  have hX : (X : (ZMod 2)[X]) * (C (if r.getLastD false then 1 else 0) * X ^ r.dropLast.length)
      = C (if r.getLastD false then 1 else 0) * X ^ poly.length := by
    rw [← hpow]
    ring
  have hcancel := htwo (C (if r.getLastD false then 1 else 0) * X ^ poly.length)
  have hcancel' := htwo (C (if b then 1 else 0) * X ^ poly.length)
  rw [mul_add X, hX, hfb]
  simp only [Bool.false_eq_true, if_false, C_0, zero_add]
  linear_combination -hcancel - hcancel'

/-- All that has been taken, but for a multiple of the generator. -/
theorem generator_dvd_checkBits {poly : List Bool} (hne : poly ≠ []) :
    ∀ (bits : List Bool) {r : List Bool},
    r.length = poly.length → generator poly ∣
      X ^ bits.length * polyOf r + X ^ poly.length * polyOf bits.reverse - polyOf
        (checkBits poly r bits)
  | [], r, _ => by simp [polyOf, crcBits]
  | b :: bits, r, hr => by
    obtain ⟨q, hq⟩ := generator_dvd_checkBits hne bits (@length_crcStep _ Bool.xor false _ _ b hr)
    refine ⟨q - X ^ bits.length * C (if r.getLastD false ^^ b then 1 else 0), ?_⟩
    rw [polyOf_crcStep b hr hne] at hq
    rw [List.reverse_cons, polyOf_concat, List.length_reverse, List.length_cons, mul_sub, ← hq]
    show _ - polyOf (checkBits poly (crcStep Bool.xor false poly r b) bits) = _
    ring

/-- **The register holds the remainder by the generator.** -/
theorem polyOf_checkBits {poly r : List Bool} (hne : poly ≠ []) (bits : List Bool)
    (hr : r.length = poly.length) :
    polyOf (checkBits poly r bits)
      = (X ^ bits.length * polyOf r + X ^ poly.length * polyOf bits.reverse) %ₘ generator poly := by
  obtain ⟨q, hq⟩ := generator_dvd_checkBits hne bits hr
  refine ((div_modByMonic_unique q _ (generator_monic poly) ⟨?_, ?_⟩).2).symm
  · rw [← hq]
    ring
  · have hlen : (checkBits poly r bits).length = poly.length := length_crcBits bits hr
    rw [degree_generator, ← hlen]
    exact degree_polyOf_lt _

end MlibDevel.Lib
