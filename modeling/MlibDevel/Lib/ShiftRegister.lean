import Mathlib.Data.List.Induction

/-!
# Shift registers

A register into which bits are shifted at the lower end holds the last bits, the first of them most
significant (`extract_shiftAll`), whatever it held before.
-/

namespace MlibDevel.Lib

/-- A bit is shifted in at the lower end. -/
def shiftIn {w : Nat} (r : BitVec (w + 1)) (b : Bool) : BitVec (w + 1) :=
  r.extractLsb' 0 w ++ BitVec.ofBool b

/-- Bits are shifted in one after the other. -/
def shiftAll {w : Nat} (r : BitVec (w + 1)) (bits : List Bool) : BitVec (w + 1) :=
  bits.foldl shiftIn r

theorem shiftAll_append {w : Nat} (r : BitVec (w + 1)) (bits bits' : List Bool) :
    shiftAll r (bits ++ bits') = shiftAll (shiftAll r bits) bits' := List.foldl_append

theorem shiftAll_concat {w : Nat} (r : BitVec (w + 1)) (bits : List Bool) (b : Bool) :
    shiftAll r (bits ++ [b]) = shiftIn (shiftAll r bits) b := shiftAll_append r bits [b]

theorem getLsbD_shiftIn_zero {w : Nat} (r : BitVec (w + 1)) (b : Bool) :
    (shiftIn r b).getLsbD 0 = b := by
  rw [shiftIn, BitVec.getLsbD_append, if_pos Nat.zero_lt_one]
  exact BitVec.getLsbD_ofBool b 0

theorem getLsbD_shiftIn_succ {w : Nat} (r : BitVec (w + 1)) (b : Bool) {j : Nat} (hj : j < w) :
    (shiftIn r b).getLsbD (j + 1) = r.getLsbD j := by
  rw [shiftIn, BitVec.getLsbD_append, if_neg (by omega), BitVec.getLsbD_extractLsb']
  simp [hj]

/-- The bits of the register are those shifted in, the last one lowest, and above them the old
ones. -/
theorem getLsbD_shiftAll {w : Nat} (r : BitVec (w + 1)) (bits : List Bool) : ∀ j < w + 1,
    (shiftAll r bits).getLsbD j = bits.reverse[j]?.getD (r.getLsbD (j - bits.length)) := by
  induction bits using List.reverseRecOn with
  | nil => simp [shiftAll]
  | append_singleton bits b ih =>
    intro j hj
    rw [shiftAll_concat, List.reverse_concat, List.length_append, List.length_singleton]
    cases j with
    | zero => exact getLsbD_shiftIn_zero _ b
    | succ j =>
      rw [getLsbD_shiftIn_succ _ _ (by omega), ih j (by omega), List.getElem?_cons_succ,
        Nat.add_sub_add_right]

/-- Of enough bits, the lower part of the register holds the last ones. -/
theorem extract_shiftAll {w n : Nat} (r : BitVec (w + 1)) (r' : BitVec (n + 1)) (bits : List Bool)
    (hn : n ≤ w) (hlen : n + 1 ≤ bits.length) :
    (shiftAll r bits).extractLsb' 0 (n + 1) = shiftAll r' (bits.drop (bits.length - (n + 1))) := by
  apply BitVec.eq_of_getLsbD_eq
  intro j hj
  rw [BitVec.getLsbD_extractLsb', getLsbD_shiftAll _ _ _ (by omega), getLsbD_shiftAll _ _ _ hj,
    List.reverse_drop]
  have hsub : bits.length - (bits.length - (n + 1)) = n + 1 := by omega
  rw [hsub, List.getElem?_take, if_pos hj, Nat.zero_add]
  have hrev : j < bits.reverse.length := by
    rw [List.length_reverse]
    omega
  simp [List.getElem?_eq_getElem hrev, hj]

/-- A bit behind the lower part of the register. -/
theorem extract_append_ofBool {w n : Nat} (r : BitVec (w + 1)) (b : Bool) (hn : n ≤ w) :
    r.extractLsb' 0 n ++ BitVec.ofBool b = (shiftIn r b).extractLsb' 0 (n + 1) := by
  apply BitVec.eq_of_getLsbD_eq
  intro j hj
  rw [BitVec.getLsbD_extractLsb', Nat.zero_add, BitVec.getLsbD_append]
  cases j with
  | zero =>
    rw [if_pos Nat.zero_lt_one, getLsbD_shiftIn_zero, BitVec.getLsbD_ofBool]
    rfl
  | succ j =>
    have hj' : j < n := by omega
    rw [if_neg (by omega), getLsbD_shiftIn_succ _ _ (by omega), BitVec.getLsbD_extractLsb']
    simp [hj']

end MlibDevel.Lib
