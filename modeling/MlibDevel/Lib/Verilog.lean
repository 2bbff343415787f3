import Mathlib.Data.List.Basic
import Mathlib.Tactic.Ring

/-!
# Verilog vectors

A vector of equal words is a number, written as a concatenation `{x, y, z}` (the last word is the
least significant) and read by part selects `v[w*(i+1)-1 : w*i]`.  A vector of single bits is the
list of its bits, least significant first.
-/

namespace MlibDevel.Lib

/-- `{x₀, x₁, …}` for words of `w` bits. -/
def concat (w : Nat) (xs : List (BitVec w)) : Nat :=
  xs.foldl (fun v x => v * 2 ^ w + x.toNat) 0

/-- `v[w*(i+1)-1 : w*i]` -/
def slice (w i v : Nat) : BitVec w := BitVec.ofNat w (v / 2 ^ (w * i))

/-- `{b₀, b₁, …}` for vectors of bits. -/
def concatBits (bs : List (List Bool)) : List Bool := bs.reverse.flatten

theorem concat_append_singleton (w : Nat) (xs : List (BitVec w)) (x : BitVec w) :
    concat w (xs ++ [x]) = concat w xs * 2 ^ w + x.toNat := by
  simp [concat]

/-- The least significant word is the one written last. -/
theorem slice_zero_concat (w : Nat) (xs : List (BitVec w)) (x : BitVec w) :
    slice w 0 (concat w (xs ++ [x])) = x := by
  apply BitVec.eq_of_toNat_eq
  simp [slice, concat_append_singleton, Nat.mod_eq_of_lt x.isLt]

theorem slice_succ_concat (w i : Nat) (xs : List (BitVec w)) (x : BitVec w) :
    slice w (i + 1) (concat w (xs ++ [x])) = slice w i (concat w xs) := by
  have hdiv : (concat w xs * 2 ^ w + x.toNat) / 2 ^ w = concat w xs := by
    rw [Nat.mul_comm, Nat.mul_add_div (Nat.two_pow_pos w), Nat.div_eq_of_lt x.isLt, Nat.add_zero]
  rw [slice, slice, concat_append_singleton, Nat.mul_succ, Nat.add_comm (w * i), Nat.pow_add,
    ← Nat.div_div_eq_div_mul, hdiv]

/-- **A part select of a concatenation finds the words in the opposite order.** -/
theorem slice_concat_reverse : ∀ {w : Nat} {xs : List (BitVec w)} {i : Nat} {x : BitVec w},
    xs[i]? = some x → slice w i (concat w xs.reverse) = x
  | w, y :: xs, 0, x, h => by
    rw [List.reverse_cons, slice_zero_concat]
    exact Option.some.inj h
  | w, y :: xs, i + 1, x, h => by
    rw [List.reverse_cons, slice_succ_concat]
    exact slice_concat_reverse h

end MlibDevel.Lib
