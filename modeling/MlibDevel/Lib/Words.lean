import Mathlib.Tactic.Ring

/-!
# The words of a number

A number is cut into words of `m` bits, and fields of any widths are put together to a number.
-/

namespace MlibDevel.Lib

/-- The word `j` of `x`, counted from the least significant one. -/
def wordOf (m x j : Nat) : Nat := x / 2 ^ (m * j) % 2 ^ m

/-- The number made of fields with widths, the first one most significant. -/
def concatFields (fields : List (Nat × Nat)) : Nat := fields.foldl (fun x f => x * 2 ^ f.1 + f.2) 0

variable {m x : Nat}

theorem wordOf_lt (m x j : Nat) : wordOf m x j < 2 ^ m := Nat.mod_lt _ (Nat.two_pow_pos m)

/-- The topmost word needs no cut. -/
theorem wordOf_of_lt {j : Nat} (h : x < 2 ^ (m * j + m)) : wordOf m x j = x / 2 ^ (m * j) := by
  apply Nat.mod_eq_of_lt
  apply Nat.div_lt_of_lt_mul
  rwa [← Nat.pow_add]

/-- What is added above does not change the words below. -/
theorem wordOf_add {j k : Nat} (h : m * j + m ≤ k) (v : Nat) :
    wordOf m (x + v * 2 ^ k) j = wordOf m x j := by
  obtain ⟨d, rfl⟩ := Nat.exists_eq_add_of_le h
  have hsplit : x + v * 2 ^ (m * j + m + d) = x + 2 ^ (m * j) * (2 ^ m * (v * 2 ^ d)) := by
    rw [Nat.pow_add, Nat.pow_add]
    ring
  rw [wordOf, wordOf, hsplit, Nat.add_mul_div_left _ _ (Nat.two_pow_pos _),
    Nat.add_mul_mod_self_left]

theorem foldl_fields (fields : List (Nat × Nat)) : ∀ x : Nat,
    fields.foldl (fun x f => x * 2 ^ f.1 + f.2) x =
      x * 2 ^ (fields.map Prod.fst).sum + concatFields fields := by
  induction fields with
  | nil =>
    intro x
    exact (Nat.mul_one x).symm
  | cons f fields ih =>
    intro x
    rw [concatFields, List.foldl_cons, List.foldl_cons, ih, ih, List.map_cons,
      List.sum_cons, Nat.pow_add]
    ring

/-- The first field stands above all others. -/
theorem concatFields_cons (n v : Nat) (fields : List (Nat × Nat)) :
    concatFields ((n, v) :: fields) = v * 2 ^ (fields.map Prod.fst).sum + concatFields fields := by
  rw [concatFields, List.foldl_cons, foldl_fields, Nat.zero_mul, Nat.zero_add]

/-- The words make up the number. -/
theorem concatFields_wordOf (m x : Nat) : ∀ n : Nat,
    concatFields ((List.range n).reverse.map fun j => (m, wordOf m x j)) = x % 2 ^ (m * n)
  | 0 => by
    rw [Nat.mul_zero, Nat.pow_zero, Nat.mod_one]
    rfl
  | n + 1 => by
    have hwidth : (((List.range n).reverse.map fun j => (m, wordOf m x j)).map Prod.fst).sum =
        m * n := by
      rw [List.map_map, Function.comp_def, List.map_const', List.sum_replicate_nat,
        List.length_reverse, List.length_range, Nat.mul_comm]
    rw [List.range_succ, List.reverse_append, List.reverse_singleton, List.singleton_append,
      List.map_cons, concatFields_cons, hwidth, concatFields_wordOf m x n, wordOf, Nat.mul_succ,
      Nat.pow_add, Nat.mod_mul]
    ring

end MlibDevel.Lib
