import Mathlib.Data.Set.Function
import MlibDevel.CasperLibrary.Reorder

/-!
# Bit reversal (`bit_reverse.m`, `bit_rev.m`)

The FFT leaves its bins in the order of their numbers read backwards, and the unscramblers are given
the map that does the same.

Numbers are exact here, also those of more than the 53 bits of MATLAB's.

Main result: `bitReverse_bijOn` (bit reversal is a permutation and its own inverse, for any number
of bits).
-/

namespace MlibDevel.CasperLibrary

/-- `bitset`, with bits counted from zero -/
def bitset (x k : Nat) (b : Bool) : Nat :=
  if b then x ||| 2 ^ k else if x.testBit k then x ^^^ 2 ^ k else x

/-- `bit_reverse` -/
def bitReverse (n bits : Nat) : Nat :=
  (List.range bits).foldl (fun brn i => bitset brn (bits - 1 - i) (n.testBit i)) 0

theorem testBit_bitset (x k : Nat) (b : Bool) (j : Nat) :
    (bitset x k b).testBit j = if j = k then b else x.testBit j := by
  rw [bitset]
  by_cases hjk : j = k
  · subst hjk
    cases b <;> cases h : x.testBit j <;> simp [h]
  · have hne : k ≠ j := fun h => hjk h.symm
    cases b <;> cases h : x.testBit k <;> simp [hjk, hne]

/-- After `m` rounds the `m` upper bits are set. -/
theorem testBit_bitReverse_rounds (n bits : Nat) : ∀ m ≤ bits, ∀ j,
    ((List.range m).foldl (fun brn i => bitset brn (bits - 1 - i) (n.testBit i)) 0).testBit j =
      (decide (bits - m ≤ j ∧ j < bits) && n.testBit (bits - 1 - j))
  | 0, _, j => by simp
  | m + 1, hm, j => by
    rw [List.range_succ, List.foldl_append, List.foldl_cons, List.foldl_nil, testBit_bitset,
      testBit_bitReverse_rounds n bits m (by omega)]
    split
    · next hj =>
      subst hj
      have hbit : bits - 1 - (bits - 1 - m) = m := by omega
      have hin : bits - (m + 1) ≤ bits - 1 - m ∧ bits - 1 - m < bits := by omega
      simp [hbit, hin]
    · next hj =>
      have hiff : (bits - m ≤ j ∧ j < bits) ↔ (bits - (m + 1) ≤ j ∧ j < bits) := by omega
      simp only [hiff]

theorem testBit_bitReverse (n bits j : Nat) :
    (bitReverse n bits).testBit j = (decide (j < bits) && n.testBit (bits - 1 - j)) := by
  rw [bitReverse, testBit_bitReverse_rounds n bits bits (Nat.le_refl _)]
  simp

theorem bitReverse_lt (n bits : Nat) : bitReverse n bits < 2 ^ bits := by
  refine Nat.lt_pow_two_of_testBit _ fun j hj => ?_
  have : ¬j < bits := by omega
  simp [testBit_bitReverse, this]

/-- **Bit reversal undoes itself.** -/
theorem bitReverse_bitReverse {n bits : Nat} (h : n < 2 ^ bits) :
    bitReverse (bitReverse n bits) bits = n := by
  apply Nat.eq_of_testBit_eq
  intro j
  rw [testBit_bitReverse, testBit_bitReverse]
  by_cases hj : j < bits
  · have h₁ : bits - 1 - j < bits := by omega
    have h₂ : bits - 1 - (bits - 1 - j) = j := by omega
    simp [hj, h₁, h₂]
  · have hzero : n.testBit j = false :=
      Nat.testBit_lt_two_pow (h.trans_le (Nat.pow_le_pow_right (by omega) (Nat.le_of_not_lt hj)))
    simp [hj, hzero]

/-- Of one bit more, the upper bit becomes the lowest one. -/
theorem bitReverse_succ (n bits : Nat) :
    bitReverse n (bits + 1) = 2 * bitReverse n bits + (n.testBit bits).toNat := by
  apply Nat.eq_of_testBit_eq
  intro j
  rw [testBit_bitReverse]
  have hdigit := (n.testBit bits).toNat_lt
  cases j with
  | zero =>
    have hparity : (2 * bitReverse n bits + (n.testBit bits).toNat) % 2 =
      (n.testBit bits).toNat := by omega
    rw [Nat.testBit_zero, hparity]
    simp
  | succ j =>
    have hhalf : (2 * bitReverse n bits + (n.testBit bits).toNat) / 2 = bitReverse n bits := by
      omega
    have hbit : bits + 1 - 1 - (j + 1) = bits - 1 - j := by omega
    rw [Nat.testBit_add_one, hhalf, testBit_bitReverse, hbit]
    simp

/-- `bit_rev`.  For an empty `v` nothing is assigned to `result`. -/
def bitRev (v : List Nat) (size : Nat) : Option (List Nat) :=
  if v = [] then none else some (v.map fun n => bitReverse n size)

theorem bitRev_range (b : Nat) :
    ∃ w, bitRev (List.range (2 ^ b)) b = some w ∧ w.Perm (List.range (2 ^ b)) := by
  have hne : List.range (2 ^ b) ≠ [] := by simp
  exact ⟨_, if_neg hne, map_range_perm (g := fun n => bitReverse n b) (fun n _ => bitReverse_lt n b)
    fun _ hn => bitReverse_bitReverse hn⟩

theorem bitRev_bitRev {v : List Nat} {b : Nat} (hv : v ≠ []) (hlt : ∀ n ∈ v, n < 2 ^ b) :
    (bitRev v b).bind (fun w => bitRev w b) = some v := by
  have hback : (v.map fun n => bitReverse n b).map (fun n => bitReverse n b) = v := by
    rw [List.map_map]
    exact (List.map_congr_left fun n hn => bitReverse_bitReverse (hlt n hn)).trans v.map_id
  rw [bitRev, if_neg hv, Option.bind_some, bitRev, if_neg (by simp [hv]), hback]

/-- **Bit reversal permutes the numbers of so many bits and undoes itself**, for one number and for
a vector of them. -/
theorem bitReverse_bijOn (b : Nat) :
    Set.BijOn (fun n => bitReverse n b) {n | n < 2 ^ b} {n | n < 2 ^ b} ∧
      (∀ n < 2 ^ b, bitReverse (bitReverse n b) b = n) ∧
      (∃ w, bitRev (List.range (2 ^ b)) b = some w ∧ w.Perm (List.range (2 ^ b))) ∧
      ∀ v : List Nat, v ≠ [] → (∀ n ∈ v, n < 2 ^ b) →
        (bitRev v b).bind (fun w => bitRev w b) = some v := by
  have hback : ∀ n < 2 ^ b, bitReverse (bitReverse n b) b = n := fun n => bitReverse_bitReverse
  refine ⟨?_, hback, bitRev_range b, fun v => bitRev_bitRev⟩
  have hinv : Set.InvOn (fun n => bitReverse n b) (fun n => bitReverse n b) {n | n < 2 ^ b}
      {n | n < 2 ^ b} :=
    ⟨hback, hback⟩
  exact hinv.bijOn (fun n _ => bitReverse_lt n b) fun n _ => bitReverse_lt n b

end MlibDevel.CasperLibrary
