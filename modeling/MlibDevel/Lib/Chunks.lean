import Mathlib.Data.List.Basic
import Mathlib.Tactic.Linarith

/-!
# Cutting a list into chunks

`chunks k xs` is `[xs[i:i+k] for i in range(0, len(xs), k)]`: chunks of `k` elements and a last one
with what remains.
-/

namespace MlibDevel.Lib

variable {α : Type}

/-- How many chunks there are: the length of `range(0, n, k)`. -/
def chunkCount (k n : Nat) : Nat := (n + k - 1) / k

/-- `[xs[i:i+k] for i in range(0, len(xs), k)]` -/
def chunks (k : Nat) (xs : List α) : List (List α) :=
  (List.range (chunkCount k xs.length)).map fun i => (xs.drop (i * k)).take k

@[simp] theorem length_chunks (k : Nat) (xs : List α) :
    (chunks k xs).length = chunkCount k xs.length := by
  simp [chunks]

theorem lt_chunkCount_iff {k n i : Nat} (hk : 0 < k) : i < chunkCount k n ↔ i * k < n := by
  rw [chunkCount, Nat.lt_div_iff_mul_lt hk]
  omega

theorem getElem?_chunks {k : Nat} (hk : 0 < k) (xs : List α) {i : Nat} (hi : i * k < xs.length) :
    (chunks k xs)[i]? = some ((xs.drop (i * k)).take k) := by
  rw [chunks, List.getElem?_map, List.getElem?_range ((lt_chunkCount_iff hk).mpr hi)]
  rfl

theorem chunk_ne_nil {k : Nat} (hk : 0 < k) {xs c : List α} (hc : c ∈ chunks k xs) : c ≠ [] := by
  obtain ⟨i, hi, rfl⟩ := List.mem_map.mp hc
  have hi := (lt_chunkCount_iff hk).mp (List.mem_range.mp hi)
  intro he
  have := congrArg List.length he
  simp at this
  omega

/-- The first `m` chunks are the first `m * k` elements. -/
theorem flatten_range_take_drop (k : Nat) (xs : List α) : ∀ m : Nat,
    ((List.range m).map fun i => (xs.drop (i * k)).take k).flatten = xs.take (m * k)
  | 0 => by simp
  | m + 1 => by
    rw [List.range_succ, List.map_append, List.flatten_append, flatten_range_take_drop k xs m,
      Nat.succ_mul, List.take_add]
    simp

/-- **The chunks put together are the list.** -/
theorem flatten_chunks {k : Nat} (hk : 0 < k) (xs : List α) : (chunks k xs).flatten = xs := by
  rw [chunks, flatten_range_take_drop, List.take_of_length_le]
  by_contra hlt
  exact absurd ((lt_chunkCount_iff hk).mpr (not_le.mp hlt)) (lt_irrefl _)

/-- All chunks but the last have `k` elements, and the last the remainder. -/
theorem length_of_getElem?_chunks {k : Nat} (hk : 0 < k) {xs c : List α} {i : Nat}
    (hc : (chunks k xs)[i]? = some c) :
    c.length = if i ≠ (chunks k xs).length - 1 then k
      else if xs.length % k = 0 then k else xs.length % k := by
  have hi : i < chunkCount k xs.length := by
    have := (List.getElem?_eq_some_iff.mp hc).1
    simpa using this
  have hik := (lt_chunkCount_iff hk).mp hi
  rw [getElem?_chunks hk xs hik, Option.some.injEq] at hc
  rw [← hc, List.length_take, List.length_drop, length_chunks]
  have hdiv := Nat.div_add_mod xs.length k
  split
  · next hne =>
    have hnext : i + 1 < chunkCount k xs.length := by omega
    have := (lt_chunkCount_iff hk).mp hnext
    rw [Nat.succ_mul] at this
    omega
  · next heq =>
    have hlast : ¬ i + 1 < chunkCount k xs.length := by omega
    rw [lt_chunkCount_iff hk, Nat.succ_mul] at hlast
    have hmod : (xs.length - i * k) % k = xs.length % k := by
      conv_rhs => rw [← Nat.sub_add_cancel hik.le, Nat.add_mul_mod_self_right]
    split
    · next hz =>
      -- a positive remainder of at most `k` elements that is a multiple of `k`
      have hdvd : k ∣ xs.length - i * k := Nat.dvd_of_mod_eq_zero (hmod.trans hz)
      have := Nat.le_of_dvd (by omega) hdvd
      omega
    · next hz =>
      have hlt : xs.length - i * k ≠ k := by
        intro he
        rw [he, Nat.mod_self] at hmod
        exact hz hmod.symm
      rw [Nat.mod_eq_of_lt (by omega : xs.length - i * k < k)] at hmod
      omega

/-- A full chunk in front. -/
theorem chunks_append {k : Nat} (hk : 0 < k) {c : List α} (hc : c.length = k) (xs : List α) :
    chunks k (c ++ xs) = c :: chunks k xs := by
  have hcount : chunkCount k (c ++ xs).length = chunkCount k xs.length + 1 := by
    rw [chunkCount, chunkCount, List.length_append, hc,
      show k + xs.length + k - 1 = (xs.length + k - 1) + k by omega, Nat.add_div_right _ hk]
  rw [chunks, hcount, List.range_succ_eq_map, List.map_cons, List.map_map, chunks]
  congr 1
  · rw [Nat.zero_mul, List.drop_zero, List.take_append_of_le_length (by omega), ← hc,
      List.take_length]
  · refine List.map_congr_left fun i _ => ?_
    show ((c ++ xs).drop ((i + 1) * k)).take k = _
    rw [Nat.succ_mul, Nat.add_comm, ← List.drop_drop, List.drop_left' hc]

@[simp] theorem chunks_nil (k : Nat) : chunks k ([] : List α) = [] := by
  cases k with
  | zero => simp [chunks, chunkCount]
  | succ k => simp [chunks, chunkCount, Nat.div_eq_of_lt]

/-- A list that fits in a chunk is one. -/
theorem chunks_of_length_le {k : Nat} {xs : List α} (hne : xs ≠ []) (hle : xs.length ≤ k) :
    chunks k xs = [xs] := by
  have hpos := List.length_pos_of_ne_nil hne
  have hcount : chunkCount k xs.length = 1 := by
    rw [chunkCount, show xs.length + k - 1 = (xs.length - 1) + k by omega,
      Nat.add_div_right _ (by omega), Nat.div_eq_of_lt (by omega)]
  rw [chunks, hcount, List.range_one, List.map_singleton, Nat.zero_mul, List.drop_zero,
    List.take_of_length_le hle]

end MlibDevel.Lib
