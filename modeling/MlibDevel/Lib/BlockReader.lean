import Mathlib.Algebra.BigOperators.Intervals
import Mathlib.Algebra.Order.BigOperators.Group.Finset

/-!
# Reading in blocks

A reader is asked for one block after another, with a buffer size for each, until it returns less
than the buffer holds.  `drain` collects what it returns.

`StopsAfter` describes a reader that serves the contents in order but returns nothing any more once
it is past a certain position.  What such a reader loses depends only on where the block boundaries
fall (`drain_stopsAfter`).  A reader that serves everything (`ServesAll`) loses nothing.
-/

namespace MlibDevel.Lib

variable {σ α : Type}

/-- Ask for blocks of the sizes `b 0`, `b 1`, … until one is short, at most `fuel` times. -/
def drain (read : σ → Nat → Option (σ × List α)) : Nat → (Nat → Nat) → σ → Option (List α)
  | 0, _, _ => none
  | fuel + 1, b, s =>
    match read s (b 0) with
    | none => none
    | some (s, out) =>
      if out.length < b 0 then some out
      else (drain read fuel (fun j => b (j + 1)) s).map (out ++ ·)

/-- The position where block `j` starts. -/
def blockStart (b : Nat → Nat) (j : Nat) : Nat := ∑ i ∈ Finset.range j, b i

@[simp] theorem blockStart_zero (b : Nat → Nat) : blockStart b 0 = 0 := by
  simp [blockStart]

theorem blockStart_succ (b : Nat → Nat) (j : Nat) :
    blockStart b (j + 1) = b 0 + blockStart (fun i => b (i + 1)) j := by
  rw [blockStart, Finset.sum_range_succ', Nat.add_comm]
  rfl

/--
The reader serves `data` in order as long as its position is at most `last`, and nothing after
that.  `At s pos` says that it is in state `s` at position `pos`.
-/
structure StopsAfter (read : σ → Nat → Option (σ × List α)) (data : List α) (last : Nat)
    (At : σ → Nat → Prop) : Prop where
  serves : ∀ {s pos}, At s pos → pos ≤ last → ∀ n, 0 < n →
    ∃ s', read s n = some (s', (data.drop pos).take n) ∧ At s' (min (pos + n) data.length)
  stops : ∀ {s pos}, At s pos → last < pos → ∀ n, ∃ s', read s n = some (s', []) ∧ At s' pos
  last_le : last ≤ data.length

/-- No block starts inside the part after `last`. -/
def CutsBefore (b : Nat → Nat) (pos last len : Nat) : Prop :=
  ∀ j, ¬(last < pos + blockStart b j ∧ pos + blockStart b j < len)

theorem cutsBefore_past {b : Nat → Nat} {pos last len : Nat} (h : last < pos) :
    CutsBefore b pos last len ↔ len ≤ pos := by
  constructor
  · intro hcut
    have := hcut 0
    rw [blockStart_zero] at this
    omega
  · intro hle j
    omega

theorem cutsBefore_short {b : Nat → Nat} {pos last len : Nat} (hpos : pos ≤ last)
    (h : len < pos + b 0) : CutsBefore b pos last len := by
  intro j
  cases j with
  | zero =>
    rw [blockStart_zero]
    omega
  | succ j =>
    rw [blockStart_succ]
    omega

theorem cutsBefore_succ {b : Nat → Nat} {pos last len : Nat} (hpos : pos ≤ last) :
    CutsBefore b pos last len ↔ CutsBefore (fun i => b (i + 1)) (pos + b 0) last len := by
  constructor
  · intro hcut j
    have := hcut (j + 1)
    rw [blockStart_succ] at this
    omega
  · intro hcut j
    cases j with
    | zero =>
      rw [blockStart_zero]
      omega
    | succ j =>
      have := hcut j
      rw [blockStart_succ]
      omega

/--
**A reader that stops after a position returns the rest of the contents if and only if no block
starts behind that position and before the end.**  The reading ends in any case.
-/
theorem drain_stopsAfter {read : σ → Nat → Option (σ × List α)} {data : List α} {last : Nat}
    {At : σ → Nat → Prop} (h : StopsAfter read data last At) {b : Nat → Nat} (hb : ∀ j, 0 < b j)
    {s : σ} {pos : Nat} (hs : At s pos) :
    ∃ n out, (∀ fuel ≥ n, drain read fuel b s = some out) ∧
      (out = data.drop pos ↔ CutsBefore b pos last data.length) := by
  -- the part of the contents still ahead shrinks with every block that is not short
  induction hk : data.length + 1 - pos using Nat.strong_induction_on generalizing s pos b with
  | _ k ih =>
    rcases Nat.lt_or_ge last pos with hlt | hle
    · -- past `last`: the block is empty and the reading ends
      obtain ⟨s', hread, -⟩ := h.stops hs hlt (b 0)
      refine ⟨1, [], ?_, ?_⟩
      · intro fuel hfuel
        obtain ⟨fuel, rfl⟩ := Nat.exists_eq_succ_of_ne_zero (by omega : fuel ≠ 0)
        simp only [drain, hread, List.length_nil, hb 0, if_true]
      · rw [cutsBefore_past hlt, eq_comm, List.drop_eq_nil_iff]
    · obtain ⟨s', hread, hs'⟩ := h.serves hs hle (b 0) (hb 0)
      have hlen : ((data.drop pos).take (b 0)).length = min (b 0) (data.length - pos) := by
        rw [List.length_take, List.length_drop]
      rcases Nat.lt_or_ge data.length (pos + b 0) with hshort | hfull
      · -- a short block, with all the rest in it
        refine ⟨1, data.drop pos, ?_, ?_⟩
        · intro fuel hfuel
          obtain ⟨fuel, rfl⟩ := Nat.exists_eq_succ_of_ne_zero (by omega : fuel ≠ 0)
          have hrest : (data.drop pos).take (b 0) = data.drop pos :=
            List.take_of_length_le (by rw [List.length_drop]; omega)
          have hsh : (data.drop pos).length < b 0 := by
            have := h.last_le
            rw [hrest] at hlen
            omega
          rw [hrest] at hread
          simp only [drain, hread, if_pos hsh]
        · exact iff_of_true rfl (cutsBefore_short hle hshort)
      · rw [Nat.min_eq_left hfull] at hs'
        have hb0 := hb 0
        obtain ⟨n, out, hdrain, hiff⟩ := ih (data.length + 1 - (pos + b 0)) (by omega)
          (fun j => hb (j + 1)) hs' rfl
        refine ⟨n + 1, (data.drop pos).take (b 0) ++ out, ?_, ?_⟩
        · intro fuel hfuel
          obtain ⟨fuel, rfl⟩ := Nat.exists_eq_succ_of_ne_zero (by omega : fuel ≠ 0)
          have hnot : ¬((data.drop pos).take (b 0)).length < b 0 := by omega
          simp only [drain, hread, if_neg hnot, hdrain fuel (by omega), Option.map_some]
        · rw [cutsBefore_succ hle, ← hiff, ← List.drop_drop]
          constructor
          · intro he
            have := congrArg (List.drop (b 0)) he
            rwa [List.drop_left' (by omega)] at this
          · intro he
            rw [he, List.take_append_drop]

/--
The reader serves all of `data` in order.  What state a short block leaves is not said: nothing is
read after it.
-/
def ServesAll (read : σ → Nat → Option (σ × List α)) (data : List α) (At : σ → Nat → Prop) : Prop :=
  ∀ {s pos}, At s pos → ∀ n, 0 < n →
    ∃ s', read s n = some (s', (data.drop pos).take n) ∧ (pos + n ≤ data.length → At s' (pos + n))

/-- **A reader that serves everything is read to the end, however the blocks are cut.** -/
theorem drain_servesAll {read : σ → Nat → Option (σ × List α)} {data : List α}
    {At : σ → Nat → Prop} (h : ServesAll read data At) {b : Nat → Nat} (hb : ∀ j, 0 < b j) {s : σ}
    {pos : Nat} (hs : At s pos) (hpos : pos ≤ data.length) :
    ∃ n, ∀ fuel ≥ n, drain read fuel b s = some (data.drop pos) := by
  induction hk : data.length - pos using Nat.strong_induction_on generalizing s pos b with
  | _ k ih =>
    obtain ⟨s', hread, hs'⟩ := h hs (b 0) (hb 0)
    have hb0 := hb 0
    rcases Nat.lt_or_ge data.length (pos + b 0) with hshort | hfull
    · refine ⟨1, fun fuel hfuel => ?_⟩
      obtain ⟨fuel, rfl⟩ := Nat.exists_eq_succ_of_ne_zero (by omega : fuel ≠ 0)
      have hlen : (data.drop pos).length < b 0 := by
        rw [List.length_drop]
        omega
      rw [List.take_of_length_le (Nat.le_of_lt hlen)] at hread
      simp only [drain, hread, if_pos hlen]
    · obtain ⟨n, hdrain⟩ := ih (data.length - (pos + b 0)) (by omega) (fun j => hb (j + 1))
        (hs' hfull) hfull rfl
      refine ⟨n + 1, fun fuel hfuel => ?_⟩
      obtain ⟨fuel, rfl⟩ := Nat.exists_eq_succ_of_ne_zero (by omega : fuel ≠ 0)
      have hnot : ¬((data.drop pos).take (b 0)).length < b 0 := by
        rw [List.length_take, List.length_drop]
        omega
      simp only [drain, hread, if_neg hnot, hdrain fuel (by omega), Option.map_some]
      rw [← List.drop_drop, List.take_append_drop]

end MlibDevel.Lib
