import Mathlib.Algebra.Order.Field.Rat
import Mathlib.Algebra.Order.AbsoluteValue.Basic
import Mathlib.Tactic.Linarith
import Mathlib.Tactic.NormNum
import MlibDevel.Lib.KeepBest

/-!
# The factors of a clock (`clk_factors.py`)

A clock is multiplied by `M` and divided by `D` and `DD` to get near a target frequency; the
oscillator in between is kept between 650 and 1150 MHz.  All factors in their ranges are tried.

The search starts from factors of one, with a difference of 1000 MHz.  They are no choice
themselves, but they are returned where every choice is 1000 MHz off or more
(`clkFactors_not_optimal`).

Main result: `clkFactors_optimal_iff` (the factors are the best ones just where some come nearer
than that).
-/

namespace MlibDevel.Toolflow

open Lib

/-! ## The search -/

/-- `M` -/
def mRange : List Nat := List.range' 8 29 2

/-- `D` -/
def dRange : List Nat := List.range' 2 126

/-- `DD` -/
def ddRange (clkFreq : ℚ) : List Nat := if clkFreq ≥ 315 then List.range' 5 76 else List.range' 1 80

/-- The body of the loops.  The best factors so far stand with their difference. -/
def tryFactors (clkFreq targetFreq : ℚ) (best : (Nat × Nat × Nat) × ℚ) (i j k : Nat) :
    (Nat × Nat × Nat) × ℚ :=
  if clkFreq * i / k < 1150 ∧ clkFreq * i / k > 650 then
    let diff := |clkFreq * i / j / k - targetFreq|
    if diff < best.2 then ((i, j, k), diff) else best
  else best

/-- `bestM`, `bestD`, `bestDD` and `bestDiff` after the loops. -/
def bestFactors (clkFreq targetFreq : ℚ) : (Nat × Nat × Nat) × ℚ :=
  mRange.foldl (fun best i => dRange.foldl (fun best j => (ddRange clkFreq).foldl (fun best k =>
    tryFactors clkFreq targetFreq best i j k) best) best) ((1, 1, 1), 1000)

/-- What `clk_factors` returns.  The factors are whole numbers, also where they are returned as
`float`. -/
structure ClkParams where
  m : Nat
  d : Nat
  dd : Nat
  periodns : ℚ
  periodHalfns : ℚ

/-- `clk_factors`.  A clock that stands still has no period. -/
def clkFactors (clkFreq targetFreq : ℚ) : Option ClkParams :=
  let (bestM, bestD, bestDD) := (bestFactors clkFreq targetFreq).1
  let closestFreq := clkFreq * bestM / bestD / bestDD
  if closestFreq = 0 then none
  else
    let periodns := 1 / closestFreq * 1000
    some ⟨bestM, bestD, bestDD, periodns, periodns / 2⟩

/-! ## What is searched for -/

/-- How far from the target the factors come. -/
def offBy (clkFreq targetFreq : ℚ) (x : Nat × Nat × Nat) : ℚ :=
  |clkFreq * x.1 / x.2.1 / x.2.2 - targetFreq|

/-- Factors in their ranges, with the oscillator in its band. -/
structure Admissible (clkFreq : ℚ) (m d dd : Nat) : Prop where
  m_even : m % 2 = 0
  le_m : 8 ≤ m
  m_le : m ≤ 64
  le_d : 2 ≤ d
  d_le : d ≤ 127
  le_dd : (if clkFreq ≥ 315 then 5 else 1) ≤ dd
  dd_le : dd ≤ 80
  above : 650 < clkFreq * m / dd
  below : clkFreq * m / dd < 1150

/-- No other factors come nearer to the target. -/
def Optimal (clkFreq targetFreq : ℚ) (p : ClkParams) : Prop :=
  Admissible clkFreq p.m p.d p.dd ∧ ∀ m d dd, Admissible clkFreq m d dd →
    offBy clkFreq targetFreq (p.m, p.d, p.dd) ≤ offBy clkFreq targetFreq (m, d, dd)

/-! ## The loops -/

def inBand (clkFreq : ℚ) (x : Nat × Nat × Nat) : Bool :=
  clkFreq * x.1 / x.2.2 < 1150 ∧ clkFreq * x.1 / x.2.2 > 650

/-- The factors that the loops go through, in order. -/
def candidates (clkFreq : ℚ) : List (Nat × Nat × Nat) :=
  mRange.flatMap fun i => dRange.flatMap fun j => (ddRange clkFreq).map fun k => (i, j, k)

theorem mem_ddRange {clkFreq : ℚ} {dd : Nat} :
    dd ∈ ddRange clkFreq ↔ (if clkFreq ≥ 315 then 5 else 1) ≤ dd ∧ dd ≤ 80 := by
  unfold ddRange
  split
  · rw [List.mem_range'_1]
    omega
  · rw [List.mem_range'_1]
    omega

theorem mem_candidates {clkFreq : ℚ} {m d dd : Nat} :
    (m, d, dd) ∈ (candidates clkFreq).filter (inBand clkFreq) ↔ Admissible clkFreq m d dd := by
  have hm : m ∈ mRange ↔ m % 2 = 0 ∧ 8 ≤ m ∧ m ≤ 64 := by
    rw [mRange, List.mem_range']
    constructor
    · rintro ⟨i, hi, rfl⟩
      omega
    · exact fun h => ⟨(m - 8) / 2, by omega, by omega⟩
  have hd : d ∈ dRange ↔ 2 ≤ d ∧ d ≤ 127 := by
    rw [dRange, List.mem_range'_1]
    omega
  have hrange : (m, d, dd) ∈ candidates clkFreq ↔ m ∈ mRange ∧ d ∈ dRange ∧
      dd ∈ ddRange clkFreq := by
    simp [candidates]
  rw [List.mem_filter, hrange, hm, hd, mem_ddRange]
  constructor
  · rintro ⟨⟨⟨heven, hm₁, hm₂⟩, ⟨hd₁, hd₂⟩, hdd₁, hdd₂⟩, hband⟩
    obtain ⟨hbelow, habove⟩ := of_decide_eq_true hband
    exact ⟨heven, hm₁, hm₂, hd₁, hd₂, hdd₁, hdd₂, habove, hbelow⟩
  · intro h
    exact ⟨⟨⟨h.m_even, h.le_m, h.m_le⟩, ⟨h.le_d, h.d_le⟩, h.le_dd, h.dd_le⟩,
      decide_eq_true ⟨h.below, h.above⟩⟩

theorem bestFactors_eq (clkFreq targetFreq : ℚ) :
    bestFactors clkFreq targetFreq = ((candidates clkFreq).filter (inBand clkFreq)).foldl
      (keepBest (offBy clkFreq targetFreq)) ((1, 1, 1), 1000) := by
  have htry : ∀ best i j k, tryFactors clkFreq targetFreq best i j k =
      if inBand clkFreq (i, j, k) then keepBest (offBy clkFreq targetFreq) best (i, j, k)
        else best := by
    intro best i j k
    simp only [tryFactors, inBand, keepBest, offBy, decide_eq_true_eq]
    congr
  simp only [bestFactors, htry, candidates, List.foldl_filter, List.foldl_flatMap, List.foldl_map]

theorem bestFactors_kept (clkFreq targetFreq : ℚ) :
    KeptBest (offBy clkFreq targetFreq) ((1, 1, 1), 1000)
      ((candidates clkFreq).filter (inBand clkFreq)) (bestFactors clkFreq targetFreq) := by
  rw [bestFactors_eq]
  exact keptBest_foldl _ _ _

/-! ## What is found -/

section

variable {clkFreq targetFreq : ℚ}

/-- A clock that is returned has the best factors. -/
theorem factors_of_clkFactors {p : ClkParams} (hp : clkFactors clkFreq targetFreq = some p) :
    (p.m, p.d, p.dd) = (bestFactors clkFreq targetFreq).1 := by
  rw [clkFactors] at hp
  split at hp
  next bestM bestD bestDD hbest =>
    by_cases hzero : clkFreq * bestM / bestD / bestDD = 0
    · rw [if_pos hzero] at hp
      nomatch hp
    · rw [if_neg hzero] at hp
      rw [hbest, ← Option.some.inj hp]

/-- With admissible factors there is a clock. -/
theorem clkFactors_isSome {m d dd : Nat} (hbest : (bestFactors clkFreq targetFreq).1 = (m, d, dd))
    (hadm : Admissible clkFreq m d dd) : ∃ p, clkFactors clkFreq targetFreq = some p := by
  have hd : (d : ℚ) ≠ 0 :=
    Nat.cast_ne_zero.mpr (Nat.ne_of_gt (Nat.lt_of_lt_of_le Nat.two_pos hadm.le_d))
  have hvco : clkFreq * m / dd ≠ 0 := ne_of_gt (lt_trans (by norm_num) hadm.above)
  have hfreq : clkFreq * m / d / dd ≠ 0 := by
    rw [div_right_comm]
    exact div_ne_zero hvco hd
  simp only [clkFactors, hbest, if_neg hfreq]
  exact ⟨_, rfl⟩

/-- Factors that come nearer than the start are found. -/
theorem exists_optimal {m d dd : Nat} (hadm : Admissible clkFreq m d dd)
    (hnear : offBy clkFreq targetFreq (m, d, dd) < 1000) :
    ∃ p, clkFactors clkFreq targetFreq = some p ∧ Optimal clkFreq targetFreq p := by
  have hkept := bestFactors_kept clkFreq targetFreq
  obtain ⟨hmem, hdiff, -⟩ := hkept.mem_iff.mpr ⟨_, mem_candidates.mpr hadm, hnear⟩
  have hbest : Admissible clkFreq _ _ _ := mem_candidates.mp hmem
  obtain ⟨p, hp⟩ := clkFactors_isSome rfl hbest
  have hfactors := factors_of_clkFactors hp
  rw [← hfactors] at hmem hdiff
  refine ⟨p, hp, mem_candidates.mp hmem, fun m' d' dd' hadm' => ?_⟩
  rw [← hdiff]
  exact hkept.le _ (mem_candidates.mpr hadm')

/-- What is found is nearer than the start. -/
theorem Optimal.near {p : ClkParams} (hp : clkFactors clkFreq targetFreq = some p)
    (hoptimal : Optimal clkFreq targetFreq p) :
    offBy clkFreq targetFreq (p.m, p.d, p.dd) < 1000 := by
  have hfactors := factors_of_clkFactors hp
  rcases (bestFactors_kept clkFreq targetFreq).eq_or with hstart | ⟨-, hdiff, hlt⟩
  · have hone : p.m = 1 := by
      rw [hstart] at hfactors
      exact congrArg Prod.fst hfactors
    have := hoptimal.1.le_m
    omega
  · rw [hfactors, ← hdiff]
    exact hlt

/-- Frequencies that are too high for every choice of factors. -/
theorem offBy_of_high {m d dd : Nat} (hhigh : 1575 ≤ targetFreq)
    (hadm : Admissible clkFreq m d dd) : 1000 < offBy clkFreq targetFreq (m, d, dd) := by
  have hd : (2 : ℚ) ≤ d := by exact_mod_cast hadm.le_d
  have hfreq : clkFreq * m / d / dd < 575 := by
    rw [div_right_comm, div_lt_iff₀ (by linarith)]
    have := hadm.below
    linarith
  have hneg : clkFreq * m / d / dd - targetFreq ≤ 0 := by linarith
  rw [offBy, abs_of_nonpos hneg]
  linarith

end

/-- **The factors found are the best ones if and only if some come nearer than 1000 MHz to the
target.** -/
theorem clkFactors_optimal_iff (clkFreq targetFreq : ℚ) :
    (∃ p, clkFactors clkFreq targetFreq = some p ∧ Optimal clkFreq targetFreq p) ↔
      ∃ m d dd, Admissible clkFreq m d dd ∧ |clkFreq * m / d / dd - targetFreq| < 1000 := by
  constructor
  · rintro ⟨p, hp, hoptimal⟩
    exact ⟨p.m, p.d, p.dd, hoptimal.1, hoptimal.near hp⟩
  · rintro ⟨m, d, dd, hadm, hnear⟩
    exact exists_optimal hadm hnear

/-- 5 GHz from 200 MHz -/
theorem clkFactors_not_optimal : ¬∀ clkFreq targetFreq : ℚ, 0 < clkFreq → 0 < targetFreq →
    (∃ m d dd, Admissible clkFreq m d dd) →
    ∃ p, clkFactors clkFreq targetFreq = some p ∧ Optimal clkFreq targetFreq p := by
  intro hall
  have hadm : Admissible 200 8 2 2 := by
    constructor <;> norm_num
  obtain ⟨p, hp, hoptimal⟩ := hall 200 5000 (by norm_num) (by norm_num) ⟨8, 2, 2, hadm⟩
  have hhigh : (1575 : ℚ) ≤ 5000 := by norm_num
  have hfar := offBy_of_high hhigh hoptimal.1
  exact lt_asymm hfar (hoptimal.near hp)

end MlibDevel.Toolflow
