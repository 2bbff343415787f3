import Mathlib.Algebra.Order.Ring.Rat
import Mathlib.Data.List.Sort
import MlibDevel.Qdr.CalArea

/-!
# Choosing the input delays (`find_in_delays` of `qdr.py`)

At each of the 32 taps all patterns are written and read back.  A bit passes at a tap if it has come
back right in each word, and the tap chosen for it is the middle of its best calibration window.
-/

namespace MlibDevel.Qdr

/-! ## The function -/

/-- `CAL_DATA` -/
def calData : List (List (BitVec 32)) :=
  [(List.replicate 16 [0xAAAAAAAA, 0x55555555]).flatten,
    [0, 0, 0xFFFFFFFF, 0, 0, 0, 0, 0],
    (List.range 256).map fun k => BitVec.ofNat 32 k <<< 0,
    (List.range 256).map fun k => BitVec.ofNat 32 k <<< 8,
    (List.range 256).map fun k => BitVec.ofNat 32 k <<< 16,
    (List.range 256).map fun k => BitVec.ofNat 32 k <<< 24]

/-- `patfail` of a step, in which the words `retdat` of each pattern have been read back. -/
def patfail (retdat : Nat → Nat → BitVec 32) : BitVec 32 :=
  calData.zipIdx.foldl (fun acc pattern =>
    pattern.1.zipIdx.foldl (fun acc word => acc ||| (word.1 ^^^ retdat pattern.2 word.2)) acc) 0

/-- `bit_cal[bit]` of the words `fail`: 1 for a tap at which the bit has passed, -1 for another. -/
def bitCal (fail : Nat → BitVec 32) (bit : Nat) : List Int :=
  (List.range 32).map fun step => 1 - 2 * (((fail step &&& (1#32 <<< bit)) >>> bit).toNat : Int)

/-- `find_cal_area(bit_cal[bit])`, of a list that is not empty -/
def bitArea (fail : Nat → BitVec 32) (bit : Nat) : Int × Nat × Nat :=
  (findCalArea (bitCal fail bit)).getD (0, 0, 0)

/-- The tap chosen for a bit, `cal_steps[bit]`. -/
def bitTap (fail : Nat → BitVec 32) (bit : Nat) : Nat :=
  ((bitArea fail bit).2.1 + (bitArea fail bit).2.2) / 2

/-- `numpy.median`: the middle of the sorted values, or halfway between the two in the middle. -/
def median (l : List Rat) : Rat :=
  let sorted := l.insertionSort (· ≤ ·)
  if l.length % 2 = 1 then sorted.getD (l.length / 2) 0
  else (sorted.getD (l.length / 2 - 1) 0 + sorted.getD (l.length / 2) 0) / 2

/-- What is returned. -/
structure InDelays where
  calSteps : List Rat
  calArea : List Int
  calStart : List Nat
  calStop : List Nat
  deriving DecidableEq

/-- The result for the words `fail`. -/
def delaysOf (fail : Nat → BitVec 32) : InDelays :=
  let measured : List Rat := (List.range 32).map fun bit => (bitTap fail bit : Rat)
  -- the four bits that are not measured are still zero when the median is taken
  let medianTaps := median (measured ++ List.replicate 4 0)
  { calSteps := measured ++ List.replicate 4 medianTaps
    calArea := (List.range 32).map fun bit => (bitArea fail bit).1
    calStart := (List.range 32).map fun bit => (bitArea fail bit).2.1
    calStop := (List.range 32).map fun bit => (bitArea fail bit).2.2 }

/-- `find_in_delays`, for what is read back in each step. -/
def findInDelays (retdat : Nat → Nat → Nat → BitVec 32) : InDelays :=
  delaysOf fun step => patfail (retdat step)

/-! ## What a bit has passed -/

/-- A bit that only ever is set. -/
theorem foldl_getLsbD {β : Type} {step : BitVec 32 → β → BitVec 32} {sets : β → Prop} {bit : Nat}
    (hstep : ∀ acc x, (step acc x).getLsbD bit = true ↔ acc.getLsbD bit = true ∨ sets x) :
    ∀ (l : List β) (acc : BitVec 32),
      (l.foldl step acc).getLsbD bit = true ↔ acc.getLsbD bit = true ∨ ∃ x ∈ l, sets x
  | [], acc => by simp
  | x :: l, acc => by
    rw [List.foldl_cons, foldl_getLsbD hstep l, hstep, or_assoc, List.exists_mem_cons_iff]

/-- A bit fails if it comes back wrong in some word. -/
theorem patfail_getLsbD (retdat : Nat → Nat → BitVec 32) (bit : Nat) :
    (patfail retdat).getLsbD bit = true ↔ ∃ pattern ∈ calData.zipIdx, ∃ word ∈ pattern.1.zipIdx,
      (word.1 ^^^ retdat pattern.2 word.2).getLsbD bit = true := by
  have hword : ∀ (p : Nat) (acc : BitVec 32) (word : BitVec 32 × Nat),
      (acc ||| (word.1 ^^^ retdat p word.2)).getLsbD bit = true
        ↔ acc.getLsbD bit = true ∨ (word.1 ^^^ retdat p word.2).getLsbD bit = true := by
    intro p acc word
    rw [BitVec.getLsbD_or, Bool.or_eq_true]
  have hpattern := fun (acc : BitVec 32) (pattern : List (BitVec 32) × Nat) =>
    foldl_getLsbD (hword pattern.2) pattern.1.zipIdx acc
  have hnone : (0 : BitVec 32).getLsbD bit = false := BitVec.getLsbD_zero
  rw [patfail, foldl_getLsbD hpattern, hnone]
  exact or_iff_right Bool.false_ne_true

/-- What is read back when the bits of `e` come back wrong in all words. -/
def flippedBack (e : BitVec 32) (p n : Nat) : BitVec 32 := (calData.getD p []).getD n 0 ^^^ e

theorem patfail_flippedBack (e : BitVec 32) : patfail (flippedBack e) = e := by
  have hback : ∀ pattern ∈ calData.zipIdx, ∀ word ∈ pattern.1.zipIdx,
      word.1 ^^^ flippedBack e pattern.2 word.2 = e := by
    intro pattern hpattern word hword
    rw [flippedBack, List.getD_eq_getElem?_getD, List.getD_eq_getElem?_getD,
      List.mem_zipIdx_iff_getElem?.mp hpattern, Option.getD_some,
      List.mem_zipIdx_iff_getElem?.mp hword, Option.getD_some, ← BitVec.xor_assoc, BitVec.xor_self,
      BitVec.zero_xor]
  apply BitVec.eq_of_getLsbD_eq
  intro bit _
  rw [Bool.eq_iff_iff, patfail_getLsbD]
  constructor
  · rintro ⟨pattern, hpattern, word, hword, hbit⟩
    rwa [hback pattern hpattern word hword] at hbit
  · intro hbit
    have hpattern : ([0, 0, 0xFFFFFFFF, 0, 0, 0, 0, 0], 1) ∈ calData.zipIdx :=
      List.mem_zipIdx_iff_getElem?.mpr rfl
    have hword : ((0 : BitVec 32), 0) ∈ [(0 : BitVec 32), 0, 0xFFFFFFFF, 0, 0, 0, 0, 0].zipIdx :=
      List.mem_zipIdx_iff_getElem?.mpr rfl
    refine ⟨_, hpattern, _, hword, ?_⟩
    rwa [hback _ hpattern _ hword]

/-! ## The tap of a bit -/

/-- The tap chosen for a bit is the middle of a best window of `l`, as are the other results for
it. -/
def MiddleOfBest (d : InDelays) (l : List Int) (bit : Nat) : Prop :=
  ∃ sum b e, BestWindow l sum b e ∧ d.calArea[bit]? = some sum ∧ d.calStart[bit]? = some b ∧
    d.calStop[bit]? = some e ∧ d.calSteps[bit]? = some (((b + e) / 2 : Nat) : Rat)

section Bit

variable (fail : Nat → BitVec 32) {bit : Nat}

theorem bitCal_cons (bit : Nat) : ∃ a rest, bitCal fail bit = a :: rest := ⟨_, _, rfl⟩

theorem findCalArea_bitCal (bit : Nat) :
    findCalArea (bitCal fail bit) = some (bitArea fail bit) := rfl

theorem calArea_getElem (hbit : bit < 32) :
    (delaysOf fail).calArea[bit]? = some (bitArea fail bit).1 := by
  rw [delaysOf, List.getElem?_map, List.getElem?_range hbit, Option.map_some]

theorem calStart_getElem (hbit : bit < 32) :
    (delaysOf fail).calStart[bit]? = some (bitArea fail bit).2.1 := by
  rw [delaysOf, List.getElem?_map, List.getElem?_range hbit, Option.map_some]

theorem calStop_getElem (hbit : bit < 32) :
    (delaysOf fail).calStop[bit]? = some (bitArea fail bit).2.2 := by
  rw [delaysOf, List.getElem?_map, List.getElem?_range hbit, Option.map_some]

theorem calSteps_getElem (hbit : bit < 32) :
    (delaysOf fail).calSteps[bit]? = some (bitTap fail bit : Rat) := by
  have hlen : bit < ((List.range 32).map fun bit => (bitTap fail bit : Rat)).length := by
    rw [List.length_map, List.length_range]
    exact hbit
  rw [delaysOf, List.getElem?_append_left hlen, List.getElem?_map, List.getElem?_range hbit,
    Option.map_some]

theorem middleOfBest_iff (hbit : bit < 32) :
    MiddleOfBest (delaysOf fail) (bitCal fail bit) bit ↔ CountedOnce (bitCal fail bit) := by
  obtain ⟨a, rest, hcons⟩ := bitCal_cons fail bit
  have hiff := bestWindow_found_iff a rest
  rw [← hcons, findCalArea_bitCal] at hiff
  rw [← hiff]
  constructor
  · rintro ⟨sum, b, e, hbest, harea, hstart, hstop, -⟩
    rw [calArea_getElem fail hbit] at harea
    rw [calStart_getElem fail hbit] at hstart
    rw [calStop_getElem fail hbit] at hstop
    refine ⟨sum, b, e, ?_, hbest⟩
    rw [← Option.some.inj harea, ← Option.some.inj hstart, ← Option.some.inj hstop]
  · rintro ⟨sum, b, e, hfound, hbest⟩
    have harea := Option.some.inj hfound
    refine ⟨sum, b, e, hbest, ?_, ?_, ?_, ?_⟩
    · rw [calArea_getElem fail hbit, harea]
    · rw [calStart_getElem fail hbit, harea]
    · rw [calStop_getElem fail hbit, harea]
    · rw [calSteps_getElem fail hbit, bitTap, harea]

end Bit

/-- **`find_cal_area` finds a best window**, and so the tap chosen for a bit is the middle of one,
if and only if counting the first element twice makes no difference. -/
theorem finds_best_window_iff (a : Int) (rest : List Int) (retdat : Nat → Nat → Nat → BitVec 32)
    (bit : Fin 32) :
    ((∃ sum b e, findCalArea (a :: rest) = some (sum, b, e) ∧ BestWindow (a :: rest) sum b e)
      ↔ CountedOnce (a :: rest)) ∧
    (MiddleOfBest (findInDelays retdat) (bitCal (fun step => patfail (retdat step)) bit) bit
      ↔ CountedOnce (bitCal (fun step => patfail (retdat step)) bit)) :=
  ⟨bestWindow_found_iff a rest, middleOfBest_iff _ bit.isLt⟩

/-- Bit 0 passes at the taps 0, 3, 4 and 5. -/
def lateEye (step : Nat) : BitVec 32 := if step = 0 ∨ step = 3 ∨ step = 4 ∨ step = 5 then 0 else 1

/-- The first element is worth the two that follow it, so the eye is taken to begin with it, and the
tap chosen is not in the eye. -/
theorem lateEye_missed : findCalArea [1, -1, -1, 1, 1, 1] = some (3, 0, 5) ∧
    ¬BestWindow [1, -1, -1, 1, 1, 1] 3 0 5 ∧
    (findInDelays fun step => flippedBack (lateEye step)).calSteps[0]? = some 2 ∧
    ∀ sum b e, BestWindow (bitCal lateEye 0) sum b e → (b + e) / 2 ≠ 2 := by
  refine ⟨by decide, ?_, ?_, ?_⟩
  · intro h
    exact absurd h.sum_eq (by decide)
  · have hfail : (fun step => patfail (flippedBack (lateEye step))) = lateEye :=
      funext fun step => patfail_flippedBack (lateEye step)
    rw [findInDelays, hfail, calSteps_getElem lateEye (by omega)]
    decide +kernel
  · intro sum b e h hmiddle
    have heye := h.best 3 5 (by omega) (by decide)
    have hless : ∀ b < 6, ∀ e < 6, (b + e) / 2 = 2 → b ≤ e →
        windowSum (bitCal lateEye 0) b e < windowSum (bitCal lateEye 0) 3 5 := by decide +kernel
    have hle := h.le
    have hno := hless b (by omega) e (by omega) hmiddle hle
    rw [← h.sum_eq] at hno
    omega

end MlibDevel.Qdr
