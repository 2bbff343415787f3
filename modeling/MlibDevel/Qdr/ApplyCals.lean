import Mathlib.Data.List.Induction
import Mathlib.Data.Rat.Floor
import Mathlib.Data.Nat.Bitwise
import MlibDevel.Qdr.InDelays

/-!
# Programming the delays (`apply_cals` of `qdr.py`)

The delays are moved by strobes: a write of zero, and a write with the bits of those that are to
move by one tap.  The bits 32 to 35 have their strobes in another register, which they share with
the output delays and the clock.
-/

namespace MlibDevel.Qdr

/-! ## The writes -/

/-- `parent.write_int(control_mem, value, offset=offset)` -/
structure CtrlWrite where
  offset : Nat
  value : Nat
  deriving DecidableEq, Repr

/-- `qdr_reset` -/
def qdrReset : List CtrlWrite := [⟨0, 1⟩, ⟨0, 0⟩, ⟨9, 0⟩, ⟨2, 0⟩]

/-- `add_extra_latency` -/
def addExtraLatency (extraLat : Bool) : List CtrlWrite := [⟨9, extraLat.toNat⟩]

/-- The direction and the strobes for some steps, common to the three functions. -/
def delayStep (strobe : List CtrlWrite) (step : Int) : List CtrlWrite :=
  if step > 0 then ⟨7, 0xffffffff⟩ :: (List.range step.natAbs).flatMap fun _ => strobe
  else if step < 0 then ⟨7, 0⟩ :: (List.range step.natAbs).flatMap fun _ => strobe
  else []

/-- `qdr_delay_out_step` -/
def qdrDelayOutStep (bitmask : Nat) (step : Int) : List CtrlWrite :=
  delayStep [⟨6, 0⟩, ⟨5, 0⟩, ⟨6, 0xffffffff &&& bitmask⟩,
    ⟨5, (0xf &&& (bitmask >>> 32)) <<< 4⟩] step

/-- `qdr_delay_clk_step` -/
def qdrDelayClkStep (step : Int) : List CtrlWrite := delayStep [⟨5, 0⟩, ⟨5, 1 <<< 8⟩] step

/-- `qdr_delay_in_step` -/
def qdrDelayInStep (bitmask : Nat) (step : Int) : List CtrlWrite :=
  delayStep [⟨4, 0⟩, ⟨5, 0⟩, ⟨4, 0xffffffff &&& bitmask⟩, ⟨5, 0xf &&& (bitmask >>> 32)⟩] step

/-- `mask`: the bits whose delays are larger than `step`. -/
def stepMask (delays : List Rat) (step : Nat) : Nat :=
  delays.zipIdx.foldl
    (fun mask delay => mask + if (step : Rat) < delay.1 then 1 <<< delay.2 else 0) 0

/-- One of the two loops of `apply_cals`, to `int(max(delays))`. -/
def stepAll (delayBits : Nat → Int → List CtrlWrite) (delays : List Rat) : List CtrlWrite :=
  (List.range ⌊delays.max?.getD 0⌋₊).flatMap fun step => delayBits (stepMask delays step) 1

/-- `apply_cals`.  Lists of another length are an `AssertionError`, which comes behind the reset. -/
def applyCals (inDelays outDelays : List Rat) (clkDelay : Int) (extraClk : Bool) :
    Except (List CtrlWrite) (List CtrlWrite) :=
  if inDelays.length = 36 ∧ outDelays.length = 36 then
    .ok (qdrReset ++ addExtraLatency extraClk ++ qdrDelayClkStep clkDelay ++
      stepAll qdrDelayInStep inDelays ++ stepAll qdrDelayOutStep outDelays)
  else .error (qdrReset ++ addExtraLatency extraClk)

/-! ## The controller -/

/-- What can be delayed. -/
inductive DelayLine
  | input (bit : Fin 36)
  | output (bit : Fin 36)
  | clock
  deriving DecidableEq

/-- The offset and the bit of its strobe. -/
def DelayLine.strobe : DelayLine → Nat × Nat
  | .input bit => if bit.val < 32 then (4, bit.val) else (5, bit.val - 32)
  | .output bit => if bit.val < 32 then (6, bit.val) else (5, bit.val - 32 + 4)
  | .clock => (5, 8)

/-- The controller of the memory, which is not part of the repository: what it does with a write,
the last value at an offset, and the taps. -/
structure Controller (σ : Type) where
  write : σ → CtrlWrite → σ
  reg : σ → Nat → Nat
  tap : σ → DelayLine → Int

namespace Controller

variable {σ : Type} (c : Controller σ)

/-- A write raises the strobe of a delay. -/
def Raises (s : σ) (w : CtrlWrite) (l : DelayLine) : Prop :=
  w.offset = l.strobe.1 ∧ w.value.testBit l.strobe.2 = true ∧
    (c.reg s l.strobe.1).testBit l.strobe.2 = false

/-- What `qdr.py` says of the controller and relies on: toggling the bit at the offset 0 sets all
taps to zero, and a delay moves by one tap when its strobe is raised, up or down as the offset 7
says. -/
structure Strobed : Prop where
  reg_write : ∀ s w o, c.reg (c.write s w) o = if o = w.offset then w.value else c.reg s o
  reset : ∀ s l, c.tap (c.write (c.write s ⟨0, 1⟩) ⟨0, 0⟩) l = 0
  up : ∀ s w l, c.Raises s w l → c.reg s 7 = 0xffffffff → c.tap (c.write s w) l = c.tap s l + 1
  down : ∀ s w l, c.Raises s w l → c.reg s 7 = 0 → c.tap (c.write s w) l = c.tap s l - 1
  keep : ∀ s w l, w.offset ≠ 0 → ¬c.Raises s w l → c.tap (c.write s w) l = c.tap s l

/-- The state after some writes. -/
def run (s : σ) (ws : List CtrlWrite) : σ := ws.foldl c.write s

theorem run_append (s : σ) (ws ws' : List CtrlWrite) :
    c.run s (ws ++ ws') = c.run (c.run s ws) ws' :=
  List.foldl_append

/-! ### One strobe -/

/-- A strobe moves a delay by `δ`. -/
def Moves (s : σ) (δ : Int) : Prop := c.reg s 7 = 0xffffffff ∧ δ = 1 ∨ c.reg s 7 = 0 ∧ δ = -1

/-- The writes raise, once, the strobes of the delays in `lines`. -/
def StrobesOnce (ws : List CtrlWrite) (lines : DelayLine → Bool) : Prop :=
  ∀ s δ, c.Moves s δ → c.Moves (c.run s ws) δ ∧
    ∀ l, c.tap (c.run s ws) l = c.tap s l + if lines l then δ else 0

variable {c} (h : c.Strobed) {s : σ} {δ : Int}

include h

theorem Strobed.reg_self (o v : Nat) : c.reg (c.write s ⟨o, v⟩) o = v := by
  rw [h.reg_write, if_pos rfl]

theorem Strobed.reg_of_ne {o o' : Nat} (hne : o' ≠ o) (v : Nat) :
    c.reg (c.write s ⟨o, v⟩) o' = c.reg s o' := by
  rw [h.reg_write, if_neg hne]

theorem Strobed.moves_write {o : Nat} (hδ : c.Moves s δ) (ho : 7 ≠ o) (v : Nat) :
    c.Moves (c.write s ⟨o, v⟩) δ := by
  rw [Moves, h.reg_of_ne ho]
  exact hδ

/-- Zero raises no strobe. -/
theorem Strobed.tap_write_zero {o : Nat} (ho : o ≠ 0) (l : DelayLine) :
    c.tap (c.write s ⟨o, 0⟩) l = c.tap s l := by
  apply h.keep s ⟨o, 0⟩ l ho
  rintro ⟨-, hbit, -⟩
  rw [Nat.zero_testBit] at hbit
  cases hbit

/-- Behind a zero, each bit raises its strobe. -/
theorem Strobed.tap_write {o : Nat} (hδ : c.Moves s δ) (ho : o ≠ 0) (hzero : c.reg s o = 0)
    (v : Nat) (l : DelayLine) : c.tap (c.write s ⟨o, v⟩) l
      = c.tap s l + if l.strobe.1 = o ∧ v.testBit l.strobe.2 = true then δ else 0 := by
  by_cases hraised : l.strobe.1 = o ∧ v.testBit l.strobe.2 = true
  · obtain ⟨rfl, hbit⟩ := hraised
    have hraises : c.Raises s ⟨l.strobe.1, v⟩ l := by
      refine ⟨rfl, hbit, ?_⟩
      rw [hzero, Nat.zero_testBit]
    rw [if_pos ⟨rfl, hbit⟩]
    rcases hδ with ⟨hup, rfl⟩ | ⟨hdown, rfl⟩
    · exact h.up s _ l hraises hup
    · exact h.down s _ l hraises hdown
  · rw [if_neg hraised, add_zero]
    apply h.keep s ⟨o, v⟩ l ho
    rintro ⟨ho, hbit, -⟩
    exact hraised ⟨ho.symm, hbit⟩

/-- The strobes in one register. -/
theorem Strobed.strobesOnce_one {o : Nat} (ho : o ≠ 0) (hdir : 7 ≠ o) (v : Nat) :
    c.StrobesOnce [⟨o, 0⟩, ⟨o, v⟩] fun l => l.strobe.1 = o ∧ v.testBit l.strobe.2 = true := by
  intro s δ hδ
  have hcleared := h.moves_write hδ hdir 0
  refine ⟨h.moves_write hcleared hdir v, ?_⟩
  intro l
  show c.tap (c.write (c.write s ⟨o, 0⟩) ⟨o, v⟩) l = _
  rw [h.tap_write hcleared ho (h.reg_self o 0), h.tap_write_zero ho]
  simp only [decide_eq_true_eq]

/-- The strobes in two registers. -/
theorem Strobed.strobesOnce_two {o o' : Nat} (ho : o ≠ 0) (ho' : o' ≠ 0) (hdir : 7 ≠ o)
    (hdir' : 7 ≠ o') (hne : o ≠ o') (v v' : Nat) :
    c.StrobesOnce [⟨o, 0⟩, ⟨o', 0⟩, ⟨o, v⟩, ⟨o', v'⟩] fun l =>
      l.strobe.1 = o ∧ v.testBit l.strobe.2 = true ∨ l.strobe.1 = o' ∧
        v'.testBit l.strobe.2 = true := by
  intro s δ hδ
  have h1 := h.moves_write hδ hdir 0
  have h2 := h.moves_write h1 hdir' 0
  have h3 := h.moves_write h2 hdir v
  refine ⟨h.moves_write h3 hdir' v', ?_⟩
  intro l
  have hzero : c.reg (c.write (c.write s ⟨o, 0⟩) ⟨o', 0⟩) o = 0 := by
    rw [h.reg_of_ne hne, h.reg_self]
  have hzero' : c.reg (c.write (c.write (c.write s ⟨o, 0⟩) ⟨o', 0⟩) ⟨o, v⟩) o' = 0 := by
    rw [h.reg_of_ne (Ne.symm hne), h.reg_self]
  show c.tap (c.write (c.write (c.write (c.write s ⟨o, 0⟩) ⟨o', 0⟩) ⟨o, v⟩) ⟨o', v'⟩) l = _
  rw [h.tap_write h3 ho' hzero', h.tap_write h2 ho hzero, h.tap_write_zero ho', h.tap_write_zero ho]
  by_cases hfirst : l.strobe.1 = o ∧ v.testBit l.strobe.2 = true
  · have hother : ¬(l.strobe.1 = o' ∧ v'.testBit l.strobe.2 = true) :=
      fun hsecond => hne (hfirst.1.symm.trans hsecond.1)
    rw [if_pos hfirst, if_neg hother, add_zero]
    exact congrArg (c.tap s l + ·) (if_pos (decide_eq_true (Or.inl hfirst))).symm
  · simp only [hfirst, if_false, false_or, add_zero, decide_eq_true_eq]

/-! ### Several steps -/

omit h in
theorem StrobesOnce.congr {ws : List CtrlWrite} {lines lines' : DelayLine → Bool}
    (hws : c.StrobesOnce ws lines) (heq : ∀ l, lines l = lines' l) : c.StrobesOnce ws lines' := by
  obtain rfl : lines = lines' := funext heq
  exact hws

omit h in
theorem StrobesOnce.repeated {ws : List CtrlWrite} {lines : DelayLine → Bool}
    (hws : c.StrobesOnce ws lines) (hδ : c.Moves s δ) (n : Nat) :
    c.Moves (c.run s ((List.range n).flatMap fun _ => ws)) δ ∧
      ∀ l, c.tap (c.run s ((List.range n).flatMap fun _ => ws)) l
        = c.tap s l + if lines l then n * δ else 0 := by
  induction n with
  | zero =>
    refine ⟨hδ, ?_⟩
    intro l
    show c.tap s l = _
    split <;> simp
  | succ n ih =>
    obtain ⟨hδ', htap⟩ := ih
    obtain ⟨hδ'', htap'⟩ := hws _ δ hδ'
    rw [List.range_succ, List.flatMap_append, run_append, List.flatMap_singleton]
    refine ⟨hδ'', ?_⟩
    intro l
    rw [htap', htap]
    split
    · rw [Nat.cast_succ, add_one_mul, add_assoc]
    · rw [add_zero]

/-- Some steps move the delays by as many taps. -/
theorem Strobed.tap_delayStep {ws : List CtrlWrite} {lines : DelayLine → Bool}
    (hws : c.StrobesOnce ws lines) (s : σ) (step : Int) (l : DelayLine) :
    c.tap (c.run s (delayStep ws step)) l = c.tap s l + if lines l then step else 0 := by
  have hdir : ∀ (v : Nat) (l : DelayLine), c.tap (c.write s ⟨7, v⟩) l = c.tap s l := by
    intro v l
    apply h.keep s ⟨7, v⟩ l (show 7 ≠ 0 by decide)
    rintro ⟨ho, -⟩
    cases l with
    | clock => cases ho
    | input bit =>
      rw [DelayLine.strobe] at ho
      split at ho <;> cases ho
    | output bit =>
      rw [DelayLine.strobe] at ho
      split at ho <;> cases ho
  unfold delayStep
  split
  · next hup =>
    have hδ : c.Moves (c.write s ⟨7, 0xffffffff⟩) 1 := Or.inl ⟨h.reg_self 7 _, rfl⟩
    have htap := (hws.repeated hδ step.natAbs).2 l
    rw [hdir, mul_one, Int.natAbs_of_nonneg (Int.le_of_lt hup)] at htap
    exact htap
  · split
    · next hdown =>
      have hδ : c.Moves (c.write s ⟨7, 0⟩) (-1) := Or.inr ⟨h.reg_self 7 _, rfl⟩
      have htap := (hws.repeated hδ step.natAbs).2 l
      rw [hdir, show (step.natAbs : Int) * -1 = step by omega] at htap
      exact htap
    · next hup hdown =>
      obtain rfl : step = 0 := by omega
      show c.tap s l = _
      rw [ite_self, add_zero]

end Controller

/-! ### The three functions -/

/-- The input delays of the bits in a mask. -/
def DelayLine.inputOf (bitmask : Nat) : DelayLine → Bool
  | .input bit => bitmask.testBit bit
  | _ => false

/-- The output delays of the bits in a mask. -/
def DelayLine.outputOf (bitmask : Nat) : DelayLine → Bool
  | .output bit => bitmask.testBit bit
  | _ => false

/-- The delay of the clock. -/
def DelayLine.isClock : DelayLine → Bool
  | .clock => true
  | _ => false

theorem testBit_low (bitmask k : Nat) :
    (0xffffffff &&& bitmask).testBit k = (decide (k < 32) && bitmask.testBit k) := by
  rw [Nat.testBit_and, show 0xffffffff = 2 ^ 32 - 1 from rfl, Nat.testBit_two_pow_sub_one]

theorem testBit_high (bitmask k : Nat) :
    (0xf &&& (bitmask >>> 32)).testBit k = (decide (k < 4) && bitmask.testBit (32 + k)) := by
  rw [Nat.testBit_and, show 0xf = 2 ^ 4 - 1 from rfl, Nat.testBit_two_pow_sub_one,
    Nat.testBit_shiftRight]

theorem strobe_input_low {bit : Fin 36} (hbit : bit.val < 32) :
    (DelayLine.input bit).strobe = (4, bit.val) := if_pos hbit

theorem strobe_input_high {bit : Fin 36} (hbit : 32 ≤ bit.val) :
    (DelayLine.input bit).strobe = (5, bit.val - 32) := if_neg (Nat.not_lt.mpr hbit)

theorem strobe_output_low {bit : Fin 36} (hbit : bit.val < 32) :
    (DelayLine.output bit).strobe = (6, bit.val) := if_pos hbit

theorem strobe_output_high {bit : Fin 36} (hbit : 32 ≤ bit.val) :
    (DelayLine.output bit).strobe = (5, bit.val - 32 + 4) := if_neg (Nat.not_lt.mpr hbit)

/-- The strobes of `qdr_delay_in_step`. -/
theorem inputOf_iff (bitmask : Nat) (l : DelayLine) :
    (l.strobe.1 = 4 ∧ (0xffffffff &&& bitmask).testBit l.strobe.2 = true ∨
      l.strobe.1 = 5 ∧ (0xf &&& (bitmask >>> 32)).testBit l.strobe.2 = true)
      ↔ l.inputOf bitmask = true := by
  rw [testBit_low, testBit_high, Bool.and_eq_true, Bool.and_eq_true, decide_eq_true_eq,
    decide_eq_true_eq]
  cases l with
  | input bit =>
    have hlt := bit.isLt
    show _ ↔ bitmask.testBit bit.val = true
    rcases Nat.lt_or_ge bit.val 32 with hlow | hhigh
    · rw [strobe_input_low hlow]
      simp [hlow]
    · rw [strobe_input_high hhigh, Nat.add_sub_cancel' hhigh]
      simp only [show bit.val - 32 < 4 by omega, true_and, or_iff_right_iff_imp]
      rintro ⟨h, -⟩
      cases h
  | output bit =>
    show _ ↔ false = true
    rcases Nat.lt_or_ge bit.val 32 with hlow | hhigh
    · rw [strobe_output_low hlow]
      simp
    · rw [strobe_output_high hhigh]
      simp
  | clock =>
    show _ ↔ false = true
    simp [DelayLine.strobe]

/-- The strobes of `qdr_delay_out_step`. -/
theorem outputOf_iff (bitmask : Nat) (l : DelayLine) :
    (l.strobe.1 = 6 ∧ (0xffffffff &&& bitmask).testBit l.strobe.2 = true ∨
      l.strobe.1 = 5 ∧ ((0xf &&& (bitmask >>> 32)) <<< 4).testBit l.strobe.2 = true)
      ↔ l.outputOf bitmask = true := by
  rw [Nat.testBit_shiftLeft, testBit_low, testBit_high, Bool.and_eq_true, Bool.and_eq_true,
    Bool.and_eq_true, decide_eq_true_eq, decide_eq_true_eq, decide_eq_true_eq]
  cases l with
  | input bit =>
    have hlt := bit.isLt
    show _ ↔ false = true
    rcases Nat.lt_or_ge bit.val 32 with hlow | hhigh
    · rw [strobe_input_low hlow]
      simp
    · rw [strobe_input_high hhigh]
      simp only [show ¬bit.val - 32 ≥ 4 by omega, false_and, and_false, or_false,
        Bool.false_eq_true, iff_false]
      rintro ⟨h, -⟩
      cases h
  | output bit =>
    have hlt := bit.isLt
    show _ ↔ bitmask.testBit bit.val = true
    rcases Nat.lt_or_ge bit.val 32 with hlow | hhigh
    · rw [strobe_output_low hlow]
      simp [hlow]
    · rw [strobe_output_high hhigh, Nat.add_sub_cancel, Nat.add_sub_cancel' hhigh]
      simp only [show bit.val - 32 < 4 by omega, show bit.val - 32 + 4 ≥ 4 by omega, true_and,
        or_iff_right_iff_imp]
      rintro ⟨h, -⟩
      cases h
  | clock =>
    show _ ↔ false = true
    simp [DelayLine.strobe]

/-- The strobe of `qdr_delay_clk_step`. -/
theorem isClock_iff (l : DelayLine) :
    (l.strobe.1 = 5 ∧ (1 <<< 8).testBit l.strobe.2 = true) ↔ l.isClock = true := by
  rw [Nat.one_shiftLeft, Nat.testBit_two_pow, decide_eq_true_eq]
  cases l with
  | input bit =>
    have hlt := bit.isLt
    show _ ↔ false = true
    rcases Nat.lt_or_ge bit.val 32 with hlow | hhigh
    · rw [strobe_input_low hlow]
      simp
    · rw [strobe_input_high hhigh]
      simp only [show ¬8 = bit.val - 32 by omega, and_false, Bool.false_eq_true]
  | output bit =>
    have hlt := bit.isLt
    show _ ↔ false = true
    rcases Nat.lt_or_ge bit.val 32 with hlow | hhigh
    · rw [strobe_output_low hlow]
      simp
    · rw [strobe_output_high hhigh]
      simp only [show ¬8 = bit.val - 32 + 4 by omega, and_false, Bool.false_eq_true]
  | clock => exact iff_of_true ⟨rfl, rfl⟩ rfl

namespace Controller

variable {σ : Type} {c : Controller σ} (h : c.Strobed)

include h

/-- `qdr_delay_in_step` moves the input delays of the mask by as many taps as it is told to. -/
theorem Strobed.tap_qdrDelayInStep (s : σ) (bitmask : Nat) (step : Int) (l : DelayLine) :
    c.tap (c.run s (qdrDelayInStep bitmask step)) l
      = c.tap s l + if l.inputOf bitmask then step else 0 := by
  apply h.tap_delayStep
  apply (h.strobesOnce_two (by decide) (by decide) (by decide) (by decide) (by decide) _ _).congr
  intro l
  rw [Bool.eq_iff_iff, decide_eq_true_eq, inputOf_iff]

/-- `qdr_delay_out_step` moves the output delays of the mask. -/
theorem Strobed.tap_qdrDelayOutStep (s : σ) (bitmask : Nat) (step : Int) (l : DelayLine) :
    c.tap (c.run s (qdrDelayOutStep bitmask step)) l
      = c.tap s l + if l.outputOf bitmask then step else 0 := by
  apply h.tap_delayStep
  apply (h.strobesOnce_two (by decide) (by decide) (by decide) (by decide) (by decide) _ _).congr
  intro l
  rw [Bool.eq_iff_iff, decide_eq_true_eq, outputOf_iff]

/-- `qdr_delay_clk_step` moves the delay of the clock. -/
theorem Strobed.tap_qdrDelayClkStep (s : σ) (step : Int) (l : DelayLine) :
    c.tap (c.run s (qdrDelayClkStep step)) l = c.tap s l + if l.isClock then step else 0 := by
  apply h.tap_delayStep
  apply (h.strobesOnce_one (by decide) (by decide) _).congr
  intro l
  rw [Bool.eq_iff_iff, decide_eq_true_eq, isClock_iff]

/-- `qdr_reset` sets all taps to zero. -/
theorem Strobed.tap_qdrReset (s : σ) (extraLat : Bool) (l : DelayLine) :
    c.tap (c.run s (qdrReset ++ addExtraLatency extraLat)) l = 0 := by
  have hkeep : ∀ (s : σ) (o v : Nat), o = 9 ∨ o = 2 → c.tap (c.write s ⟨o, v⟩) l = c.tap s l := by
    intro s o v ho
    apply h.keep s ⟨o, v⟩ l (by show o ≠ 0; omega)
    rintro ⟨hstrobe, -⟩
    have hoffset : o = l.strobe.1 := hstrobe
    cases l with
    | input bit =>
      rw [DelayLine.strobe] at hoffset
      split at hoffset <;> omega
    | output bit =>
      rw [DelayLine.strobe] at hoffset
      split at hoffset <;> omega
    | clock =>
      rw [DelayLine.strobe] at hoffset
      omega
  show c.tap (c.write (c.write (c.write (c.write (c.write s ⟨0, 1⟩) ⟨0, 0⟩) ⟨9, 0⟩) ⟨2, 0⟩)
    ⟨9, extraLat.toNat⟩) l = 0
  rw [hkeep _ 9 _ (Or.inl rfl), hkeep _ 2 _ (Or.inr rfl), hkeep _ 9 _ (Or.inl rfl), h.reset]

end Controller

/-! ## The loops -/

theorem stepMask_concat (delays : List Rat) (d : Rat) (step : Nat) : stepMask (delays ++ [d]) step
    = stepMask delays step + if (step : Rat) < d then 1 <<< delays.length else 0 := by
  rw [stepMask, List.zipIdx_append, List.foldl_append, ← stepMask, Nat.zero_add]
  rfl

theorem stepMask_lt (delays : List Rat) (step : Nat) :
    stepMask delays step < 2 ^ delays.length := by
  induction delays using List.reverseRecOn with
  | nil => exact Nat.one_pos
  | append_singleton delays d ih =>
    rw [stepMask_concat, List.length_append, List.length_singleton, Nat.pow_succ]
    split
    · rw [Nat.one_shiftLeft]
      omega
    · omega

/-- The bits of the mask. -/
theorem testBit_stepMask (step : Nat) : ∀ (delays : List Rat) {bit : Nat} {d : Rat},
    delays[bit]? = some d → (stepMask delays step).testBit bit = decide ((step : Rat) < d) := by
  intro delays
  induction delays using List.reverseRecOn with
  | nil =>
    intro bit d hd
    cases hd
  | append_singleton delays d' ih =>
    intro bit d hd
    have hlt := stepMask_lt delays step
    rw [stepMask_concat, Nat.one_shiftLeft]
    rcases Nat.lt_trichotomy bit delays.length with hbefore | hlast | hbehind
    · rw [List.getElem?_append_left hbefore] at hd
      rw [← ih hd]
      split
      · rw [Nat.add_comm, Nat.testBit_two_pow_add_gt hbefore]
      · rw [Nat.add_zero]
    · subst hlast
      rw [List.getElem?_concat_length] at hd
      obtain rfl := Option.some.inj hd
      have hclear : (stepMask delays step).testBit delays.length = false :=
        Nat.testBit_lt_two_pow hlt
      split
      · next hless =>
        rw [Nat.add_comm, Nat.testBit_two_pow_add_eq, hclear, decide_eq_true hless]
        rfl
      · next hge => rw [Nat.add_zero, hclear, decide_eq_false hge]
    · rw [List.getElem?_eq_none (by rw [List.length_append, List.length_singleton]; omega)] at hd
      cases hd

theorem le_maxDelay {delays : List Rat} {d : Rat} (hd : d ∈ delays) : d ≤ delays.max?.getD 0 := by
  obtain ⟨m, hm⟩ := Option.isSome_iff_exists.mp (List.isSome_max?_of_mem hd)
  rw [hm, Option.getD_some]
  exact (List.max?_le_iff hm).mp (le_refl m) d hd

theorem countP_lt (d : Rat) (n : Nat) :
    (List.range n).countP (fun k : Nat => decide ((k : Rat) < d)) = min n ⌈d⌉₊ := by
  induction n with
  | zero => exact (Nat.zero_min _).symm
  | succ n ih =>
    rw [List.range_succ, List.countP_append, ih, List.countP_singleton]
    by_cases hlt : (n : Rat) < d
    · have hceil := Nat.lt_ceil.mpr hlt
      rw [decide_eq_true hlt, if_pos rfl]
      omega
    · have hceil := mt Nat.lt_ceil.mp hlt
      rw [decide_eq_false hlt, if_neg Bool.false_ne_true]
      omega

/-- A delay is stepped as often as it is large, if the loop goes so far. -/
theorem steps_of_delay {delays : List Rat} {bit n : Nat} {d : Rat} (hd : delays[bit]? = some d)
    (hn : (n : Rat) ∈ delays) (hle : d ≤ n) :
    (List.range ⌊delays.max?.getD 0⌋₊).countP (fun step => (stepMask delays step).testBit bit)
      = ⌈d⌉₊ := by
  have hfar : ⌈d⌉₊ ≤ ⌊delays.max?.getD 0⌋₊ :=
    le_trans (Nat.ceil_le.mpr hle) (Nat.le_floor (le_maxDelay hn))
  have hbits : (fun step => (stepMask delays step).testBit bit)
      = fun step : Nat => decide ((step : Rat) < d) :=
    funext fun step => testBit_stepMask step delays hd
  rw [hbits, countP_lt, Nat.min_eq_right hfar]

namespace Controller

variable {σ : Type} {c : Controller σ}

/-- A loop of `apply_cals` moves each delay once for each mask it is in. -/
theorem tap_stepAll {delayBits : Nat → Int → List CtrlWrite} {lines : Nat → DelayLine → Bool}
    (hstep : ∀ s mask step l, c.tap (c.run s (delayBits mask step)) l = c.tap s l + if lines mask l
      then step else 0) (s : σ) (delays : List Rat) (l : DelayLine) :
    c.tap (c.run s (stepAll delayBits delays)) l = c.tap s l +
      (List.range ⌊delays.max?.getD 0⌋₊).countP fun step => lines (stepMask delays step) l := by
  unfold stepAll
  induction ⌊delays.max?.getD 0⌋₊ with
  | zero => exact (add_zero _).symm
  | succ n ih =>
    rw [List.range_succ, List.flatMap_append, run_append, List.flatMap_singleton, hstep, ih,
      List.countP_append, List.countP_singleton, add_assoc, Nat.cast_add]
    congr 2
    split <;> rfl

end Controller

/-! ## The median -/

theorem insertionSort_cast (l : List Nat) : (l.map (Nat.cast : Nat → Rat)).insertionSort (· ≤ ·)
    = (l.insertionSort (· ≤ ·)).map Nat.cast :=
  (List.map_insertionSort (fun a b : Nat => a ≤ b) (fun a b : Rat => a ≤ b) _ l
    fun _ _ _ _ => Nat.cast_le.symm).symm

/-- The zeros come first. -/
theorem insertionSort_append_zeros (l : List Nat) (n : Nat) :
    (l ++ List.replicate n 0).insertionSort (· ≤ ·)
      = List.replicate n 0 ++ l.insertionSort (· ≤ ·) := by
  apply List.Perm.eq_of_pairwise' (r := (· ≤ ·))
  · exact List.pairwise_insertionSort _ _
  · rw [List.pairwise_append]
    refine ⟨List.pairwise_replicate.mpr (Or.inr (Nat.le_refl 0)),
      List.pairwise_insertionSort _ _, ?_⟩
    intro a ha b _
    rw [List.eq_of_mem_replicate ha]
    exact Nat.zero_le b
  · have hsorted := List.perm_insertionSort (· ≤ ·) (l ++ List.replicate n 0)
    have hl := (List.perm_insertionSort (· ≤ ·) l).symm
    exact hsorted.trans (List.perm_append_comm.trans (hl.append_left _))

/-- The median of an even number of naturals. -/
theorem median_cast (l : List Nat) (hl : l.length % 2 = 0) :
    median (l.map (Nat.cast : Nat → Rat))
      = (((l.insertionSort (· ≤ ·)).getD (l.length / 2 - 1) 0
          + (l.insertionSort (· ≤ ·)).getD (l.length / 2) 0 : Nat) : Rat) / 2 := by
  have hget : ∀ (l : List Nat) (k : Nat), (l.map (Nat.cast : Nat → Rat)).getD k 0 =
      (l.getD k 0 : Nat) := by
    intro l k
    rw [List.getD_eq_getElem?_getD, List.getD_eq_getElem?_getD, List.getElem?_map]
    cases l[k]? with
    | none => exact Nat.cast_zero.symm
    | some x => rfl
  rw [median, List.length_map, insertionSort_cast, if_neg (by omega), hget, hget, Nat.cast_add]

theorem ceil_half (n : Nat) : ⌈(n : Rat) / 2⌉₊ = (n + 1) / 2 := by
  have hle : ∀ k : Nat, ⌈(n : Rat) / 2⌉₊ ≤ k ↔ n ≤ k * 2 := by
    intro k
    rw [Nat.ceil_le, div_le_iff₀ two_pos]
    exact_mod_cast Iff.rfl
  have hself := (hle ⌈(n : Rat) / 2⌉₊).mp (Nat.le_refl _)
  have hhalf := (hle ((n + 1) / 2)).mpr (by omega)
  omega

theorem getD_behind_zeros (l : List Nat) (k : Nat) :
    (List.replicate 4 0 ++ l).getD (k + 4) 0 = l.getD k 0 := rfl

/-- The taps of the 32 bits, in order. -/
def sortedTaps (fail : Nat → BitVec 32) : List Nat :=
  ((List.range 32).map (bitTap fail)).insertionSort (· ≤ ·)

/-- The four zeros do not change the median, rounded up: the two taps in the middle of those with
the zeros, 13 and 14, have the same middle as the two in the middle of those without, 15 and 16. -/
def MedianKept (fail : Nat → BitVec 32) : Prop :=
  ((sortedTaps fail).getD 13 0 + (sortedTaps fail).getD 14 0 + 1) / 2
    = ((sortedTaps fail).getD 15 0 + (sortedTaps fail).getD 16 0 + 1) / 2

instance (fail : Nat → BitVec 32) : Decidable (MedianKept fail) :=
  inferInstanceAs (Decidable (_ = _))

section Taps

variable (fail : Nat → BitVec 32)

/-- The taps of the measured bits. -/
def measured : List Rat := (List.range 32).map fun bit => (bitTap fail bit : Rat)

theorem measured_eq : measured fail = ((List.range 32).map (bitTap fail)).map Nat.cast :=
  List.map_map.symm

theorem median_measured : median (measured fail)
    = (((sortedTaps fail).getD 15 0 + (sortedTaps fail).getD 16 0 : Nat) : Rat) / 2 := by
  have hlen : ((List.range 32).map (bitTap fail)).length = 32 := by
    rw [List.length_map, List.length_range]
  rw [measured_eq, median_cast _ (by rw [hlen]), hlen, sortedTaps]

/-- The median that is taken. -/
theorem median_with_zeros : median (measured fail ++ List.replicate 4 0)
    = (((sortedTaps fail).getD 13 0 + (sortedTaps fail).getD 14 0 : Nat) : Rat) / 2 := by
  have hcast : measured fail ++ List.replicate 4 0
      = ((List.range 32).map (bitTap fail) ++ List.replicate 4 0).map Nat.cast := by
    rw [measured_eq, List.map_append, List.map_replicate, Nat.cast_zero]
  have hlen : ((List.range 32).map (bitTap fail) ++ List.replicate 4 0).length = 36 := by
    rw [List.length_append, List.length_map, List.length_range, List.length_replicate]
  rw [hcast, median_cast _ (by rw [hlen]), hlen, insertionSort_append_zeros,
    show 36 / 2 - 1 = 13 + 4 from rfl, show 36 / 2 = 14 + 4 from rfl, getD_behind_zeros,
    getD_behind_zeros, sortedTaps]

theorem calSteps_eq : (delaysOf fail).calSteps
    = measured fail ++ List.replicate 4 (median (measured fail ++ List.replicate 4 0)) := rfl

theorem length_measured : (measured fail).length = 32 := by
  rw [measured, List.length_map, List.length_range]

theorem length_calSteps : (delaysOf fail).calSteps.length = 36 := by
  rw [calSteps_eq, List.length_append, length_measured, List.length_replicate]

/-- The delay of the bits 32 to 35. -/
theorem calSteps_unmeasured {bit : Nat} (hlo : 32 ≤ bit) (hhi : bit < 36) :
    (delaysOf fail).calSteps[bit]?
      = some ((((sortedTaps fail).getD 13 0 + (sortedTaps fail).getD 14 0 : Nat) : Rat) / 2) := by
  rw [calSteps_eq, List.getElem?_append_right (by rw [length_measured]; exact hlo), length_measured,
    List.getElem?_replicate, if_pos (by omega), median_with_zeros]

theorem getD_mem {l : List Nat} {k : Nat} (hk : k < l.length) : l.getD k 0 ∈ l := by
  rw [List.getD_eq_getElem l 0 hk]
  exact List.getElem_mem hk

/-- None of the delays is larger than all the taps. -/
theorem exists_tap_ge {d : Rat} (hd : d ∈ (delaysOf fail).calSteps) :
    ∃ n : Nat, (n : Rat) ∈ (delaysOf fail).calSteps ∧ d ≤ n := by
  rw [calSteps_eq] at hd ⊢
  rcases List.mem_append.mp hd with hmeasured | hmedian
  · obtain ⟨bit, hbit, rfl⟩ := List.mem_map.mp hmeasured
    exact ⟨bitTap fail bit, hd, le_refl _⟩
  · obtain rfl := List.eq_of_mem_replicate hmedian
    have hlen : (sortedTaps fail).length = 32 := by
      rw [sortedTaps, List.length_insertionSort, List.length_map, List.length_range]
    have hsorted : (sortedTaps fail).getD 13 0 ≤ (sortedTaps fail).getD 14 0 := by
      rw [List.getD_eq_getElem _ 0 (show 13 < _ by omega),
        List.getD_eq_getElem _ 0 (show 14 < _ by omega)]
      exact List.pairwise_iff_getElem.mp (List.pairwise_insertionSort (· ≤ ·) _) 13 14
        _ _ (by decide)
    have hmem : (sortedTaps fail).getD 14 0 ∈ (List.range 32).map (bitTap fail) :=
      (List.perm_insertionSort _ _).mem_iff.mp
        (getD_mem (show 14 < (sortedTaps fail).length by omega))
    refine ⟨(sortedTaps fail).getD 14 0, List.mem_append_left _ ?_, ?_⟩
    · rw [measured_eq]
      exact List.mem_map_of_mem hmem
    · rw [median_with_zeros, div_le_iff₀ two_pos]
      exact_mod_cast (show _ ≤ (sortedTaps fail).getD 14 0 * 2 by omega)

end Taps

/-! ## What is programmed -/

section Programmed

variable {σ : Type} (c : Controller σ) (fail : Nat → BitVec 32) (outStep : Nat)

/-- The taps of all delays, counted from the reset. -/
structure Programmed (s : σ) : Prop where
  inputs : ∀ bit : Fin 36, bit.val < 32 → c.tap s (.input bit) = bitTap fail bit
  unmeasured : ∀ bit : Fin 36, 32 ≤ bit.val → c.tap s (.input bit) = ⌈median (measured fail)⌉₊
  outputs : ∀ bit : Fin 36, c.tap s (.output bit) = outStep
  clock : c.tap s .clock = outStep

/-- The writes of `apply_cals` for the delays of `find_in_delays` and one step for all outputs. -/
def calWrites (extraClk : Bool) : List CtrlWrite :=
  qdrReset ++ addExtraLatency extraClk ++ qdrDelayClkStep outStep ++
    stepAll qdrDelayInStep (delaysOf fail).calSteps ++
    stepAll qdrDelayOutStep (List.replicate 36 (outStep : Rat))

theorem applyCals_eq (extraClk : Bool) :
    applyCals (delaysOf fail).calSteps (List.replicate 36 (outStep : Rat)) outStep extraClk
      = .ok (calWrites fail outStep extraClk) :=
  if_pos ⟨length_calSteps fail, List.length_replicate⟩

variable {c} (h : c.Strobed) (s : σ) (extraClk : Bool)

include h

theorem tap_calWrites (l : DelayLine) : c.tap (c.run s (calWrites fail outStep extraClk)) l
    = (if l.isClock then (outStep : Int) else 0)
      + (List.range ⌊(delaysOf fail).calSteps.max?.getD 0⌋₊).countP (fun step =>
          l.inputOf (stepMask (delaysOf fail).calSteps step))
      + (List.range ⌊(List.replicate 36 (outStep : Rat)).max?.getD 0⌋₊).countP fun step =>
          l.outputOf (stepMask (List.replicate 36 (outStep : Rat)) step) := by
  rw [calWrites, Controller.run_append, Controller.run_append, Controller.run_append,
    Controller.tap_stepAll h.tap_qdrDelayOutStep, Controller.tap_stepAll h.tap_qdrDelayInStep,
    h.tap_qdrDelayClkStep, h.tap_qdrReset, zero_add]

/-- An input delay is stepped as often as its delay is large, rounded up. -/
theorem tap_input (bit : Fin 36) {d : Rat} (hd : (delaysOf fail).calSteps[bit.val]? = some d) :
    c.tap (c.run s (calWrites fail outStep extraClk)) (.input bit) = ⌈d⌉₊ := by
  obtain ⟨n, hn, hle⟩ := exists_tap_ge fail (List.mem_of_getElem? hd)
  have hnone : (List.range ⌊(List.replicate 36 (outStep : Rat)).max?.getD 0⌋₊).countP (fun step =>
      (DelayLine.input bit).outputOf (stepMask (List.replicate 36 (outStep : Rat)) step)) = 0 :=
    List.countP_eq_zero.mpr fun _ _ => Bool.false_ne_true
  have hcount : (List.range ⌊(delaysOf fail).calSteps.max?.getD 0⌋₊).countP (fun step =>
      (DelayLine.input bit).inputOf (stepMask (delaysOf fail).calSteps step)) = ⌈d⌉₊ :=
    steps_of_delay hd hn hle
  rw [tap_calWrites fail outStep h, hnone, hcount, Nat.cast_zero, add_zero]
  exact zero_add _

theorem tap_output (bit : Fin 36) :
    c.tap (c.run s (calWrites fail outStep extraClk)) (.output bit) = outStep := by
  have hmem : (outStep : Rat) ∈ List.replicate 36 (outStep : Rat) :=
    List.mem_replicate.mpr ⟨by decide, rfl⟩
  have hget : (List.replicate 36 (outStep : Rat))[bit.val]? = some (outStep : Rat) := by
    rw [List.getElem?_replicate, if_pos bit.isLt]
  have hnone : (List.range ⌊(delaysOf fail).calSteps.max?.getD 0⌋₊).countP (fun step =>
      (DelayLine.output bit).inputOf (stepMask (delaysOf fail).calSteps step)) = 0 :=
    List.countP_eq_zero.mpr fun _ _ => Bool.false_ne_true
  have hcount : (List.range ⌊(List.replicate 36 (outStep : Rat)).max?.getD 0⌋₊).countP (fun step =>
      (DelayLine.output bit).outputOf (stepMask (List.replicate 36 (outStep : Rat)) step))
        = ⌈(outStep : Rat)⌉₊ := steps_of_delay hget hmem (le_refl _)
  rw [tap_calWrites fail outStep h, hnone, hcount, Nat.ceil_natCast, Nat.cast_zero, add_zero]
  exact zero_add _

theorem tap_clock : c.tap (c.run s (calWrites fail outStep extraClk)) .clock = outStep := by
  have hnone : ∀ delays : List Rat, (List.range ⌊delays.max?.getD 0⌋₊).countP (fun step =>
      DelayLine.clock.inputOf (stepMask delays step)) = 0 :=
    fun _ => List.countP_eq_zero.mpr fun _ _ => Bool.false_ne_true
  have hnone' : ∀ delays : List Rat, (List.range ⌊delays.max?.getD 0⌋₊).countP (fun step =>
      DelayLine.clock.outputOf (stepMask delays step)) = 0 :=
    fun _ => List.countP_eq_zero.mpr fun _ _ => Bool.false_ne_true
  rw [tap_calWrites fail outStep h, hnone, hnone', Nat.cast_zero, add_zero, add_zero]
  exact if_pos rfl

theorem programmed_calWrites_iff :
    Programmed c fail outStep (c.run s (calWrites fail outStep extraClk)) ↔ MedianKept fail := by
  have hunmeasured : ∀ bit : Fin 36, 32 ≤ bit.val →
      c.tap (c.run s (calWrites fail outStep extraClk)) (.input bit)
        = (((sortedTaps fail).getD 13 0 + (sortedTaps fail).getD 14 0 + 1) / 2 : Nat) := by
    intro bit hbit
    rw [tap_input fail outStep h s extraClk bit (calSteps_unmeasured fail hbit bit.isLt), ceil_half]
  have hmedian : ⌈median (measured fail)⌉₊
      = ((sortedTaps fail).getD 15 0 + (sortedTaps fail).getD 16 0 + 1) / 2 := by
    rw [median_measured, ceil_half]
  constructor
  · intro hprogrammed
    have h32 := hprogrammed.unmeasured 32 (Nat.le_refl 32)
    rw [hunmeasured 32 (Nat.le_refl 32), hmedian] at h32
    exact Nat.cast_inj.mp h32
  · intro hkept
    refine ⟨?_, ?_, tap_output fail outStep h s extraClk, tap_clock fail outStep h s extraClk⟩
    · intro bit hbit
      rw [tap_input fail outStep h s extraClk bit (calSteps_getElem fail hbit), Nat.ceil_natCast]
    · intro bit hbit
      rw [hunmeasured bit hbit, hmedian]
      exact congrArg Nat.cast hkept

/--
**The delays are programmed as they have been chosen** if, and only if, the four zeros in the list
do not change the median of the 32 taps.  This holds of every controller that is strobed, in
whatever state it is, for all that may be read back from the memory.
-/
theorem delays_programmed_iff (retdat : Nat → Nat → Nat → BitVec 32) :
    (∃ ws, applyCals (findInDelays retdat).calSteps (List.replicate 36 (outStep : Rat)) outStep
      extraClk = .ok ws ∧ Programmed c (fun step => patfail (retdat step)) outStep (c.run s ws))
      ↔ MedianKept fun step => patfail (retdat step) := by
  rw [← programmed_calWrites_iff _ outStep h s extraClk]
  constructor
  · rintro ⟨ws, hws, hprogrammed⟩
    rw [findInDelays, applyCals_eq] at hws
    obtain rfl := Except.ok.inj hws
    exact hprogrammed
  · intro hprogrammed
    exact ⟨_, applyCals_eq _ outStep extraClk, hprogrammed⟩

end Programmed

/-! ## A controller -/

/-- A controller with nothing but the last values and the taps. -/
def plainController : Controller ((Nat → Nat) × (DelayLine → Int)) where
  reg s := s.1
  tap s := s.2
  write s w :=
    (fun o => if o = w.offset then w.value else s.1 o,
      if w.offset = 0 then if w.value.testBit 0 then fun _ => 0 else s.2
      else fun l =>
        if w.offset = l.strobe.1 ∧ w.value.testBit l.strobe.2 = true ∧
            (s.1 l.strobe.1).testBit l.strobe.2 = false then
          if s.1 7 = 0 then s.2 l - 1 else s.2 l + 1
        else s.2 l)

theorem strobe_ne_zero (l : DelayLine) : l.strobe.1 ≠ 0 := by
  cases l with
  | input bit =>
    rw [DelayLine.strobe]
    split <;> exact Nat.succ_ne_zero _
  | output bit =>
    rw [DelayLine.strobe]
    split <;> exact Nat.succ_ne_zero _
  | clock => decide

theorem plainController_strobed : plainController.Strobed where
  reg_write _ _ _ := rfl
  reset _ _ := rfl
  up s w l hraises hup := by
    have hoffset : w.offset ≠ 0 := fun hzero => strobe_ne_zero l (hraises.1.symm.trans hzero)
    have hdir : s.1 7 ≠ 0 := by
      intro hzero
      have hup' : s.1 7 = 0xffffffff := hup
      omega
    show (if w.offset = 0 then _ else _ : DelayLine → Int) l = _
    rw [if_neg hoffset]
    exact (if_pos hraises).trans (if_neg hdir)
  down s w l hraises hdown := by
    have hoffset : w.offset ≠ 0 := fun hzero => strobe_ne_zero l (hraises.1.symm.trans hzero)
    show (if w.offset = 0 then _ else _ : DelayLine → Int) l = _
    rw [if_neg hoffset]
    exact (if_pos hraises).trans (if_pos hdown)
  keep s w l hoffset hquiet := by
    show (if w.offset = 0 then _ else _ : DelayLine → Int) l = _
    rw [if_neg hoffset]
    exact if_neg hquiet

/-- All bits pass at the taps 8 to 15. -/
def oneEye (step : Nat) : BitVec 32 := if 8 ≤ step ∧ step < 16 then 0 else 0xffffffff

theorem delays_programmed_iff_oneEye : ∃ ws,
    applyCals (findInDelays fun step => flippedBack (oneEye step)).calSteps
      (List.replicate 36 ((3 : Nat) : Rat)) (3 : Nat) true = .ok ws ∧
    Programmed plainController (fun step => patfail (flippedBack (oneEye step))) 3
      (plainController.run (fun _ => 7, fun _ => 5) ws) := by
  apply (delays_programmed_iff 3 plainController_strobed _ true _).mpr
  rw [funext fun step => patfail_flippedBack (oneEye step)]
  decide +kernel

/-- The lower half of the bits passes at the tap 10 and the upper half at the tap 20. -/
def twoEyes (step : Nat) : BitVec 32 :=
  if step = 10 then 0xffff0000 else if step = 20 then 0x0000ffff else 0xffffffff

/-- The median of the 32 taps is 15, but the bits 32 to 35 are stepped 10 times. -/
theorem twoEyes_not_programmed : ¬∃ ws,
    applyCals (findInDelays fun step => flippedBack (twoEyes step)).calSteps
      (List.replicate 36 ((3 : Nat) : Rat)) (3 : Nat) false = .ok ws ∧
    Programmed plainController twoEyes 3 (plainController.run (fun _ => 0, fun _ => 0) ws) := by
  rintro ⟨ws, hws, hprogrammed⟩
  rw [findInDelays, funext fun step => patfail_flippedBack (twoEyes step), applyCals_eq] at hws
  obtain rfl := Except.ok.inj hws
  rw [programmed_calWrites_iff twoEyes 3 plainController_strobed _ false] at hprogrammed
  revert hprogrammed
  decide +kernel

end MlibDevel.Qdr
