import Mathlib.Data.List.Infix
import Mathlib.Tactic.NormNum
import MlibDevel.FortyGbe.Pkg

/-!
# Making room for alignment markers (`PCS_BLOCK_THROTTLE.vhd`)

For every throttle cycle one block slot is given up: that of an idle block.  While data come in, the
slots still owed are counted (`excess_counter`), and idle blocks are dropped for them later.

The decision, its enable and the counter are registers one behind the other, so the test for excess
sees an old count.  It keeps a reserve of one for that (`Balanced`).
-/

namespace MlibDevel.FortyGbe

/-! ## The registers -/

/-- The inputs. -/
structure ThrottleIn where
  rst : Bool
  throttle : Bool
  blockValid : Bool
  pcsBlock : Block
  deriving DecidableEq, Repr

/-- The registers of `PCS_BLOCK_THROTTLE`. -/
structure BlockThrottle where
  excessCounterIncNotDec : Bool
  excessCounterEnable : Bool
  excessCounterReset : Bool
  excessCounter : BitVec 5
  pcsBlockO : Block
  blockValidO : Bool
  deriving DecidableEq, Repr

namespace BlockThrottle

/-- `DATA_RATE_THROTTLE_PROC` -/
def dataRateThrottle (s s' : BlockThrottle) (i : ThrottleIn) : BlockThrottle :=
  let s' := { s' with pcsBlockO := i.pcsBlock }
  if i.rst then
    { s' with
      excessCounterIncNotDec := true
      excessCounterEnable := false
      excessCounterReset := true
      blockValidO := false }
  else
    let s' := { s' with excessCounterReset := false }
    if i.blockValid then
      { s' with
        excessCounterIncNotDec := true
        excessCounterEnable := i.throttle
        blockValidO := true }
    else
      let s' := { s' with excessCounterIncNotDec := false }
      if i.throttle then { s' with excessCounterEnable := false, blockValidO := false }
      else if s.excessCounter ≤ 1 then { s' with excessCounterEnable := false, blockValidO := true }
      else { s' with excessCounterEnable := true, blockValidO := false }

/-- `UP_DOWN_COUNTER_proc` -/
def upDownCounter (s : BlockThrottle) : BitVec 5 :=
  if s.excessCounterReset then 0
  else if s.excessCounterEnable then
    if s.excessCounterIncNotDec then s.excessCounter + 1 else s.excessCounter - 1
  else s.excessCounter

/-- A rising edge of `CLK_I`. -/
def edge (s : BlockThrottle) (i : ThrottleIn) : BlockThrottle :=
  s.dataRateThrottle { s with excessCounter := s.upDownCounter } i

/-- What the counter is about to be changed by. -/
def pending (s : BlockThrottle) : Int :=
  if s.excessCounterEnable then if s.excessCounterIncNotDec then 1 else -1 else 0

/-- The slots owed: the counter with its pending update, which is zero if it is about to be
cleared. -/
def outstanding (s : BlockThrottle) : Int :=
  if s.excessCounterReset then 0 else s.excessCounter.toNat + s.pending

end BlockThrottle

/-! ## What is seen of a run -/

/-- A block slot: a block or idle, and whether it is a throttle cycle. -/
structure Slot where
  throttle : Bool
  blockValid : Bool
  pcsBlock : Block
  deriving DecidableEq, Repr

/-- The inputs of a slot. -/
def Slot.toIn (rst : Bool) (i : Slot) : ThrottleIn := ⟨rst, i.throttle, i.blockValid, i.pcsBlock⟩

/-- The cycle may drop an idle block. -/
def Slot.spare (i : Slot) : Bool := !i.blockValid && !i.throttle

/-- Registers after `RST_I` has been high at one edge or more. -/
def BlockThrottle.afterReset (s : BlockThrottle) (i : Slot) (more : List Slot) : BlockThrottle :=
  more.foldl (fun s i => s.edge (i.toIn true)) (s.edge (i.toIn true))

/-- The registers with the cycles, throttle cycles and valid blocks so far. -/
structure Tally where
  regs : BlockThrottle
  elapsed : Nat
  throttled : Nat
  passed : Nat
  deriving DecidableEq, Repr

namespace Tally

/-- A clock cycle. -/
def step (w : Tally) (i : Slot) : Tally :=
  let regs := w.regs.edge (i.toIn false)
  ⟨regs, w.elapsed + 1, w.throttled + i.throttle.toNat, w.passed + regs.blockValidO.toNat⟩

/-- The start of a run. -/
def start (s : BlockThrottle) : Tally := ⟨s, 0, 0, 0⟩

/-- The state after some cycles. -/
def run (w : Tally) (is : List Slot) : Tally := is.foldl step w

/-- The slots owed stay below 32 all through a run. -/
def Bounded (w : Tally) (is : List Slot) : Prop :=
  ∀ pre, pre <+: is → (w.run pre).regs.outstanding < 32

/-- The counter does not underflow, and the books balance. -/
structure Kept (w : Tally) : Prop where
  noUnderflow : w.regs.excessCounterReset = false → w.regs.excessCounterEnable = true →
    w.regs.excessCounterIncNotDec = false → w.regs.excessCounter ≠ 0
  balance : (w.passed : Int) = w.elapsed - w.throttled + w.regs.outstanding

/-- What is asked of a run. -/
structure Meets (w : Tally) (is : List Slot) : Prop where
  passes : ∀ pre i, pre ++ [i] <+: is → i.blockValid = true →
    (w.run (pre ++ [i])).regs.blockValidO = true ∧ (w.run (pre ++ [i])).regs.pcsBlockO = i.pcsBlock
  kept : ∀ pre, pre <+: is → (w.run pre).Kept
  settles : ∀ pre js, pre ++ js <+: is → (∀ j ∈ js, j.blockValid = false) →
    31 ≤ js.countP Slot.spare → (w.run (pre ++ js)).passed + (w.run (pre ++ js)).throttled
      ∈ [(w.run (pre ++ js)).elapsed, (w.run (pre ++ js)).elapsed + 1]

/-- The first cycle after a reset does not drop a block for a count that is about to be cleared. -/
def Fresh (w : Tally) (is : List Slot) : Prop := w.regs.excessCounterReset = true →
  w.regs.excessCounter ≤ 1 ∨ ∀ i ∈ is.head?, i.spare = false

end Tally

/-! ## A cycle -/

namespace BlockThrottle

variable {s : BlockThrottle}

/-- What an edge without a reset does. -/
theorem edge_eq (s : BlockThrottle) (i : Slot) : s.edge (i.toIn false) =
    { excessCounterIncNotDec := i.blockValid
      excessCounterEnable :=
        if i.blockValid then i.throttle else i.spare && !decide (s.excessCounter ≤ 1)
      excessCounterReset := false
      excessCounter := s.upDownCounter
      pcsBlockO := i.pcsBlock
      blockValidO := i.blockValid || i.spare && decide (s.excessCounter ≤ 1) } := by
  rcases i with ⟨throttle, blockValid, pcsBlock⟩
  cases blockValid <;> cases throttle <;> by_cases hle : s.excessCounter ≤ 1#5 <;>
    simp [edge, dataRateThrottle, Slot.toIn, Slot.spare, hle]

/-- Whatever is decided, a slot is passed on, taken by a throttle cycle, or owed. -/
theorem edge_books (s : BlockThrottle) (i : Slot) :
    ((s.edge (i.toIn false)).blockValidO.toNat : Int)
      = 1 - i.throttle.toNat + (s.edge (i.toIn false)).pending := by
  rw [edge_eq, pending, Slot.spare]
  cases i.blockValid <;> cases i.throttle <;> by_cases hle : 1#5 < s.excessCounter <;>
    simp [hle, BitVec.not_lt.mp, BitVec.not_le.mpr]

/-- What is decided for an idle slot. -/
theorem edge_pending_idle (s : BlockThrottle) {i : Slot} (h : i.blockValid = false) :
    (s.edge (i.toIn false)).pending =
      if i.spare && !decide (s.excessCounter ≤ 1) then -1 else 0 := by
  rw [edge_eq, pending]
  simp [h]

/-- Slots are given up only while more than one is owed. -/
theorem edge_dec (s : BlockThrottle) (i : Slot)
    (henable : (s.edge (i.toIn false)).excessCounterEnable = true)
    (hdec : (s.edge (i.toIn false)).excessCounterIncNotDec = false) :
    i.spare = true ∧ ¬s.excessCounter ≤ 1 := by
  rw [edge_eq] at henable hdec
  simp only at hdec
  simpa [hdec] using henable

end BlockThrottle

namespace Tally

variable {w : Tally}

/-- The counter takes up what is owed. -/
theorem Kept.upDownCounter (h : w.Kept) (hlt : w.regs.outstanding < 32) :
    (w.regs.upDownCounter.toNat : Int) = w.regs.outstanding := by
  have hno := h.noUnderflow
  unfold BlockThrottle.outstanding BlockThrottle.pending at hlt ⊢
  unfold BlockThrottle.upDownCounter
  cases hreset : w.regs.excessCounterReset <;> cases henable : w.regs.excessCounterEnable <;>
    cases hinc : w.regs.excessCounterIncNotDec <;> simp only [hreset, henable, hinc] at hno hlt ⊢
  · simp
  · simp
  · have hpos : 0 < w.regs.excessCounter.toNat := by
      have hne := hno trivial trivial trivial
      bv_omega
    simp only [if_true, Bool.false_eq_true, if_false]
    bv_omega
  · simp only [if_true, Bool.false_eq_true, if_false] at hlt ⊢
    bv_omega
  all_goals simp

theorem Kept.outstanding_nonneg (h : w.Kept) : 0 ≤ w.regs.outstanding := by
  have hno := h.noUnderflow
  unfold BlockThrottle.outstanding BlockThrottle.pending
  cases hreset : w.regs.excessCounterReset <;> cases henable : w.regs.excessCounterEnable <;>
    cases hinc : w.regs.excessCounterIncNotDec <;> simp only [hreset, henable, hinc] at hno ⊢
  case false.true.false =>
    have hne := hno trivial trivial trivial
    simp only [if_true, Bool.false_eq_true, if_false]
    bv_omega
  all_goals simp
  omega

/-- What is owed after a cycle. -/
theorem Kept.outstanding_step (h : w.Kept) (hlt : w.regs.outstanding < 32) (i : Slot) :
    (w.step i).regs.outstanding = w.regs.outstanding + (w.step i).regs.pending := by
  have hnext : (w.step i).regs = w.regs.edge (i.toIn false) := rfl
  have hreset : (w.step i).regs.excessCounterReset = false := by rw [hnext, BlockThrottle.edge_eq]
  have hcounter : (w.step i).regs.excessCounter = w.regs.upDownCounter := by
    rw [hnext, BlockThrottle.edge_eq]
  rw [BlockThrottle.outstanding, hreset, if_neg Bool.false_ne_true, hcounter, h.upDownCounter hlt]

theorem Kept.step (h : w.Kept) (hlt : w.regs.outstanding < 32) (i : Slot) (hfresh : w.Fresh [i]) :
    (w.step i).Kept where
  noUnderflow _ henable hdec := by
    obtain ⟨hspare, hcount⟩ := w.regs.edge_dec i henable hdec
    have hreset : w.regs.excessCounterReset = false := by
      cases hr : w.regs.excessCounterReset with
      | false => rfl
      | true =>
        rcases hfresh hr with hle | hno
        · exact absurd hle hcount
        · have hi := hno i rfl
          rw [hspare] at hi
          cases hi
    have hnext := h.upDownCounter hlt
    have hcounter : (w.step i).regs.excessCounter = w.regs.upDownCounter :=
      congrArg BlockThrottle.excessCounter (w.regs.edge_eq i)
    have hge : (w.regs.excessCounter.toNat : Int) - 1 ≤ w.regs.outstanding := by
      unfold BlockThrottle.outstanding BlockThrottle.pending
      rw [hreset]
      split_ifs <;> first | omega | contradiction
    intro hzero
    rw [hcounter] at hzero
    rw [hzero] at hnext
    bv_omega
  balance := by
    have hbooks := w.regs.edge_books i
    have hout := h.outstanding_step hlt i
    have hbalance := h.balance
    show ((w.passed + (w.regs.edge (i.toIn false)).blockValidO.toNat : Nat) : Int)
      = (w.elapsed + 1 : Nat) - (w.throttled + i.throttle.toNat : Nat) + (w.step i).regs.outstanding
    rw [hout]
    show _ = _ + (_ + (w.regs.edge (i.toIn false)).pending)
    push_cast
    omega

/-! ## Runs -/

theorem run_append (is js : List Slot) : w.run (is ++ js) = (w.run is).run js := List.foldl_append

theorem run_concat (is : List Slot) (i : Slot) : w.run (is ++ [i]) = (w.run is).step i :=
  run_append is [i]

theorem step_reset (i : Slot) : (w.step i).regs.excessCounterReset = false :=
  congrArg BlockThrottle.excessCounterReset (w.regs.edge_eq i)

/-- After a cycle the reset is over. -/
theorem fresh_step (i : Slot) (is : List Slot) : (w.step i).Fresh is := by
  intro h
  rw [step_reset] at h
  cases h

theorem Bounded.head {is : List Slot} (h : w.Bounded is) : w.regs.outstanding < 32 :=
  h [] List.nil_prefix

theorem Bounded.tail {i : Slot} {is : List Slot} (h : w.Bounded (i :: is)) :
    (w.step i).Bounded is :=
  fun pre hpre => h (i :: pre) (List.cons_prefix_cons.mpr ⟨rfl, hpre⟩)

/-- The books are kept all through a run. -/
theorem Kept.run :
    ∀ (pre is : List Slot) (w : Tally), w.Kept → w.Bounded is → w.Fresh is → pre <+: is →
    (w.run pre).Kept
  | [], _, _, h, _, _, _ => h
  | i :: pre, _, w, h, hbounded, hfresh, hpre => by
    obtain ⟨is, rfl, hrest⟩ := List.cons_prefix_iff.mp hpre
    have hstep := h.step hbounded.head i hfresh
    exact Kept.run pre is (w.step i) hstep hbounded.tail (fresh_step i is) hrest

/-! ## Idle cycles -/

/-- What is owed, and one more while an increment is pending, which the test does not see yet. -/
def toGiveUp (w : Tally) : Int := w.regs.outstanding + if w.regs.pending = 1 then 1 else 0

/-- An idle cycle that may drop a block gives a slot up, as long as more than one is owed. -/
theorem Kept.toGiveUp_step (h : w.Kept) (hlt : w.regs.outstanding < 32) {i : Slot}
    (hidle : i.blockValid = false) : (w.step i).toGiveUp
      ≤ max 1 (w.toGiveUp - if i.spare then 1 else 0) := by
  have hpending : (w.step i).regs.pending = _ := w.regs.edge_pending_idle hidle
  have hout := h.outstanding_step hlt i
  have hge : w.regs.outstanding ≤ w.toGiveUp := by
    unfold toGiveUp
    split <;> omega
  have hnext : (w.step i).toGiveUp = w.regs.outstanding + (w.step i).regs.pending := by
    rw [toGiveUp, hout, if_neg, Int.add_zero]
    rw [hpending]
    split <;> decide
  rw [hnext, hpending]
  cases hspare : i.spare with
  | false =>
    simp only [Bool.false_and, Bool.false_eq_true, if_false]
    omega
  | true =>
    by_cases hle : w.regs.excessCounter ≤ 1
    · -- the count is taken up, and nothing is dropped
      rw [decide_eq_true hle]
      simp only [Bool.not_true, Bool.and_false, Bool.false_eq_true, if_false, if_true]
      have hcount : w.regs.excessCounter.toNat ≤ 1 := hle
      by_cases hinc : w.regs.pending = 1
      · rw [toGiveUp, if_pos hinc]
        omega
      · have hpend : w.regs.pending ≤ 0 := by
          unfold BlockThrottle.pending at hinc ⊢
          split_ifs at hinc ⊢ <;> omega
        have hone : w.regs.outstanding ≤ 1 := by
          unfold BlockThrottle.outstanding
          split <;> omega
        omega
    · rw [decide_eq_false hle]
      simp only [Bool.not_false, Bool.and_true, if_true]
      omega

theorem Kept.toGiveUp_run : ∀ (js : List Slot) (w : Tally), w.Kept → w.Bounded js → w.Fresh js →
    (∀ j ∈ js, j.blockValid = false) →
      (w.run js).toGiveUp ≤ max 1 (w.toGiveUp - js.countP Slot.spare)
  | [], w, _, _, _, _ => by
    show w.toGiveUp ≤ max 1 (w.toGiveUp - (0 : Nat))
    omega
  | j :: js, w, h, hbounded, hfresh, hidle => by
    have hstep := h.step hbounded.head j hfresh
    have hfirst := h.toGiveUp_step hbounded.head (hidle j List.mem_cons_self)
    have ih := Kept.toGiveUp_run js (w.step j) hstep hbounded.tail (fresh_step j js)
      fun k hk => hidle k (List.mem_cons_of_mem j hk)
    have hrun : w.run (j :: js) = (w.step j).run js := rfl
    rw [hrun, List.countP_cons]
    push_cast
    split_ifs at hfirst ⊢ <;> omega

/-- Behind enough idle cycles at most one slot is owed. -/
theorem Kept.settles {js : List Slot} (h : w.Kept) (hbounded : w.Bounded js) (hfresh : w.Fresh js)
    (hidle : ∀ j ∈ js, j.blockValid = false) (henough : 31 ≤ js.countP Slot.spare) :
    (w.run js).passed + (w.run js).throttled ∈ [(w.run js).elapsed, (w.run js).elapsed + 1] := by
  have hend := h.run js js w hbounded hfresh (List.prefix_refl js)
  have hnonneg := hend.outstanding_nonneg
  have hgive := h.toGiveUp_run js w hbounded hfresh hidle
  have hstart : w.toGiveUp ≤ 32 := by
    have := hbounded.head
    unfold toGiveUp
    split <;> omega
  have hle : (w.run js).regs.outstanding ≤ 1 := by
    unfold toGiveUp at hgive hstart
    split at hgive <;> omega
  have hbalance := hend.balance
  rw [List.mem_cons, List.mem_singleton]
  omega

theorem Bounded.run {pre js is : List Slot} (h : w.Bounded is) (hpre : pre ++ js <+: is) :
    (w.run pre).Bounded js := by
  intro part hpart
  rw [← run_append]
  exact h _ (((List.prefix_append_right_inj pre).mpr hpart).trans hpre)

theorem Fresh.run {pre js is : List Slot} (h : w.Fresh is) (hpre : pre ++ js <+: is) :
    (w.run pre).Fresh js := by
  rcases List.eq_nil_or_concat pre with rfl | ⟨pre, i, rfl⟩
  · intro hreset
    refine (h hreset).imp id fun hno j hj => hno j ?_
    obtain ⟨rest, rfl⟩ := hpre
    cases js with
    | nil => cases hj
    | cons k js => exact hj
  · rw [List.concat_eq_append, run_concat]
    exact fresh_step i js

theorem meets_of_fresh {is : List Slot} (h : w.Kept) (hbounded : w.Bounded is)
    (hfresh : w.Fresh is) : w.Meets is where
  passes pre i _ hvalid := by
    have hregs : (w.run (pre ++ [i])).regs = (w.run pre).regs.edge (i.toIn false) := by
      rw [run_concat]
      rfl
    rw [hregs, BlockThrottle.edge_eq, hvalid]
    exact ⟨rfl, rfl⟩
  kept pre hpre := h.run pre is w hbounded hfresh hpre
  settles pre js hpre hidle henough := by
    have hkept := h.run pre is w hbounded hfresh ((List.prefix_append pre js).trans hpre)
    rw [run_append]
    exact hkept.settles (hbounded.run hpre) (hfresh.run hpre) hidle henough

end Tally

/-! ## After a reset -/

namespace BlockThrottle

/-- What an edge with a reset does. -/
theorem edge_rst (s : BlockThrottle) (i : Slot) :
    s.edge (i.toIn true) = ⟨true, false, true, s.upDownCounter, i.pcsBlock, false⟩ := rfl

theorem afterReset_concat (s : BlockThrottle) (i j : Slot) (more : List Slot) :
    s.afterReset i (more ++ [j]) = (s.afterReset i more).edge (j.toIn true) := List.foldl_append

theorem reset_afterReset (s : BlockThrottle) (i : Slot) (more : List Slot) :
    (s.afterReset i more).excessCounterReset = true := by
  rcases List.eq_nil_or_concat more with rfl | ⟨more, j, rfl⟩
  · rfl
  · rw [List.concat_eq_append, afterReset_concat, edge_rst]

end BlockThrottle

namespace Tally

/--
**The transmitter gives up one slot for each throttle cycle.**

In every run after a reset in which fewer than 32 slots are owed, unless the first cycle may drop a
block and the counter still holds more than one from before the reset.
-/
theorem meets_iff (s : BlockThrottle) (i : Slot) (more is : List Slot)
    (h : (start (s.afterReset i more)).Bounded is) :
    (start (s.afterReset i more)).Meets is ↔
      (s.afterReset i more).excessCounter ≤ 1 ∨ ∀ j ∈ is.head?, j.spare = false := by
  have hreset := s.reset_afterReset i more
  constructor
  · intro hmeets
    by_contra hno
    obtain ⟨hcount, hspare⟩ := not_or.mp hno
    cases is with
    | nil => exact hspare fun j hj => by cases hj
    | cons j js =>
      have hj : j.spare = true := by
        by_contra hj
        exact hspare fun k hk => by
          rw [← Option.some.inj hk]
          exact Bool.eq_false_iff.mpr hj
      have hvalid : j.blockValid = false := by
        unfold Slot.spare at hj
        simp only [Bool.and_eq_true, Bool.not_eq_true'] at hj
        exact hj.1
      have hkept := hmeets.kept [j] (List.cons_prefix_cons.mpr ⟨rfl, List.nil_prefix⟩)
      have hregs : ((start (s.afterReset i more)).run [j]).regs
          = (s.afterReset i more).edge (j.toIn false) := rfl
      have hzero : (s.afterReset i more).upDownCounter = 0 := if_pos hreset
      refine hkept.noUnderflow ?_ ?_ ?_ ?_ <;> rw [hregs, BlockThrottle.edge_eq]
      · simpa [hvalid, hj] using hcount
      · exact hvalid
      · exact hzero
  · intro hfirst
    refine meets_of_fresh ⟨?_, ?_⟩ h fun _ => hfirst
    · intro hno
      exact absurd (hreset.symm.trans hno) (by decide)
    · show (0 : Int) = 0 - 0 + (s.afterReset i more).outstanding
      rw [BlockThrottle.outstanding, hreset]
      rfl

instance (w : Tally) (is : List Slot) : Decidable (w.Bounded is) :=
  decidable_of_iff (∀ pre ∈ is.inits, (w.run pre).regs.outstanding < 32)
    (by simp only [Bounded, List.mem_inits])

/-- A slot that may be given up. -/
def idle : Slot := ⟨false, false, ⟨0b01, 0x1e⟩⟩

/-- A block in a throttle cycle. -/
def data : Slot := ⟨true, true, ⟨0b10, 0⟩⟩

/-- The registers at power-up. -/
def powerUp : BlockThrottle := ⟨true, true, true, 0, ⟨0, 0⟩, false⟩

/-- Three slots are owed, and behind them there are 31 that may be given up. -/
def threeOwed : List Slot := List.replicate 3 data ++ List.replicate 31 idle

theorem meets_iff_idle :
    (start (powerUp.afterReset idle [idle])).Meets threeOwed ∧
      ((start (powerUp.afterReset idle [idle])).run threeOwed).passed = 31 := by
  have hmeets := (meets_iff powerUp idle [idle] threeOwed (by decide +kernel)).mpr
    (Or.inl (by decide))
  exact ⟨hmeets, by decide +kernel⟩

/-- The registers while three slots are owed. -/
def owing : BlockThrottle := ((start (powerUp.afterReset idle [idle])).run [data, data, data]).regs

/-- After a reset of one edge a block is dropped for a count that is cleared, and the counter
wraps. -/
theorem oneEdge_not_meets : (start (owing.afterReset idle [])).Bounded [idle, idle] ∧
    ¬(start (owing.afterReset idle [])).Meets [idle, idle] ∧
    ((start (owing.afterReset idle [])).run [idle, idle]).regs.excessCounter = 31 := by
  refine ⟨by decide, fun h => ?_, by decide⟩
  have hkept := h.kept [idle] (List.cons_prefix_cons.mpr ⟨rfl, List.nil_prefix⟩)
  exact hkept.noUnderflow (by decide) (by decide) (by decide) (by decide)

end Tally

end MlibDevel.FortyGbe
