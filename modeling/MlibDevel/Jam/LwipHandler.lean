import Mathlib.Algebra.Group.Nat.Defs
import Mathlib.Data.List.Basic

/-!
# Timeouts of lwIP (`tmrctr.c`, `casper_lwip_handler` of `casper_eth.c`)

The main loop calls `casper_lwip_handler` again and again.  It reads a 64-bit cycle counter, makes
milliseconds of it, and has lwIP check its timeouts when a deadline has come.

Bits 46 to 15 of the counter are ticks, and three ticks a millisecond; so the milliseconds begin
anew after `2 ^ 47` cycles, long before 32 bits are used up, while the deadline does not.  A check
is missed exactly when the ticks have come round since the last one and the milliseconds are still
below the old deadline (`handler_prompt_iff`).  If the last check was in the last interval before
the ticks come round there is none ever after (`handler_stopped`).
-/

namespace MlibDevel.Jam

/-! ## The counter -/

/-- `XTmrCtr_GetTimerCounterReg` for the lower register, when the counter is at `count`. -/
def tcr0 (count : Nat) : UInt32 := UInt32.ofNat count

/-- The upper register. -/
def tcr1 (count : Nat) : UInt32 := UInt32.ofNat (count / 2 ^ 32)

/--
The counter at the register reads of a call of `read_tmrctr`; the fourth is made only when the upper
register has changed.  The counter does not decrease, and during the reads it advances by less than
`2 ^ 32` cycles.
-/
structure CounterReads where
  hi0 : Nat
  lo : Nat
  hi1 : Nat
  again : Nat
  hi0_le : hi0 ≤ lo
  lo_le : lo ≤ hi1
  hi1_le : hi1 ≤ again
  short : again < hi0 + 2 ^ 32
  lt : again < 2 ^ 64

/-- `read_tmrctr` -/
def readTmrctr (r : CounterReads) : UInt64 :=
  let hi0 := tcr1 r.hi0
  let lo := tcr0 r.lo
  let hi1 := tcr1 r.hi1
  let lo := if hi0 ≠ hi1 then tcr0 r.again else lo
  (hi1.toUInt64 <<< 32) ||| lo.toUInt64

/-- `tick_tmrctr` -/
def tickTmrctr (r : CounterReads) : UInt32 := ((readTmrctr r >>> 15) &&& 0xffffffff).toUInt32

/-- `ms_tmrctr` -/
def msTmrctr (r : CounterReads) : UInt32 := tickTmrctr r / 3

/-- When a call takes the time: the moment of the lower register that counts. -/
def CounterReads.count (r : CounterReads) : Nat :=
  if r.hi0 / 2 ^ 32 = r.hi1 / 2 ^ 32 then r.lo else r.again

/-- The milliseconds of a count. -/
def msOf (count : Nat) : Nat := count / 2 ^ 15 % 2 ^ 32 / 3

theorem toNat_joined (hi lo : UInt32) :
    ((hi.toUInt64 <<< 32) ||| lo.toUInt64).toNat = 2 ^ 32 * hi.toNat + lo.toNat := by
  have hhi := hi.toNat_lt
  have hlo := lo.toNat_lt
  have hshift : (hi.toUInt64 <<< 32).toNat = hi.toNat <<< 32 := by
    rw [UInt64.toNat_shiftLeft, UInt32.toNat_toUInt64]
    show hi.toNat <<< 32 % 2 ^ 64 = _
    rw [Nat.shiftLeft_eq, Nat.mod_eq_of_lt (by omega)]
  rw [UInt64.toNat_or, hshift, UInt32.toNat_toUInt64, ← Nat.shiftLeft_add_eq_or_of_lt hlo,
    Nat.shiftLeft_eq, Nat.mul_comm]

/-- **`read_tmrctr` returns a value that the counter had during the call.** -/
theorem readTmrctr_toNat (r : CounterReads) : (readTmrctr r).toNat = r.count := by
  have := r.hi0_le
  have := r.lo_le
  have := r.hi1_le
  have := r.short
  have := r.lt
  have hsame : tcr1 r.hi0 = tcr1 r.hi1 ↔ r.hi0 / 2 ^ 32 = r.hi1 / 2 ^ 32 := by
    rw [← UInt32.toNat_inj, tcr1, tcr1, UInt32.toNat_ofNat', UInt32.toNat_ofNat']
    omega
  rw [readTmrctr, toNat_joined, CounterReads.count]
  by_cases h : r.hi0 / 2 ^ 32 = r.hi1 / 2 ^ 32
  · rw [if_neg (not_not.mpr (hsame.mpr h)), if_pos h, tcr1, tcr0, UInt32.toNat_ofNat',
      UInt32.toNat_ofNat']
    omega
  · -- the upper register changes once, so it does not change again
    rw [if_pos (mt hsame.mp h), if_neg h, tcr1, tcr0, UInt32.toNat_ofNat', UInt32.toNat_ofNat']
    omega

theorem msTmrctr_toNat (r : CounterReads) : (msTmrctr r).toNat = msOf r.count := by
  have hticks : (tickTmrctr r).toNat = r.count / 2 ^ 15 % 2 ^ 32 := by
    rw [tickTmrctr, UInt64.toNat_toUInt32, UInt64.toNat_and, UInt64.toNat_shiftRight,
      readTmrctr_toNat]
    show (r.count >>> 15 &&& 2 ^ 32 - 1) % 2 ^ 32 = _
    rw [Nat.and_two_pow_sub_one_eq_mod, Nat.mod_mod, Nat.shiftRight_eq_div_pow]
  rw [msTmrctr, UInt32.toNat_div, hticks]
  rfl

/-! ## The handler -/

/-- The static variable of `casper_lwip_handler`, and when it last had the timeouts checked. -/
structure LwipHandler where
  nextTimeoutCheckMs : UInt32
  lastCheck : Option Nat

section

-- `JAM_LWIP_CHECK_TIMEOUTS_INTERVAL_MS`, 10 by default
variable (interval : UInt32)

/-- The handler as the loader leaves it. -/
def LwipHandler.start : LwipHandler where
  nextTimeoutCheckMs := interval
  lastCheck := none

/-- `casper_lwip_handler`, and whether it calls `sys_check_timeouts` -/
def casperLwipHandler (s : LwipHandler) (r : CounterReads) : LwipHandler × Bool :=
  let currMs := msTmrctr r
  if s.nextTimeoutCheckMs ≤ currMs then
    ({ nextTimeoutCheckMs := currMs + interval, lastCheck := some r.count }, true)
  else (s, false)

/-- The handler after calls. -/
def handlerAfter (calls : List CounterReads) : LwipHandler :=
  calls.foldl (fun s r => (casperLwipHandler interval s r).1) (.start interval)

/-- Every call of a run, with the handler as it finds it. -/
def EachCall (calls : List CounterReads) (P : LwipHandler → CounterReads → Prop) : Prop :=
  ∀ pre r post, calls = pre ++ r :: post → P (handlerAfter interval pre) r

/-- The cycles of a millisecond of `ms_tmrctr`: three ticks. -/
def cyclesPerMs : Nat := 3 * 2 ^ 15

/-- A call comes at least the interval after the last check. -/
def Due (s : LwipHandler) (r : CounterReads) : Prop :=
  ∃ last, s.lastCheck = some last ∧ last + interval.toNat * cyclesPerMs ≤ r.count

/-- Since the last check the ticks have come round, and they have not yet caught up. -/
def ComeRound (s : LwipHandler) (r : CounterReads) : Prop :=
  ∃ last, s.lastCheck = some last ∧ last / 2 ^ 47 ≠ r.count / 2 ^ 47 ∧
    msOf r.count < (msOf last + interval.toNat) % 2 ^ 32

/-- The deadline is the interval after the last check. -/
def LwipHandler.Armed (s : LwipHandler) : Prop :=
  ∀ last, s.lastCheck = some last →
    s.nextTimeoutCheckMs.toNat = (msOf last + interval.toNat) % 2 ^ 32

theorem start_armed : (LwipHandler.start interval).Armed interval := by
  intro last h
  cases h

variable {interval}

theorem LwipHandler.Armed.call {s : LwipHandler} (h : s.Armed interval) (r : CounterReads) :
    (casperLwipHandler interval s r).1.Armed interval := by
  rw [casperLwipHandler]
  split
  · intro last hlast
    cases hlast
    show (msTmrctr r + interval).toNat = _
    rw [UInt32.toNat_add, msTmrctr_toNat]
  · exact h

theorem handlerAfter_armed (calls : List CounterReads) :
    (handlerAfter interval calls).Armed interval := by
  unfold handlerAfter
  generalize hs : LwipHandler.start interval = s
  have h : s.Armed interval := by
    rw [← hs]
    exact start_armed interval
  clear hs
  induction calls generalizing s with
  | nil => exact h
  | cons r calls ih => exact ih _ (h.call r)

/-- **One call**: when it is due, it checks the timeouts unless the ticks have come round. -/
theorem LwipHandler.Armed.checks_iff {s : LwipHandler} (h : s.Armed interval) {r : CounterReads}
    (hdue : Due interval s r) :
    (casperLwipHandler interval s r).2 = true ↔ ¬ComeRound interval s r := by
  obtain ⟨last, hlast, hle⟩ := hdue
  have hnext := h last hlast
  have hcheck : (casperLwipHandler interval s r).2 = true ↔
      (msOf last + interval.toNat) % 2 ^ 32 ≤ msOf r.count := by
    rw [← hnext, ← msTmrctr_toNat, ← UInt32.le_iff_toNat_le, casperLwipHandler]
    split
    · next hreached => exact iff_of_true rfl hreached
    · next hbelow => exact iff_of_false Bool.false_ne_true hbelow
  rw [hcheck]
  constructor
  · rintro hle ⟨last', hlast', -, hlt⟩
    obtain rfl := Option.some.inj (hlast.symm.trans hlast')
    omega
  · intro hround
    by_contra hlt
    refine hround ⟨last, hlast, ?_, Nat.lt_of_not_le hlt⟩
    intro hsame
    unfold msOf cyclesPerMs at *
    omega

/--
**Timeouts are checked in time**, in every run, exactly as long as no call that is due finds that
the ticks have come round since the last check.
-/
theorem handler_prompt_iff (calls : List CounterReads) :
    EachCall interval calls (fun s r =>
      Due interval s r → (casperLwipHandler interval s r).2 = true) ↔
    EachCall interval calls (fun s r => Due interval s r → ¬ComeRound interval s r) := by
  constructor
  · intro h pre r post heq hdue
    exact ((handlerAfter_armed pre).checks_iff hdue).mp (h pre r post heq hdue)
  · intro h pre r post heq hdue
    exact ((handlerAfter_armed pre).checks_iff hdue).mpr (h pre r post heq hdue)

/-- The milliseconds never get beyond this. -/
def lastMs : Nat := (2 ^ 32 - 1) / 3

theorem msOf_le (count : Nat) : msOf count ≤ lastMs := by
  unfold msOf lastMs
  omega

/-- A deadline beyond the last millisecond is never reached. -/
theorem handler_stopped {s : LwipHandler} (h : lastMs < s.nextTimeoutCheckMs.toNat) :
    ∀ calls : List CounterReads,
      calls.foldl (fun s r => (casperLwipHandler interval s r).1) s = s
  | [] => rfl
  | r :: calls => by
    have hcall : (casperLwipHandler interval s r).1 = s := by
      have hms := msOf_le r.count
      rw [casperLwipHandler, if_neg]
      rw [UInt32.le_iff_toNat_le, msTmrctr_toNat]
      omega
    rw [List.foldl_cons, hcall]
    exact handler_stopped h calls

end

/-- All registers read at one moment. -/
def CounterReads.at (count : Nat) (h : count < 2 ^ 64) : CounterReads :=
  ⟨count, count, count, count, Nat.le_refl _, Nat.le_refl _, Nat.le_refl _, by omega, h⟩

/-- A check in the last tick, and a call ten milliseconds later. -/
theorem handler_not_prompt :
    ¬EachCall 10 [.at (2 ^ 47 - 1) (by decide), .at (2 ^ 47 - 1 + 10 * cyclesPerMs) (by decide)]
      (fun s r => Due 10 s r → (casperLwipHandler 10 s r).2 = true) := by
  intro h
  have hcall := h [.at (2 ^ 47 - 1) (by decide)] _ [] rfl
    ⟨2 ^ 47 - 1, by decide, by decide⟩
  exact absurd hcall (by decide)

end MlibDevel.Jam
