import Mathlib.Algebra.GroupWithZero.Nat
import Mathlib.Data.Nat.Find
import Mathlib.Order.Monotone.Basic
import MlibDevel.Jam.LwipHandler

/-!
# Reading the timer and waiting for it (`tmrctr.c`, `casper_tapcp_write_progdev`)

The two halves of the timer are read one after the other, and the lower one again if the upper one
has changed.

`casper_tapcp_write_progdev` waits a second before it has the FPGA reboot, so that its message gets
out.  It compares the milliseconds with a deadline, and they begin anew at `(2 ^ 32 - 1) / 3`.

Main results: `readTmrctr_between` (what is read lies between the first and the last reading),
`waitsOneSecond_iff` (the wait ends unless it begins in the last second before the milliseconds
begin anew).
-/

namespace MlibDevel.Jam

/-! ## Reading -/

/-- `read_tmrctr`, for what the reads of the registers give. -/
def readTmrctrRegs (hi0 lo hi1 again : UInt32) : UInt64 :=
  let lo := if hi0 ≠ hi1 then again else lo
  (hi1.toUInt64 <<< 32) ||| lo.toUInt64

theorem readTmrctr_eq (r : CounterReads) :
    readTmrctr r = readTmrctrRegs (tcr1 r.hi0) (tcr0 r.lo) (tcr1 r.hi1) (tcr0 r.again) := rfl

theorem toNat_tcr1 {count : Nat} (h : count < 2 ^ 64) : (tcr1 count).toNat = count / 2 ^ 32 := by
  rw [tcr1, UInt32.toNat_ofNat']
  omega

theorem toNat_tcr0 (count : Nat) : (tcr0 count).toNat = count % 2 ^ 32 := by
  rw [tcr0, UInt32.toNat_ofNat']

/-- **The timer as it is read lies between its values at the first and the last reading.** -/
theorem readTmrctr_between {counter : Nat → Nat} (hmono : Monotone counter)
    (hlt : ∀ t, counter t < 2 ^ 64) {t₁ t₂ t₃ t₄ : Nat} (h₁₂ : t₁ ≤ t₂) (h₂₃ : t₂ ≤ t₃)
    (h₃₄ : t₃ ≤ t₄) :
    counter t₁ ≤
      (readTmrctrRegs (tcr1 (counter t₁)) (tcr0 (counter t₂)) (tcr1 (counter t₃))
        (tcr0 (counter t₄))).toNat ∧
    (readTmrctrRegs (tcr1 (counter t₁)) (tcr0 (counter t₂)) (tcr1 (counter t₃))
      (tcr0 (counter t₄))).toNat ≤ counter t₄ := by
  have hc₁₂ := hmono h₁₂
  have hc₂₃ := hmono h₂₃
  have hc₃₄ := hmono h₃₄
  have hhi : tcr1 (counter t₁) = tcr1 (counter t₃) ↔ counter t₁ / 2 ^ 32 = counter t₃ / 2 ^ 32 := by
    rw [← UInt32.toNat_inj, toNat_tcr1 (hlt t₁), toNat_tcr1 (hlt t₃)]
  rw [readTmrctrRegs, toNat_joined, toNat_tcr1 (hlt t₃)]
  by_cases hsame : counter t₁ / 2 ^ 32 = counter t₃ / 2 ^ 32
  · -- the upper half was the same at the second reading
    rw [if_neg (not_not.mpr (hhi.mpr hsame)), toNat_tcr0]
    omega
  · rw [if_pos (mt hhi.mp hsame), toNat_tcr0]
    omega

/-- A timer whose upper half is about to change -/
def carryingCounter (t : Nat) : Nat := min (2 ^ 32 - 1 + t) (2 ^ 64 - 1)

theorem readTmrctr_between_carry :
    carryingCounter 0 ≤ (readTmrctrRegs (tcr1 (carryingCounter 0)) (tcr0 (carryingCounter 1))
      (tcr1 (carryingCounter 2)) (tcr0 (carryingCounter 3))).toNat ∧
    (readTmrctrRegs (tcr1 (carryingCounter 0)) (tcr0 (carryingCounter 1)) (tcr1 (carryingCounter 2))
      (tcr0 (carryingCounter 3))).toNat ≤ carryingCounter 3 :=
  readTmrctr_between (fun _ _ hle => by unfold carryingCounter; omega)
    (fun _ => by unfold carryingCounter; omega)
    (by decide) (by decide) (by decide)

/-! ## Waiting -/

/-- `ms_tmrctr`, when `read_tmrctr` returns `timer` -/
def msOfTimer (timer : UInt64) : UInt32 := ((timer >>> 15) &&& 0xffffffff).toUInt32 / 3

theorem msTmrctr_eq (r : CounterReads) : msTmrctr r = msOfTimer (readTmrctr r) := rfl

/-- The timer so many cycles after it was `start` -/
def timerAfter (start : UInt64) (cycles : Nat) : UInt64 := start + UInt64.ofNat cycles

/-- The `while` loop.  `polls k` is when the timer is read for the `k`-th time, in cycles from the
entry on. The result is the number of times it was read. -/
def waitLoop (start : UInt64) (polls : Nat → Nat) (currMs : UInt32) :
    Nat → UInt32 → Nat → Option Nat
  | 0, _, _ => none
  | fuel + 1, nextMs, k =>
    if nextMs ≤ currMs + 1000 then waitLoop start polls currMs fuel
      (msOfTimer (timerAfter start (polls k))) (k + 1)
    else some k

/-- The wait of `casper_tapcp_write_progdev`, of at most `fuel` tests -/
def progdevWait (start : UInt64) (polls : Nat → Nat) (fuel : Nat) : Option Nat :=
  waitLoop start polls (msOfTimer start) fuel 0 0

/-- The cycles since the ticks began anew -/
def phase (start : UInt64) : Nat := start.toNat % 2 ^ 47

/-- The milliseconds that have begun since the entry -/
def elapsedMs (start : UInt64) (cycles : Nat) : Nat :=
  (phase start + cycles) / cyclesPerMs - phase start / cyclesPerMs

/-- The timer goes on, and the loop reads it in every tick. -/
structure Polling (polls : Nat → Nat) : Prop where
  first : polls 0 ≤ 2 ^ 15
  mono : ∀ k, polls k ≤ polls (k + 1)
  next : ∀ k, polls (k + 1) ≤ polls k + 2 ^ 15
  goesOn : ∀ m, ∃ k, m ≤ polls k

/-- The wait ends, with the first reading at which more than a thousand milliseconds have begun, and
so after a thousand of them at least.  The second is one of a thousand units of `ms_tmrctr`, of
`3 * 2 ^ 15` cycles each: 0.98304 s at 100 MHz. -/
def WaitsOneSecond (start : UInt64) (polls : Nat → Nat) : Prop :=
  ∃ fuel k, progdevWait start polls fuel = some (k + 1) ∧ 1000 * cyclesPerMs < polls k ∧
    1000 < elapsedMs start (polls k) ∧ ∀ j < k, elapsedMs start (polls j) ≤ 1000

theorem lt_of_elapsedMs {start : UInt64} {cycles : Nat} (h : 1000 < elapsedMs start cycles) :
    1000 * cyclesPerMs < cycles := by
  unfold elapsedMs cyclesPerMs at *
  omega

theorem toNat_msOfTimer (timer : UInt64) : (msOfTimer timer).toNat = msOf timer.toNat := by
  have hticks : ((timer >>> 15) &&& 0xffffffff).toUInt32.toNat = timer.toNat / 2 ^ 15 % 2 ^ 32 := by
    rw [UInt64.toNat_toUInt32, UInt64.toNat_and, UInt64.toNat_shiftRight]
    show (timer.toNat >>> 15 &&& 2 ^ 32 - 1) % 2 ^ 32 = _
    rw [Nat.and_two_pow_sub_one_eq_mod, Nat.mod_mod, Nat.shiftRight_eq_div_pow]
  rw [msOfTimer, UInt32.toNat_div, hticks]
  rfl

/-- The milliseconds at the entry -/
theorem msOf_start (start : UInt64) : msOf start.toNat = phase start / cyclesPerMs := by
  unfold msOf phase cyclesPerMs
  omega

/-- The milliseconds later -/
theorem msOf_timerAfter (start : UInt64) (cycles : Nat) :
    msOf (timerAfter start cycles).toNat = (phase start + cycles) % 2 ^ 47 / cyclesPerMs := by
  rw [timerAfter, UInt64.toNat_add, UInt64.toNat_ofNat']
  unfold msOf phase cyclesPerMs
  omega

theorem toNat_deadline (start : UInt64) :
    (msOfTimer start + 1000).toNat = msOf start.toNat + 1000 := by
  have hle := msOf_le start.toNat
  rw [UInt32.toNat_add, toNat_msOfTimer]
  unfold lastMs at hle
  exact Nat.mod_eq_of_lt (by show msOf start.toNat + 1000 < 2 ^ 32; omega)

/-- The loop goes on while the milliseconds are not beyond the deadline. -/
theorem waitLoop_go {start : UInt64} {polls : Nat → Nat} {nextMs : UInt32} (fuel k : Nat)
    (h : nextMs.toNat ≤ msOf start.toNat + 1000) :
    waitLoop start polls (msOfTimer start) (fuel + 1) nextMs k
      = waitLoop start polls (msOfTimer start) fuel (msOfTimer (timerAfter start (polls k)))
        (k + 1) := by
  rw [waitLoop, if_pos]
  rwa [UInt32.le_iff_toNat_le, toNat_deadline]

theorem waitLoop_reach {start : UInt64} {polls : Nat → Nat} (fuel : Nat) :
    ∀ (m k : Nat) (nextMs : UInt32),
    nextMs.toNat ≤ msOf start.toNat + 1000 →
    (∀ j, k ≤ j → j < k + m → msOf (timerAfter start (polls j)).toNat ≤ msOf start.toNat + 1000) →
    waitLoop start polls (msOfTimer start) (fuel + (m + 1)) nextMs k
      = waitLoop start polls (msOfTimer start) fuel (msOfTimer (timerAfter start (polls (k + m))))
        (k + m + 1)
  | 0, k, nextMs, hnext, _ => waitLoop_go fuel k hnext
  | m + 1, k, nextMs, hnext, hbelow => by
    have hthis := hbelow k (Nat.le_refl k) (by omega)
    rw [← Nat.add_assoc, waitLoop_go _ k hnext,
      waitLoop_reach fuel m (k + 1) _ (by rwa [toNat_msOfTimer])
      fun j hkj hj => hbelow j (by omega) (by omega)]
    rw [show k + 1 + m = k + (m + 1) by omega]

/-- Deadlines that no milliseconds are beyond are never reached. -/
theorem waitLoop_none {start : UInt64} {polls : Nat → Nat}
    (hlate : lastMs ≤ msOf start.toNat + 1000) :
    ∀ (fuel k : Nat) (nextMs : UInt32), nextMs.toNat ≤ msOf start.toNat + 1000 →
      waitLoop start polls (msOfTimer start) fuel nextMs k = none
  | 0, _, _, _ => rfl
  | fuel + 1, k, nextMs, hnext => by
    have hms := msOf_le (timerAfter start (polls k)).toNat
    rw [waitLoop_go fuel k hnext]
    exact waitLoop_none hlate fuel (k + 1) _ (by rw [toNat_msOfTimer]; omega)

theorem not_waitsOneSecond {start : UInt64} {polls : Nat → Nat}
    (hlate : lastMs ≤ msOf start.toNat + 1000) : ¬WaitsOneSecond start polls := by
  rintro ⟨fuel, k, hret, -⟩
  rw [progdevWait, waitLoop_none hlate fuel 0 0 (Nat.zero_le _)] at hret
  cases hret

/-- Before the deadline the milliseconds have not begun anew. -/
theorem Polling.not_wrapped {start : UInt64} {polls : Nat → Nat} (h : Polling polls)
    (hearly : msOf start.toNat + 1000 < lastMs) {k : Nat}
    (hbefore : ∀ j < k, elapsedMs start (polls j) ≤ 1000) : phase start + polls k < 2 ^ 47 := by
  rw [msOf_start] at hearly
  have hprev : ∃ cycles, elapsedMs start cycles ≤ 1000 ∧ polls k ≤ cycles + 2 ^ 15 := by
    cases k with
    | zero => exact ⟨0, by simp [elapsedMs], by have hfirst := h.first; omega⟩
    | succ k => exact ⟨polls k, hbefore k (Nat.lt_succ_self k), h.next k⟩
  obtain ⟨cycles, hcycles, hnext⟩ := hprev
  unfold elapsedMs at hcycles
  unfold lastMs at hearly
  unfold cyclesPerMs at *
  omega

/-- **The wait takes a second exactly if it begins more than a second before the milliseconds begin
anew.** Otherwise it does not end. -/
theorem waitsOneSecond_iff (start : UInt64) {polls : Nat → Nat} (h : Polling polls) :
    WaitsOneSecond start polls ↔ (msOfTimer start).toNat + 1000 < (2 ^ 32 - 1) / 3 := by
  rw [toNat_msOfTimer]
  constructor
  · intro hwaits
    by_contra hlate
    exact not_waitsOneSecond (Nat.le_of_not_lt hlate) hwaits
  · intro hearly
    have hexists : ∃ k, 1000 < elapsedMs start (polls k) := by
      obtain ⟨k, hk⟩ := h.goesOn (1002 * cyclesPerMs)
      refine ⟨k, ?_⟩
      unfold elapsedMs cyclesPerMs at *
      omega
    have hbefore : ∀ j < Nat.find hexists, elapsedMs start (polls j) ≤ 1000 :=
      fun j hj => Nat.le_of_not_lt (Nat.find_min hexists hj)
    have hfound := Nat.find_spec hexists
    have hms : ∀ j ≤ Nat.find hexists, msOf (timerAfter start (polls j)).toNat
        = msOf start.toNat + elapsedMs start (polls j) := by
      intro j hj
      have hfits := h.not_wrapped hearly fun i hi => hbefore i (Nat.lt_of_lt_of_le hi hj)
      rw [msOf_timerAfter, Nat.mod_eq_of_lt hfits, msOf_start]
      unfold elapsedMs cyclesPerMs
      omega
    refine ⟨1 + (Nat.find hexists + 1), Nat.find hexists, ?_, lt_of_elapsedMs hfound,
      hfound, hbefore⟩
    rw [progdevWait, waitLoop_reach 1 (Nat.find hexists) 0 0 (Nat.zero_le _), Nat.zero_add,
      waitLoop, if_neg]
    · have hthis := hms _ (Nat.le_refl _)
      rw [UInt32.le_iff_toNat_le, toNat_deadline, toNat_msOfTimer]
      omega
    · intro j _ hj
      rw [Nat.zero_add] at hj
      have hthis := hms j (Nat.le_of_lt hj)
      have hle := hbefore j hj
      omega

/-- The timer is read at the end of every tick. -/
theorem polling_ticks : Polling (· * 2 ^ 15) where
  first := Nat.le_of_lt (by decide)
  mono k := by show k * 2 ^ 15 ≤ (k + 1) * 2 ^ 15; omega
  next k := by show (k + 1) * 2 ^ 15 ≤ k * 2 ^ 15 + 2 ^ 15; omega
  goesOn m := ⟨m, by show m ≤ m * 2 ^ 15; omega⟩

theorem waitsOneSecond_iff_afterReset : WaitsOneSecond 0 (· * 2 ^ 15) :=
  (waitsOneSecond_iff 0 polling_ticks).mpr (by decide)

/-- In the last second before the milliseconds begin anew -/
theorem lastSecond_not_waits : Polling (· * 2 ^ 15) ∧ ¬WaitsOneSecond 0x7fffffffffff (· * 2 ^ 15) :=
  ⟨polling_ticks, not_waitsOneSecond (by decide +kernel)⟩

end MlibDevel.Jam
