import Mathlib.Data.List.Count
import Mathlib.Data.UInt

/-!
# The addressing bit of the flash (`flash.c`)

Bit 0 of the non-volatile configuration register selects 3-byte addresses when it is 1 and 4-byte
addresses when it is 0.  `flash_enter_4b_non_volatile` and `flash_exit_4b_non_volatile` are to bring
the register to 4-byte and to 3-byte mode, and to leave it alone when it is there already: it keeps
its value without power and can be written only so many times.

`FlashDev` is the device, a Micron N25Q256A (`flash.h`), as far as these functions use it.  Every
`send_spi` call without `SEND_SPI_MORE` is one command.  How long a write of the register takes, and
what a write with one byte of data instead of two does to it, is left open.

The test of the one function is true for every value and its change toggles the bit; the other one
tests for the wrong value.  So only the first call on a device in 3-byte mode does what it should
(`configured_iff`).
-/

namespace MlibDevel.Jam

/-! ## The device -/

/-- `FLASH_WRITE_ENABLE` -/
def flashWriteEnable : UInt8 := 0x06

/-- `FLASH_WRITE_DISABLE` -/
def flashWriteDisable : UInt8 := 0x04

/-- `FLASH_READ_FLAG_STATUS_REG` -/
def flashReadFlagStatusReg : UInt8 := 0x70

/-- `FLASH_WRITE_NON_VOLATILE_CONFIG_REG` -/
def flashWriteNonVolatileConfigReg : UInt8 := 0xb1

/-- `FLASH_READ_NON_VOLATILE_CONFIG_REG` -/
def flashReadNonVolatileConfigReg : UInt8 := 0xb5

/-- `FLASH_ENTER_4B_MODE` -/
def flashEnter4bMode : UInt8 := 0xb7

/-- `FLASH_EXIT_4B_MODE` -/
def flashExit4bMode : UInt8 := 0xe9

/-- What the data sheet leaves to the device. -/
structure FlashTiming where
  /-- the status reads for which a write of the register takes, by the writes before -/
  latency : Nat → Nat
  /-- the register after a write with only one byte of data -/
  shortWrite : UInt16 → UInt8 → UInt16

/-- The state of the device. -/
structure FlashDev where
  /-- the non-volatile configuration register -/
  nvcr : UInt16
  writeEnabled : Bool
  fourByte : Bool
  /-- the status reads for which a write is still in progress -/
  busy : Nat
  /-- the number of commands to write the register so far -/
  writes : Nat
  deriving DecidableEq, Repr

variable (t : FlashTiming)

/-- The flag status register: bit 7 is set when nothing is in progress, bit 0 in 4-byte mode. -/
def FlashDev.flagStatus (d : FlashDev) : UInt8 :=
  (if d.busy = 0 then 0x80 else 0) ||| (if d.fourByte then 1 else 0)

/-- One command: the bytes sent, and the answer to each of them. -/
def FlashDev.command (d : FlashDev) : List UInt8 → FlashDev × List UInt8
  | [op] =>
    (if op = flashWriteEnable then { d with writeEnabled := true }
    else if op = flashWriteDisable then { d with writeEnabled := false }
    else if op = flashEnter4bMode ∧ d.writeEnabled then { d with fourByte := true }
    else if op = flashExit4bMode ∧ d.writeEnabled then { d with fourByte := false }
    else d, [0xff])
  | [op, x] =>
    if op = flashReadFlagStatusReg then ({ d with busy := d.busy - 1 }, [0xff, d.flagStatus])
    else if op = flashWriteNonVolatileConfigReg ∧ d.writeEnabled then
      ({ d with
        nvcr := t.shortWrite d.nvcr x
        busy := t.latency d.writes
        writes := d.writes + 1
        writeEnabled := false }, [0xff, 0xff])
    else (d, [0xff, 0xff])
  | [op, x, y] =>
    if op = flashReadNonVolatileConfigReg then
      (d, [0xff, d.nvcr.toUInt8, (d.nvcr >>> 8).toUInt8])
    else if op = flashWriteNonVolatileConfigReg ∧ d.writeEnabled then
      ({ d with
        nvcr := x.toUInt16 ||| y.toUInt16 <<< 8
        busy := t.latency d.writes
        writes := d.writes + 1
        writeEnabled := false }, [0xff, 0xff, 0xff])
    else (d, [0xff, 0xff, 0xff])
  | sent => (d, sent.map fun _ => 0xff)

/-- A power cycle: the register is kept, and decides about the addresses. -/
def FlashDev.boot (d : FlashDev) : FlashDev :=
  { d with writeEnabled := false, fourByte := d.nvcr &&& 1 = 0, busy := 0 }

@[simp]
theorem FlashDev.boot_nvcr (d : FlashDev) : d.boot.nvcr = d.nvcr := rfl

@[simp]
theorem FlashDev.boot_writes (d : FlashDev) : d.boot.writes = d.writes := rfl

/-! ## `flash.c` -/

/-- `buf[i]` after a transfer in place -/
def bufAt (buf : List UInt8) (i : Nat) : UInt8 := buf[i]?.getD 0

/-- A command of one byte. -/
def FlashDev.command1 (d : FlashDev) (op : UInt8) : FlashDev := (d.command t [op]).1

/-- `flash_enter_4b_mode`; what it reads back only decides about a message. -/
def enter4bMode (d : FlashDev) : FlashDev :=
  let d := d.command1 t flashWriteEnable
  let d := d.command1 t flashEnter4bMode
  let d := (d.command t [flashReadFlagStatusReg, 0]).1
  d.command1 t flashWriteDisable

/-- `flash_exit_4b_mode`; what it reads back only decides about a message. -/
def exit4bMode (d : FlashDev) : FlashDev :=
  let d := d.command1 t flashWriteEnable
  let d := d.command1 t flashExit4bMode
  let d := (d.command t [flashReadFlagStatusReg, 0]).1
  d.command1 t flashWriteDisable

theorem flagStatus_ready (d : FlashDev) :
    ((d.flagStatus >>> 7) &&& 1).toNat = if d.busy = 0 then 1 else 0 := by
  unfold FlashDev.flagStatus
  split <;> split <;> rfl

/-- Poll the flag status register until it has been high twice. -/
def waitComplete (d : FlashDev) (complete : Nat) : FlashDev :=
  if _h : complete < 2 then
    let r := d.command t [flashReadFlagStatusReg, 0]
    waitComplete r.1 (complete + ((bufAt r.2 1 >>> 7) &&& 1).toNat)
  else d
termination_by d.busy + (2 - complete)
decreasing_by
  show d.busy - 1 + (2 - (complete + ((d.flagStatus >>> 7) &&& 1).toNat)) < _
  rw [flagStatus_ready]
  split <;> omega

/-- `flash_enter_4b_non_volatile` -/
def enter4bNonVolatile (d : FlashDev) : FlashDev :=
  let (d, buf) := d.command t [flashReadNonVolatileConfigReg, 0, 0]
  -- `~(buf[1] & 1)` is computed as an `int`
  let d := if ~~~(bufAt buf 1 &&& 1).toUInt32 ≠ 0 then
      let d := d.command1 t flashWriteEnable
      let d := (d.command t
        [flashWriteNonVolatileConfigReg, bufAt buf 1 ^^^ 1, bufAt buf 2]).1
      let d := waitComplete t d 0
      d.command1 t flashWriteDisable
    else d
  enter4bMode t d

/-- `flash_exit_4b_non_volatile` -/
def exit4bNonVolatile (d : FlashDev) : FlashDev :=
  let (d, buf) := d.command t [flashReadNonVolatileConfigReg, 0, 0]
  let d := if bufAt buf 1 &&& 1 ≠ 0 then
      let d := d.command1 t flashWriteEnable
      let d := (d.command t [flashWriteNonVolatileConfigReg, bufAt buf 1 ||| 1]).1
      let d := waitComplete t d 0
      d.command1 t flashWriteDisable
    else d
  exit4bMode t d

/-- What can happen to the device. -/
inductive FlashCall
  | boot | enter4b | exit4b
  deriving DecidableEq, Repr

/-- The device after a power cycle or a call. -/
def FlashCall.run : FlashCall → FlashDev → FlashDev
  | .boot, d => d.boot
  | .enter4b, d => enter4bNonVolatile t d
  | .exit4b, d => exit4bNonVolatile t d

/-! ## What is to hold -/

/-- The register as a call is to leave it: the addressing bit set or cleared, and nothing else. -/
def FlashCall.wanted : FlashCall → UInt16 → UInt16
  | .boot, nvcr => nvcr
  | .enter4b, nvcr => nvcr &&& ~~~1
  | .exit4b, nvcr => nvcr ||| 1

/-- A call leaves the register as wanted, and does not write it when it is so already. -/
def FlashCall.Configures (call : FlashCall) (d d' : FlashDev) : Prop :=
  d'.nvcr = call.wanted d.nvcr ∧ (call.wanted d.nvcr = d.nvcr → d'.writes = d.writes)

/-- Every call of a run does. -/
def Configured : List FlashCall → FlashDev → Prop
  | [], _ => True
  | call :: calls, d => call.Configures d (call.run t d) ∧ Configured calls (call.run t d)

/-! ## Commands that leave the register alone -/

variable {t}

/-- The register and the number of its writes are the same. -/
def RegisterKept (d d' : FlashDev) : Prop := d'.nvcr = d.nvcr ∧ d'.writes = d.writes

theorem RegisterKept.trans {d₁ d₂ d₃ : FlashDev} (h₁ : RegisterKept d₁ d₂)
    (h₂ : RegisterKept d₂ d₃) : RegisterKept d₁ d₃ :=
  ⟨h₂.1.trans h₁.1, h₂.2.trans h₁.2⟩

theorem command1_kept (d : FlashDev) (op : UInt8) : RegisterKept d (d.command1 t op) := by
  simp only [FlashDev.command1, FlashDev.command]
  split_ifs <;> exact ⟨rfl, rfl⟩

theorem waitComplete_kept (d : FlashDev) (complete : Nat) :
    RegisterKept d (waitComplete t d complete) := by
  fun_induction waitComplete t d complete with
  | case1 d complete _ r ih => exact RegisterKept.trans ⟨rfl, rfl⟩ ih
  | case2 d complete _ => exact ⟨rfl, rfl⟩

theorem enter4bMode_kept (d : FlashDev) : RegisterKept d (enter4bMode t d) :=
  (((command1_kept d _).trans (command1_kept _ _)).trans ⟨rfl, rfl⟩).trans (command1_kept _ _)

theorem exit4bMode_kept (d : FlashDev) : RegisterKept d (exit4bMode t d) :=
  (((command1_kept d _).trans (command1_kept _ _)).trans ⟨rfl, rfl⟩).trans (command1_kept _ _)

/-! ## The calls -/

/-- `~(x & 1)` is not zero for any `x`. -/
theorem not_and_one_ne_zero (x : UInt8) : ~~~(x &&& 1).toUInt32 ≠ 0 := by
  intro h
  have hall : (x &&& 1).toUInt32 = ~~~0 := by rw [← h, UInt32.not_not]
  have hbit : (x &&& 1).toNat = x.toNat % 2 := by
    rw [UInt8.toNat_and]
    exact Nat.and_one_is_mod x.toNat
  have := congrArg UInt32.toNat hall
  rw [UInt8.toNat_toUInt32, hbit] at this
  exact absurd this (by simp; omega)

/-- The bytes of the register, with the lowest bit toggled, put together again. -/
theorem toggle_bytes (nvcr : UInt16) :
    (nvcr.toUInt8 ^^^ 1).toUInt16 ||| (nvcr >>> 8).toUInt8.toUInt16 <<< 8 = nvcr ^^^ 1 := by
  apply UInt16.toBitVec_inj.mp
  show (nvcr.toBitVec.setWidth 8 ^^^ 1#8).setWidth 16 |||
    ((nvcr.toBitVec >>> 8).setWidth 8).setWidth 16 <<< 8 = nvcr.toBitVec ^^^ 1#16
  ext i hi
  simp only [BitVec.getElem_or, BitVec.getElem_setWidth, BitVec.getLsbD_xor,
    BitVec.getElem_shiftLeft, BitVec.getLsbD_setWidth, BitVec.getElem_xor,
    BitVec.getLsbD_ushiftRight]
  rcases Nat.lt_or_ge i 8 with hlow | hhigh
  · simp [hlow]
    grind
  · simp [hhigh]
    grind

/-- The register is written in any case, with the addressing bit the other way round. -/
theorem enter4bNonVolatile_spec (d : FlashDev) :
    (enter4bNonVolatile t d).nvcr = d.nvcr ^^^ 1 ∧
      (enter4bNonVolatile t d).writes = d.writes + 1 := by
  have hkept : RegisterKept ((({ d with writeEnabled := true } : FlashDev).command t
      [flashWriteNonVolatileConfigReg, d.nvcr.toUInt8 ^^^ 1, (d.nvcr >>> 8).toUInt8]).1)
      (enter4bNonVolatile t d) := by
    unfold enter4bNonVolatile
    dsimp only
    rw [if_pos (not_and_one_ne_zero _)]
    exact ((waitComplete_kept _ 0).trans (command1_kept _ _)).trans (enter4bMode_kept _)
  refine ⟨hkept.1.trans ?_, hkept.2⟩
  exact toggle_bytes d.nvcr

/-- In 4-byte mode nothing happens; in 3-byte mode the register is written. -/
theorem exit4bNonVolatile_spec (d : FlashDev) :
    (d.nvcr &&& 1 = 0 → (exit4bNonVolatile t d).nvcr = d.nvcr) ∧
      (d.nvcr &&& 1 ≠ 0 → (exit4bNonVolatile t d).writes = d.writes + 1) := by
  have hbit : bufAt (d.command t [flashReadNonVolatileConfigReg, 0, 0]).2 1 &&& 1 = 0 ↔
      d.nvcr &&& 1 = 0 := by
    show d.nvcr.toUInt8 &&& 1 = 0 ↔ _
    rw [← UInt8.toNat_inj, ← UInt16.toNat_inj, UInt8.toNat_and, UInt16.toNat_and,
      UInt16.toNat_toUInt8]
    simp
  unfold exit4bNonVolatile
  constructor
  · intro hzero
    dsimp only
    rw [if_neg (not_not.mpr (hbit.mpr hzero))]
    exact (exit4bMode_kept d).1
  · intro hone
    dsimp only
    rw [if_pos (mt hbit.mp hone)]
    exact (((waitComplete_kept _ 0).trans (command1_kept _ _)).trans (exit4bMode_kept _)).2

/-! ## Runs -/

/-- The addressing bit selects 3-byte addresses. -/
def ThreeByte (nvcr : UInt16) : Prop := nvcr &&& 1 ≠ 0

theorem threeByte_iff (nvcr : UInt16) : ThreeByte nvcr ↔ nvcr.toBitVec[0] = true := by
  rw [ThreeByte, ne_eq, ← UInt16.toBitVec_inj, ← Bool.not_eq_false, not_iff_not]
  show nvcr.toBitVec &&& 1#16 = 0#16 ↔ _
  constructor
  · intro h
    simpa using congrArg (·[0]) h
  · intro h
    ext i hi
    cases i <;> simp [h]

/-- Toggling the bit clears it if it is set, and only then. -/
theorem toggle_eq_clear_iff (nvcr : UInt16) : nvcr ^^^ 1 = nvcr &&& ~~~1 ↔ ThreeByte nvcr := by
  rw [threeByte_iff, ← UInt16.toBitVec_inj]
  show nvcr.toBitVec ^^^ 1#16 = nvcr.toBitVec &&& ~~~1#16 ↔ _
  constructor
  · intro h
    simpa using congrArg (·[0]) h
  · intro h
    ext i hi
    cases i <;> simp [h, -BitVec.reduceNot]

theorem threeByte_toggle_iff (nvcr : UInt16) : ThreeByte (nvcr ^^^ 1) ↔ ¬ThreeByte nvcr := by
  rw [threeByte_iff, threeByte_iff]
  show (nvcr.toBitVec ^^^ 1#16)[0] = true ↔ _
  simp

theorem set_eq_iff (nvcr : UInt16) : nvcr ||| 1 = nvcr ↔ ThreeByte nvcr := by
  rw [threeByte_iff, ← UInt16.toBitVec_inj]
  show nvcr.toBitVec ||| 1#16 = nvcr.toBitVec ↔ _
  constructor
  · intro h
    simpa using congrArg (·[0]) h.symm
  · intro h
    ext i hi
    cases i <;> simp [h]

theorem clear_ne_of_threeByte {nvcr : UInt16} (h : ThreeByte nvcr) : nvcr &&& ~~~1 ≠ nvcr := by
  intro heq
  rw [← (toggle_eq_clear_iff nvcr).mpr h] at heq
  have := (threeByte_toggle_iff nvcr).mp (by rwa [heq])
  exact this h

/-- Entering 4-byte mode works in 3-byte mode only. -/
theorem enter4b_configures_iff (d : FlashDev) :
    FlashCall.enter4b.Configures d (enter4bNonVolatile t d) ↔ ThreeByte d.nvcr := by
  obtain ⟨hnvcr, -⟩ := enter4bNonVolatile_spec (t := t) d
  rw [FlashCall.Configures, FlashCall.wanted, hnvcr, toggle_eq_clear_iff]
  exact ⟨fun h => h.1, fun h => ⟨h, fun heq => absurd heq (clear_ne_of_threeByte h)⟩⟩

/-- Leaving it does not work at all. -/
theorem not_exit4b_configures (d : FlashDev) :
    ¬FlashCall.exit4b.Configures d (exit4bNonVolatile t d) := by
  obtain ⟨hfour, hthree⟩ := exit4bNonVolatile_spec (t := t) d
  rintro ⟨hnvcr, hwrites⟩
  simp only [FlashCall.wanted, set_eq_iff] at hnvcr hwrites
  by_cases h : ThreeByte d.nvcr
  · have := hthree h
    have := hwrites h
    omega
  · rw [hfour (not_not.mp h)] at hnvcr
    exact h ((set_eq_iff _).mp hnvcr.symm)

/--
**Every call of a run leaves the register as wanted, without a write that is not needed, if and only
if** there is no call to leave 4-byte mode and at most one to enter it, on a device in 3-byte mode.
-/
theorem configured_iff : ∀ (calls : List FlashCall) (d : FlashDev),
    Configured t calls d ↔ .exit4b ∉ calls ∧
      (.enter4b ∉ calls ∨ calls.count .enter4b = 1 ∧ ThreeByte d.nvcr)
  | [], d => by simp [Configured]
  | .boot :: calls, d => by
    rw [Configured, configured_iff calls]
    simp [FlashCall.Configures, FlashCall.wanted, FlashCall.run]
  | .enter4b :: calls, d => by
    obtain ⟨hnvcr, -⟩ := enter4bNonVolatile_spec (t := t) d
    rw [Configured, configured_iff calls, FlashCall.run, enter4b_configures_iff, hnvcr,
      threeByte_toggle_iff]
    simp only [List.mem_cons, reduceCtorEq, false_or, List.count_cons_self, Nat.add_eq_right,
      List.count_eq_zero, true_or, not_true_eq_false]
    tauto
  | .exit4b :: calls, d => by
    rw [Configured, FlashCall.run]
    simp [not_exit4b_configures]

/-- From the value a device is delivered with, the second boot takes the mode back. -/
theorem secondBoot_not_configured :
    ¬Configured ⟨fun _ => 3, fun nvcr _ => nvcr⟩ [.boot, .enter4b, .boot, .enter4b]
      { nvcr := 0xffff, writeEnabled := false, fourByte := false, busy := 0, writes := 0 } := by
  rintro ⟨-, -, -, hsecond, -⟩
  have hthree := (enter4b_configures_iff _).mp hsecond
  simp only [FlashCall.run, FlashDev.boot_nvcr, enter4bNonVolatile_spec] at hthree
  exact (threeByte_toggle_iff 0xffff).mp hthree (by rw [ThreeByte]; decide)

end MlibDevel.Jam
