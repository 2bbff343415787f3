import Mathlib.Data.UInt

/-!
# The SPI transaction function (`spi.c`)

`send_spi` drives the registers of the SPI core: it enables the core and selects the slave, unless a
transaction is open already, moves the bytes through the FIFOs in chunks of 16 and, without
`SEND_SPI_MORE`, deselects the slave and disables the core.

The control and the slave select register hold what was last written to them.  What the core answers
to reads of the status register and of the receive FIFO is up to the hardware: `SpiResponses` is an
arbitrary sequence of both.

The two error returns are inside the loop and leave out the clean-up.  So a call closes the
transaction if and only if the hardware keeps up with it (`sendSpi_closes_iff`).
-/

namespace MlibDevel.Jam

/-! ## The core -/

/-- `SEND_SPI_MORE` -/
def sendSpiMore : UInt32 := 0x01

/-- `XSP_CR_ENABLE_MASK` -/
def xspCrEnableMask : UInt32 := 0x00000002

/-- `XSP_CR_TXFIFO_RESET_MASK` -/
def xspCrTxfifoResetMask : UInt32 := 0x00000020

/-- `XSP_CR_RXFIFO_RESET_MASK` -/
def xspCrRxfifoResetMask : UInt32 := 0x00000040

/-- `XSP_CR_TRANS_INHIBIT_MASK` -/
def xspCrTransInhibitMask : UInt32 := 0x00000100

/-- `XSP_SR_RX_EMPTY_MASK` -/
def xspSrRxEmptyMask : UInt32 := 0x00000001

/-- `XSP_SR_TX_EMPTY_MASK` -/
def xspSrTxEmptyMask : UInt32 := 0x00000004

/-- The values the core returns, by the number of reads before. -/
structure SpiResponses where
  status : Nat → UInt32
  data : Nat → UInt32

/-- The registers of the core, the bytes written to its transmit FIFO, and the reads so far. -/
structure SpiCore where
  control : UInt32
  slaveSelect : UInt32
  sent : List UInt8
  statusReads : Nat
  dataReads : Nat
  deriving DecidableEq, Repr

variable (hw : SpiResponses)

/-- `XSpi_GetStatusReg` -/
def SpiCore.getStatusReg (c : SpiCore) : SpiCore × UInt32 :=
  ({ c with statusReads := c.statusReads + 1 }, hw.status c.statusReads)

/-- A read of `XSP_DRR_OFFSET`, of which the low byte counts. -/
def SpiCore.readData (c : SpiCore) : SpiCore × UInt8 :=
  ({ c with dataReads := c.dataReads + 1 }, (hw.data c.dataReads).toUInt8)

/-- `XSpi_Enable`, with its 16-bit copy of the control register. -/
def SpiCore.enable (c : SpiCore) : SpiCore :=
  let control := c.control.toUInt16 ||| xspCrEnableMask.toUInt16
  let control := control &&& ~~~xspCrTransInhibitMask.toUInt16
  { c with control := control.toUInt32 }

/-- `XSpi_Disable` -/
def SpiCore.disable (c : SpiCore) : SpiCore :=
  { c with control := c.control &&& ~~~xspCrEnableMask }

/-- The core is enabled. -/
def SpiCore.enabled (c : SpiCore) : Bool := c.control.toUInt16 &&& xspCrEnableMask.toUInt16 ≠ 0

/-! ## `send_spi` -/

/-- If not already enabled, start a new transaction. -/
def startTransaction (c : SpiCore) : SpiCore :=
  if c.enabled then c
  else
    let control := c.control.toUInt16 |||
      (xspCrTxfifoResetMask ||| xspCrRxfifoResetMask).toUInt16
    let c := { c with control := control.toUInt32 }
    { c.enable with slaveSelect := ~~~1 }

/-- Read the status until the transmit FIFO is empty, at most so many times. -/
def waitTxEmpty : Nat → SpiCore → SpiCore × Bool
  | 0, c => (c, false)
  | polls + 1, c =>
    let (c, status) := c.getStatusReg hw
    if status &&& xspSrTxEmptyMask ≠ 0 then (c, true) else waitTxEmpty polls c

/-- Read so many bytes from the receive FIFO; stop when it is empty. -/
def readRxFifo : Nat → SpiCore → SpiCore × List UInt8 × Bool
  | 0, c => (c, [], true)
  | n + 1, c =>
    let (c, status) := c.getStatusReg hw
    if status &&& xspSrRxEmptyMask ≠ 0 then (c, [], false)
    else
      let (c, byte) := c.readData hw
      let (c, rest, ok) := readRxFifo n c
      (c, byte :: rest, ok)

/-- `bytes_to_xfer` -/
def bytesToXfer (bytesRemaining : Nat) : Nat := if bytesRemaining < 16 then bytesRemaining else 16

/--
The loop of `send_spi` with at most `polls` reads of the status while it waits: the bytes received
and `bytes_remaining`, and whether the loop has run to its end.  `src` is the byte at an offset from
the start of the buffer.
-/
def sendLoop (polls : Nat) (src : Nat → UInt8) (offset bytesRemaining : Nat) (c : SpiCore) :
    SpiCore × List UInt8 × Nat × Bool :=
  if _h : 0 < bytesRemaining then
    let n := bytesToXfer bytesRemaining
    let c := { c with sent := c.sent ++ (List.range n).map fun i => src (offset + i) }
    match waitTxEmpty hw polls c with
    | (c, false) => (c, [], bytesRemaining, false)
    | (c, true) =>
      match readRxFifo hw n c with
      | (c, dst, false) => (c, dst, bytesRemaining - dst.length, false)
      | (c, dst, true) =>
        let (c, rest, left, ok) := sendLoop polls src (offset + n) (bytesRemaining - n) c
        (c, dst ++ rest, left, ok)
  else (c, [], 0, true)
termination_by bytesRemaining
decreasing_by
  unfold bytesToXfer
  split <;> omega

/-- `send_spi`: the value returned, and what has been stored from `dst` on. -/
def sendSpi (src : Nat → UInt8) (len opt : UInt32) (c : SpiCore) : SpiCore × UInt32 × List UInt8 :=
  match sendLoop hw 1000 src 0 len.toNat (startTransaction c) with
  | (c, dst, bytesRemaining, false) => (c, len - UInt32.ofNat bytesRemaining, dst)
  | (c, dst, _, true) =>
    if opt &&& sendSpiMore = 0 then
      let c := { c with slaveSelect := ~~~0 }
      (c.disable, len, dst)
    else (c, len, dst)

/-! ## What is to hold -/

/-- The slave is deselected and the core disabled, so the next call starts a transaction. -/
def SpiCore.Idle (c : SpiCore) : Prop := c.slaveSelect = 0xffffffff ∧ c.enabled = false

/-- All `len` bytes from `src` on have been sent, and so many received. -/
def Transferred (src : Nat → UInt8) (len : UInt32) (c c' : SpiCore) (dst : List UInt8) : Prop :=
  c'.sent = c.sent ++ (List.range len.toNat).map src ∧ dst.length = len.toNat

/--
The hardware keeps up with a transfer when `k` reads of the status have been made: for every chunk
one of `polls` reads shows an empty transmit FIFO, and after that the receive FIFO is not empty for
as many reads as the chunk has bytes.
-/
inductive KeepsUp (polls : Nat) : Nat → Nat → Prop
  | done (k : Nat) : KeepsUp polls k 0
  | chunk {k j remaining : Nat} (hpos : 0 < remaining) (hj : j < polls)
      (hbusy : ∀ i < j, hw.status (k + i) &&& xspSrTxEmptyMask = 0)
      (hempty : hw.status (k + j) &&& xspSrTxEmptyMask ≠ 0)
      (hdata : ∀ i < bytesToXfer remaining, hw.status (k + j + 1 + i) &&& xspSrRxEmptyMask = 0)
      (hrest : KeepsUp polls (k + j + 1 + bytesToXfer remaining)
        (remaining - bytesToXfer remaining)) :
      KeepsUp polls k remaining

/-! ## The hardware's part -/

variable {hw}

/-- Without an empty transmit FIFO the hardware does not keep up. -/
theorem not_keepsUp_of_busy {polls k remaining : Nat} (hpos : 0 < remaining)
    (hbusy : ∀ i < polls, hw.status (k + i) &&& xspSrTxEmptyMask = 0) :
    ¬KeepsUp hw polls k remaining := by
  intro h
  cases h with
  | done => exact absurd hpos (Nat.lt_irrefl 0)
  | chunk _ hj _ hempty => exact hempty (hbusy _ hj)

/-- The first read that shows an empty transmit FIFO decides about the rest. -/
theorem keepsUp_chunk_iff {polls k j remaining : Nat} (hpos : 0 < remaining) (hj : j < polls)
    (hbusy : ∀ i < j, hw.status (k + i) &&& xspSrTxEmptyMask = 0)
    (hempty : hw.status (k + j) &&& xspSrTxEmptyMask ≠ 0) :
    KeepsUp hw polls k remaining ↔
      (∀ i < bytesToXfer remaining, hw.status (k + j + 1 + i) &&& xspSrRxEmptyMask = 0) ∧
        KeepsUp hw polls (k + j + 1 + bytesToXfer remaining)
          (remaining - bytesToXfer remaining) := by
  constructor
  · intro h
    cases h with
    | done => exact absurd hpos (Nat.lt_irrefl 0)
    | @chunk _ j' _ _ _ hbusy' hempty' hdata hrest =>
      have heq : j' = j := by
        rcases Nat.lt_trichotomy j' j with hlt | heq | hgt
        · exact absurd (hbusy j' hlt) hempty'
        · exact heq
        · exact absurd (hbusy' j hgt) hempty
      subst heq
      exact ⟨hdata, hrest⟩
  · rintro ⟨hdata, hrest⟩
    exact .chunk hpos hj hbusy hempty hdata hrest

/-! ## The loop -/

variable (hw)

/-- The wait ends with the first read that shows an empty FIFO, or with a time-out. -/
theorem waitTxEmpty_spec : ∀ (polls : Nat) (c : SpiCore),
    (∃ j < polls, (∀ i < j, hw.status (c.statusReads + i) &&& xspSrTxEmptyMask = 0) ∧
      hw.status (c.statusReads + j) &&& xspSrTxEmptyMask ≠ 0 ∧
      waitTxEmpty hw polls c = ({ c with statusReads := c.statusReads + j + 1 }, true)) ∨
    ((∀ i < polls, hw.status (c.statusReads + i) &&& xspSrTxEmptyMask = 0) ∧
      waitTxEmpty hw polls c = ({ c with statusReads := c.statusReads + polls }, false))
  | 0, c => Or.inr ⟨fun i hi => absurd hi (Nat.not_lt_zero i), rfl⟩
  | polls + 1, c => by
    by_cases hempty : hw.status c.statusReads &&& xspSrTxEmptyMask = 0
    · have hstep : waitTxEmpty hw (polls + 1) c =
          waitTxEmpty hw polls { c with statusReads := c.statusReads + 1 } := by
        simp [waitTxEmpty, SpiCore.getStatusReg, hempty]
      have hzero : ∀ {j : Nat},
        (∀ i < j, hw.status (c.statusReads + 1 + i) &&& xspSrTxEmptyMask = 0) →
          ∀ i < j + 1, hw.status (c.statusReads + i) &&& xspSrTxEmptyMask = 0 := by
        intro j h i hi
        cases i with
        | zero => exact hempty
        | succ i =>
          have := h i (by omega)
          rwa [Nat.add_assoc, Nat.add_comm 1] at this
      rw [hstep]
      rcases waitTxEmpty_spec polls { c with statusReads := c.statusReads + 1 } with
        ⟨j, hj, hbusy, hend, hwait⟩ | ⟨hbusy, hwait⟩
      · refine Or.inl ⟨j + 1, by omega, hzero hbusy, ?_, ?_⟩
        · rwa [Nat.add_comm j, ← Nat.add_assoc]
        · rw [hwait, show c.statusReads + (j + 1) = c.statusReads + 1 + j by omega]
      · refine Or.inr ⟨hzero hbusy, ?_⟩
        rw [hwait, show c.statusReads + (polls + 1) = c.statusReads + 1 + polls by omega]
    · refine Or.inl ⟨0, by omega, fun i hi => absurd hi (Nat.not_lt_zero i), hempty, ?_⟩
      simp [waitTxEmpty, SpiCore.getStatusReg, hempty]

/-- All bytes of a chunk are read, or the receive FIFO is empty before. -/
theorem readRxFifo_spec : ∀ (n : Nat) (c : SpiCore),
    ((∀ i < n, hw.status (c.statusReads + i) &&& xspSrRxEmptyMask = 0) ∧
      ∃ dst, dst.length = n ∧ readRxFifo hw n c =
        ({ c with statusReads := c.statusReads + n, dataReads := c.dataReads + n }, dst, true)) ∨
    ((∃ i < n, hw.status (c.statusReads + i) &&& xspSrRxEmptyMask ≠ 0) ∧
      ∃ c' dst, dst.length < n ∧ readRxFifo hw n c = (c', dst, false) ∧
        c'.control = c.control)
  | 0, c => Or.inl ⟨fun i hi => absurd hi (Nat.not_lt_zero i), [], rfl, rfl⟩
  | n + 1, c => by
    by_cases hempty : hw.status c.statusReads &&& xspSrRxEmptyMask = 0
    · have hstep : readRxFifo hw (n + 1) c =
          let r := readRxFifo hw n { c with
            statusReads := c.statusReads + 1, dataReads := c.dataReads + 1 }
          (r.1, (hw.data c.dataReads).toUInt8 :: r.2.1, r.2.2) := by
        simp [readRxFifo, SpiCore.getStatusReg, SpiCore.readData, hempty]
      rw [hstep]
      rcases readRxFifo_spec n { c with
          statusReads := c.statusReads + 1, dataReads := c.dataReads + 1 } with
        ⟨hall, dst, hlen, hread⟩ | ⟨⟨i, hi, hbad⟩, c', dst, hlen, hread, hcontrol⟩
      · refine Or.inl ⟨?_, (hw.data c.dataReads).toUInt8 :: dst, by rw [List.length_cons, hlen], ?_⟩
        · intro i hi
          cases i with
          | zero => exact hempty
          | succ i =>
            have := hall i (by omega)
            rwa [Nat.add_assoc, Nat.add_comm 1] at this
        · rw [hread, show c.statusReads + (n + 1) = c.statusReads + 1 + n by omega,
            show c.dataReads + (n + 1) = c.dataReads + 1 + n by omega]
      · refine Or.inr ⟨⟨i + 1, by omega, ?_⟩, c', (hw.data c.dataReads).toUInt8 :: dst, ?_, ?_,
          hcontrol⟩
        · rwa [Nat.add_comm i, ← Nat.add_assoc]
        · rw [List.length_cons]
          omega
        · rw [hread]
    · refine Or.inr ⟨⟨0, by omega, hempty⟩, { c with statusReads := c.statusReads + 1 }, [],
        by simp, ?_, rfl⟩
      simp [readRxFifo, SpiCore.getStatusReg, hempty]

/-- A chunk is not larger than what remains, and not empty. -/
theorem bytesToXfer_bounds {remaining : Nat} (hpos : 0 < remaining) :
    0 < bytesToXfer remaining ∧ bytesToXfer remaining ≤ remaining := by
  unfold bytesToXfer
  split <;> omega

/-- The loop runs to its end if and only if the hardware keeps up, and leaves the control register
alone. -/
theorem sendLoop_spec (polls : Nat) (src : Nat → UInt8) (remaining offset : Nat) (c : SpiCore) :
    ∃ c' dst left ok, sendLoop hw polls src offset remaining c = (c', dst, left, ok) ∧
      c'.control = c.control ∧ dst.length + left = remaining ∧
      (ok = true ↔ left = 0) ∧ (ok = true ↔ KeepsUp hw polls c.statusReads remaining) ∧
      (ok = true → c'.sent = c.sent ++ (List.range remaining).map fun i => src (offset + i)) := by
  induction remaining using Nat.strong_induction_on generalizing offset c with
  | _ remaining ih =>
    rw [sendLoop]
    split
    · next hpos =>
      obtain ⟨hn, hle⟩ := bytesToXfer_bounds hpos
      dsimp only
      generalize hbytes : (List.range (bytesToXfer remaining)).map
        (fun i => src (offset + i)) = bytes
      rcases waitTxEmpty_spec hw polls { c with sent := c.sent ++ bytes } with
        ⟨j, hj, hbusy, hempty, hwait⟩ | ⟨hbusy, hwait⟩
      · rw [hwait]
        dsimp only
        have hkeeps := keepsUp_chunk_iff hpos hj hbusy hempty
        rcases readRxFifo_spec hw (bytesToXfer remaining)
            { c with sent := c.sent ++ bytes, statusReads := c.statusReads + j + 1 } with
          ⟨hall, dst, hlen, hread⟩ | ⟨⟨i, hi, hbad⟩, c', dst, hlen, hread, hcontrol⟩
        · rw [hread]
          obtain ⟨c', rest, left, ok, hloop, hcontrol, hsum, hleft, hok, hsent⟩ :=
            ih (remaining - bytesToXfer remaining) (by omega) (offset + bytesToXfer remaining)
              { c with
                sent := c.sent ++ bytes
                statusReads := c.statusReads + j + 1 + bytesToXfer remaining
                dataReads := c.dataReads + bytesToXfer remaining }
          dsimp only
          rw [hloop]
          refine ⟨c', dst ++ rest, left, ok, rfl, hcontrol, ?_, hleft, ?_, ?_⟩
          · rw [List.length_append]
            omega
          · rw [hok, hkeeps]
            exact ⟨fun h => ⟨hall, h⟩, fun h => h.2⟩
          · intro h
            have hrange : List.range remaining = List.range (bytesToXfer remaining) ++
                (List.range (remaining - bytesToXfer remaining)).map
                  (bytesToXfer remaining + ·) := by
              rw [← List.range_add, Nat.add_sub_cancel' hle]
            rw [hsent h, ← hbytes, hrange]
            simp [Nat.add_assoc, Function.comp_def]
        · -- underflow: the bytes read before it are the last ones
          rw [hread]
          refine ⟨c', dst, _, false, rfl, hcontrol, by omega, ?_, ?_, by simp⟩
          · simp
            omega
          · simp only [Bool.false_eq_true, false_iff]
            rw [hkeeps]
            exact fun h => hbad (h.1 i hi)
      · -- time-out
        rw [hwait]
        refine ⟨_, [], remaining, false, rfl, rfl, by simp, ?_, ?_, by simp⟩
        · simp
          omega
        · simp only [Bool.false_eq_true, false_iff]
          exact not_keepsUp_of_busy hpos hbusy
    · next hzero =>
      obtain rfl : remaining = 0 := by omega
      exact ⟨c, [], 0, true, rfl, rfl, rfl, by simp, by simp [KeepsUp.done], by simp⟩

/-! ## The call -/

/-- Bits that have been set. -/
theorem or_and_cancel (x m : UInt16) : (x ||| m) &&& m = m := by
  apply UInt16.toBitVec_inj.mp
  ext i hi
  simpa using Or.inr

/-- A transaction that is not closed leaves the core enabled. -/
theorem startTransaction_enabled (c : SpiCore) : (startTransaction c).enabled = true := by
  unfold startTransaction
  split
  · assumption
  · have hmask : ~~~xspCrTransInhibitMask.toUInt16 &&& xspCrEnableMask.toUInt16 =
        xspCrEnableMask.toUInt16 := by decide
    simp only [SpiCore.enabled, SpiCore.enable, UInt16.toUInt16_toUInt32, UInt16.and_assoc, hmask,
      or_and_cancel]
    decide

theorem disable_enabled (c : SpiCore) : c.disable.enabled = false := by
  have hmask : (~~~xspCrEnableMask).toUInt16 &&& xspCrEnableMask.toUInt16 = 0 := by decide
  simp only [SpiCore.enabled, SpiCore.disable, UInt32.toUInt16_and, UInt16.and_assoc, hmask]
  simp

@[simp] theorem startTransaction_sent (c : SpiCore) : (startTransaction c).sent = c.sent := by
  unfold startTransaction
  split <;> rfl

@[simp] theorem startTransaction_statusReads (c : SpiCore) :
    (startTransaction c).statusReads = c.statusReads := by
  unfold startTransaction
  split <;> rfl

section

variable (src : Nat → UInt8) (len opt : UInt32) (c : SpiCore)

/-- Only a loop that runs to its end is followed by the clean-up. -/
theorem sendSpi_idle_iff (hopt : opt &&& sendSpiMore = 0) :
    (sendSpi hw src len opt c).1.Idle ↔ KeepsUp hw 1000 c.statusReads len.toNat := by
  obtain ⟨c', dst, left, ok, hloop, hcontrol, -, -, hok, -⟩ :=
    sendLoop_spec hw 1000 src len.toNat 0 (startTransaction c)
  rw [startTransaction_statusReads] at hok
  rw [← hok, sendSpi, hloop]
  cases ok with
  | false =>
    have henabled : c'.enabled = true := by
      rw [SpiCore.enabled, hcontrol]
      exact startTransaction_enabled c
    simp [SpiCore.Idle, henabled]
  | true =>
    simp only [hopt, if_true]
    exact iff_of_true ⟨rfl, disable_enabled _⟩ trivial

/-- The value returned counts the bytes received. -/
theorem sendSpi_ret_iff :
    (sendSpi hw src len opt c).2.1 = len ↔
      Transferred src len c (sendSpi hw src len opt c).1 (sendSpi hw src len opt c).2.2 := by
  obtain ⟨c', dst, left, ok, hloop, -, hsum, hleft, -, hsent⟩ :=
    sendLoop_spec hw 1000 src len.toNat 0 (startTransaction c)
  rw [sendSpi, hloop]
  cases ok with
  | false =>
    have hpos : left ≠ 0 := fun hzero => Bool.false_ne_true (hleft.mpr hzero)
    refine iff_of_false ?_ fun h => ?_
    · -- the bytes that remain are not counted
      intro hret
      have hlt := len.toNat_lt
      have := congrArg UInt32.toNat hret
      rw [UInt32.toNat_sub, UInt32.toNat_ofNat'] at this
      omega
    · have hlen : dst.length = len.toNat := h.2
      omega
  | true =>
    have hzero : left = 0 := hleft.mp rfl
    have hall : Transferred src len c c' dst := by
      refine ⟨?_, by omega⟩
      rw [hsent rfl, startTransaction_sent]
      simp
    dsimp only
    split
    · exact iff_of_true rfl hall
    · exact iff_of_true rfl hall

/--
**A call without `SEND_SPI_MORE` leaves the slave deselected and the core disabled if and only if
the hardware keeps up with it.**  The value returned is `len` exactly when all bytes have been
transferred, in either case.
-/
theorem sendSpi_closes_iff (hopt : opt &&& sendSpiMore = 0) :
    let (c', ret, dst) := sendSpi hw src len opt c
    (c'.Idle ∧ (ret = len ↔ Transferred src len c c' dst) ↔
      KeepsUp hw 1000 c.statusReads len.toNat) ∧
    (ret = len ↔ Transferred src len c c' dst) := by
  have hidle := sendSpi_idle_iff hw src len opt c hopt
  have hret := sendSpi_ret_iff hw src len opt c
  exact ⟨⟨fun h => hidle.mp h.1, fun h => ⟨hidle.mpr h, hret⟩⟩, hret⟩

end

/-- Three bytes, with an empty transmit FIFO at the third read and data at those that follow. -/
theorem sendSpi_closes_threeBytes :
    let hw : SpiResponses := ⟨fun k => if k = 2 then 0x04 else 0, fun k => UInt32.ofNat k⟩
    let c : SpiCore := ⟨0x184, 0xffffffff, [], 0, 0⟩
    let (c', ret, dst) := sendSpi hw (fun i => UInt8.ofNat (i + 10)) 3 0 c
    c'.Idle ∧ (ret = 3 ↔ Transferred (fun i => UInt8.ofNat (i + 10)) 3 c c' dst) := by
  refine (sendSpi_closes_iff ⟨fun k => if k = 2 then 0x04 else 0, fun k => UInt32.ofNat k⟩
    (fun i => UInt8.ofNat (i + 10)) 3 0 ⟨0x184, 0xffffffff, [], 0, 0⟩ (by decide)).1.mpr ?_
  exact .chunk (j := 2) (by decide) (by decide) (by decide) (by decide) (by decide) (.done _)

/-- The receive FIFO is empty after the first byte has been sent. -/
theorem sendSpi_underflow_not_idle :
    ¬(sendSpi ⟨fun _ => 0x05, fun _ => 0⟩ (fun _ => 0x9f) 1 0
      ⟨0x184, 0xffffffff, [], 0, 0⟩).1.Idle := by
  rw [sendSpi_idle_iff _ _ _ _ _ (by decide)]
  intro h
  cases h with
  | chunk _ _ _ _ hdata =>
    have hfirst : (0x05 : UInt32) &&& xspSrRxEmptyMask = 0 := hdata 0 (by decide)
    exact absurd hfirst (by decide)

end MlibDevel.Jam
