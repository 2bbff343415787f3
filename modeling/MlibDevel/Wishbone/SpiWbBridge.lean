import MlibDevel.Lib.Octets
import MlibDevel.Lib.ShiftRegister

/-!
# Commands over SPI (`spi_wb_bridge.v`)

While the chip select is low, the bits of a command are shifted in: the write flag, the byte
enables, the address and, for a write, the data.  The Wishbone transaction is started behind bit 40
of a read and behind bit 72 of a write.

The bits are counted modulo 128.  So a long message starts a second transaction, from its bits
behind the 128th, unless it ends before (`run_good`).
-/

namespace MlibDevel.Wishbone

open Lib

/-! ## The registers -/

/-- The inputs: the pins and the response of the bus. -/
structure SpiIn where
  csN : Bool
  sclk : Bool
  mosi : Bool
  wbRst : Bool
  wbmDat : BitVec 32
  wbmAck : Bool
  wbmErr : Bool
  deriving DecidableEq, Repr

/-- The registers of `spi_wb_bridge`. -/
structure SpiWbBridge where
  sclkSr : BitVec 4
  mosiSr : BitVec 2
  csNSr : BitVec 2
  spiCtr : BitVec 7
  spiDinReg : BitVec 112
  newCmd : Bool
  cmdAddr : BitVec 32
  cmdDin : BitVec 32
  cmdBe : BitVec 4
  cmdWnr : Bool
  wbmCyc : Bool
  wbmStb : Bool
  wbmWe : Bool
  wbmSel : BitVec 4
  wbmAdr : BitVec 32
  wbmDat : BitVec 32
  wbDinReg : BitVec 32
  wbErrReg : Bool
  wbAckReg : Bool
  spiDoutReg : BitVec 40
  deriving DecidableEq, Repr

/-- The bytes of a word, the other way round if `LITTLE_ENDIAN` is set. -/
def endFix (littleEndian : Bool) (x : BitVec 32) : BitVec 32 :=
  if littleEndian then byte x 0 ++ byte x 1 ++ byte x 2 ++ byte x 3 else x

namespace SpiWbBridge

/-- `sclk_posedge`: a low sample and two high ones -/
def sclkPosedge (s : SpiWbBridge) : Bool := s.sclkSr.extractLsb' 1 3 == 0b011#3

/-- `sclk_negedge` -/
def sclkNegedge (s : SpiWbBridge) : Bool := s.sclkSr.extractLsb' 1 3 == 0b100#3

/-- `cs_n_cur` -/
def csNCur (s : SpiWbBridge) : Bool := s.csNSr.getLsbD 1

/-- `mosi_cur` -/
def mosiCur (s : SpiWbBridge) : Bool := s.mosiSr.getLsbD 1

/-- The synchronisation of the pins. -/
def synchronise (s : SpiWbBridge) (i : SpiIn) : SpiWbBridge :=
  { s with
    sclkSr := shiftIn s.sclkSr i.sclk
    mosiSr := shiftIn s.mosiSr i.mosi
    csNSr := shiftIn s.csNSr i.csN }

/-- A bit is received. -/
def rxBit (s s' : SpiWbBridge) : SpiWbBridge :=
  { s' with
    spiCtr := s.spiCtr + 1
    spiDinReg := shiftIn s.spiDinReg s.mosiCur
    cmdWnr := if s.spiCtr == 1 - 1 then s.mosiCur else s.cmdWnr
    cmdBe :=
      if s.spiCtr == 8 - 1 then s.spiDinReg.extractLsb' 0 3 ++ BitVec.ofBool s.mosiCur else s.cmdBe
    cmdAddr :=
      if s.spiCtr == 40 - 1 then s.spiDinReg.extractLsb' 0 31 ++ BitVec.ofBool s.mosiCur
      else s.cmdAddr
    cmdDin :=
      if s.spiCtr == 72 - 1 then s.spiDinReg.extractLsb' 0 31 ++ BitVec.ofBool s.mosiCur
      else s.cmdDin
    newCmd :=
      if s.spiCtr == 72 - 1 then s.cmdWnr else if s.spiCtr == 40 - 1 then !s.cmdWnr else false }

/-- The SPI RX logic. -/
def rx (s s' : SpiWbBridge) : SpiWbBridge :=
  if s.csNCur then { s' with newCmd := false, spiCtr := 0 }
  else if s.sclkPosedge then rxBit s s'
  else { s' with newCmd := false }

/-- The Wishbone transaction; of several assignments the last one counts. -/
def wishbone (littleEndian : Bool) (s s' : SpiWbBridge) (i : SpiIn) : SpiWbBridge :=
  if i.wbRst then { s' with wbmCyc := false, wbmStb := false }
  else
    let s' :=
      if s.newCmd then
        { s' with
          wbmWe := s.cmdWnr
          wbmSel := s.cmdBe
          wbmAdr := endFix littleEndian s.cmdAddr
          wbmDat := endFix littleEndian s.cmdDin
          wbmCyc := true
          wbmStb := true }
      else s'
    if i.wbmAck || i.wbmErr then
      { s' with
        wbmCyc := false
        wbmStb := false
        wbDinReg := i.wbmDat
        wbErrReg := i.wbmErr
        wbAckReg := i.wbmAck }
    else s'

/-- The SPI TX logic. -/
def tx (littleEndian : Bool) (s s' : SpiWbBridge) : SpiWbBridge :=
  if s.csNCur then { s' with spiDoutReg := 0 }
  else if s.spiCtr == 72 then
    if s.sclkNegedge then
      { s' with
        spiDoutReg := endFix littleEndian s.wbDinReg ++ BitVec.ofBool s.wbAckReg ++
          BitVec.ofBool s.wbErrReg ++ 0#2 ++ s.cmdBe }
    else s'
  else if s.sclkNegedge then { s' with spiDoutReg := shiftIn s.spiDoutReg false }
  else s'

/-- `always @(posedge wb_clk_i)` of all four parts; each of them reads the registers as they
were. -/
def edge (littleEndian : Bool) (s : SpiWbBridge) (i : SpiIn) : SpiWbBridge :=
  tx littleEndian s (wishbone littleEndian s (rx s (synchronise s i)) i)

/-- A transaction is started at the next edge. -/
def starts (s : SpiWbBridge) (i : SpiIn) : Bool :=
  s.newCmd && !i.wbRst && !(i.wbmAck || i.wbmErr)

end SpiWbBridge

/-! ## What is seen of a run -/

/-- A transaction on the bus. -/
structure Transaction where
  wbmWe : Bool
  wbmSel : BitVec 4
  wbmAdr : BitVec 32
  wbmDat : BitVec 32
  deriving DecidableEq, Repr

/-- The bits shifted in while the chip select is low, and the transactions started from them. -/
structure SpiPeriod where
  bits : List Bool
  started : List Transaction
  deriving DecidableEq, Repr

/-- The bits from `start` on, as they are in a register. -/
def bitField (n : Nat) (bits : List Bool) (start : Nat) : BitVec (n + 1) :=
  shiftAll 0 ((bits.drop start).take (n + 1))

/-- A transaction is the one that the first 40 bits, or 72 bits for a write, ask for. -/
structure Transaction.Carries (littleEndian : Bool) (t : Transaction) (bits : List Bool) :
    Prop where
  enough : 40 ≤ bits.length
  we : bits.head? = some t.wbmWe
  sel : t.wbmSel = bitField 3 bits 4
  adr : t.wbmAdr = endFix littleEndian (bitField 31 bits 8)
  dat : t.wbmWe = true →
    72 ≤ bits.length ∧ t.wbmDat = endFix littleEndian (bitField 31 bits 40)

/-- At most one transaction, with what the period asks for. -/
structure SpiPeriod.Good (littleEndian : Bool) (p : SpiPeriod) : Prop where
  once : p.started.length ≤ 1
  carries : ∀ t ∈ p.started, t.Carries littleEndian p.bits

/-- The bits end before the counter gets to a command for the second time. -/
def SpiPeriod.Short (p : SpiPeriod) : Prop :=
  p.bits.length < 128 + 40 ∨ p.bits[128]? = some true ∧ p.bits.length < 128 + 72

/-- The bridge, the period that goes on, and those before it. -/
structure SpiWatch where
  bridge : SpiWbBridge
  current : SpiPeriod
  past : List SpiPeriod
  deriving DecidableEq, Repr

namespace SpiWatch

/-- The current period after the bus has been looked at. -/
def withStart (littleEndian : Bool) (w : SpiWatch) (i : SpiIn) : SpiPeriod :=
  let b := w.bridge.edge littleEndian i
  if w.bridge.starts i then
    { w.current with
      started := w.current.started ++ [⟨b.wbmWe, b.wbmSel, b.wbmAdr, b.wbmDat⟩] }
  else w.current

/-- A clock cycle. -/
def step (littleEndian : Bool) (w : SpiWatch) (i : SpiIn) : SpiWatch :=
  let bridge := w.bridge.edge littleEndian i
  let period := w.withStart littleEndian i
  if w.bridge.csNCur then ⟨bridge, ⟨[], []⟩, w.past ++ [period]⟩
  else if w.bridge.sclkPosedge then
    ⟨bridge, { period with bits := period.bits ++ [w.bridge.mosiCur] }, w.past⟩
  else ⟨bridge, period, w.past⟩

/-- The bridge with its counter at zero, whatever else its registers hold. -/
def start (bridge : SpiWbBridge) : SpiWatch :=
  ⟨{ bridge with spiCtr := 0, newCmd := false }, ⟨[], []⟩, []⟩

/-- The state after some cycles. -/
def run (littleEndian : Bool) (w : SpiWatch) (is : List SpiIn) : SpiWatch :=
  is.foldl (step littleEndian) w

/-- All periods of a run are good. -/
def Good (littleEndian : Bool) (w : SpiWatch) : Prop :=
  w.current.Good littleEndian ∧ ∀ p ∈ w.past, p.Good littleEndian

/-- All periods of a run stay short. -/
def AllShort (littleEndian : Bool) : SpiWatch → List SpiIn → Prop
  | _, [] => True
  | w, i :: is =>
    (w.step littleEndian i).current.Short ∧ AllShort littleEndian (w.step littleEndian i) is

end SpiWatch

instance (p : SpiPeriod) : Decidable p.Short := inferInstanceAs (Decidable (_ ∨ _))

instance SpiWatch.decidableAllShort (littleEndian : Bool) :
    ∀ (is : List SpiIn) (w : SpiWatch), Decidable (w.AllShort littleEndian is)
  | [], _ => isTrue trivial
  | i :: is, w =>
    @instDecidableAnd _ _ _ (decidableAllShort littleEndian is (w.step littleEndian i))

/-! ## The parts of an edge -/

namespace SpiWbBridge

/-- The registers of the SPI RX logic are the same. -/
structure SameRx (s s' : SpiWbBridge) : Prop where
  spiCtr : s'.spiCtr = s.spiCtr
  spiDinReg : s'.spiDinReg = s.spiDinReg
  newCmd : s'.newCmd = s.newCmd
  cmdAddr : s'.cmdAddr = s.cmdAddr
  cmdDin : s'.cmdDin = s.cmdDin
  cmdBe : s'.cmdBe = s.cmdBe
  cmdWnr : s'.cmdWnr = s.cmdWnr

theorem SameRx.trans {s s' s'' : SpiWbBridge} (h : SameRx s s') (h' : SameRx s' s'') :
    SameRx s s'' where
  spiCtr := h'.spiCtr.trans h.spiCtr
  spiDinReg := h'.spiDinReg.trans h.spiDinReg
  newCmd := h'.newCmd.trans h.newCmd
  cmdAddr := h'.cmdAddr.trans h.cmdAddr
  cmdDin := h'.cmdDin.trans h.cmdDin
  cmdBe := h'.cmdBe.trans h.cmdBe
  cmdWnr := h'.cmdWnr.trans h.cmdWnr

theorem wishbone_sameRx (littleEndian : Bool) (s s' : SpiWbBridge) (i : SpiIn) :
    SameRx s' (wishbone littleEndian s s' i) := by
  unfold wishbone
  dsimp only
  split_ifs <;> exact ⟨rfl, rfl, rfl, rfl, rfl, rfl, rfl⟩

/-- The SPI TX logic writes its own register only. -/
theorem tx_eq (littleEndian : Bool) (s s' : SpiWbBridge) :
    ∃ out, tx littleEndian s s' = { s' with spiDoutReg := out } := by
  unfold tx
  split_ifs <;> exact ⟨_, rfl⟩

theorem tx_sameRx (littleEndian : Bool) (s s' : SpiWbBridge) :
    SameRx s' (tx littleEndian s s') := by
  obtain ⟨out, h⟩ := tx_eq littleEndian s s'
  rw [h]
  exact ⟨rfl, rfl, rfl, rfl, rfl, rfl, rfl⟩

theorem edge_sameRx (littleEndian : Bool) (s : SpiWbBridge) (i : SpiIn) :
    SameRx (rx s (synchronise s i)) (edge littleEndian s i) :=
  (wishbone_sameRx littleEndian s _ i).trans (tx_sameRx littleEndian s _)

/-- A transaction that is started has the registers of the command. -/
theorem edge_starts (littleEndian : Bool) {s : SpiWbBridge} {i : SpiIn} (h : s.starts i = true) :
    (edge littleEndian s i).wbmWe = s.cmdWnr ∧ (edge littleEndian s i).wbmSel = s.cmdBe ∧
      (edge littleEndian s i).wbmAdr = endFix littleEndian s.cmdAddr ∧
      (edge littleEndian s i).wbmDat = endFix littleEndian s.cmdDin := by
  simp only [starts, Bool.and_eq_true, Bool.not_eq_true'] at h
  obtain ⟨⟨hnew, hrst⟩, hresp⟩ := h
  obtain ⟨out, htx⟩ := tx_eq littleEndian s (wishbone littleEndian s (rx s (synchronise s i)) i)
  rw [edge, htx]
  unfold wishbone
  simp only [hnew, hrst, hresp, if_true, Bool.false_eq_true, if_false, and_self]

end SpiWbBridge

/-! ## The fields of the bits -/

/-- A field does not change when more bits come behind it. -/
theorem bitField_append {n start : Nat} {bits : List Bool} (more : List Bool)
    (h : start + (n + 1) ≤ bits.length) :
    bitField n (bits ++ more) start = bitField n bits start := by
  unfold bitField
  rw [List.drop_append_of_le_length (by omega), List.take_append_of_le_length]
  rw [List.length_drop]
  omega

/-- The last bits in the shift register, with the one that comes in, are a field. -/
theorem extract_append_bit {n start : Nat} (r : BitVec 112) (bits : List Bool) (b : Bool)
    (hn : n ≤ 111) (h : start + n = bits.length) :
    (shiftAll r bits).extractLsb' 0 n ++ BitVec.ofBool b = bitField n (bits ++ [b]) start := by
  have hlen : (bits ++ [b]).length = start + (n + 1) := by
    rw [List.length_append, List.length_singleton]
    omega
  rw [extract_append_ofBool _ b hn, ← shiftAll_concat, extract_shiftAll r 0 _ hn (by omega),
    bitField, hlen, Nat.add_sub_cancel, List.take_of_length_le]
  rw [List.length_drop]
  omega

theorem Transaction.Carries.append {littleEndian : Bool} {t : Transaction} {bits : List Bool}
    (h : t.Carries littleEndian bits) (more : List Bool) :
    t.Carries littleEndian (bits ++ more) where
  enough := by
    have := h.enough
    rw [List.length_append]
    omega
  we := by
    rw [List.head?_append, h.we]
    rfl
  sel := by
    have := h.enough
    rw [bitField_append more (by omega)]
    exact h.sel
  adr := by
    have := h.enough
    rw [bitField_append more (by omega)]
    exact h.adr
  dat hwe := by
    obtain ⟨hlen, hdat⟩ := h.dat hwe
    rw [bitField_append more (by omega), List.length_append]
    exact ⟨by omega, hdat⟩

/-! ## The invariant -/

namespace SpiPeriod

variable {littleEndian : Bool} {p : SpiPeriod}

/-- Before bit 40 nothing is started. -/
theorem Good.early (h : p.Good littleEndian) (hlen : p.bits.length < 40) : p.started = [] := by
  cases hs : p.started with
  | nil => rfl
  | cons t ts =>
    have := (h.carries t (by rw [hs]; exact List.mem_cons_self)).enough
    omega

/-- Before bit 72 no write is started. -/
theorem Good.early_write (h : p.Good littleEndian) (hwe : p.bits.head? = some true)
    (hlen : p.bits.length < 72) : p.started = [] := by
  cases hs : p.started with
  | nil => rfl
  | cons t ts =>
    have ht := h.carries t (by rw [hs]; exact List.mem_cons_self)
    have := (ht.dat (Option.some_inj.mp (ht.we.symm.trans hwe))).1
    omega

/-- More bits do not change what has been started. -/
theorem Good.append (h : p.Good littleEndian) (more : List Bool) :
    Good littleEndian { p with bits := p.bits ++ more } where
  once := h.once
  carries t ht := (h.carries t ht).append more

end SpiPeriod

namespace SpiWbBridge

/-- The registers hold what the bits of the period say. -/
structure Holds (s : SpiWbBridge) (bits : List Bool) : Prop where
  ctr : s.spiCtr = BitVec.ofNat 7 bits.length
  shifted : ∃ r, s.spiDinReg = shiftAll r bits
  first : 1 ≤ bits.length → bits.length ≤ 128 → bits.head? = some s.cmdWnr
  second : 128 < bits.length → bits[128]? = some s.cmdWnr
  be : 8 ≤ bits.length → bits.length ≤ 128 → s.cmdBe = bitField 3 bits 4
  addr : 40 ≤ bits.length → bits.length ≤ 128 → s.cmdAddr = bitField 31 bits 8
  din : 72 ≤ bits.length → bits.length ≤ 128 → s.cmdDin = bitField 31 bits 40

variable {s s' : SpiWbBridge} {bits : List Bool}

theorem Holds.transfer (h : Holds s bits) (hsame : SameRx s s') : Holds s' bits where
  ctr := hsame.spiCtr.trans h.ctr
  shifted := by
    rw [hsame.spiDinReg]
    exact h.shifted
  first h₁ h₂ := by
    rw [hsame.cmdWnr]
    exact h.first h₁ h₂
  second h₁ := by
    rw [hsame.cmdWnr]
    exact h.second h₁
  be h₁ h₂ := hsame.cmdBe.trans (h.be h₁ h₂)
  addr h₁ h₂ := hsame.cmdAddr.trans (h.addr h₁ h₂)
  din h₁ h₂ := hsame.cmdDin.trans (h.din h₁ h₂)

/-- Before the first bit nothing is asked of the registers but the counter. -/
theorem holds_nil (h : s.spiCtr = 0) : Holds s [] where
  ctr := h
  shifted := ⟨s.spiDinReg, rfl⟩
  first h := absurd h (Nat.not_succ_le_zero 0)
  second h := absurd h (Nat.not_lt_zero 128)
  be h := absurd h (Nat.not_succ_le_zero 7)
  addr h := absurd h (Nat.not_succ_le_zero 39)
  din h := absurd h (Nat.not_succ_le_zero 71)

/-- What the counter is compared with. -/
theorem Holds.ctr_beq (h : Holds s bits) {j : Nat} (hj : j < 128) :
    (s.spiCtr == BitVec.ofNat 7 j) = decide (bits.length % 128 = j) := by
  rw [Bool.eq_iff_iff, beq_iff_eq, decide_eq_true_eq, h.ctr, ← BitVec.toNat_inj, BitVec.toNat_ofNat,
    BitVec.toNat_ofNat, Nat.mod_eq_of_lt hj]

theorem Holds.ctr_ite {α : Type} (h : Holds s bits) {j : Nat} (hj : j < 128) (x y : α) :
    (if s.spiCtr == BitVec.ofNat 7 j then x else y) = if bits.length % 128 = j then x else y := by
  rw [h.ctr_beq hj]
  simp only [decide_eq_true_eq]

/-- A field that ends with the bit that comes in, or has ended before. -/
theorem Holds.field {n start : Nat} (h : Holds s bits) (b : Bool) (old : BitVec (n + 1))
    (hn : n ≤ 111) (hend : start + n < 128) (hlen : start + (n + 1) ≤ bits.length + 1)
    (hle : bits.length + 1 ≤ 128)
    (hold : start + (n + 1) ≤ bits.length → old = bitField n bits start) :
    (if s.spiCtr == BitVec.ofNat 7 (start + n) then s.spiDinReg.extractLsb' 0 n ++ BitVec.ofBool b
      else old) = bitField n (bits ++ [b]) start := by
  rw [h.ctr_beq hend, Nat.mod_eq_of_lt (by omega)]
  by_cases hlast : bits.length = start + n
  · obtain ⟨r, hr⟩ := h.shifted
    rw [decide_eq_true hlast, if_pos rfl, hr, extract_append_bit r bits b hn hlast.symm]
  · rw [decide_eq_false hlast, if_neg (by simp), hold (by omega), bitField_append [b] (by omega)]

/-- A bit comes in. -/
theorem Holds.rxBit (h : Holds s bits) (hlt : bits.length < 256) (s' : SpiWbBridge) :
    Holds (rxBit s s') (bits ++ [s.mosiCur]) := by
  have hlen : (bits ++ [s.mosiCur]).length = bits.length + 1 := by simp
  have hwnr : (SpiWbBridge.rxBit s s').cmdWnr
      = if bits.length % 128 = 0 then s.mosiCur else s.cmdWnr :=
    h.ctr_ite (j := 0) (by omega) s.mosiCur s.cmdWnr
  refine ⟨?_, ?_, ?_, ?_, ?_, ?_, ?_⟩
  · rw [hlen, BitVec.ofNat_add, ← h.ctr]
    rfl
  · obtain ⟨r, hr⟩ := h.shifted
    exact ⟨r, by rw [shiftAll_concat, ← hr]; rfl⟩
  · intro _ hle
    rw [hlen] at hle
    rw [hwnr, Nat.mod_eq_of_lt (by omega)]
    by_cases hnil : bits.length = 0
    · rw [if_pos hnil, List.eq_nil_of_length_eq_zero hnil]
      rfl
    · rw [if_neg hnil, List.head?_append, h.first (by omega) (by omega)]
      rfl
  · intro hge
    rw [hlen] at hge
    rw [hwnr]
    by_cases hwrap : bits.length = 128
    · rw [if_pos (by omega), List.getElem?_append_right (by omega), hwrap]
      rfl
    · rw [if_neg (by omega), List.getElem?_append_left (by omega)]
      exact h.second (by omega)
  · intro hge hle
    rw [hlen] at hge hle
    exact h.field _ s.cmdBe (by omega) (by omega) hge hle fun hl => h.be hl (by omega)
  · intro hge hle
    rw [hlen] at hge hle
    exact h.field _ s.cmdAddr (by omega) (by omega) hge hle fun hl => h.addr hl (by omega)
  · intro hge hle
    rw [hlen] at hge hle
    exact h.field _ s.cmdDin (by omega) (by omega) hge hle fun hl => h.din hl (by omega)

/-- A command that is new is complete with the bit that comes in, unless the counter has wrapped. -/
theorem Holds.newCmd (h : Holds s bits) (s' : SpiWbBridge)
    (hshort : SpiPeriod.Short ⟨bits ++ [s.mosiCur], []⟩)
    (hnew : (SpiWbBridge.rxBit s s').newCmd = true) :
    (bits ++ [s.mosiCur]).length = 40 ∧ (bits ++ [s.mosiCur]).head? = some false ∨
      (bits ++ [s.mosiCur]).length = 72 ∧ (bits ++ [s.mosiCur]).head? = some true := by
  have hlen : (bits ++ [s.mosiCur]).length = bits.length + 1 := by simp
  have hval : (SpiWbBridge.rxBit s s').newCmd
      = if bits.length % 128 = 71 then s.cmdWnr
        else if bits.length % 128 = 39 then !s.cmdWnr else false := by
    rw [← h.ctr_ite (j := 39) (by omega) (!s.cmdWnr) false]
    exact h.ctr_ite (j := 71) (by omega) s.cmdWnr _
  rw [hval] at hnew
  unfold SpiPeriod.Short at hshort
  rw [hlen] at hshort
  split at hnew
  · next h71 =>
    have hlt : bits.length = 71 := by omega
    refine Or.inr ⟨by omega, ?_⟩
    rw [List.head?_append, h.first (by omega) (by omega), hnew]
    rfl
  · split at hnew
    · next h39 =>
      rw [Bool.not_eq_true'] at hnew
      by_cases hwrap : bits.length = 39
      · refine Or.inl ⟨by omega, ?_⟩
        rw [List.head?_append, h.first (by omega) (by omega), hnew]
        rfl
      · -- bit 128 would be taken for the flag of a read
        obtain ⟨hflag, -⟩ := hshort.resolve_left (by omega)
        rw [List.getElem?_append_left (by omega), h.second (by omega), hnew] at hflag
        cases hflag
    · cases hnew

end SpiWbBridge

namespace SpiWatch

/-- The registers are those of the period, and a command that is new is complete. -/
structure Inv (littleEndian : Bool) (w : SpiWatch) : Prop where
  holds : w.bridge.Holds w.current.bits
  new : w.bridge.newCmd = true → w.current.started = [] ∧
    (w.current.bits.length = 40 ∧ w.current.bits.head? = some false ∨
      w.current.bits.length = 72 ∧ w.current.bits.head? = some true)
  good : w.Good littleEndian

variable {littleEndian : Bool} {w : SpiWatch}

theorem nil_good : SpiPeriod.Good littleEndian ⟨[], []⟩ := ⟨Nat.zero_le 1, fun _ ht => by cases ht⟩

theorem start_inv (bridge : SpiWbBridge) : Inv littleEndian (start bridge) where
  holds := SpiWbBridge.holds_nil rfl
  new h := by cases h
  good := ⟨nil_good, fun _ hp => by cases hp⟩

theorem withStart_bits (i : SpiIn) : (w.withStart littleEndian i).bits = w.current.bits := by
  unfold withStart
  dsimp only
  split <;> rfl

/-- The registers of a command are what the bits ask for. -/
theorem Inv.command_carries (h : Inv littleEndian w) (hnew : w.bridge.newCmd = true) :
    Transaction.Carries littleEndian
      ⟨w.bridge.cmdWnr, w.bridge.cmdBe, endFix littleEndian w.bridge.cmdAddr,
        endFix littleEndian w.bridge.cmdDin⟩ w.current.bits := by
  obtain ⟨-, hlen⟩ := h.new hnew
  have hfirst := h.holds.first (by omega) (by omega)
  refine ⟨by omega, hfirst, h.holds.be (by omega) (by omega), ?_, ?_⟩
  · exact congrArg (endFix littleEndian) (h.holds.addr (by omega) (by omega))
  · intro hwrite
    rcases hlen with ⟨-, hread⟩ | ⟨hlen, -⟩
    · have hwnr := Option.some_inj.mp (hread.symm.trans hfirst)
      exact absurd (hwnr.trans hwrite) (by simp)
    · exact ⟨by omega, congrArg (endFix littleEndian) (h.holds.din (by omega) (by omega))⟩

/-- A transaction that is started is the one asked for, and the only one. -/
theorem Inv.withStart_good (h : Inv littleEndian w) (i : SpiIn) :
    (w.withStart littleEndian i).Good littleEndian := by
  unfold withStart
  dsimp only
  split
  · next hstarts =>
    obtain ⟨hwe, hsel, hadr, hdat⟩ := w.bridge.edge_starts littleEndian hstarts
    have hnew : w.bridge.newCmd = true := by
      simp only [SpiWbBridge.starts, Bool.and_eq_true] at hstarts
      exact hstarts.1.1
    rw [hwe, hsel, hadr, hdat, (h.new hnew).1]
    refine ⟨Nat.le_refl 1, ?_⟩
    intro t ht
    rw [List.mem_singleton.mp ht]
    exact h.command_carries hnew
  · exact h.good.1

/-! ## Every cycle keeps the invariant -/

/-- The period ends. -/
theorem Inv.step_high (h : Inv littleEndian w) (i : SpiIn) (hcs : w.bridge.csNCur = true) :
    Inv littleEndian (w.step littleEndian i) := by
  have hstep : w.step littleEndian i = ⟨w.bridge.edge littleEndian i, ⟨[], []⟩,
      w.past ++ [w.withStart littleEndian i]⟩ := by
    unfold step
    simp [hcs]
  have hrx : w.bridge.rx (w.bridge.synchronise i)
      = { w.bridge.synchronise i with newCmd := false, spiCtr := 0 } := by
    unfold SpiWbBridge.rx
    rw [if_pos hcs]
  have hsame := w.bridge.edge_sameRx littleEndian i
  rw [hrx] at hsame
  rw [hstep]
  refine ⟨SpiWbBridge.holds_nil hsame.spiCtr, ?_, nil_good, ?_⟩
  · intro hnew
    rw [hsame.newCmd] at hnew
    cases hnew
  · intro p hp
    rcases List.mem_append.mp hp with hp | hp
    · exact h.good.2 p hp
    · rw [List.mem_singleton.mp hp]
      exact h.withStart_good i

/-- Nothing comes in. -/
theorem Inv.step_still (h : Inv littleEndian w) (i : SpiIn) (hcs : w.bridge.csNCur = false)
    (hpos : w.bridge.sclkPosedge = false) : Inv littleEndian (w.step littleEndian i) := by
  have hstep : w.step littleEndian i
      = ⟨w.bridge.edge littleEndian i, w.withStart littleEndian i, w.past⟩ := by
    unfold step
    simp [hcs, hpos]
  have hrx : w.bridge.rx (w.bridge.synchronise i)
      = { w.bridge.synchronise i with newCmd := false } := by
    unfold SpiWbBridge.rx
    simp [hcs, hpos]
  have hsame := w.bridge.edge_sameRx littleEndian i
  rw [hrx] at hsame
  rw [hstep]
  refine ⟨?_, ?_, h.withStart_good i, h.good.2⟩
  · rw [withStart_bits]
    obtain ⟨hctr, hshifted, hfirst, hsecond, hbe, haddr, hdin⟩ := h.holds
    have hholds : SpiWbBridge.Holds { w.bridge.synchronise i with newCmd := false }
        w.current.bits :=
      ⟨hctr, hshifted, hfirst, hsecond, hbe, haddr, hdin⟩
    exact hholds.transfer hsame
  · intro hnew
    rw [hsame.newCmd] at hnew
    cases hnew

/-- A bit comes in. -/
theorem Inv.step_bit (h : Inv littleEndian w) (i : SpiIn) (hcs : w.bridge.csNCur = false)
    (hpos : w.bridge.sclkPosedge = true) (hshort : (w.step littleEndian i).current.Short) :
    Inv littleEndian (w.step littleEndian i) := by
  have hstep : w.step littleEndian i = ⟨w.bridge.edge littleEndian i,
      { w.withStart littleEndian i with
        bits := (w.withStart littleEndian i).bits ++ [w.bridge.mosiCur] }, w.past⟩ := by
    unfold step
    simp [hcs, hpos]
  have hrx : w.bridge.rx (w.bridge.synchronise i) = w.bridge.rxBit (w.bridge.synchronise i) := by
    unfold SpiWbBridge.rx
    simp [hcs, hpos]
  have hsame := w.bridge.edge_sameRx littleEndian i
  have hgood := h.withStart_good i
  rw [hrx] at hsame
  rw [hstep, withStart_bits] at hshort
  rw [hstep, withStart_bits]
  have hlt : w.current.bits.length < 256 := by
    have hlen : (w.current.bits ++ [w.bridge.mosiCur]).length = w.current.bits.length + 1 := by simp
    unfold SpiPeriod.Short at hshort
    dsimp only at hshort
    omega
  refine ⟨(h.holds.rxBit hlt _).transfer hsame, ?_, ?_, h.good.2⟩
  · intro hnew
    rw [hsame.newCmd] at hnew
    have hlast := h.holds.newCmd _ hshort hnew
    refine ⟨?_, hlast⟩
    -- what is complete only now has not been started
    rcases hlast with ⟨hlen, -⟩ | ⟨hlen, hwe⟩
    · refine hgood.early ?_
      rw [withStart_bits]
      rw [List.length_append, List.length_singleton] at hlen
      omega
    · rw [List.length_append, List.length_singleton] at hlen
      have hfirst := h.holds.first (by omega) (by omega)
      rw [List.head?_append, hfirst] at hwe
      refine hgood.early_write ?_ ?_
      · rw [withStart_bits, hfirst]
        exact hwe
      · rw [withStart_bits]
        omega
  · have happend := hgood.append [w.bridge.mosiCur]
    rw [withStart_bits] at happend
    exact happend

theorem Inv.step (h : Inv littleEndian w) (i : SpiIn)
    (hshort : (w.step littleEndian i).current.Short) :
    Inv littleEndian (w.step littleEndian i) := by
  cases hcs : w.bridge.csNCur with
  | true => exact h.step_high i hcs
  | false =>
    cases hpos : w.bridge.sclkPosedge with
    | true => exact h.step_bit i hcs hpos hshort
    | false => exact h.step_still i hcs hpos

theorem Inv.run :
    ∀ (is : List SpiIn) (w : SpiWatch), Inv littleEndian w → AllShort littleEndian w is →
    Inv littleEndian (w.run littleEndian is)
  | [], _, h, _ => h
  | i :: is, w, h, ⟨hi, his⟩ => Inv.run is (w.step littleEndian i) (h.step i hi) his

/--
**At most one transaction is started in a period, and it is the one that its first bits ask for.**

For every run, whatever the pins, the reset and the responses of the bus do: while no period gets to
168 bits, or to 200 bits if bit 128 is set.
-/
theorem run_good (littleEndian : Bool) (bridge : SpiWbBridge) (is : List SpiIn)
    (h : AllShort littleEndian (start bridge) is) :
    ((start bridge).run littleEndian is).Good littleEndian :=
  ((start_inv bridge).run is (start bridge) h).good

/-- The registers of the bridge at zero. -/
def zeroBridge : SpiWbBridge :=
  ⟨0, 0, 0, 0, 0, false, 0, 0, 0, false, false, false, false, 0, 0, 0, 0, false, false, 0⟩

/-- Bits on the pins, while the chip select is low and the bus answers at once. -/
def clocked (bits : List Bool) : List SpiIn :=
  bits.flatMap fun b => [⟨false, false, b, false, 0, true, false⟩,
    ⟨false, true, b, false, 0, false, false⟩, ⟨false, true, b, false, 0, false, false⟩]

/-- A read of the address that consists of ones. -/
def readOnes (more : Nat) : List Bool :=
  List.replicate 4 false ++ List.replicate 36 true ++ List.replicate more false

/-- A write of ones to the address that consists of ones. -/
def writeOnes (more : Nat) : List Bool :=
  true :: List.replicate 3 false ++ List.replicate 68 true ++ List.replicate more false

/-- The chip select is high. -/
def deselected : List SpiIn := List.replicate 3 ⟨true, false, false, false, 0, false, false⟩

/-- A read, and a write in the next period. -/
def readAndWrite : List SpiIn := clocked (readOnes 2) ++ deselected ++ clocked (writeOnes 2)

theorem run_good_readAndWrite : ((start zeroBridge).run true readAndWrite).Good true ∧
    ((start zeroBridge).run true readAndWrite).past.flatMap SpiPeriod.started
      = [⟨false, 0xf, 0xffffffff, 0⟩] ∧
    ((start zeroBridge).run true readAndWrite).current.started
      = [⟨true, 0xf, 0xffffffff, 0xffffffff⟩] := by
  have hshort : AllShort true (start zeroBridge) readAndWrite := by decide +kernel
  exact ⟨run_good true zeroBridge _ hshort, by decide +kernel, by decide +kernel⟩

theorem run_append (is js : List SpiIn) :
    w.run littleEndian (is ++ js) = (w.run littleEndian is).run littleEndian js := List.foldl_append

/-- The bridge while zeros come in behind the address. -/
def zerosBehind (spiCtr : BitVec 7) (spiDinReg : BitVec 112) : SpiWbBridge :=
  ⟨0xb, 0, 0, spiCtr, spiDinReg, false, 0xffffffff, 0, 0xf, false, false, false, false, 0xf,
    0xffffffff, 0, 0, false, true, 0⟩

/-- With the bits up to 168 the read is started a second time, at another address. -/
theorem readOnes_not_good :
    ¬((start zeroBridge).run true (clocked (readOnes 130))).Good true := by
  have hsplit : clocked (readOnes 130) = clocked (readOnes 44) ++
      (clocked (List.replicate 44 false) ++ clocked (List.replicate 42 false)) := by
    have hbits : readOnes 130
        = readOnes 44 ++ (List.replicate 44 false ++ List.replicate 42 false) := by
      simp only [readOnes, List.append_assoc, List.replicate_append_replicate]
    rw [hbits, clocked, List.flatMap_append, List.flatMap_append]
    rfl
  have hfirst : (start zeroBridge).run true (clocked (readOnes 44))
      = ⟨zerosBehind 83 (0xfffffffff#112 <<< 43), ⟨readOnes 43, [⟨false, 0xf, 0xffffffff, 0⟩]⟩,
        []⟩ := by
    decide +kernel
  have hsecond : run true ⟨zerosBehind 83 (0xfffffffff#112 <<< 43),
      ⟨readOnes 43, [⟨false, 0xf, 0xffffffff, 0⟩]⟩, []⟩ (clocked (List.replicate 44 false))
      = ⟨zerosBehind 127 (0xfffffffff#112 <<< 87),
        ⟨readOnes 87, [⟨false, 0xf, 0xffffffff, 0⟩]⟩, []⟩ := by
    decide +kernel
  have htwo : (run true ⟨zerosBehind 127 (0xfffffffff#112 <<< 87),
      ⟨readOnes 87, [⟨false, 0xf, 0xffffffff, 0⟩]⟩, []⟩
      (clocked (List.replicate 42 false))).current.started.length = 2 := by
    decide +kernel
  intro h
  have honce := h.1.once
  rw [hsplit, run_append, run_append, hfirst, hsecond, htwo] at honce
  omega

end SpiWatch

end MlibDevel.Wishbone
